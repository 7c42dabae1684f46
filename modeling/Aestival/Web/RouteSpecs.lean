import Aestival.Web.Routes

/-!
# What a request leaves behind

`left_serve` follows a request through all layers of the backend. It says of every request that

* what has happened to the state is nothing, or what one request of `Backend` does (`Explained`), so
  that the states between requests are those of `Backend` (`reachable_serve`);
* a call of the bot that carries a token was made behind both guards, unless the request gets to the
  routes of the plugins (`Left.guarded`).

A request is on its way untouched (`Arrived`) up to the guards. Behind them it has met the guards of
every path it lies below (`Met`).
-/

namespace Aestival

open Express

/-- Both guards have passed. -/
def Visit.Passed (v : Visit) : Prop := v.authPassed = true ∧ v.adminPassed = true

instance (v : Visit) : Decidable v.Passed := inferInstanceAs (Decidable (_ ∧ _))

/-- A call with a token is made only behind both guards. -/
def Visit.Guarded (v : Visit) : Prop := ∀ call ∈ v.calls, call.CarriesToken → v.Passed

instance (v : Visit) : Decidable v.Guarded := inferInstanceAs (Decidable (∀ call ∈ _, _ → _))

/-- The decoded parameters of a route, as it is written in the source. -/
def matched? (route : String) (path : JsString) : Option Params :=
  ((RoutePath.pieces (pieces route)).match? path).bind decodeParams

/-- `GET /api/ui/plugins`, with a parameter that can be written. -/
def ListsPlugins (req : HttpRequest) (path : JsString) : Prop :=
  Method.get.Answers req.method ∧ (matched? "/api/ui/plugins" path).isSome ∧
    (pluginAgent req).isSome

/-- `PUT /api/ui/plugins/:name`, with a name that can be read and written. -/
def UpdatesPlugin (req : HttpRequest) (path : JsString) : Prop :=
  req.method = .put ∧ ((matched? "/api/ui/plugins/:name" path).bind fun params =>
    (paramText params "name").encodeURIComponent).isSome

/-- The request gets to a route of the plugins, and this asks the bot. -/
def HttpRequest.ReachesPlugins (req : HttpRequest) : Prop :=
  req.body.isSome ∧
    ∃ path, req.pathname = some path ∧ (ListsPlugins req path ∨ UpdatesPlugin req path)

variable {cfg : WebConfig} {req : HttpRequest} {path : JsString} {s : Backend} {A : Prop}

/-- Nothing has happened, or what a request of `Backend` does. -/
def Explained (cfg : WebConfig) (req : HttpRequest) (s s' : Backend) : Prop :=
  s' = s ∨ ∃ r : WebRequest, (r.state = none ∨ r.state = req.state) ∧
    s' = (s.handle cfg.toBackendConfig req.browser req.now req.cookie req.nonce r).2

/-- What a request leaves behind. -/
structure Left (cfg : WebConfig) (req : HttpRequest) (s : Backend) (v : Visit) : Prop where
  guarded : ¬ req.ReachesPlugins → v.Guarded
  explained : Explained cfg req s v.server.backend

/-- The bot has not been asked, and nothing has happened. -/
structure Untouched (s : Backend) (v : Visit) : Prop where
  calls : v.calls = []
  backend : v.server.backend = s

/-- A request before the guards. -/
structure Arrived (s : Backend) (A : Prop) (v : Visit) : Prop extends Untouched s v where
  accepted : A
  user : v.user = none
  auth : v.authPassed = false
  admin : v.adminPassed = false

/-- The paths with a guard. -/
def guardedPaths : List String := adminPaths ++ ["/api/ui/status"]

/-- A request that has met the guards of some paths. It has a user only from them, the one of its
session. -/
structure Met (cfg : WebConfig) (req : HttpRequest) (path : JsString) (s : Backend)
    (met : List String)
    (v : Visit) : Prop extends Untouched s v where
  accepted : req.body.isSome
  passed : ∀ p ∈ met, Below (pieces p) path → v.Passed
  user : ∀ claims, v.user = some claims →
    requireAuth req.now req.cookie = .ok claims ∧ ∃ p ∈ guardedPaths, Below (pieces p) path
  auth : v.authPassed = true → v.user.isSome
  admin : v.adminPassed = true → ∃ claims, requireAuth req.now req.cookie = .ok claims ∧
    requireAdmin cfg.adminUsers (some claims) = .ok ()

/-- Layers on the way of a request. -/
abbrev Stage (cfg : WebConfig) (req : HttpRequest) (path : JsString) (s : Backend)
    (P : Visit → Prop)
    (layers : List WebLayer) (P' : Visit → Prop) : Prop :=
  Leads LayerError.param req.method path P (Untouched s) (Left cfg req s) layers P'

theorem Untouched.guarded {v : Visit} (h : Untouched s v) : v.Guarded := by
  intro call hcall
  rw [h.calls] at hcall
  exact absurd hcall List.not_mem_nil

theorem Untouched.left {v : Visit} (h : Untouched s v) : Left cfg req s v where
  guarded _ := h.guarded
  explained := Or.inl h.backend

theorem Arrived.weaken {B : Prop} {v : Visit} (h : Arrived s A v) (hB : B) : Arrived s B v where
  toUntouched := h.toUntouched
  accepted := hB
  user := h.user
  auth := h.auth
  admin := h.admin

/-! ### Handlers that end a request -/

/-- The handler ends the request, and leaves behind what it may. -/
def Ends (cfg : WebConfig) (req : HttpRequest) (s : Backend) (f : WebHandler) : Prop :=
  ∀ params v, Untouched s v → (f params v).2 = .done ∧ Left cfg req s (f params v).1

theorem ends_elsewhere : Ends cfg req s elsewhere := fun _ _ hv => ⟨rfl, hv.left⟩

/-- A route that is modelled in `Backend`. -/
theorem ends_handle (r : WebRequest) (hr : r.state = none ∨ r.state = req.state) :
    Ends cfg req s fun _ v => v.handle fun s =>
      s.handle cfg.toBackendConfig req.browser req.now req.cookie req.nonce r := by
  intro params v hv
  refine ⟨rfl, fun _ => ?_, Or.inr ⟨r, hr, ?_⟩⟩
  · intro call hcall
    have hcall : call ∈ v.calls := hcall
    rw [hv.calls] at hcall
    exact absurd hcall List.not_mem_nil
  · rw [← hv.backend]
    rfl

/-- A login is one of `Backend`, unless `loginWithPassword` throws. -/
theorem ends_login : Ends cfg req s (login req) := by
  intro params v hv
  unfold login
  split
  · -- only the answer is written
    have hv' : Untouched s { v with
        reply := some { status := 500, body := .error (js "登录失败，请稍后重试") } } :=
          ⟨hv.calls, hv.backend⟩
    exact ⟨rfl, hv'.left⟩
  · exact ends_handle (.login _ _) (Or.inl rfl) params v hv

theorem ensures_of_ends {f : WebHandler} (hf : Ends cfg req s f) {params : Params} {v : Visit}
    (hv : Untouched s v) {P : Visit → Prop} :
    (runHandlers params [f] v).Ensures P (Untouched s) (Left cfg req s) := by
  obtain ⟨hdone, hleft⟩ := hf params v hv
  rw [runHandlers]
  generalize f params v = r at hdone hleft
  obtain ⟨v', verdict⟩ := r
  obtain rfl : verdict = .done := hdone
  exact hleft

/-- A route whose handler ends the request. -/
theorem stage_route {P : Visit → Prop} {m : Method} {p : RoutePath} {f : WebHandler}
    (hP : ∀ v, P v → Untouched s v) (hf : Ends cfg req s f) :
    Stage cfg req path s P [.route m p [f]] P :=
  .route hP fun v _ _ hv _ _ _ => ensures_of_ends hf (hP v hv)

/-- Such a route, behind `requireAuth`. -/
theorem stage_authRoute {m : Method} {p : RoutePath} {f : WebHandler} (hf : Ends cfg req s f) :
    Stage cfg req path s (Arrived s A) [.route m p [authGuard req, f]] (Arrived s A) := by
  refine .route (fun _ hv => hv.toUntouched) fun v raw params hv _ _ _ => ?_
  rw [runHandlers, authGuard]
  -- the guard answers, or the handler runs with the user of the session
  cases requireAuth req.now req.cookie with
  | error reply => exact Untouched.left (v := { v with reply := some reply }) ⟨hv.calls, hv.backend⟩
  | ok user =>
    exact ensures_of_ends hf (v := { v with user := some user, authPassed := true })
      ⟨hv.calls, hv.backend⟩

/-! ### Before the guards -/

/-- A layer that changes at most the counters of the rate limits. -/
theorem stage_limit {ps : List Piece} {f : WebHandler}
    (hf : ∀ params v, Arrived s A v → Arrived s A (f params v).1) :
    Stage cfg req path s (Arrived s A) [.use ps f] (Arrived s A) := by
  refine .use_keeps (fun _ hv => hv.toUntouched) fun params v hv => ?_
  have hkeeps := hf params v hv
  match f params v, hkeeps with
  | (_, .next), hkeeps => exact hkeeps
  | (_, .fail _), hkeeps => exact hkeeps.toUntouched
  | (_, .done), hkeeps => exact hkeeps.toUntouched.left

/-- The layers that every request meets first. Behind them, the body has been read. -/
theorem stage_first : Stage cfg req path s (Arrived s True)
    [.use [] (cors cfg req), .use [] (expressJson req), .use [] cookieParser]
    (Arrived s req.body.isSome) := by
  -- CORS may end the request, and the body may be no JSON
  have hcors : Stage cfg req path s (Arrived s True) [.use [] (cors cfg req)] (Arrived s True) := by
    refine stage_limit fun params v hv => ?_
    unfold cors
    split <;> exact hv
  have hjson : Stage cfg req path s (Arrived s True) [.use [] (expressJson req)]
      (Arrived s req.body.isSome) := by
    refine .use_all (fun _ hv => hv.toUntouched) fun v hv => ?_
    unfold expressJson
    split
    · exact hv.toUntouched
    · next body hbody => exact hv.weaken (Option.isSome_of_eq_some hbody)
  exact hcors.cons (hjson.cons (stage_limit fun _ _ hv => hv))

theorem stage_public : Stage cfg req path s (Arrived s A) (publicLayers cfg req) (Arrived s A) := by
  have harrived : ∀ v, Arrived s A v → Untouched s v := fun _ hv => hv.toUntouched
  -- the routes of each group, in the order they are registered
  have hother : ∀ {m p}, Stage cfg req path s (Arrived s A) [.route m p [elsewhere]]
      (Arrived s A) :=
    stage_route harrived ends_elsewhere
  have hauth : Stage cfg req path s (Arrived s A) (setupAuth cfg req) (Arrived s A) := by
    refine .of_forall ?_
    simp only [setupAuth, List.forall_mem_cons, List.not_mem_nil, false_implies, implies_true,
      and_true]
    exact ⟨hother, hother, stage_route harrived (ends_handle (.register _ _) (Or.inl rfl)),
      stage_route harrived ends_login,
      stage_authRoute (ends_handle (.merge _ _) (Or.inl rfl)),
      stage_authRoute (ends_handle (.unlink _) (Or.inl rfl)),
      stage_authRoute (ends_handle (.setPassword _) (Or.inl rfl))⟩
  have hgithub : Stage cfg req path s (Arrived s A) (setupGithubAuth cfg req) (Arrived s A) := by
    refine .of_forall ?_
    simp only [setupGithubAuth, List.forall_mem_cons, List.not_mem_nil, false_implies, implies_true,
      and_true]
    exact ⟨stage_route harrived (ends_handle (.githubConfig _ _) (Or.inl rfl)), hother,
      stage_route harrived (ends_handle (.github _ _) (Or.inl rfl)),
      stage_route harrived (ends_handle (.githubToken _ _) (Or.inr rfl))⟩
  have hqq : Stage cfg req path s (Arrived s A) (setupQQAuth cfg req) (Arrived s A) := by
    refine .of_forall ?_
    simp only [setupQQAuth, List.forall_mem_cons, List.not_mem_nil, false_implies, implies_true,
      and_true]
    exact ⟨stage_route harrived (ends_handle (.qq _ _) (Or.inl rfl)),
      stage_route harrived (ends_handle (.qqCallback _ _) (Or.inr rfl))⟩
  -- the limiters let a request through, or answer it
  have hlogin : Stage cfg req path s (Arrived s A) (use "/api/ui/auth/login" [loginLimit req])
      (Arrived s A) := by
    refine stage_limit fun params v hv => ?_
    unfold loginLimit
    dsimp only
    split <;> exact ⟨⟨hv.calls, hv.backend⟩, hv.accepted, hv.user, hv.auth, hv.admin⟩
  have hregister : Stage cfg req path s (Arrived s A)
    (use "/api/ui/auth/register" [registerLimit req])
      (Arrived s A) := by
    refine stage_limit fun params v hv => ?_
    unfold registerLimit
    dsimp only
    split <;> exact ⟨⟨hv.calls, hv.backend⟩, hv.accepted, hv.user, hv.auth, hv.admin⟩
  exact ((((hauth.append hgithub).append hqq).append hlogin).append hregister).append hother

/-! ### The guards -/

/-- `requireAuth` on a path: behind it, what lies below has passed it. -/
theorem stage_authGuard {met : List String} {p : String} (hp : p ∈ guardedPaths) :
    Stage cfg req path s (Met cfg req path s met) [.use (pieces p) (authGuard req)]
      (fun v => Met cfg req path s met v ∧ (Below (pieces p) path → v.authPassed = true)) := by
  refine .guard (fun _ hv => hv.toUntouched) fun params v hv hbelow => ?_
  unfold authGuard
  split
  · exact Untouched.left ⟨hv.calls, hv.backend⟩
  · next user huser =>
    -- behind the guard the visit has the user of the session
    refine ⟨⟨⟨hv.calls, hv.backend⟩, hv.accepted, ?_, ?_, fun _ => rfl, hv.admin⟩, rfl⟩
    · exact fun q hq hbelow => ⟨rfl, (hv.passed q hq hbelow).2⟩
    · intro claims hclaims
      obtain rfl := Option.some.inj hclaims
      exact ⟨huser, p, hp, hbelow⟩

/-- Both guards on a path. -/
theorem stage_guards (met : List String) {p : String} (hp : p ∈ guardedPaths) :
    Stage cfg req path s (Met cfg req path s met) (use p [authGuard req, adminGuard cfg])
      (Met cfg req path s (p :: met)) := by
  -- what the second guard adds to the first
  have hadmin : Stage cfg req path s
      (fun v => Met cfg req path s met v ∧ (Below (pieces p) path → v.authPassed = true))
      [.use (pieces p) (adminGuard cfg)]
      (fun v => (Met cfg req path s met v ∧ (Below (pieces p) path → v.authPassed = true)) ∧
        (Below (pieces p) path → v.adminPassed = true)) := by
    refine .guard (fun _ hv => hv.1.toUntouched) fun params v hv _ => ?_
    unfold adminGuard
    split
    · exact Untouched.left ⟨hv.1.calls, hv.1.backend⟩
    · next hadmin =>
      refine ⟨⟨⟨⟨hv.1.calls, hv.1.backend⟩, hv.1.accepted, ?_, hv.1.user, hv.1.auth, fun _ => ?_⟩,
        hv.2⟩, rfl⟩
      · exact fun q hq hbelow => ⟨(hv.1.passed q hq hbelow).1, rfl⟩
      · obtain ⟨claims, _, huser, -, -⟩ := requireAdmin_eq_ok.mp hadmin
        exact ⟨claims, (hv.1.user claims huser).1, huser ▸ hadmin⟩
  refine ((stage_authGuard hp).cons hadmin).weaken ?_
  rintro v ⟨⟨hmet, hauth⟩, hadmin⟩
  exact { hmet with
    passed := List.forall_mem_cons.mpr ⟨fun hbelow => ⟨hauth hbelow, hadmin hbelow⟩, hmet.passed⟩ }

/-- The guards of all paths. -/
theorem stage_adminGuards : Stage cfg req path s (Arrived s req.body.isSome) (adminGuards cfg req)
    (Met cfg req path s adminPaths.reverse) := by
  -- path after path, the guards that were met are collected
  have hall : ∀ todo met : List String, (∀ p ∈ todo, p ∈ guardedPaths) →
      Stage cfg req path s (Met cfg req path s met)
        (todo.flatMap fun p => use p [authGuard req, adminGuard cfg])
        (Met cfg req path s (todo.reverse ++ met)) := by
    intro todo
    induction todo with
    | nil => exact fun _ _ => .nil
    | cons p todo ih =>
      intro met hguarded
      obtain ⟨hp, htodo⟩ := List.forall_mem_cons.mp hguarded
      rw [List.flatMap_cons, List.reverse_cons, List.append_assoc]
      exact (stage_guards met hp).append (ih (p :: met) htodo)
  have hguards := hall adminPaths [] (by decide)
  rw [List.append_nil] at hguards
  refine ⟨fun v hv => hguards.normal v ?_, hguards.failing⟩
  refine ⟨hv.toUntouched, hv.accepted, fun _ hmem => absurd hmem List.not_mem_nil, ?_, ?_, ?_⟩
  · intro claims hclaims
    rw [hv.user] at hclaims
    cases hclaims
  · intro hauth
    rw [hv.auth] at hauth
    cases hauth
  · intro hadmin
    rw [hv.admin] at hadmin
    cases hadmin

/-! ### The proxy -/

/-- A handler that ends the request, is no guard, and asks the bot at most once, for the user of the
request. -/
structure AsksOnce (req : HttpRequest) (f : WebHandler) : Prop where
  done : ∀ params v, (f params v).2 = .done
  passed : ∀ params v, (f params v).1.Passed ↔ v.Passed
  backend : ∀ params v, (f params v).1.server.backend = v.server.backend ∨
    (f params v).1.server.backend = v.server.backend.userToken req.now v.user

theorem asksOnce_askBot (method : Method) (target : Option JsString) (body : Option RequestBody) :
    AsksOnce req fun _ v => v.askBot req.now method target body := by
  cases target with
  | none => exact ⟨fun _ _ => rfl, fun _ _ => Iff.rfl, fun _ _ => Or.inl rfl⟩
  | some target => exact ⟨fun _ _ => rfl, fun _ _ => Iff.rfl, fun _ _ => Or.inr rfl⟩

/-- A handler that answers, or asks the bot. -/
theorem AsksOnce.of_ite {c : Params → Prop} [DecidablePred c] {f : Params → WebHandler}
    (hf : ∀ params, AsksOnce req (f params)) (status : Nat) (body : Body) :
    AsksOnce req fun params v => if c params then v.answer status body else f params params v where
  done params v := by
    split
    · rfl
    · exact (hf params).done params v
  passed params v := by
    split
    · exact Iff.rfl
    · exact (hf params).passed params v
  backend params v := by
    split
    · exact Or.inl rfl
    · exact (hf params).backend params v

theorem asksOnce_withAgentId {f : JsString → Visit → Visit × Verdict LayerError}
    (hf : ∀ id, AsksOnce req fun _ v => f id v) : AsksOnce req (withAgentId f) :=
  .of_ite (fun params => hf (sanitizeAgentId (paramText params "id"))) 400
    (.error (js "invalid agent id"))

theorem asksOnce_agentAction : AsksOnce req (agentAction req) :=
  .of_ite (fun _ => asksOnce_withAgentId fun _ => asksOnce_askBot ..) 400
    (.error (js "invalid action"))

/-- A route below a path with guards. -/
theorem stage_adminRoute {m : Method} {f : WebHandler} {p route : String} {q : List Piece}
    (hp : p ∈ adminPaths.reverse) (hroute : pieces route = pieces p ++ q) (hf : AsksOnce req f) :
    Stage cfg req path s (Met cfg req path s adminPaths.reverse)
      [.route m (.pieces (pieces route)) [f]]
      (Met cfg req path s adminPaths.reverse) := by
  refine .route (fun _ hv => hv.toUntouched) fun v raw params hv _ hmatch _ => ?_
  have hpassed : v.Passed := hv.passed p hp (below_of_match? (hroute ▸ hmatch))
  have hdone := hf.done params v
  have hkeeps := hf.passed params v
  have hbackend := hf.backend params v
  rw [runHandlers]
  generalize f params v = r at hdone hkeeps hbackend
  obtain ⟨v', verdict⟩ := r
  obtain rfl : verdict = .done := hdone
  refine ⟨fun _ _ _ _ => hkeeps.mpr hpassed, ?_⟩
  rcases hbackend with hsame | htoken
  · exact Or.inl (hsame.trans hv.backend)
  -- both guards have let the request pass, so the bot is asked for the user that `requireAuth`
  -- found
  · obtain ⟨claims, hauth, hadmin⟩ := hv.admin hpassed.2
    obtain ⟨user, huser⟩ := Option.isSome_iff_exists.mp (hv.auth hpassed.1)
    obtain rfl := Except.ok.inj ((hv.user user huser).1.symm.trans hauth)
    refine Or.inr ⟨.admin, Or.inl rfl, ?_⟩
    have hroute : s.adminRoute cfg.toBackendConfig req.now req.cookie =
        (none, s.userToken req.now (some user)) := by
      rw [Backend.adminRoute, hauth]
      dsimp only
      rw [hadmin]
    show v'.server.backend = (s.adminRoute cfg.toBackendConfig req.now req.cookie).2
    rw [hroute, ← hv.backend, ← huser]
    exact htoken

/-- The path of a plugin has no guard, so that a request gets there without a user. -/
theorem Met.user_eq_none {met : List String} {v : Visit} (hv : Met cfg req path s met v)
    (hplugins : Below (pieces "/api/ui/plugins") path) : v.user = none := by
  -- no guarded path lies on the way to the plugins
  have hclash : ∀ p ∈ guardedPaths, clash (pieces p) (pieces "/api/ui/plugins") = true := by decide
  cases huser : v.user with
  | none => rfl
  | some claims =>
    obtain ⟨-, p, hp, hbelow⟩ := hv.user claims huser
    unfold Below at hbelow
    rw [matchPieces_eq_none_of_clash (hclash p hp) hplugins] at hbelow
    cases hbelow

/-- A route of the plugins. -/
theorem stage_pluginRoute {m : Method} {f : WebHandler} {route : String} {q : List Piece}
    (hroute : pieces route = pieces "/api/ui/plugins" ++ q) (hf : AsksOnce req f)
    (hnone : ∀ params v, m.Answers req.method → matched? route path = some params → Untouched s v →
      req.body.isSome → ¬ req.ReachesPlugins → (f params v).1.Guarded) :
    Stage cfg req path s (Met cfg req path s adminPaths.reverse)
      [.route m (.pieces (pieces route)) [f]]
      (Met cfg req path s adminPaths.reverse) := by
  refine .route (fun _ hv => hv.toUntouched) fun v raw params hv hm hmatch hparams => ?_
  -- the path is one of the plugin routes
  have hbelow : Below (pieces "/api/ui/plugins") path := below_of_match? (hroute ▸ hmatch)
  have hmatched : matched? route path = some params := by
    rw [matched?, hmatch, Option.bind_some, hparams]
  have hdone := hf.done params v
  have hbackend := hf.backend params v
  have hguarded := hnone params v hm hmatched hv.toUntouched hv.accepted
  rw [runHandlers]
  generalize f params v = r at hdone hbackend hguarded
  obtain ⟨v', verdict⟩ := r
  obtain rfl : verdict = .done := hdone
  refine ⟨hguarded, ?_⟩
  -- the handler asks the bot at most once, and for the plugins
  rcases hbackend with hsame | htoken
  · exact Or.inl (hsame.trans hv.backend)
  · refine Or.inr ⟨.plugins, Or.inl rfl, ?_⟩
    -- no guard has set a user on these paths
    rw [hv.user_eq_none hbelow, hv.backend] at htoken
    exact htoken

/-- The routes of the proxy. -/
theorem stage_setupProxy (hpath : req.pathname = some path) :
    Stage cfg req path s (Met cfg req path s adminPaths.reverse) (setupProxy req)
      (Met cfg req path s adminPaths.reverse) := by
  have hagents : "/api/ui/agents" ∈ adminPaths.reverse := by decide
  have hagent : ∀ (method : Method) (behind : JsString) (body : Option RequestBody),
      AsksOnce req (withAgentId fun id v => v.askBot req.now method (botAgentPath id behind)
        body) :=
    fun _ _ _ => asksOnce_withAgentId fun _ => asksOnce_askBot ..
  have hstatus : Ends cfg req s fun _ v =>
      (v.proxyToBot .get (js "/api/v1/health") none (.other []), .done) := by
    intro params v hv
    refine ⟨rfl, fun _ call hcall htoken => ?_, Or.inl hv.backend⟩
    obtain rfl : call = ⟨.get, js "/api/v1/health", none, .other []⟩ := by
      rcases List.mem_cons.mp hcall with hcall | hcall
      · exact hcall
      · rw [hv.calls] at hcall
        cases hcall
    exact absurd rfl htoken
  have hgetPlugins : ∀ params v, Method.get.Answers req.method →
      matched? "/api/ui/plugins" path = some params → Untouched s v → req.body.isSome →
      ¬ req.ReachesPlugins → (getPlugins req params v).1.Guarded := by
    intro params v hm hmatched hv hbody hnot
    -- otherwise the request would reach the route
    have hagent : pluginAgent req = none := by
      by_contra hsome
      exact hnot ⟨hbody, path, hpath, Or.inl
        ⟨hm, Option.isSome_of_eq_some hmatched, Option.isSome_iff_ne_none.mpr hsome⟩⟩
    rw [getPlugins, hagent]
    exact Untouched.guarded (s := s) ⟨hv.calls, hv.backend⟩
  have hputPlugin : ∀ params v, Method.put.Answers req.method →
      matched? "/api/ui/plugins/:name" path = some params → Untouched s v → req.body.isSome →
      ¬ req.ReachesPlugins → (putPlugin req params v).1.Guarded := by
    intro params v hm hmatched hv hbody hnot
    have hmethod : req.method = .put := by
      rcases hm with hm | ⟨-, hm⟩
      · exact hm.symm
      · cases hm
    have hname : (paramText params "name").encodeURIComponent = none := by
      by_contra hsome
      refine hnot ⟨hbody, path, hpath, Or.inr ⟨hmethod, ?_⟩⟩
      rw [hmatched, Option.bind_some]
      exact Option.isSome_iff_ne_none.mpr hsome
    rw [putPlugin, hname]
    exact Untouched.guarded (s := s) ⟨hv.calls, hv.backend⟩
  refine .of_forall ?_
  simp only [setupProxy, List.forall_mem_cons, List.not_mem_nil, false_implies, implies_true,
    and_true]
  refine ⟨?_, ?_, ?_, ?_, ?_, ?_, ?_, ?_, ?_, ?_, ?_, ?_⟩
  · exact stage_adminRoute (q := []) hagents (by decide) (asksOnce_askBot ..)
  · exact stage_adminRoute (q := []) hagents (by decide) (asksOnce_askBot ..)
  · exact stage_adminRoute (q := [.param (js "id")]) hagents (by decide) (hagent ..)
  · exact stage_adminRoute (q := [.param (js "id"), .param (js "action")]) hagents (by decide)
      asksOnce_agentAction
  · exact stage_adminRoute (q := [.param (js "id"), .text (js "config")]) hagents (by decide)
      (hagent ..)
  · exact stage_route (fun _ hv => hv.toUntouched) hstatus
  · exact stage_route (fun _ hv => hv.toUntouched) ends_elsewhere
  · exact stage_adminRoute (p := "/api/ui/metrics") (q := []) (by decide) (by decide)
      (asksOnce_askBot ..)
  · exact stage_adminRoute (q := [.param (js "id"), .text (js "metrics")]) hagents (by decide)
      (hagent ..)
  · exact stage_adminRoute (p := "/api/ui/tokens") (q := []) (by decide) (by decide)
      (asksOnce_askBot ..)
  · exact stage_pluginRoute (q := []) (by decide) (asksOnce_askBot ..) hgetPlugins
  · exact stage_pluginRoute (q := [.param (js "name")]) (by decide)
      ⟨fun params => (asksOnce_askBot ..).done params, fun params =>
        (asksOnce_askBot ..).passed params,
        fun params => (asksOnce_askBot ..).backend params⟩ hputPlugin

theorem stage_last {met : List String} : Stage cfg req path s (Met cfg req path s met)
    (lastLayers cfg req) (Met cfg req path s met) := by
  have hother : ∀ {m p}, Stage cfg req path s (Met cfg req path s met) [.route m p [elsewhere]]
      (Met cfg req path s met) := stage_route (fun _ hv => hv.toUntouched) ends_elsewhere
  -- a file is served, or the request goes on
  have hstatic : Stage cfg req path s (Met cfg req path s met) [.use [] (expressStatic cfg req)]
      (Met cfg req path s met) := by
    refine .use_keeps (fun _ hv => hv.toUntouched) fun params v hv => ?_
    unfold expressStatic
    split
    · match cfg.serveStatic (req.pathname.getD []) with
      | .next => exact hv
      | .fail _ => exact hv.toUntouched
      | .done => exact hv.toUntouched.left
    · exact hv
  have herror : Stage cfg req path s (Met cfg req path s met) [.onError onError]
      (Met cfg req path s met) :=
    .onError (fun _ hv => hv.toUntouched) fun err v hv =>
      Untouched.left (v := (onError err v).1) ⟨hv.calls, hv.backend⟩
  exact hother.cons (hother.cons (hother.cons (hstatic.cons (hother.cons herror))))

/-! ### All layers -/

/-- **What every request leaves behind.** -/
theorem left_serve (cfg : WebConfig) (req : HttpRequest) (server : WebServer) :
    Left cfg req server.backend (serve cfg req server) := by
  unfold serve
  -- a target without a path is rejected before the first layer
  split
  · exact Untouched.left ⟨rfl, rfl⟩
  next path hpath =>
  have hguards : Stage cfg req path server.backend (Arrived server.backend True)
      ([.use [] (cors cfg req), .use [] (expressJson req), .use [] cookieParser] ++
        publicLayers cfg req ++ adminGuards cfg req)
      (Met cfg req path server.backend adminPaths.reverse) :=
    (stage_first.append stage_public).append stage_adminGuards
  have hstatus : Stage cfg req path server.backend
    (Met cfg req path server.backend adminPaths.reverse)
      (use "/api/ui/status" [authGuard req]) (Met cfg req path server.backend adminPaths.reverse) :=
    (stage_authGuard (by decide)).weaken fun _ hv => hv.1
  have happ : Stage cfg req path server.backend (Arrived server.backend True) (app cfg req)
      (Met cfg req path server.backend adminPaths.reverse) :=
    ((hguards.append hstatus).append (stage_setupProxy hpath)).append stage_last
  have hend := happ.normal { server } ⟨⟨rfl, rfl⟩, trivial, rfl, rfl, rfl⟩
  match run LayerError.param req.method path (app cfg req) none { server }, hend with
  | .going none _, hend => exact hend.left
  | .going (some _) _, hend => exact hend.left
  | .ended _, hend => exact hend

/-- The states between requests are those of `Backend`. -/
theorem reachable_serve {server : WebServer}
    (h : (backend cfg.toBackendConfig).Reachable server.backend)
    (hcookie : server.backend.Presentable req.cookie)
    (hstate : server.backend.Presentable req.state)
    (hnonce : ∀ m ∈ server.backend.minted, m.claims.nonce ≠ some req.nonce) :
    (backend cfg.toBackendConfig).Reachable (serve cfg req server).server.backend := by
  -- a request makes one call of the backend at most
  rcases (left_serve cfg req server).explained with hsame | ⟨r, hr, hhandle⟩
  · rwa [hsame]
  · rw [hhandle]
    refine h.step (e := .request req.browser req.now req.cookie req.nonce r)
      ⟨⟨hcookie, ?_, hnonce⟩, rfl⟩
    rcases hr with hr | hr
    · rw [hr]
      exact fun _ hclaims => by cases hclaims
    · rwa [hr]

end Aestival
