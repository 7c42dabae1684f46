import Aestival.Web.RouteSpecs

/-!
# The rate limits

`rateLimit` counts the requests of an address in a window of fifteen minutes. A request behind the
end of the window opens the next (`windows`), and the limiter lets at most `maxRequests` of each
window pass (`limiter_passes_le`).

It is registered behind the routes of `auth.ts`, which answer and do not call `next`. So what is
posted to `/api/ui/auth/login` or `/api/ui/auth/register` is served before the limiter sees it:

* `Endpoint.reaches_iff`: a request reaches `loginWithPassword` (or `registerWithPassword`) if it
  passes the checks of the handler, in whatever state;
* `rateLimited_iff`: no more than `maxRequests` of a window get there if and only if no more of them
  pass these checks;
* `login_unlimited`: 31 logins in one window.
-/

namespace Aestival

open Express

/-! ### Windows -/

section Windows

variable {α : Type} (windowMs : Nat) (time : α → Nat)

/-- `windows`, behind `current`, which are the requests of a window so far. -/
def windowsFrom (resetAt : Nat) (current : List α) : List α → List (List α)
  | [] => [current]
  | x :: rest =>
    if time x > resetAt then current :: windowsFrom (time x + windowMs) [x] rest
    else windowsFrom resetAt (current ++ [x]) rest

/-- The requests by windows. The first one opens a window, and so does each that comes behind the
end of the last. -/
def windows : List α → List (List α)
  | [] => []
  | x :: rest => windowsFrom windowMs time (time x + windowMs) [x] rest

end Windows

/-! ### The limiter -/

/-- Requests under one key, with whether they pass. -/
def Hits.answers (maxRequests windowMs : Nat) (key : JsString) : Hits → List Nat → List (Nat × Bool)
  | _, [] => []
  | hits, now :: rest =>
    let (pass, hits) := hits.rateLimit maxRequests windowMs now key
    (now, pass) :: hits.answers maxRequests windowMs key rest

section Limiter

variable (maxRequests windowMs : Nat) (key : JsString)

theorem rateLimit_eq {now count resetAt : Nat} {hits : Hits}
    (h : currentEntry windowMs now key hits = ⟨count, resetAt⟩) :
    hits.rateLimit maxRequests windowMs now key =
      (decide (count + 1 ≤ maxRequests),
        (key, ⟨count + 1, resetAt⟩) :: hits.filter fun e => e.1 ≠ key) := by
  rw [Hits.rateLimit, h]

/-- The rest of a window and the windows behind it, when `count` requests of the window have been
counted. -/
theorem passes_le_of_entry (times : List Nat) {hits : Hits} {count resetAt : Nat}
    {current : List (Nat × Bool)} (hentry : hits.lookup key = some ⟨count, resetAt⟩)
    (hcurrent : (current.filter Prod.snd).length ≤ min count maxRequests) :
    ∀ w ∈ windowsFrom windowMs Prod.fst resetAt current
        (hits.answers maxRequests windowMs key times),
      (w.filter Prod.snd).length ≤ maxRequests := by
  -- induction on the requests; `count` is how many of the window have been counted
  induction times generalizing hits count resetAt current with
  | nil =>
    intro w hw
    obtain rfl := List.mem_singleton.mp hw
    omega
  | cons now rest ih =>
    by_cases hend : now > resetAt
    · have hnew : currentEntry windowMs now key hits = ⟨0, now + windowMs⟩ := by
        rw [currentEntry, hentry]
        exact if_pos hend
      -- the window is over: what passed in it is within the limit, and the next begins with one
      rw [Hits.answers, rateLimit_eq maxRequests windowMs key hnew]
      show ∀ w ∈ windowsFrom windowMs Prod.fst resetAt current ((now, _) :: _), _
      rw [windowsFrom, if_pos hend]
      refine List.forall_mem_cons.mpr ⟨by omega, ih List.lookup_cons_self ?_⟩
      by_cases hpass : 0 + 1 ≤ maxRequests <;> simp [hpass]
    · have hsame : currentEntry windowMs now key hits = ⟨count, resetAt⟩ := by
        rw [currentEntry, hentry]
        exact if_neg hend
      rw [Hits.answers, rateLimit_eq maxRequests windowMs key hsame]
      show ∀ w ∈ windowsFrom windowMs Prod.fst resetAt current ((now, _) :: _), _
      rw [windowsFrom, if_neg hend]
      refine ih List.lookup_cons_self ?_
      rw [List.filter_append, List.length_append]
      -- the request that is counted up passes only while the count is within the limit
      by_cases hpass : count + 1 ≤ maxRequests
      · simp [hpass]
        omega
      · simp [hpass]
        omega

/-- The limiter lets at most `maxRequests` of each window pass. -/
theorem limiter_passes_le {hits : Hits} (hnew : hits.lookup key = none) (times : List Nat) :
    ∀ w ∈ windows windowMs Prod.fst (hits.answers maxRequests windowMs key times),
      (w.filter Prod.snd).length ≤ maxRequests := by
  cases times with
  | nil => exact fun w hw => absurd hw List.not_mem_nil
  | cons now rest =>
    have hentry : currentEntry windowMs now key hits = ⟨0, now + windowMs⟩ := by
      rw [currentEntry, hnew]
    rw [Hits.answers, rateLimit_eq maxRequests windowMs key hentry]
    refine passes_le_of_entry maxRequests windowMs key rest List.lookup_cons_self ?_
    by_cases hpass : 0 + 1 ≤ maxRequests
    · simp [hpass]
    · simp [hpass]

end Limiter

/-! ### The routes that should be limited -/

inductive Endpoint where
  | login
  | register
  deriving DecidableEq, Repr

namespace Endpoint

variable (cfg : WebConfig) (req : HttpRequest)

def path : Endpoint → String
  | login => "/api/ui/auth/login"
  | register => "/api/ui/auth/register"

/-- The number of requests that `rateLimit` is called with. -/
def maxRequests : Endpoint → Nat
  | login => 30
  | register => 10

def windowMs : Nat := 15 * 60 * 1000

/-- The checks that stand before `loginWithPassword` and `registerWithPassword`. -/
def passesChecks : Endpoint → Bool
  -- only that they are truthy: a number gets there, too
  | login => req.has "username" && req.has "password"
  | register => cfg.registrationOpen && (validateUsername (req.text "username")).isNone &&
      (validatePassword (req.text "password")).isNone

/-- The handler in `setupAuth`. -/
def handler : Endpoint → WebHandler
  | login => Aestival.login req
  | register => fun _ v => v.handle fun s =>
      s.register cfg.toBackendConfig req.browser (req.text "username") (req.text "password")

/-- How many layers are registered before the route. -/
def position : Endpoint → Nat
  -- three layers that hand on, and then the routes of `auth.ts` in their order
  | login => 6
  | register => 5

theorem app_eq (e : Endpoint) :
    app cfg req = (app cfg req).take e.position ++ post e.path [e.handler cfg req] ::
      (app cfg req).drop (e.position + 1) := by
  cases e <;> rfl

/-- The request is a `POST` of the route. -/
def isFor (e : Endpoint) : Bool :=
  req.method = .post && (req.pathname.bind (matched? e.path)).isSome

/-- The request gets to `loginWithPassword` (or `registerWithPassword`): the layers before the route
hand it on, the route is called, and its checks are passed. -/
def Reaches (server : WebServer) (e : Endpoint) : Prop :=
  ∃ path params v, req.pathname = some path ∧
    run .param req.method path ((app cfg req).take e.position) none { server } = .going none v ∧
    Method.post.Answers req.method ∧ matched? e.path path = some params ∧
    e.passesChecks cfg req = true

end Endpoint

/-- Of the requests of each window, no more than `maxRequests` get to `loginWithPassword` (or
`registerWithPassword`). Each request is given with the state it meets, so that anything may happen
between two of them. -/
def RateLimited (cfg : WebConfig) (e : Endpoint) (visits : List (WebServer × HttpRequest)) : Prop :=
  ∀ w ∈ windows Endpoint.windowMs (fun x => x.2.now) visits,
    ∀ reaching : List (WebServer × HttpRequest), reaching.Sublist w →
      (∀ x ∈ reaching, e.Reaches cfg x.2 x.1) → reaching.length ≤ e.maxRequests

/-! ### Which requests get there -/

namespace Endpoint

variable {cfg : WebConfig} {req : HttpRequest} {e : Endpoint} {path : JsString}

/-- No layer behind the first three stands in the way. -/
theorem between_clashes (e : Endpoint) :
    (((app cfg req).take e.position).drop 3).all (Layer.clashes (pieces e.path)) = true := by
  cases e <;> rfl

theorem take_position (e : Endpoint) :
    (app cfg req).take e.position = .use [] (cors cfg req) :: .use [] (expressJson req) ::
      .use [] cookieParser :: ((app cfg req).take e.position).drop 3 := by
  cases e <;> rfl

theorem answers_post_iff : Method.post.Answers req.method ↔ req.method = .post :=
  ⟨fun h => h.elim Eq.symm (fun h => nomatch h.2), fun h => Or.inl h.symm⟩

/-- The checks ask for fields, so there is a body. -/
theorem body_isSome (h : e.passesChecks cfg req = true) : req.body.isSome := by
  cases hbody : req.body with
  | some body => rfl
  | none =>
    have hfield : ∀ name, req.field name = none := fun name => by rw [HttpRequest.field, hbody]
    cases e with
    | login => simp [passesChecks, HttpRequest.has, hfield] at h
    | register => simp [passesChecks, HttpRequest.text, hfield, validateUsername] at h

/-- A path that matches the route lies below it. -/
theorem below_of_matched? {params : Params} (h : matched? e.path path = some params) :
    Below (pieces e.path) path := by
  obtain ⟨raw, hraw, -⟩ := Option.bind_eq_some_iff.mp h
  exact below_of_match? (q := []) ((List.append_nil (pieces e.path)).symm ▸ hraw)

/-- The layers before the route hand a request on as it came. -/
theorem run_take_position {v : Visit} (hmethod : req.method = .post) (hbody : req.body.isSome)
    (hbelow : Below (pieces e.path) path) :
    run LayerError.param req.method path ((app cfg req).take e.position) none v =
      .going none v := by
  -- only `OPTIONS` is answered by `cors`
  have hcors : cors cfg req [] v = (v, .next) :=
    if_neg fun h => by
      rw [hmethod] at h
      exact nomatch h.1
  have hjson : expressJson req [] v = (v, .next) := by
    obtain ⟨body, hbody⟩ := Option.isSome_iff_exists.mp hbody
    rw [expressJson, hbody]
  have hcookies : cookieParser [] v = (v, .next) := rfl
  rw [take_position, run_cons_of_next hcors, run_cons_of_next hjson, run_cons_of_next hcookies]
  exact run_eq_going fun layer hlayer =>
    layer.match?_eq_none (List.all_eq_true.mp (between_clashes e) layer hlayer) hbelow

/-- **The limiter has no say**: in every state, a `POST` of the route gets through if it passes the
checks of the handler. -/
theorem reaches_iff {server : WebServer} :
    e.Reaches cfg req server ↔ e.isFor req = true ∧ e.passesChecks cfg req = true := by
  rw [isFor, Bool.and_eq_true, decide_eq_true_iff]
  constructor
  · rintro ⟨path, params, v, hpath, -, hanswers, hparams, hchecks⟩
    refine ⟨⟨answers_post_iff.mp hanswers, ?_⟩, hchecks⟩
    rw [hpath, Option.bind_some, hparams]
    rfl
  · rintro ⟨⟨hmethod, hfor⟩, hchecks⟩
    obtain ⟨params, hbind⟩ := Option.isSome_iff_exists.mp hfor
    obtain ⟨path, hpath, hparams⟩ := Option.bind_eq_some_iff.mp hbind
    -- what is left is the way to the route, and no limiter stands there
    refine ⟨path, params, { server }, hpath, ?_, answers_post_iff.mpr hmethod, hparams, hchecks⟩
    exact run_take_position hmethod (body_isSome hchecks) (below_of_matched? hparams)

/-- A request that gets there leaves the limiters as they are. -/
theorem hits_of_reaches {server : WebServer} (h : e.Reaches cfg req server) :
    (serve cfg req server).server.loginHits = server.loginHits ∧
      (serve cfg req server).server.registerHits = server.registerHits := by
  obtain ⟨path, params, v, hpath, -, hanswers, hparams, hchecks⟩ := h
  have hmethod := answers_post_iff.mp hanswers
  -- the handler answers, and neither of the limiters is among what it writes
  have hhandler : ∃ v' : Visit, e.handler cfg req params { server } = (v', .done) ∧
      v'.server.loginHits = server.loginHits ∧ v'.server.registerHits = server.registerHits := by
    cases e with
    | login =>
      -- `loginWithPassword` throws, or the handler waits
      simp only [handler, Aestival.login]
      split
      · exact ⟨_, rfl, rfl, rfl⟩
      · exact ⟨_, rfl, rfl, rfl⟩
    | register => exact ⟨_, rfl, rfl, rfl⟩
  obtain ⟨v', hdone, hhits⟩ := hhandler
  have hserve : serve cfg req server = v' := by
    rw [serve, hpath]
    dsimp only
    rw [app_eq cfg req e, run_append,
      run_take_position hmethod (body_isSome hchecks) (below_of_matched? hparams)]
    dsimp only
    rw [post, run_cons_of_done hanswers hparams hdone]
    rfl
  rw [hserve]
  exact hhits

end Endpoint

/-! ### How many get there -/

/-- A bound on all sublists with a property is one on the largest. -/
theorem sublist_length_le_iff {α : Type} {P : α → Prop} {p : α → Bool} (h : ∀ x, P x ↔ p x = true)
    {l : List α} {n : Nat} :
    (∀ l' : List α, l'.Sublist l → (∀ x ∈ l', P x) → l'.length ≤ n) ↔ (l.filter p).length ≤ n := by
  constructor
  · intro hall
    exact hall _ List.filter_sublist fun x hx => (h x).mpr (List.mem_filter.mp hx).2
  · intro hfilter l' hsub hP
    -- all of `l'` is in the filtered list, as a sublist
    have hself : l'.filter p = l' := List.filter_eq_self.mpr fun x hx => (h x).mp (hP x hx)
    have hle := (hsub.filter p).length_le
    rw [hself] at hle
    exact hle.trans hfilter

/-- **The limits hold** for a sequence of requests if and only if they are not needed: of each
window, no more than `maxRequests` pass the checks of the handler. -/
theorem rateLimited_iff (cfg : WebConfig) (e : Endpoint) (visits : List (WebServer × HttpRequest)) :
    RateLimited cfg e visits ↔
      ∀ w ∈ windows Endpoint.windowMs (fun x => x.2.now) visits,
        (w.filter fun x => e.isFor x.2 && e.passesChecks cfg x.2).length ≤ e.maxRequests :=
  forall₂_congr fun _ _ => sublist_length_le_iff fun x => by
    rw [Endpoint.reaches_iff, Bool.and_eq_true]

/-! ### A sequence of logins -/

/-- Requests that are served one after the other, each with the state it meets. -/
def arrivals (cfg : WebConfig) : WebServer → List HttpRequest → List (WebServer × HttpRequest)
  | _, [] => []
  | server, req :: rest => (server, req) :: arrivals cfg (serve cfg req server).server rest

/-- `POST /api/ui/auth/login`, with a guess. -/
def guess : HttpRequest where
  method := .post
  pathname := some (js "/api/ui/auth/login")
  ip := js "203.0.113.7"
  body :=
    some (.object [(js "username", .text (js "root")), (js "password", .text (js "12345678"))])

/-- A number as a password. -/
def numericGuess : HttpRequest where
  method := .post
  pathname := some (js "/api/ui/auth/login")
  body := some (.object
    [(js "username", .text (js "root")), (js "password", .other true (some (.int 12345678)))])

-- it is given to `loginWithPassword`, which throws: 500
example : Endpoint.login.passesChecks {} numericGuess = true ∧
    ((serve {} numericGuess {}).reply.map Reply.status) = some 500 := by decide +kernel

/-- `POST /api/ui/auth/register`. -/
def signUp : HttpRequest where
  method := .post
  pathname := some (js "/api/ui/auth/register")
  ip := js "203.0.113.7"
  body :=
    some (.object [(js "username", .text (js "root")), (js "password", .text (js "12345678"))])

/-- Requests of one moment are in one window. -/
theorem windowsFrom_eq_singleton {α : Type} {windowMs resetAt : Nat} {time : α → Nat}
    {current l : List α} (h : ∀ x ∈ l, time x ≤ resetAt) :
    windowsFrom windowMs time resetAt current l = [current ++ l] := by
  induction l generalizing current with
  | nil => rw [windowsFrom, List.append_nil]
  | cons x rest ih =>
    obtain ⟨hx, hrest⟩ := List.forall_mem_cons.mp h
    rw [windowsFrom, if_neg (by omega), ih hrest, List.append_assoc, List.singleton_append]

theorem of_mem_arrivals {cfg : WebConfig} {server : WebServer} {reqs : List HttpRequest}
    {x : WebServer × HttpRequest} (h : x ∈ arrivals cfg server reqs) : x.2 ∈ reqs := by
  induction reqs generalizing server with
  | nil => exact absurd h List.not_mem_nil
  | cons req rest ih =>
    rcases List.mem_cons.mp h with rfl | h
    · exact List.mem_cons_self
    · exact List.mem_cons_of_mem _ (ih h)

theorem length_arrivals {cfg : WebConfig} {server : WebServer} {reqs : List HttpRequest} :
    (arrivals cfg server reqs).length = reqs.length := by
  induction reqs generalizing server with
  | nil => rfl
  | cons req rest ih => rw [arrivals, List.length_cons, List.length_cons, ih]

/-- One request, sent more often than the limit allows at one moment. -/
theorem not_rateLimited_replicate {cfg : WebConfig} {e : Endpoint} {req : HttpRequest}
    (hfor : e.isFor req = true) (hchecks : e.passesChecks cfg req = true) (server : WebServer) :
    ¬ RateLimited cfg e (arrivals cfg server (List.replicate (e.maxRequests + 1) req)) := by
  intro hall
  have heq : ∀ x ∈ arrivals cfg server (List.replicate (e.maxRequests + 1) req), x.2 = req :=
    fun x hx => List.eq_of_mem_replicate (of_mem_arrivals hx)
  -- at one moment, so they are one window
  have hwindow : arrivals cfg server (List.replicate (e.maxRequests + 1) req) ∈
      windows Endpoint.windowMs (fun x => x.2.now)
        (arrivals cfg server (List.replicate (e.maxRequests + 1) req)) := by
    rw [List.replicate_succ, arrivals] at heq ⊢
    rw [windows, windowsFrom_eq_singleton, List.singleton_append]
    · exact List.mem_singleton_self _
    · intro x hx
      rw [heq x (List.mem_cons_of_mem _ hx)]
      exact Nat.le_add_right _ _
  have hle := hall _ hwindow _ (List.Sublist.refl _) fun x hx => by
    rw [heq x hx, Endpoint.reaches_iff]
    exact ⟨hfor, hchecks⟩
  rw [length_arrivals, List.length_replicate] at hle
  omega

/-- 31 logins and 11 registrations from one address at one moment all get through. -/
theorem login_unlimited :
    ¬ RateLimited {} .login (arrivals {} {} (List.replicate 31 guess)) ∧
      ¬ RateLimited {} .register (arrivals {} {} (List.replicate 11 signUp)) :=
  ⟨not_rateLimited_replicate (by decide +kernel) (by decide +kernel) _,
    not_rateLimited_replicate (by decide +kernel) (by decide +kernel) _⟩

end Aestival
