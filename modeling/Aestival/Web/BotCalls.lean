import Aestival.Web.RouteSpecs
import Aestival.Web.TokenKinds

/-!
# Who may call the bot

All routes of `proxy.ts` that ask the bot with a token lie below a path with `requireAuth` and
`requireAdmin`, but those of the plugins. `GET /api/ui/plugins` and `PUT /api/ui/plugins/:name` have
no guard. They ask in the name of the user of the request, which is nobody, so that the bot gets a
token for `system`.

* `serve_guarded_iff`: calls of the bot are guarded for exactly the requests that do not get there.
* `plugins_unguarded`: a request without a cookie that lists the plugins.
-/

namespace Aestival

open Express

variable {cfg : WebConfig} {req : HttpRequest} {path : JsString}

/-- What is registered between the first layers and the routes of the plugins. -/
def beforePlugins (cfg : WebConfig) (req : HttpRequest) : List WebLayer :=
  publicLayers cfg req ++ adminGuards cfg req ++ use "/api/ui/status" [authGuard req] ++
    (setupProxy req).take 10

/-- No layer stands in the way to the plugins. -/
theorem beforePlugins_clashes :
    (beforePlugins cfg req).all (Layer.clashes (pieces "/api/ui/plugins")) = true := by
  rfl

/-- A request below the path of the plugins gets there as it came. -/
theorem run_app {v : Visit} (hmethod : req.method ≠ .options) (hbody : req.body.isSome)
    (hbelow : Below (pieces "/api/ui/plugins") path) :
    run LayerError.param req.method path (app cfg req) none v =
      run LayerError.param req.method path
        (get "/api/ui/plugins" (getPlugins req) :: put "/api/ui/plugins/:name" (putPlugin req) ::
          lastLayers cfg req) none v := by
  have hsplit : app cfg req = .use [] (cors cfg req) :: .use [] (expressJson req) ::
      .use [] cookieParser :: (beforePlugins cfg req ++ (get "/api/ui/plugins" (getPlugins req) ::
        put "/api/ui/plugins/:name" (putPlugin req) :: lastLayers cfg req)) := rfl
  have hcors : cors cfg req [] v = (v, .next) := if_neg fun h => hmethod h.1
  have hjson : expressJson req [] v = (v, .next) := by
    obtain ⟨body, hbody⟩ := Option.isSome_iff_exists.mp hbody
    rw [expressJson, hbody]
  have hcookies : cookieParser [] v = (v, .next) := rfl
  rw [hsplit, run_cons_of_next hcors, run_cons_of_next hjson, run_cons_of_next hcookies, run_append,
    run_eq_going fun layer hlayer =>
      layer.match?_eq_none (List.all_eq_true.mp beforePlugins_clashes layer hlayer) hbelow]

/-- `askBot` without a user. -/
theorem askBot_unguarded {server : WebServer} (now : Nat) (method : Method)
    {target : Option JsString} (body : Option RequestBody) (htarget : target.isSome)
    (hinv : KindInv server.backend) :
    ∃ v : Visit, Visit.askBot { server } now method target body = (v, .done) ∧ ¬ v.Guarded := by
  obtain ⟨target, rfl⟩ := Option.isSome_iff_exists.mp htarget
  refine ⟨_, rfl, fun hguarded => ?_⟩
  have hpassed := hguarded _ List.mem_cons_self fun hempty => ?_
  · cases hpassed.1
  · -- a token for the bot is signed, so it is not the empty text
    obtain ⟨hfrom, -⟩ :=
      Backend.fromCache_getBotToken now server.backend.botTokenCache (userTokenName none)
    rcases hfrom with ⟨entry, hentry, htoken⟩ | ⟨at', name, htoken⟩
    · obtain ⟨at', name, hsigned⟩ := hinv.cache entry hentry
      cases hempty.symm.trans (htoken.trans hsigned)
    · cases hempty.symm.trans htoken

/-- A request that reaches the plugins has met no guard. -/
theorem not_guarded_of_reachesPlugins {server : WebServer} (hinv : KindInv server.backend)
    (h : req.ReachesPlugins) : ¬ (serve cfg req server).Guarded := by
  obtain ⟨hbody, path, hpath, hreaches⟩ := h
  intro hguarded
  rw [serve, hpath] at hguarded
  dsimp only at hguarded
  -- the list is answered by the first route, the switch by the second one
  rcases hreaches with ⟨hm, hmatched, hagent⟩ | ⟨hmethod, hname⟩
  · have hoptions : req.method ≠ .options := by
      rintro hoptions
      rw [hoptions] at hm
      revert hm
      decide
    obtain ⟨params, hparams⟩ := Option.isSome_iff_exists.mp hmatched
    obtain ⟨raw, hraw, -⟩ := Option.bind_eq_some_iff.mp hparams
    have hbelow := below_of_match? (q := [])
      ((List.append_nil (pieces "/api/ui/plugins")).symm ▸ hraw)
    have htarget : ((pluginAgent req).map (js "/api/v1/plugins?agent=" ++ ·)).isSome := by
      rwa [Option.isSome_map]
    obtain ⟨v, hv, hnot⟩ := askBot_unguarded req.now .get none htarget hinv
    have hroute : getPlugins req params { server } = (v, .done) := hv
    rw [run_app hoptions hbody hbelow, get, run_cons_of_done hm hparams hroute] at hguarded
    exact hnot hguarded
  · have hoptions : req.method ≠ .options := by
      rw [hmethod]
      decide
    obtain ⟨target, hbind⟩ := Option.isSome_iff_exists.mp hname
    obtain ⟨params, hparams, htarget⟩ := Option.bind_eq_some_iff.mp hbind
    obtain ⟨raw, hraw, -⟩ := Option.bind_eq_some_iff.mp hparams
    have hpieces : pieces "/api/ui/plugins/:name" =
        pieces "/api/ui/plugins" ++ .param (js "name") :: [] := by decide
    rw [hpieces] at hraw
    have hbelow := below_of_match? hraw
    have hshort : (get "/api/ui/plugins" (getPlugins req)).match? path = none :=
      match?_eq_none_of_longer hraw
    have hsome : ((paramText params "name").encodeURIComponent.map
        (js "/api/v1/plugins/" ++ ·)).isSome := by
      rw [Option.isSome_map, htarget]
      rfl
    obtain ⟨v, hv, hnot⟩ := askBot_unguarded req.now .put req.body hsome hinv
    have hroute : putPlugin req params { server } = (v, .done) := hv
    rw [run_app hoptions hbody hbelow, run_cons_of_no_match hshort, put,
      run_cons_of_done (Or.inl hmethod.symm) hparams hroute] at hguarded
    exact hnot hguarded

/-- **A call with a token is made only behind both guards**, for every request in every state, if
and only if the request does not reach the routes of the plugins. -/
theorem serve_guarded_iff (cfg : WebConfig) (req : HttpRequest) (server : WebServer)
    (h : (backend cfg.toBackendConfig).Reachable server.backend) :
    (serve cfg req server).Guarded ↔ ¬ req.ReachesPlugins :=
  ⟨fun hguarded hreaches => not_guarded_of_reachesPlugins (kindInv h) hreaches hguarded,
    (left_serve cfg req server).guarded⟩

/-- `GET /api/ui/status`, from nobody. -/
def statusRequest : HttpRequest where
  method := .get
  pathname := some (js "/api/ui/status")

theorem serve_guarded_status :
    (backend ({} : WebConfig).toBackendConfig).Reachable ({} : WebServer).backend ∧
      (serve {} statusRequest {}).Guarded := by
  have hstart : (backend ({} : WebConfig).toBackendConfig).Reachable ({} : WebServer).backend :=
    ⟨[], .start rfl⟩
  refine ⟨hstart, (serve_guarded_iff {} statusRequest {} hstart).mpr ?_⟩
  rintro ⟨-, path, hpath, hreaches⟩
  obtain rfl : js "/api/ui/status" = path := Option.some.inj hpath
  rcases hreaches with ⟨-, hmatched, -⟩ | ⟨hmethod, -⟩
  · exact absurd hmatched (by decide)
  · cases hmethod

/-- `GET /api/ui/plugins`, from nobody. -/
def pluginsRequest : HttpRequest where
  method := .get
  pathname := some (js "/api/ui/plugins")

theorem pluginsRequest_reachesPlugins : pluginsRequest.ReachesPlugins :=
  ⟨rfl, _, rfl, Or.inl ⟨Or.inl rfl, by decide, by decide +kernel⟩⟩

/-- Without a session, the bot is asked for its plugins with a token for `system`. -/
theorem plugins_unguarded :
    ¬ ∀ (cfg : WebConfig) (req : HttpRequest) (server : WebServer),
      (backend cfg.toBackendConfig).Reachable server.backend → (serve cfg req server).Guarded := by
  intro h
  have hstart : (backend ({} : WebConfig).toBackendConfig).Reachable ({} : WebServer).backend :=
    ⟨[], .start rfl⟩
  exact not_guarded_of_reachesPlugins (kindInv hstart) pluginsRequest_reachesPlugins
    (h {} pluginsRequest {} hstart)

end Aestival
