import Aestival.Management.RoutedIds
import Aestival.Web.ProxyRetry

/-!
# Names of plugins on their way to the bot

`PUT /api/ui/plugins/:name` puts the name of a plugin into a path with `encodeURIComponent`, `fetch`
resolves the dots of this path, and `handle` takes the name out of the target as it stands: it
decodes nothing, and asks first whether the target ends with `/config`. So a name gets through
exactly if it has no character to escape and is none of `.`, `..` and `config`
(`survivesProxy_iff`).
-/

namespace Aestival

open Bytes Express Json

/-! ### The request -/

/-- The path that `PUT /api/ui/plugins/:name` asks for. Nothing, if it throws. -/
def pluginPath (name : JsString) : Option JsString :=
  name.encodeURIComponent.map (js "/api/v1/plugins/" ++ ·)

/-- The request that gets to the bot. -/
def pluginRequest (name : JsString) (body : Text) : Option ApiRequest := do
  let path ← pluginPath name
  let target ← (JsString.requestedPath path).toUtf8
  return { method := .put, target, body }

theorem pluginRequest_eq_some_iff {name : JsString} {body : Text} {q : ApiRequest} :
    pluginRequest name body = some q ↔ ∃ e target, name.encodeURIComponent = some e ∧
      (JsString.requestedPath (js "/api/v1/plugins/" ++ e)).toUtf8 = some target ∧
      q = ⟨.put, target, body⟩ := by
  unfold pluginRequest pluginPath
  simp only [Option.bind_eq_bind, Option.bind_map, Option.bind_eq_some_iff, Function.comp_apply,
    Option.pure_def, Option.some.injEq]
  constructor
  · rintro ⟨e, he, target, htarget, rfl⟩
    exact ⟨e, target, he, htarget, rfl⟩
  · rintro ⟨e, target, he, htarget, rfl⟩
    exact ⟨e, he, target, htarget, rfl⟩

/-- It is what the proxy calls. -/
theorem request_of_putPlugin {req : HttpRequest} {params : Params} {v : Visit} {call : BotCall}
    (h : (putPlugin req params v).1.calls = call :: v.calls) (authentic : Bool) {q : ApiRequest}
    (hq : pluginRequest (paramText params "name") (call.request authentic).body = some q) :
    (call.request authentic).toApiRequest = q := by
  obtain ⟨e, target, he, htarget, rfl⟩ := pluginRequest_eq_some_iff.mp hq
  simp only [putPlugin, he, Option.map_some, Visit.askBot] at h
  obtain ⟨hcall, -⟩ := List.cons.inj h
  rw [BotCall.request, ← hcall]
  simp only [htarget, Option.getD_some]
  rfl

/-! ### What should hold -/

/-- What the body of the request asks for. -/
def toggledTo (body : Text) : Option Bool :=
  (Bot.pluginBody body).bind fun j => (j.value getBool (utf8 "enabled") true).toOption

/-- What the manager keeps of a plugin of the agent `default`: its row in the database, and whether
it is remembered as disabled. -/
def PluginManager.kept (m : PluginManager) (name : Bytes) : Option (Option Bool) × Bool :=
  (m.configBackend.map fun db => db.agentPlugins (utf8 "default") name,
    decide (cacheKey (utf8 "default") name ∈ m.disabledCache))

/-- The plugin is switched, and no other one. -/
structure Switched (m m' : PluginManager) (name : Bytes) (on : Bool) : Prop where
  self : m'.enabled name (utf8 "default") = on
  others : ∀ other, other ≠ name → m'.kept other = m.kept other

/-- The request for a plugin is dispatched to `handle_plugin_toggle` with its name, and switches
it. -/
structure SurvivesProxy (name : JsString) : Prop where
  dispatched : ∀ body, ∃ text q, name.toUtf8 = some text ∧ pluginRequest name body = some q ∧
    q.route = .ok (.togglePlugin text body)
  switched : ∀ (b : Bot) (env : BotSurroundings) body on text q, b.serving = true →
    env.writes = true → toggledTo body = some on → name.toUtf8 = some text →
    pluginRequest name body = some q → Switched b.plugins (b.handle env q).1.plugins text on

/-! ### The target -/

section Target

variable {name e : JsString} {body : Text}

/-- The path that is requested, with a last segment without a slash. -/
theorem requestedPath_plugins (he : 0x2F ∉ e) :
    JsString.requestedPath (js "/api/v1/plugins/" ++ e) =
      if e = js "." then js "/api/v1/plugins/"
      else if e = js ".." then js "/api/v1/"
      else js "/api/v1/plugins/" ++ e := by
  have hsplit : (js "/api/v1/plugins/" ++ e).splitOn 0x2F =
      [[], js "api", js "v1", js "plugins", e] := by
    have hcut : js "/api/v1/plugins/" = js "/api/v1/plugins" ++ [0x2F] := by decide
    rw [hcut, List.append_assoc, List.singleton_append, List.splitOn_append_cons_self,
      List.splitOn_eq_singleton he]
    rfl
  -- only the last segment can be one with a meaning
  have hdots : JsString.resolveDots [] [js "api", js "v1", js "plugins", e] =
      JsString.resolveDots [js "plugins", js "v1", js "api"] [e] := rfl
  rw [JsString.requestedPath, hsplit, List.tail_cons, hdots]
  by_cases hdot : e = js "."
  · subst hdot
    rfl
  by_cases hdotdot : e = js ".."
  · subst hdotdot
    rfl
  rw [JsString.resolveDots, if_neg hdot, if_neg hdotdot, if_neg hdot, if_neg hdotdot]
  show 0x2F :: (js "api" ++ 0x2F :: (js "v1" ++ 0x2F :: (js "plugins" ++ 0x2F :: (e ++ [])))) =
    js "/api/v1/plugins/" ++ e
  rw [List.append_nil]
  rfl

theorem ofNat_inj_of_lt {c d : UInt16} (hc : c.toNat < 0x80) (hd : d.toNat < 0x80)
    (h : UInt8.ofNat c.toNat = .ofNat d.toNat) : c = d := by
  have hnat := congrArg UInt8.toNat h
  rw [UInt8.toNat_ofNat', UInt8.toNat_ofNat'] at hnat
  exact UInt16.toNat_inj.mp (by omega)

theorem ascii_inj {s t : JsString} (hs : ∀ c ∈ s, c.toNat < 0x80) (ht : ∀ c ∈ t, c.toNat < 0x80)
    (h : s.ascii = t.ascii) : s = t := by
  induction s generalizing t with
  | nil => exact (List.map_eq_nil_iff.mp h.symm).symm
  | cons c s ih =>
    cases t with
    | nil => cases h
    | cons d t =>
      obtain ⟨hcd, hst⟩ := List.cons.inj h
      rw [ofNat_inj_of_lt (hs c List.mem_cons_self) (ht d List.mem_cons_self) hcd,
        ih (fun b hb => hs b (List.mem_cons_of_mem c hb))
          (fun b hb => ht b (List.mem_cons_of_mem d hb)) hst]

theorem slash_notMem_ascii {s : JsString} (hs : ∀ c ∈ s, c.toNat < 0x80 ∧ c ≠ 0x2F) :
    (47 : UInt8) ∉ s.ascii := by
  intro hmem
  obtain ⟨c, hc, heq⟩ := List.mem_map.mp hmem
  exact (hs c hc).2 (ofNat_inj_of_lt (d := 0x2F) (hs c hc).1 (by decide) heq)

/-- A segment that is not resolved is taken for the name, if it is not `config`. -/
theorem route_of_segment (body : Text) {path : JsString} (he : ∀ c ∈ e, c.toNat < 0x80 ∧ c ≠ 0x2F)
    (hdot : e ≠ js ".") (hdotdot : e ≠ js "..") (hconfig : e ≠ js "config")
    (hpath : path = js "/api/v1/plugins/" ++ e) :
    ∃ target, (JsString.requestedPath path).toUtf8 = some target ∧
      (ApiRequest.mk .put target body).route = .ok (.togglePlugin e.ascii body) := by
  have hslash : (47 : UInt8) ∉ e.ascii := slash_notMem_ascii he
  have hrequested : JsString.requestedPath path = js "/api/v1/plugins/" ++ e := by
    rw [hpath, requestedPath_plugins fun h => (he _ h).2 rfl, if_neg hdot, if_neg hdotdot]
  have hbase : ∀ c ∈ js "/api/v1/plugins/", c.toNat < 0x80 := JsString.forall_of_all (by decide)
  have hascii : ∀ c ∈ js "/api/v1/plugins/" ++ e, c.toNat < 0x80 := fun c hc =>
    (List.mem_append.mp hc).elim (hbase c) fun hc => (he c hc).1
  refine ⟨pluginsPrefix ++ e.ascii, ?_, ?_⟩
  · rw [hrequested, JsString.toUtf8_of_ascii hascii]
    exact congrArg some (List.map_append ..)
  · have hagents : ¬ agentsPrefix <+: pluginsPrefix ++ e.ascii := fun h =>
      absurd (List.prefix_or_prefix_of_prefix h (List.prefix_append pluginsPrefix _)) (by decide)
    have hsuffix : ¬ utf8 "/config" <:+ pluginsPrefix ++ e.ascii := by
      intro h
      have hcut : utf8 "/config" = 47 :: utf8 "config" := rfl
      rw [hcut] at h
      -- the slash would be one of the name, or the name would be `config`
      rcases suffix_cases (by decide) (by decide) h with ⟨z, hz⟩ | hword
      · exact hslash (hz ▸ List.mem_append_right z List.mem_cons_self)
      · have hcfg : utf8 "config" = (js "config").ascii := rfl
        have hascii' : ∀ c ∈ js "config", c.toNat < 0x80 := JsString.forall_of_all (by decide)
        exact hconfig (ascii_inj (fun c hc => (he c hc).1) hascii' (hword.trans hcfg))
    rw [route_of_put rfl]
    dsimp only
    rw [if_neg fun h => hagents h.1, if_neg fun h => hsuffix h.2,
      if_pos (List.prefix_append pluginsPrefix _), extractPluginNameRaw, List.drop_left,
      if_neg hslash]

end Target

/-! ### The names that get through -/

/-- A name that is written into the path as it stands, and is no other segment of it. -/
structure PlainName (name : JsString) : Prop where
  unreserved : ∀ c ∈ name, JsString.isUnreserved c = true
  ne_dot : name ≠ js "."
  ne_dotdot : name ≠ js ".."
  ne_config : name ≠ js "config"

section Survives

variable {name : JsString} {body : Text} {q : ApiRequest} {text : Bytes}

/-- A plain name is dispatched as it is. -/
theorem PlainName.dispatched (h : PlainName name) (body : Text) :
    name.toUtf8 = some name.ascii ∧ ∃ q, pluginRequest name body = some q ∧
      q.route = .ok (.togglePlugin name.ascii body) := by
  have hspec : ∀ c ∈ name, c.toNat < 0x80 ∧ c ≠ 0x2F := fun c hc =>
    ⟨(JsString.isUnreserved_spec (h.unreserved c hc)).1,
      (JsString.isUnreserved_spec (h.unreserved c hc)).2.1⟩
  obtain ⟨target, htarget, hroute⟩ :=
    route_of_segment body hspec h.ne_dot h.ne_dotdot h.ne_config rfl
  refine ⟨JsString.toUtf8_of_ascii fun c hc => (hspec c hc).1, _,
    pluginRequest_eq_some_iff.mpr ⟨name, target, ?_, htarget, rfl⟩, hroute⟩
  exact JsString.encodeURIComponent_of_unreserved h.unreserved

/-- Where the other segments of the path lead. -/
theorem route_of_dot : (ApiRequest.mk .put (js "/api/v1/plugins/").ascii body).route =
    .ok (.togglePlugin [] body) := by
  rw [route_of_put rfl]
  rfl

theorem route_of_dotdot :
    (ApiRequest.mk .put (js "/api/v1/").ascii body).route = .ok .notFound := by
  rw [route_of_put rfl]
  rfl

theorem route_of_config :
    (ApiRequest.mk .put (js "/api/v1/plugins/" ++ js "config").ascii body).route =
      .ok (.setPluginConfig [] body) := by
  rw [route_of_put rfl]
  rfl

/-- Only a plain name is dispatched as it is. -/
theorem plainName_of_dispatched (htext : name.toUtf8 = some text)
    (hq : pluginRequest name body = some q) (hroute : q.route = .ok (.togglePlugin text body)) :
    PlainName name := by
  obtain ⟨e, target, he, htarget, rfl⟩ := pluginRequest_eq_some_iff.mp hq
  by_cases hplain : ∀ c ∈ name, JsString.isUnreserved c = true
  · rw [JsString.encodeURIComponent_of_unreserved hplain, Option.some.injEq] at he
    subst he
    -- the other segments are sent to a path whose route is another one
    have hsent : ∀ {path : JsString} {route : Route},
        (path.all fun c => decide (c.toNat < 0x80)) = true →
        JsString.requestedPath (js "/api/v1/plugins/" ++ name) = path →
        (ApiRequest.mk .put path.ascii body).route = .ok route →
        route = .togglePlugin text body := by
      rintro path route hall rfl hother
      rw [JsString.toUtf8_of_ascii (JsString.forall_of_all hall), Option.some.injEq] at htarget
      rw [htarget, hroute] at hother
      exact (Except.ok.inj hother).symm
    refine ⟨hplain, ?_, ?_, ?_⟩
    · rintro rfl
      have hpath := (requestedPath_plugins (e := js ".") (by decide)).trans (if_pos rfl)
      have hempty := hsent (by decide) hpath route_of_dot
      rw [Route.togglePlugin.injEq] at hempty
      rw [← hempty.1] at htext
      exact absurd htext (by decide)
    · rintro rfl
      have hpath := (requestedPath_plugins (e := js "..") (by decide)).trans
        ((if_neg (by decide)).trans (if_pos rfl))
      cases hsent (by decide) hpath route_of_dotdot
    · rintro rfl
      have hpath := (requestedPath_plugins (e := js "config") (by decide)).trans
        ((if_neg (by decide)).trans (if_neg (by decide)))
      cases hsent (by decide) hpath route_of_config
  · -- the name is longer in the path, and the bot does not decode it
    obtain ⟨hlonger, hpercent⟩ := JsString.encodeURIComponent_of_escaped hplain he htext
    have hspec := JsString.encodeURIComponent_ascii he
    have hne : ∀ s : JsString, 0x25 ∉ s → e ≠ s := by
      rintro s hs rfl
      exact hs hpercent
    obtain ⟨target', htarget', hroute'⟩ :=
      route_of_segment body hspec (hne _ (by decide)) (hne _ (by decide))
        (hne _ (by decide)) rfl
    obtain rfl := Option.some.inj (htarget'.symm.trans htarget)
    have hname : Route.togglePlugin e.ascii body = .togglePlugin text body :=
      Except.ok.inj (hroute'.symm.trans hroute)
    rw [Route.togglePlugin.injEq] at hname
    rw [← hname.1, JsString.ascii, List.length_map] at hlonger
    exact absurd hlonger (Nat.lt_irrefl _)

theorem cacheKey_ne {agent other : Bytes} (h : other ≠ text) :
    cacheKey agent other ≠ cacheKey agent text := fun heq => h (List.append_cancel_left heq)

/-- The row that is written is that of one plugin. -/
theorem map_agentPlugins_set (backend : Option PluginConfigSqlite) (on : Bool)
    (hnul : (0 : UInt8) ∉ text) {other : Bytes} (hother : other ≠ text) :
    (backend.map fun db => db.setPluginEnabledForAgent true (utf8 "default") text on).map
        (fun db => db.agentPlugins (utf8 "default") other) =
      backend.map fun db => db.agentPlugins (utf8 "default") other := by
  rw [Option.map_map]
  refine congrFun (congrArg Option.map (funext fun db => ?_)) _
  have hdefault : cStr (utf8 "default") = utf8 "default" := by decide
  simp only [Function.comp_apply, PluginConfigSqlite.setPluginEnabledForAgent, if_true, hdefault,
    Function.update_self, cStr_eq_self hnul, Function.update_of_ne hother]

/-- Enabling and disabling change what is kept of one plugin. -/
theorem switched_enable {m : PluginManager} (hnul : (0 : UInt8) ∉ text) :
    Switched m (m.enablePluginForAgent true text (utf8 "default")) text true where
  self := by
    have herased : cacheKey (utf8 "default") text ∉
        (m.enablePluginForAgent true text (utf8 "default")).disabledCache := Finset.notMem_erase _ _
    rw [PluginManager.enabled, if_neg herased]
    cases hdb : m.configBackend with
    | none => simp only [PluginManager.enablePluginForAgent, hdb, Option.map_none]
    | some db =>
      simp only [PluginManager.enablePluginForAgent, hdb, Option.map_some,
        PluginConfigSqlite.isPluginEnabledForAgent, PluginConfigSqlite.setPluginEnabledForAgent,
        if_true, Function.update_self, Option.getD_some]
  others := by
    intro other hother
    unfold PluginManager.kept PluginManager.enablePluginForAgent
    rw [Prod.mk.injEq]
    refine ⟨map_agentPlugins_set m.configBackend true hnul hother, ?_⟩
    simp only [Finset.mem_erase, cacheKey_ne hother, ne_eq, not_false_eq_true, true_and]

theorem switched_disable {m : PluginManager} (hnul : (0 : UInt8) ∉ text) :
    Switched m (m.disablePluginForAgent true text (utf8 "default")) text false where
  self := if_pos (Finset.mem_insert_self _ _)
  others := by
    intro other hother
    unfold PluginManager.kept PluginManager.disablePluginForAgent
    rw [Prod.mk.injEq]
    refine ⟨map_agentPlugins_set m.configBackend false hnul hother, ?_⟩
    simp only [Finset.mem_insert, cacheKey_ne hother, false_or]

/-- `handle_plugin_toggle` switches the plugin of the name it gets. -/
theorem switched_of_togglePlugin {b : Bot} {env : BotSurroundings} {on : Bool}
    (hwrites : env.writes = true) (hon : toggledTo body = some on) (htext : text ≠ [])
    (hnul : (0 : UInt8) ∉ text) :
    Switched b.plugins (b.togglePlugin env text body).1.plugins text on := by
  obtain ⟨j, hj, hvalue⟩ := Option.bind_eq_some_iff.mp hon
  cases hread : j.value getBool (utf8 "enabled") true with
  -- `enabled` is there and is no boolean
  | error e =>
    rw [hread] at hvalue
    cases hvalue
  | ok enabled =>
    rw [hread] at hvalue
    obtain rfl : enabled = on := Option.some.inj hvalue
    rw [Bot.togglePlugin, if_neg htext, hj]
    dsimp only
    rw [hread]
    dsimp only
    -- the statement succeeds, and the flag is that of the body
    cases enabled with
    | true =>
      rw [if_pos rfl, hwrites]
      exact switched_enable hnul
    | false =>
      rw [if_neg Bool.false_ne_true, hwrites]
      exact switched_disable hnul

theorem PlainName.switched (h : PlainName name) (hne : name ≠ []) {b : Bot} {env : BotSurroundings}
    {on : Bool} (hserving : b.serving = true) (hwrites : env.writes = true)
    (hon : toggledTo body = some on) (hroute : q.route = .ok (.togglePlugin name.ascii body)) :
    Switched b.plugins (b.handle env q).1.plugins name.ascii on := by
  have hnul : (0 : UInt8) ∉ name.ascii := by
    intro hmem
    obtain ⟨c, hc, heq⟩ := List.mem_map.mp hmem
    have hc := h.unreserved c hc
    -- a NUL would be an unreserved character
    obtain rfl : c = 0 := ofNat_inj_of_lt (JsString.isUnreserved_spec hc).1 (by decide) heq
    exact absurd hc (by decide)
  -- the answer is built behind the switch and does not touch the plugins
  have hkept : (b.handle env q).1.plugins = (b.togglePlugin env name.ascii body).1.plugins := by
    rw [Bot.handle, if_pos hserving, hroute]
    dsimp only [Bot.run]
    rw [Bot.answer.eq_def]
    split
    · rfl
    split
    · rfl
    · rfl
  rw [hkept]
  exact switched_of_togglePlugin hwrites hon (fun hnil => hne (List.map_eq_nil_iff.mp hnil)) hnul

/-- **A plugin name survives the proxy exactly if it is plain**: none of its characters is escaped,
and it is none of `.`, `..` and `config`. -/
theorem survivesProxy_iff (hne : name ≠ []) : SurvivesProxy name ↔ PlainName name := by
  constructor
  · intro h
    obtain ⟨text, q, htext, hq, hroute⟩ := h.dispatched .malformed
    exact plainName_of_dispatched htext hq hroute
  · intro h
    constructor
    · intro body
      obtain ⟨htext, q, hq, hroute⟩ := h.dispatched body
      exact ⟨name.ascii, q, htext, hq, hroute⟩
    · intro b env body on text q hserving hwrites hon htext hq
      obtain ⟨htext', q', hq', hroute⟩ := h.dispatched body
      obtain rfl := Option.some.inj (htext'.symm.trans htext)
      obtain rfl := Option.some.inj (hq'.symm.trans hq)
      exact h.switched hne hserving hwrites hon hroute

theorem survivesProxy_simple_test : SurvivesProxy (js "simple_test") :=
  (survivesProxy_iff (by decide)).mpr
    ⟨JsString.forall_of_all (by decide), by decide, by decide, by decide⟩

/-- A name with a space is a name with a percent sign to the bot. -/
theorem space_lost : ¬ SurvivesProxy (js "my plugin") := by
  intro h
  obtain ⟨text, q, htext, hq, hroute⟩ := h.dispatched .malformed
  have hplain := plainName_of_dispatched htext hq hroute
  exact absurd (hplain.unreserved 0x20 (by decide)) (by decide)

end Survives

end Aestival
