import Aestival.Management.ApiRoutes

/-!
# The ids of the agent routes

Which requests reach a handler of one agent, and with which id. The path of an action is
`/api/v1/agents/`, the id, and for all but the removal a slash and a word. `handle` tests prefix and
suffix one by one, and both tests take the same slash where the id is missing: a path that ends with
the word right behind the prefix reaches the action with the word as its id. Apart from these four
paths, requests and ids belong together as they should (`reaches_iff_path_iff`).
-/

namespace Aestival

open Bytes

/-- The handlers of one agent. -/
inductive AgentAction where
  | start
  | stop
  | config
  | metrics
  | remove
  deriving DecidableEq, Repr

namespace AgentAction

def method : AgentAction → Verb
  | .start | .stop => .post
  | .config => .put
  | .metrics => .get
  | .remove => .delete

/-- The last segment of the path. The removal has none. -/
def word? : AgentAction → Option Bytes
  | .start => some (utf8 "start")
  | .stop => some (utf8 "stop")
  | .config => some (utf8 "config")
  | .metrics => some (utf8 "metrics")
  | .remove => none

/-- The path of the action on the agent `id`. -/
def path (a : AgentAction) (id : Bytes) : Bytes :=
  match a.word? with
  | some word => agentsPrefix ++ id ++ utf8 "/" ++ word
  | none => agentsPrefix ++ id

end AgentAction

/-- The action of one agent that the route is, with the id it is called with. -/
def Route.invokes : Route → Option (AgentAction × Bytes)
  | .change (.start id) => some (.start, id)
  | .change (.stop id) => some (.stop, id)
  | .change (.config id _) => some (.config, id)
  | .change (.remove id) => some (.remove, id)
  | .read (.agentMetrics id) => some (.metrics, id)
  | _ => none

/-- The dispatcher calls the action with this id. -/
def ApiRequest.Reaches (req : ApiRequest) (a : AgentAction) (id : Bytes) : Prop :=
  ∃ route, req.route = .ok route ∧ route.invokes = some (a, id)

/-! ### Parts of the target -/

section Ids

variable {target word id : Bytes}

/-- The slash in front of the word is one of its own, or the last octet of the prefix. -/
theorem suffix_cases (hword : (47 : UInt8) ∉ word) {pre rest : Bytes}
    (hlast : pre.getLast? = some 47) (h : (47 :: word) <:+ pre ++ rest) :
    (∃ z, rest = z ++ 47 :: word) ∨ rest = word := by
  obtain ⟨x, hx⟩ := h
  rcases List.append_eq_append_iff.mp hx with ⟨z, hbase, hz⟩ | ⟨z, -, hz⟩
  · cases z with
    | nil => exact .inl ⟨[], hz.symm⟩
    | cons c z =>
      rw [List.cons_append, List.cons.injEq] at hz
      -- behind a slash of its own the prefix would end with an octet of the word
      cases hrev : z.getLast? with
      | none =>
        rw [List.getLast?_eq_none_iff] at hrev
        subst hrev
        exact .inr hz.2.symm
      | some d =>
        have hd : pre.getLast? = some d := by
          rw [hbase, List.getLast?_append, List.getLast?_cons, hrev]
          rfl
        obtain rfl : d = 47 := Option.some.inj (hd.symm.trans hlast)
        refine absurd ?_ hword
        rw [hz.2]
        exact List.mem_append_left _ (List.mem_of_getLast? hrev)
  · exact .inl ⟨z, hz⟩

/-- A text is taken for an id if it is a valid one. -/
theorem validId_eq_ok_iff {s e : Bytes} :
    (if isValidAgentId s then .ok s else .error (.runtime e) : Except Failure Bytes) = .ok id ↔
      isValidAgentId id = true ∧ s = id := by
  split
  next hvalid =>
    rw [Except.ok.injEq]
    exact ⟨fun h => ⟨h ▸ hvalid, h⟩, And.right⟩
  next hvalid =>
    refine iff_of_false (by simp) ?_
    rintro ⟨hid, rfl⟩
    exact hvalid hid

/-- The id is what stands between prefix and suffix; where they overlap, it is the word itself. -/
theorem extractId_eq_ok_iff (hword : (47 : UInt8) ∉ word) (hbase : agentsPrefix <+: target)
    (hsuffix : (47 :: word) <:+ target) :
    extractId target (47 :: word) = .ok id ↔ isValidAgentId id = true ∧
      (target = agentsPrefix ++ id ++ 47 :: word ∨ target = agentsPrefix ++ id ∧ id = word) := by
  obtain ⟨rest, rfl⟩ := hbase
  unfold extractId
  rw [List.drop_left]
  -- a slash of its own, or the last one of the prefix: then the subtraction wraps around and the
  -- word itself is taken
  rcases suffix_cases hword (by decide) hsuffix with ⟨z, rfl⟩ | rfl
  · have hlong : ¬ (agentsPrefix ++ (z ++ 47 :: word)).length <
        agentsPrefix.length + (47 :: word).length := by
      simp only [List.length_append, List.length_cons]
      omega
    have htake : (agentsPrefix ++ (z ++ 47 :: word)).length - agentsPrefix.length -
        (47 :: word).length = z.length := by
      simp only [List.length_append, List.length_cons]
      omega
    simp only [hlong, if_false, htake, List.take_left]
    rw [validId_eq_ok_iff]
    refine and_congr_right fun _ => ⟨fun h => .inl (by rw [h, List.append_assoc]), ?_⟩
    rintro (h | ⟨h, hid⟩)
    · rw [List.append_assoc] at h
      exact List.append_cancel_right (List.append_cancel_left h)
    · have hlen := congrArg List.length (List.append_cancel_left h)
      rw [hid, List.length_append, List.length_cons] at hlen
      omega
  · have hshort : (agentsPrefix ++ rest).length < agentsPrefix.length + (47 :: rest).length := by
      simp only [List.length_append, List.length_cons]
      omega
    simp only [hshort, if_true]
    rw [validId_eq_ok_iff]
    refine and_congr_right fun _ => ⟨?_, ?_⟩
    · rintro rfl
      exact .inr ⟨rfl, rfl⟩
    · rintro (h | ⟨-, hid⟩)
      · rw [List.append_assoc] at h
        have hlen := congrArg List.length (List.append_cancel_left h)
        rw [List.length_append, List.length_cons] at hlen
        omega
      · exact hid.symm

theorem extractIdRaw_eq_ok_iff (hbase : agentsPrefix <+: target) :
    extractIdRaw target = .ok id ↔ isValidAgentId id = true ∧ target = agentsPrefix ++ id := by
  obtain ⟨rest, rfl⟩ := hbase
  unfold extractIdRaw
  rw [List.drop_left]
  dsimp only
  rw [validId_eq_ok_iff, List.append_cancel_left_eq, @eq_comm _ rest id]

end Ids

/-! ### The dispatcher -/

section Dispatch

variable {req : ApiRequest} {a : AgentAction} {id word : Bytes}

/-- What the action is called with, on a request that gets to it. -/
def AgentAction.extract (a : AgentAction) (target : Bytes) : Except Failure Bytes :=
  match a.word? with
  | some word => extractId target (utf8 "/" ++ word)
  | none => extractIdRaw target

/-- The tests of the dispatcher in front of the action. -/
structure AgentAction.Meets (a : AgentAction) (req : ApiRequest) : Prop where
  method : req.method = a.method
  behind : agentsPrefix <+: req.target
  ends : ∀ word, a.word? = some word → (utf8 "/" ++ word) <:+ req.target

theorem map_eq_ok {α β : Type} {x : Except Failure α} {f : α → β} {b : β}
    (h : (do return f (← x)) = Except.ok b) : ∃ a, x = .ok a ∧ f a = b := by
  cases x with
  | error e => cases h
  | ok a => exact ⟨a, rfl, Except.ok.inj h⟩

theorem route_of_post (h : req.method = .post) : req.route =
    if req.target = utf8 "/api/v1/agents" then .ok (.change (.create req.body))
    else if agentsPrefix <+: req.target ∧ utf8 "/start" <:+ req.target then do
      return .change (.start (← extractId req.target (utf8 "/start")))
    else if agentsPrefix <+: req.target ∧ utf8 "/stop" <:+ req.target then do
      return .change (.stop (← extractId req.target (utf8 "/stop")))
    else .ok .notFound := by
  simp only [ApiRequest.route, h, reduceCtorEq, and_false, and_true, if_false]

theorem route_of_put (h : req.method = .put) : req.route =
    if agentsPrefix <+: req.target ∧ utf8 "/config" <:+ req.target then do
      return .change (.config (← extractId req.target (utf8 "/config")) req.body)
    else if pluginsPrefix <+: req.target ∧ utf8 "/config" <:+ req.target then
      .ok (.setPluginConfig (extractPluginName req.target (utf8 "/config")) req.body)
    else if pluginsPrefix <+: req.target then
      .ok (.togglePlugin (extractPluginNameRaw req.target) req.body)
    else .ok .notFound := by
  simp only [ApiRequest.route, h, reduceCtorEq, and_false, and_true, if_false]

theorem route_of_delete (h : req.method = .delete) : req.route =
    if agentsPrefix <+: req.target then do return .change (.remove (← extractIdRaw req.target))
    else .ok .notFound := by
  simp only [ApiRequest.route, h, reduceCtorEq, and_false, and_true, if_false]

/-- A path of the agents is no path of another kind. -/
theorem not_prefix_of_agents {p : Bytes} (hp : ¬ p <+: agentsPrefix ∧ ¬ agentsPrefix <+: p)
    (hbase : agentsPrefix <+: req.target) : ¬ p <+: req.target := fun h =>
  (List.prefix_or_prefix_of_prefix h hbase).elim hp.1 hp.2

theorem ne_of_agents {p : Bytes} (hp : ¬ agentsPrefix <+: p)
    (hbase : agentsPrefix <+: req.target) : req.target ≠ p := by
  rintro rfl
  exact hp hbase

theorem route_of_get (h : req.method = .get) (hbase : agentsPrefix <+: req.target) : req.route =
    if utf8 "/metrics" <:+ req.target then do
      return .read (.agentMetrics (← extractId req.target (utf8 "/metrics")))
    else .ok .notFound := by
  -- the target begins with the prefix of the agents, so no test of another path succeeds
  have hhealth := ne_of_agents (p := utf8 "/api/v1/health") (by decide) hbase
  have hagents := ne_of_agents (p := utf8 "/api/v1/agents") (by decide) hbase
  have hlogs := not_prefix_of_agents (p := utf8 "/api/v1/logs") (by decide) hbase
  have hconvs := ne_of_agents (p := utf8 "/api/v1/conversations") (by decide) hbase
  have hconv := not_prefix_of_agents (p := conversationsPrefix) (by decide) hbase
  have hmetrics := ne_of_agents (p := utf8 "/api/v1/metrics") (by decide) hbase
  have hstats := ne_of_agents (p := utf8 "/api/v1/tokens/stats") (by decide) hbase
  have hplugin := not_prefix_of_agents (p := pluginsPrefix) (by decide) hbase
  have hplugins := not_prefix_of_agents (p := utf8 "/api/v1/plugins") (by decide) hbase
  simp only [ApiRequest.route, h, hbase, hhealth, hagents, hlogs, hconvs, hconv, hmetrics, hstats,
    hplugin, hplugins, reduceCtorEq, and_false, false_and, true_and, and_true, if_false]

/-- A `GET` of another path gets to no agent. -/
theorem invokes_of_get (h : req.method = .get) (hbase : ¬ agentsPrefix <+: req.target)
    {route : Route} (hroute : req.route = .ok route) : route.invokes = none := by
  simp only [ApiRequest.route, h, hbase, reduceCtorEq, and_false, false_and, and_true,
    if_false] at hroute
  have hok : ∀ {r : Route}, r.invokes = none → Except.ok r = Except.ok (ε := Failure) route →
      route.invokes = none := fun hr h => Except.ok.inj h ▸ hr
  -- one test of the dispatcher after the other
  split at hroute
  · exact hok rfl hroute
  split at hroute
  · exact hok rfl hroute
  split at hroute
  · exact hok rfl hroute
  split at hroute
  · exact hok rfl hroute
  split at hroute
  · obtain ⟨name, -, rfl⟩ := map_eq_ok hroute
    rfl
  split at hroute
  · exact hok rfl hroute
  split at hroute
  · exact hok rfl hroute
  split at hroute
  · exact hok rfl hroute
  split at hroute
  · exact hok rfl hroute
  · exact hok rfl hroute

theorem route_of_other (h : req.method = .other) : req.route = .ok .notFound := by
  simp only [ApiRequest.route, h, reduceCtorEq, and_false, if_false]

/-- A call behind the tests of an action that a word ends. -/
theorem AgentAction.Meets.of_word (hword : a.word? = some word)
    (hm : req.method = a.method) (hbase : agentsPrefix <+: req.target)
    (hsuffix : (utf8 "/" ++ word) <:+ req.target) : a.Meets req where
  method := hm
  behind := hbase
  ends := by
    intro word' hword'
    rw [hword, Option.some.injEq] at hword'
    exact hword' ▸ hsuffix

/-- A route that is built from the id in front of a word belongs to the action of this word. -/
theorem meets_of_extractId {b : AgentAction} {route : Route} {f : Bytes → Route}
    (hroute : (do return f (← extractId req.target (utf8 "/" ++ word))) = Except.ok route)
    (hinv : route.invokes = some (a, id)) (hf : ∀ i, (f i).invokes = some (b, i))
    (hword : b.word? = some word) (hm : req.method = b.method)
    (htests : agentsPrefix <+: req.target ∧ (utf8 "/" ++ word) <:+ req.target) :
    a.Meets req ∧ a.extract req.target = .ok id := by
  obtain ⟨i, hi, rfl⟩ := map_eq_ok hroute
  rw [hf i, Option.some.injEq, Prod.mk.injEq] at hinv
  obtain ⟨rfl, rfl⟩ := hinv
  refine ⟨.of_word hword hm htests.1 htests.2, ?_⟩
  rw [AgentAction.extract, hword]
  exact hi

/-- Only the tests of an action lead to it. -/
theorem meets_of_reaches (h : req.Reaches a id) :
    a.Meets req ∧ a.extract req.target = .ok id := by
  -- the tests of each method, in the order of the source
  obtain ⟨route, hroute, hinv⟩ := h
  cases hm : req.method with
  | get =>
    by_cases hbase : agentsPrefix <+: req.target
    · rw [route_of_get hm hbase] at hroute
      split at hroute
      next hsuffix =>
        exact meets_of_extractId (b := .metrics) hroute hinv (fun _ => rfl) rfl hm ⟨hbase, hsuffix⟩
      next => cases hroute; cases hinv
    · rw [invokes_of_get hm hbase hroute] at hinv
      cases hinv
  | post =>
    rw [route_of_post hm] at hroute
    split at hroute
    next => cases hroute; cases hinv
    split at hroute
    next htests =>
      exact meets_of_extractId (b := .start) hroute hinv (fun _ => rfl) rfl hm htests
    split at hroute
    next htests =>
      exact meets_of_extractId (b := .stop) hroute hinv (fun _ => rfl) rfl hm htests
    next => cases hroute; cases hinv
  | put =>
    rw [route_of_put hm] at hroute
    split at hroute
    next htests =>
      exact meets_of_extractId (b := .config) hroute hinv (fun _ => rfl) rfl hm htests
    split at hroute
    next => cases hroute; cases hinv
    split at hroute
    next => cases hroute; cases hinv
    next => cases hroute; cases hinv
  | delete =>
    rw [route_of_delete hm] at hroute
    split at hroute
    next hbase =>
      obtain ⟨i, hi, rfl⟩ := map_eq_ok hroute
      cases hinv
      refine ⟨⟨hm, hbase, fun word hword => ?_⟩, hi⟩
      cases hword
    next => cases hroute; cases hinv
  | other =>
    rw [route_of_other hm] at hroute
    cases hroute
    cases hinv

/-- Behind its tests an action is called with what is extracted. -/
theorem reaches_of_meets (h : a.Meets req) (hid : a.extract req.target = .ok id) :
    req.Reaches a id := by
  have hagents := ne_of_agents (p := utf8 "/api/v1/agents") (by decide) h.behind
  cases a with
  | start =>
    have hid : extractId req.target (utf8 "/start") = .ok id := hid
    refine ⟨.change (.start id), ?_, rfl⟩
    rw [route_of_post h.method, if_neg hagents, if_pos ⟨h.behind, h.ends _ rfl⟩, hid]
    rfl
  | stop =>
    have hid : extractId req.target (utf8 "/stop") = .ok id := hid
    refine ⟨.change (.stop id), ?_, rfl⟩
    -- the test for the start comes first, and must fail
    have hstart : ¬ utf8 "/start" <:+ req.target := by
      intro hstart
      have hstop : utf8 "/stop" <:+ req.target := h.ends _ rfl
      exact absurd (List.suffix_or_suffix_of_suffix hstart hstop) (by decide)
    rw [route_of_post h.method, if_neg hagents, if_neg fun h => hstart h.2,
      if_pos ⟨h.behind, h.ends _ rfl⟩, hid]
    rfl
  | config =>
    have hid : extractId req.target (utf8 "/config") = .ok id := hid
    refine ⟨.change (.config id req.body), ?_, rfl⟩
    rw [route_of_put h.method, if_pos ⟨h.behind, h.ends _ rfl⟩, hid]
    rfl
  | metrics =>
    have hid : extractId req.target (utf8 "/metrics") = .ok id := hid
    refine ⟨.read (.agentMetrics id), ?_, rfl⟩
    have hsuffix : utf8 "/metrics" <:+ req.target := h.ends _ rfl
    rw [route_of_get h.method h.behind, if_pos hsuffix, hid]
    rfl
  | remove =>
    have hid : extractIdRaw req.target = .ok id := hid
    refine ⟨.change (.remove id), ?_, rfl⟩
    rw [route_of_delete h.method, if_pos h.behind, hid]
    rfl

theorem reaches_iff : req.Reaches a id ↔ a.Meets req ∧ a.extract req.target = .ok id :=
  ⟨meets_of_reaches, fun h => reaches_of_meets h.1 h.2⟩

/-- The path ends with the word of an action, right behind the prefix. -/
def ApiRequest.LacksId (req : ApiRequest) : Prop :=
  ∃ a word, AgentAction.word? a = some word ∧ req.method = a.method ∧
    req.target = agentsPrefix ++ word

/-- A word is an id, and has no slash. -/
theorem AgentAction.word_spec (h : a.word? = some word) :
    isValidAgentId word = true ∧ (47 : UInt8) ∉ word := by
  cases a <;> cases h <;> decide

/-- Which requests reach an action, and with which id. -/
theorem reaches_iff_or : req.Reaches a id ↔ req.method = a.method ∧ isValidAgentId id = true ∧
    (req.target = a.path id ∨ a.word? = some id ∧ req.target = agentsPrefix ++ id) := by
  rw [reaches_iff]
  cases hword : a.word? with
  -- routes with a word behind the id: the slash of the prefix may serve for both
  | some word =>
    obtain ⟨-, hslash⟩ := AgentAction.word_spec hword
    have hpath : a.path id = agentsPrefix ++ id ++ 47 :: word := by
      simp only [AgentAction.path, hword]
      rw [List.append_assoc (agentsPrefix ++ id)]
      rfl
    have hextract : a.extract req.target = extractId req.target (47 :: word) := by
      simp only [AgentAction.extract, hword]
      rfl
    rw [hpath, hextract, Option.some.injEq]
    constructor
    · rintro ⟨hmeets, hid⟩
      obtain ⟨hvalid, htarget⟩ :=
        (extractId_eq_ok_iff hslash hmeets.behind (hmeets.ends _ hword)).mp hid
      exact ⟨hmeets.method, hvalid, htarget.imp_right fun h => ⟨h.2.symm, h.1⟩⟩
    · rintro ⟨hm, hvalid, htarget⟩
      have hbase : agentsPrefix <+: req.target := by
        rcases htarget with htarget | ⟨-, htarget⟩
        · rw [htarget, List.append_assoc]
          exact List.prefix_append _ _
        · rw [htarget]
          exact List.prefix_append _ _
      have hsuffix : (utf8 "/" ++ word) <:+ req.target := by
        rcases htarget with htarget | ⟨rfl, htarget⟩
        · rw [htarget]
          exact List.suffix_append _ _
        · -- the last octet of the prefix is the slash
          rw [htarget]
          exact ⟨utf8 "/api/v1/agents", by rw [← List.append_assoc]; rfl⟩
      refine ⟨.of_word hword hm hbase hsuffix, ?_⟩
      exact (extractId_eq_ok_iff hslash hbase hsuffix).mpr
        ⟨hvalid, htarget.imp_right fun h => ⟨h.2, h.1.symm⟩⟩
  -- routes that end with the id
  | none =>
    have hpath : a.path id = agentsPrefix ++ id := by simp only [AgentAction.path, hword]
    have hextract : a.extract req.target = extractIdRaw req.target := by
      simp only [AgentAction.extract, hword]
    rw [hpath, hextract]
    constructor
    · rintro ⟨hmeets, hid⟩
      obtain ⟨hvalid, htarget⟩ := (extractIdRaw_eq_ok_iff hmeets.behind).mp hid
      exact ⟨hmeets.method, hvalid, .inl htarget⟩
    · rintro ⟨hm, hvalid, htarget | ⟨hnone, -⟩⟩
      · have hbase : agentsPrefix <+: req.target := htarget ▸ List.prefix_append _ _
        refine ⟨⟨hm, hbase, fun word h => ?_⟩, ?_⟩
        · rw [hword] at h
          cases h
        · exact (extractIdRaw_eq_ok_iff hbase).mpr ⟨hvalid, htarget⟩
      · cases hnone

/-- **An action is called with the id of its path, for that path and for no other**, exactly on the
requests whose path does not put the word of an action where the id should be. -/
theorem reaches_iff_path_iff (req : ApiRequest) :
    (∀ a id, req.Reaches a id ↔
      req.method = a.method ∧ req.target = a.path id ∧ isValidAgentId id = true) ↔
    ¬ req.LacksId := by
  constructor
  · rintro h ⟨a, word, hword, hm, htarget⟩
    have hvalid := (AgentAction.word_spec hword).1
    obtain ⟨-, hpath, -⟩ := (h a word).mp (reaches_iff_or.mpr ⟨hm, hvalid, .inr ⟨hword, htarget⟩⟩)
    -- the path of the action is longer
    have hlen := congrArg List.length (htarget.symm.trans hpath)
    simp only [AgentAction.path, hword, List.length_append] at hlen
    have hslash : (utf8 "/").length = 1 := by decide
    omega
  · intro h a id
    rw [reaches_iff_or]
    constructor
    · rintro ⟨hm, hvalid, htarget | ⟨hword, htarget⟩⟩
      · exact ⟨hm, htarget, hvalid⟩
      · exact absurd ⟨a, id, hword, hm, htarget⟩ h
    · rintro ⟨hm, htarget, hvalid⟩
      exact ⟨hm, hvalid, .inl htarget⟩

/-- `POST /api/v1/agents/start` reaches the start of an agent, and is not the path of one. -/
theorem reaches_without_id :
    ¬ ∀ a id, (ApiRequest.mk .post (utf8 "/api/v1/agents/start") .malformed).Reaches a id ↔
      Verb.post = a.method ∧ utf8 "/api/v1/agents/start" = a.path id ∧
        isValidAgentId id = true := by
  intro h
  obtain ⟨-, hpath, -⟩ := (h .start (utf8 "start")).mp ⟨.change (.start (utf8 "start")), rfl, rfl⟩
  exact absurd hpath (by decide)

end Dispatch

end Aestival
