import Aestival.Management.RoutedIds
import Aestival.Web.ProxyRetry

/-!
# The ids of agents in four places

Four checks decide whether a text is the id of an agent: `sanitizeAgentId` of the backend,
`AGENT_ID_RE` that backend and frontend share, `is_valid_agent_id` of the management API, and the
checks of `add_agent`. The last three accept the same texts. The first one tells its callers that it
rejects a text by the answer `_invalid_`, which is an id itself: an agent of this name passes the
other checks, and the routes of the web interface refuse it (`agentIds_agree_iff`).
-/

namespace Aestival

open Bytes Express

/-! ### The shared rules -/

/-- `AGENT_ID_RE` matches. -/
def agentIdRe (id : JsString) : Bool :=
  1 ≤ id.length ∧ id.length ≤ 64 ∧ id.all isAgentIdChar

/-- `validateAgentId`: what is wrong with the id. -/
def validateAgentId (id : JsString) : Option JsString :=
  if id = [] then some (js "Agent ID 不能为空")
  else if id.length > 64 then some (js "Agent ID 过长（最多 64 字符）")
  else if !agentIdRe id then some (js "Agent ID 只能包含英文、数字、连字符和下划线")
  else none

theorem agentIdRe_iff {id : JsString} :
    agentIdRe id = true ↔ 1 ≤ id.length ∧ id.length ≤ 64 ∧ ∀ c ∈ id, isAgentIdChar c = true := by
  simp only [agentIdRe, decide_eq_true_eq, List.all_eq_true]

/-- Nothing is wrong with the ids the expression matches, and with no others. -/
theorem validateAgentId_eq_none_iff {id : JsString} :
    validateAgentId id = none ↔ agentIdRe id = true := by
  unfold validateAgentId
  split
  · next hnil =>
    -- the tests for length and emptiness say what the expression says
    subst hnil
    exact iff_of_false nofun (by decide)
  split
  · next hlong =>
    refine iff_of_false nofun fun hre => ?_
    exact absurd (agentIdRe_iff.mp hre).2.1 (Nat.not_le.mpr hlong)
  split
  · next hre =>
    refine iff_of_false nofun fun h => ?_
    rw [h] at hre
    cases hre
  · next hre => exact iff_of_true rfl (by simpa using hre)

/-! ### The four checks -/

/-- Where an id is checked. -/
inductive IdCheck where
  /-- `sanitizeAgentId`, by its callers -/
  | sanitize
  /-- `AGENT_ID_RE` -/
  | shared
  /-- `is_valid_agent_id` -/
  | api
  /-- `add_agent`, in a registry that does not have the agent yet -/
  | registry
  deriving DecidableEq, Repr

/-- The check lets the text pass. The bot has it in UTF-8. -/
def IdCheck.Accepts : IdCheck → JsString → Prop
  | .sanitize, s => sanitizeAgentId s ≠ js "_invalid_"
  | .shared, s => agentIdRe s = true
  | .api, s => ∃ id, s.toUtf8 = some id ∧ isValidAgentId id = true
  | .registry, s =>
    ∃ id, s.toUtf8 = some id ∧ ∀ r : Registry, id ∉ r.agents → r.checkNewId id = .ok ()

/-! ### The characters -/

/-- Backend and bot mean the same characters. -/
theorem isIdChar_ofNat {c : UInt16} (hc : c.toNat < 0x80) :
    Registry.isIdChar (.ofNat c.toNat) = isAgentIdChar c := by
  -- below 128 the unit and the octet have one number
  have hoctet : (UInt8.ofNat c.toNat).toNat = c.toNat := by
    rw [UInt8.toNat_ofNat']
    omega
  have heq : ∀ n : Nat, n < 0x80 →
      (UInt8.ofNat c.toNat = .ofNat n ↔ c = .ofNat n) := by
    intro n hn
    rw [← UInt8.toNat_inj, ← UInt16.toNat_inj, hoctet, UInt8.toNat_ofNat', UInt16.toNat_ofNat']
    omega
  have hunderscore := heq 95 (by decide)
  have hhyphen := heq 45 (by decide)
  rw [Bool.eq_iff_iff]
  simp only [Registry.isIdChar, isAgentIdChar, Bool.or_eq_true, Bool.and_eq_true,
    decide_eq_true_eq, UInt8.le_iff_toNat_le, UInt16.le_iff_toNat_le, hoctet]
  exact or_congr (or_congr Iff.rfl hunderscore) hhyphen

theorem lt_of_isAgentIdChar {c : UInt16} (h : isAgentIdChar c = true) : c.toNat < 0x80 := by
  simp only [isAgentIdChar, Bool.or_eq_true, Bool.and_eq_true, decide_eq_true_eq,
    UInt16.le_iff_toNat_le] at h
  rcases h with (((h | h) | h) | rfl) | rfl
  · exact Nat.lt_of_le_of_lt h.2 (by decide)
  · exact Nat.lt_of_le_of_lt h.2 (by decide)
  · exact Nat.lt_of_le_of_lt h.2 (by decide)
  · decide
  · decide

theorem lt_of_isIdChar {b : UInt8} (h : Registry.isIdChar b = true) : b.toNat < 0x80 ∧ b ≠ 46 := by
  simp only [Registry.isIdChar, Bool.or_eq_true, Bool.and_eq_true, decide_eq_true_eq,
    UInt8.le_iff_toNat_le] at h
  -- each range of the class is below 128 and has no dot
  have hrange : ∀ lo hi : Nat, lo ≤ b.toNat → b.toNat ≤ hi → hi < 0x80 → 46 < lo →
      b.toNat < 0x80 ∧ b ≠ 46 := by
    intro lo hi hlo hhi h80 h46
    refine ⟨by omega, ?_⟩
    rintro rfl
    exact absurd (Nat.lt_of_lt_of_le h46 hlo) (by decide)
  rcases h with (((h | h) | h) | rfl) | rfl
  · exact hrange _ _ h.1 h.2 (by decide) (by decide)
  · exact hrange _ _ h.1 h.2 (by decide) (by decide)
  · exact hrange _ _ h.1 h.2 (by decide) (by decide)
  · decide
  · decide

/-! ### Three checks that agree -/

section Agree

variable {s : JsString} {id : Bytes}

theorem isValidAgentId_iff : isValidAgentId id = true ↔
    id ≠ [] ∧ id.length ≤ 64 ∧ ∀ b ∈ id, Registry.isIdChar b = true := by
  unfold isValidAgentId
  rw [Bool.and_eq_true, Bool.and_eq_true, decide_eq_true_iff, decide_eq_true_iff, List.all_eq_true,
    and_assoc]
  exact Iff.rfl

/-- The octets of an id are its characters. -/
theorem toUtf8_of_agentIdRe (h : agentIdRe s = true) : s.toUtf8 = some s.ascii :=
  JsString.toUtf8_of_ascii fun c hc => lt_of_isAgentIdChar ((agentIdRe_iff.mp h).2.2 c hc)

theorem isValidAgentId_ascii (hs : ∀ c ∈ s, c.toNat < 0x80) :
    isValidAgentId s.ascii = agentIdRe s := by
  -- octet by octet the same text
  have hlength : s.ascii.length = s.length := List.length_map ..
  have hne : s.ascii ≠ [] ↔ 1 ≤ s.length := by
    rw [← List.length_pos_iff, hlength]
    exact Iff.rfl
  rw [Bool.eq_iff_iff, isValidAgentId_iff, agentIdRe_iff, hne, hlength]
  refine and_congr_right fun _ => and_congr_right fun _ => ?_
  constructor
  · intro h c hc
    rw [← isIdChar_ofNat (hs c hc)]
    exact h _ (List.mem_map_of_mem hc)
  · intro h b hb
    obtain ⟨c, hc, rfl⟩ := List.mem_map.mp hb
    rw [isIdChar_ofNat (hs c hc)]
    exact h c hc

/-- **The management API accepts what the shared expression matches.** -/
theorem accepts_api_iff : IdCheck.api.Accepts s ↔ agentIdRe s = true := by
  constructor
  · rintro ⟨id, hid, hvalid⟩
    have hs := JsString.ascii_of_toUtf8 hid fun b hb =>
      (lt_of_isIdChar ((isValidAgentId_iff.mp hvalid).2.2 b hb)).1
    obtain rfl := Option.some.inj ((JsString.toUtf8_of_ascii hs).symm.trans hid)
    rw [← isValidAgentId_ascii hs]
    exact hvalid
  · intro h
    refine ⟨s.ascii, toUtf8_of_agentIdRe h, ?_⟩
    rw [isValidAgentId_ascii fun c hc => lt_of_isAgentIdChar ((agentIdRe_iff.mp h).2.2 c hc)]
    exact h

/-- No other octets pass the check of the bot than those of a text. -/
theorem exists_toUtf8_of_isValidAgentId (h : isValidAgentId id = true) :
    ∃ s : JsString, s.toUtf8 = some id := by
  have hsmall : ∀ b ∈ id, b.toNat < 0x80 := fun b hb =>
    (lt_of_isIdChar ((isValidAgentId_iff.mp h).2.2 b hb)).1
  refine ⟨id.map fun b => .ofNat b.toNat, ?_⟩
  rw [JsString.toUtf8_of_ascii, JsString.ascii, List.map_map]
  · refine congrArg some (List.map_id'' (fun b => ?_) id)
    have hlt := b.toNat_lt
    rw [Function.comp_apply, UInt16.toNat_ofNat', ← UInt8.toNat_inj, UInt8.toNat_ofNat']
    omega
  · intro c hc
    obtain ⟨b, hb, rfl⟩ := List.mem_map.mp hc
    have hb80 := hsmall b hb
    rw [UInt16.toNat_ofNat']
    omega

/-- The checks of `add_agent`, in a registry without the agent. That of the dots never fails, as no
id has one. -/
theorem checkNewId_eq_ok_iff {r : Registry} (hnew : id ∉ r.agents) :
    r.checkNewId id = .ok () ↔ isValidAgentId id = true := by
  rw [isValidAgentId_iff, Registry.checkNewId]
  split
  · next hnil => exact iff_of_false (by simp) fun h => h.1 hnil
  · next hne =>
    cases hfind : List.find? (fun c => !Registry.isIdChar c) id with
    -- a character that the bot does not allow
    | some c =>
      refine iff_of_false (by simp) fun h => ?_
      have hchar := List.find?_some hfind
      rw [h.2.2 c (List.mem_of_find?_eq_some hfind)] at hchar
      cases hchar
    | none =>
      have hall : ∀ b ∈ id, Registry.isIdChar b = true := by
        simpa using List.find?_eq_none.mp hfind
      -- a dot would be such a character, so the test for two of them never fails
      have hdots : Bytes.contains id (utf8 "..") ≠ true := by
        intro hcontains
        have hmem : (46 : UInt8) ∈ id :=
          (of_decide_eq_true hcontains).subset (List.mem_cons_self ..)
        exact (lt_of_isIdChar (hall 46 hmem)).2 rfl
      dsimp only
      rw [if_neg hdots]
      -- the length is the last test
      by_cases hlong : id.length > 64
      · rw [if_pos hlong]
        exact iff_of_false (by simp) fun h => absurd h.2.1 (Nat.not_le.mpr hlong)
      · rw [if_neg hlong]
        exact iff_of_true rfl ⟨hne, Nat.not_lt.mp hlong, hall⟩

/-- **The registry accepts the same ids.** -/
theorem accepts_registry_iff : IdCheck.registry.Accepts s ↔ agentIdRe s = true := by
  rw [← accepts_api_iff]
  refine exists_congr fun id => and_congr_right fun _ => ?_
  constructor
  · intro h
    have hnone : id ∉ (⟨∅, []⟩ : Registry).agents := AList.notMem_empty id
    exact (checkNewId_eq_ok_iff hnone).mp (h _ hnone)
  · exact fun hvalid r hnew => (checkNewId_eq_ok_iff hnew).mpr hvalid

/-- What `sanitizeAgentId` answers. -/
theorem sanitizeAgentId_eq (s : JsString) :
    sanitizeAgentId s = if agentIdRe s then s else js "_invalid_" := by
  unfold sanitizeAgentId agentIdRe
  by_cases h : 1 ≤ s.length ∧ s.length ≤ 64 ∧ s.all isAgentIdChar = true
  · rw [if_pos h, if_pos (decide_eq_true h)]
  · rw [if_neg h, if_neg fun hre => h (of_decide_eq_true hre)]

/-- The callers take the id `_invalid_` for a text that was rejected. -/
theorem accepts_sanitize_iff :
    IdCheck.sanitize.Accepts s ↔ agentIdRe s = true ∧ s ≠ js "_invalid_" := by
  change sanitizeAgentId s ≠ js "_invalid_" ↔ _
  rw [sanitizeAgentId_eq]
  split
  · next h => exact ⟨fun hne => ⟨h, hne⟩, And.right⟩
  · next h => exact iff_of_false (not_not_intro rfl) fun hboth => h hboth.1

/-- The checks agree on every other text. -/
theorem checks_agree_iff :
    (∀ a b : IdCheck, a.Accepts s ↔ b.Accepts s) ↔ s ≠ js "_invalid_" := by
  constructor
  · rintro h rfl
    have hshared : IdCheck.shared.Accepts (js "_invalid_") :=
      show agentIdRe (js "_invalid_") = true by decide
    exact (accepts_sanitize_iff.mp ((h .shared .sanitize).mp hshared)).2 rfl
  · intro hne
    have hall : ∀ a : IdCheck, a.Accepts s ↔ agentIdRe s = true := by
      intro a
      cases a with
      | sanitize => exact accepts_sanitize_iff.trans (and_iff_left hne)
      | shared => exact Iff.rfl
      | api => exact accepts_api_iff
      | registry => exact accepts_registry_iff
    exact fun a b => (hall a).trans (hall b).symm

end Agree

/-! ### The routes of the web interface -/

/-- The route of the web interface for an action on the agent `id`, with what it calls. -/
def webAction (req : HttpRequest) (id : JsString) : AgentAction → Visit → Visit × Verdict LayerError
  | .start => agentAction req [(js "id", id), (js "action", js "start")]
  | .stop => agentAction req [(js "id", id), (js "action", js "stop")]
  | .config =>
    withAgentId (fun id v => v.askBot req.now .put (botAgentPath id (js "/config")) req.body)
      [(js "id", id)]
  | .metrics =>
    withAgentId (fun id v => v.askBot req.now .get (botAgentPath id (js "/metrics")) none)
      [(js "id", id)]
  | .remove =>
    withAgentId (fun id v => v.askBot req.now .delete (botAgentPath id []) none) [(js "id", id)]

/-- Every action on the agent gets through the web interface: the route calls the bot, and this call
reaches the handler of the action with the id of the agent. -/
def Managed (s : JsString) : Prop :=
  ∀ (a : AgentAction) (req : HttpRequest) (v : Visit), ∃ call id,
    (webAction req s a v).1.calls = call :: v.calls ∧ s.toUtf8 = some id ∧
      ∀ authentic, (call.request authentic).toApiRequest.Reaches a id

/-- What stands behind the id in the path of an action. -/
def AgentAction.behind : AgentAction → JsString
  | .start => js "/start"
  | .stop => js "/stop"
  | .config => js "/config"
  | .metrics => js "/metrics"
  | .remove => []

section Routes

variable {s : JsString}

theorem isUnreserved_of_isAgentIdChar {c : UInt16} (h : isAgentIdChar c = true) :
    JsString.isUnreserved c = true := by
  have hmarks : ∀ d : UInt16, d = 0x5F ∨ d = 0x2D → JsString.isUnreserved d = true := by
    rintro d (rfl | rfl) <;> decide
  simp only [isAgentIdChar, Bool.or_eq_true] at h
  simp only [JsString.isUnreserved, Bool.or_eq_true]
  rcases h with (((h | h) | h) | h) | h
  · exact .inl (.inr h)
  · exact .inl (.inl (.inr h))
  · exact .inl (.inl (.inl h))
  · simpa only [JsString.isUnreserved, Bool.or_eq_true] using hmarks c (.inl (of_decide_eq_true h))
  · simpa only [JsString.isUnreserved, Bool.or_eq_true] using hmarks c (.inr (of_decide_eq_true h))

/-- The path of an id is requested as it is. -/
theorem requestedPath_agent (h : agentIdRe s = true) (a : AgentAction) :
    (JsString.requestedPath (js "/api/v1/agents/" ++ s ++ a.behind)).toUtf8 =
      some (a.path s.ascii) := by
  -- neither the id nor the names of the actions have a dot
  have hchars := (agentIdRe_iff.mp h).2.2
  have hbehind : ∀ c ∈ a.behind, c.toNat < 0x80 ∧ c ≠ 0x2E := by
    cases a <;> exact JsString.forall_of_all (by decide)
  have hbase : ∀ c ∈ js "api/v1/agents/", c.toNat < 0x80 ∧ c ≠ 0x2E :=
    JsString.forall_of_all (by decide)
  have hid : ∀ c ∈ s, c.toNat < 0x80 ∧ c ≠ 0x2E := fun c hc =>
    ⟨lt_of_isAgentIdChar (hchars c hc), by rintro rfl; exact absurd (hchars _ hc) (by decide)⟩
  have hrest : ∀ c ∈ js "api/v1/agents/" ++ s ++ a.behind, c.toNat < 0x80 ∧ c ≠ 0x2E := by
    simp only [List.mem_append]
    rintro c ((hc | hc) | hc)
    · exact hbase c hc
    · exact hid c hc
    · exact hbehind c hc
  have hpath : js "/api/v1/agents/" ++ s ++ a.behind =
      0x2F :: (js "api/v1/agents/" ++ s ++ a.behind) := rfl
  -- so no segment is removed from the path
  rw [hpath, JsString.requestedPath_of_no_dot fun hdot => (hrest _ hdot).2 rfl,
    JsString.toUtf8_of_ascii (List.forall_mem_cons.mpr ⟨by decide, fun c hc => (hrest c hc).1⟩)]
  have hascii : JsString.ascii (0x2F :: (js "api/v1/agents/" ++ s ++ a.behind)) =
      agentsPrefix ++ s.ascii ++ a.behind.ascii := by
    rw [← hpath, JsString.ascii, List.map_append, List.map_append]
    rfl
  rw [hascii]
  -- it is the path of the action as the bot matches it
  cases a with
  | remove => exact congrArg some (List.append_nil _)
  | start => exact congrArg some (List.append_assoc _ (utf8 "/") (utf8 "start")).symm
  | stop => exact congrArg some (List.append_assoc _ (utf8 "/") (utf8 "stop")).symm
  | config => exact congrArg some (List.append_assoc _ (utf8 "/") (utf8 "config")).symm
  | metrics => exact congrArg some (List.append_assoc _ (utf8 "/") (utf8 "metrics")).symm

/-- The method of an action, in the web interface and for the bot. -/
def AgentAction.webMethod : AgentAction → Method
  | .start | .stop => .post
  | .config => .put
  | .metrics => .get
  | .remove => .delete

/-- A call with the path of an id reaches the action. -/
theorem reaches_of_call (h : agentIdRe s = true) (a : AgentAction) {call : BotCall}
    (hmethod : call.method = a.webMethod)
    (hpath : call.path = js "/api/v1/agents/" ++ s ++ a.behind) (authentic : Bool) :
    (call.request authentic).toApiRequest.Reaches a s.ascii := by
  have hvalid : isValidAgentId s.ascii = true := by
    rw [isValidAgentId_ascii fun c hc => lt_of_isAgentIdChar ((agentIdRe_iff.mp h).2.2 c hc)]
    exact h
  have htarget : (call.request authentic).target = a.path s.ascii := by
    rw [BotCall.request, hpath]
    change (JsString.requestedPath _).toUtf8.getD [] = _
    rw [requestedPath_agent h a]
    rfl
  refine reaches_iff_or.mpr ⟨?_, hvalid, .inl htarget⟩
  change verb call.method = a.method
  rw [hmethod]
  cases a <;> rfl

/-- The route calls the bot with this path, when the text is no rejection. -/
theorem call_of_webAction (h : agentIdRe s = true) (hne : s ≠ js "_invalid_") (a : AgentAction)
    (req : HttpRequest) (v : Visit) : ∃ call, (webAction req s a v).1.calls = call :: v.calls ∧
      call.method = a.webMethod ∧ call.path = js "/api/v1/agents/" ++ s ++ a.behind := by
  have hsanitize : sanitizeAgentId s = s := by rw [sanitizeAgentId_eq, if_pos h]
  have hencode : s.encodeURIComponent = some s :=
    JsString.encodeURIComponent_of_unreserved fun c hc =>
      isUnreserved_of_isAgentIdChar ((agentIdRe_iff.mp h).2.2 c hc)
  have hpath : ∀ behind, botAgentPath s behind = some (js "/api/v1/agents/" ++ s ++ behind) := by
    intro behind
    rw [botAgentPath, hencode]
    rfl
  -- past the check of the id, with the id as it is
  have hwith : ∀ (f : JsString → Visit → Visit × Verdict LayerError) params,
      paramText params "id" = s → withAgentId f params v = f s v := by
    intro f params hparams
    unfold withAgentId
    simp only [hparams, hsanitize, if_neg hne]
  have haction : ∀ action : JsString, action = js "start" ∨ action = js "stop" →
      agentAction req [(js "id", s), (js "action", action)] v = v.askBot req.now .post
        (some (js "/api/v1/agents/" ++ s ++ (js "/" ++ action))) none := by
    intro action hor
    have hencode : action.encodeURIComponent = some action := by
      rcases hor with rfl | rfl <;> decide
    have hparam : paramText [(js "id", s), (js "action", action)] "action" = action := rfl
    have hallowed : ¬ (action ≠ js "start" ∧ action ≠ js "stop") := fun hneither =>
      hor.elim hneither.1 hneither.2
    unfold agentAction
    simp only [hparam, if_neg hallowed, hencode, Option.bind_some]
    rw [hwith _ _ rfl, hpath]
  cases a with
  | start =>
    rw [webAction, haction _ (.inl rfl)]
    exact ⟨_, rfl, rfl, rfl⟩
  | stop =>
    rw [webAction, haction _ (.inr rfl)]
    exact ⟨_, rfl, rfl, rfl⟩
  | config =>
    rw [webAction, hwith _ _ rfl, hpath]
    exact ⟨_, rfl, rfl, rfl⟩
  | metrics =>
    rw [webAction, hwith _ _ rfl, hpath]
    exact ⟨_, rfl, rfl, rfl⟩
  | remove =>
    rw [webAction, hwith _ _ rfl, hpath]
    exact ⟨_, rfl, rfl, rfl⟩

/-- An agent with any other id gets through. -/
theorem managed_of_agentIdRe (h : agentIdRe s = true) (hne : s ≠ js "_invalid_") : Managed s := by
  intro a req v
  obtain ⟨call, hcall, hmethod, hpath⟩ := call_of_webAction h hne a req v
  exact ⟨call, s.ascii, hcall, toUtf8_of_agentIdRe h, reaches_of_call h a hmethod hpath⟩

/-- **The four checks agree, and what can be created can be managed, for every text but
`_invalid_`.** -/
theorem agentIds_agree_iff (s : JsString) :
    ((∀ a b : IdCheck, a.Accepts s ↔ b.Accepts s) ∧
      (IdCheck.registry.Accepts s → Managed s)) ↔ s ≠ js "_invalid_" := by
  refine ⟨fun h => checks_agree_iff.mp h.1, fun hne => ⟨checks_agree_iff.mpr hne, fun h => ?_⟩⟩
  exact managed_of_agentIdRe (accepts_registry_iff.mp h) hne

/-- **The id `_invalid_`** passes all checks but the one of the backend. -/
theorem invalid_is_an_id : ¬ ∀ s : JsString, (∀ a b : IdCheck, a.Accepts s ↔ b.Accepts s) ∧
    (IdCheck.registry.Accepts s → Managed s) := by
  intro h
  exact checks_agree_iff.mp (h (js "_invalid_")).1 rfl

end Routes

end Aestival
