import Aestival.Agent.Pairing
import Aestival.Agent.ToolTranscripts
import Aestival.Library.Utf8
import Mathlib.Data.List.GetD
import Mathlib.Order.Bounds.Defs

/-!
# What is stored of a tool's output

A turn stores at most `kMaxToolContent` octets of what a tool has put out. `utf8_safe_truncate`
looks for the cut: it walks back from the limit to an octet that does not continue a character, and
cuts before it. So it asks what comes behind the cut, which in a UTF-8 text is the first octet of a
character, and the cut is the last one within the limit that leaves a text
(`isGreatest_utf8SafeTruncate`).

That the tool messages a turn stores hold such outputs is read off the transcript of its tool loop:
every one was put out by a task the turn has waited for (`wp_processAgentMessage_stored`).
-/

namespace Aestival

open Bytes Prog

/-! ### The cut -/

section Cut

variable {s : Bytes} {n : Nat}

/-- The octets that do not continue a character are those the walk stops at. -/
theorem not_continues_iff {b : UInt8} : ¬ Continues b ↔ b < 0x80 ∨ 0xC0 ≤ b := by
  unfold Continues
  rw [UInt8.le_iff_toNat_le, UInt8.le_iff_toNat_le, UInt8.lt_iff_toNat_lt, UInt8.le_iff_toNat_le]
  change ¬ (128 ≤ b.toNat ∧ b.toNat ≤ 191) ↔ b.toNat < 128 ∨ 192 ≤ b.toNat
  omega

/-- The first octet of a character continues none. -/
theorem not_continues_first {b : UInt8} {k : Nat} (h : trailLength b = some k) :
    ¬ Continues b := by
  rw [not_continues_iff]
  unfold trailLength at h
  by_cases hascii : b < 128
  · exact .inl hascii
  · rw [if_neg hascii] at h
    by_cases hlead : b < 194
    · rw [if_pos hlead] at h
      cases h
    · exact .inr (UInt8.le_trans (by decide) (UInt8.not_lt.mp hlead))

/-- The walk ends at `p` when everything behind `p` continues a character and `p` does not. -/
theorem boundaryAtOrBefore_eq {p : Nat} (hle : p ≤ n) (hp : ¬ Continues (s.getD p 0))
    (hn : ∀ i, p < i → i ≤ n → Continues (s.getD i 0)) : boundaryAtOrBefore s n = p := by
  induction n with
  | zero => exact (Nat.le_zero.mp hle).symm
  | succ n ih =>
    unfold boundaryAtOrBefore
    change (if s.getD (n + 1) 0 < 0x80 ∨ 0xC0 ≤ s.getD (n + 1) 0 then n + 1
      else boundaryAtOrBefore s n) = p
    rcases Nat.lt_or_eq_of_le hle with hlt | rfl
    · have hcontinues : Continues (s.getD (n + 1) 0) := hn (n + 1) hlt (Nat.le_refl _)
      rw [if_neg fun hstop => not_continues_iff.mpr hstop hcontinues]
      exact ih (Nat.le_of_lt_succ hlt) fun i hpi hin => hn i hpi (Nat.le_succ_of_le hin)
    · rw [if_pos (not_continues_iff.mp hp)]

/-- In a text that is too long the walk ends behind the longest text within the limit. -/
theorem boundaryAtOrBefore_longest {p : Bytes} (h : validUtf8 s = true) (hn : n < s.length)
    (hlongest : LongestText n s p) : boundaryAtOrBefore s n = p.length := by
  obtain ⟨u, rfl⟩ := hlongest.isPrefix
  rw [validUtf8_append hlongest.valid] at h
  rcases run_start_cases (validUtf8_iff.mp h) with rfl | ⟨-, hne⟩ | ⟨c, rest, rfl, hc, -⟩
  · rw [List.append_nil] at hn
    exact absurd hn (Nat.not_lt.mpr hlongest.length_le)
  · exact absurd rfl hne
  -- the character behind `p` reaches over the limit, or there would be a longer text
  have hover : n < p.length + c.length := by
    by_contra hfits
    have hvalid : validUtf8 (p ++ c) = true := (validUtf8_append hlongest.valid).trans hc.validUtf8
    have hfront : p ++ c <+: p ++ (c ++ rest) := ⟨rest, List.append_assoc ..⟩
    have hle := hlongest.longest (p ++ c) hfront hvalid
      (by rw [List.length_append]; exact Nat.not_lt.mp hfits)
    rw [List.length_append] at hle
    have hpos := List.length_pos_of_ne_nil hc.ne_nil
    omega
  obtain ⟨b, t, rfl, htrail, ht, -⟩ := hc
  refine boundaryAtOrBefore_eq hlongest.length_le ?_ ?_
  · rw [List.getD_append_right _ _ _ _ (Nat.le_refl _), Nat.sub_self]
    exact not_continues_first htrail
  · intro i hpi hin
    obtain ⟨j, rfl⟩ := Nat.exists_eq_add_of_lt hpi
    rw [List.length_cons] at hover
    have hj : j < t.length := by omega
    have hget : (p ++ (b :: t ++ rest)).getD (p.length + j + 1) 0 = t[j] := by
      rw [Nat.add_assoc, List.getD_append_right _ _ _ _ (Nat.le_add_right _ _),
        Nat.add_sub_cancel_left, List.cons_append, List.getD_cons_succ,
        List.getD_append _ _ _ _ hj, List.getD_eq_getElem _ _ hj]
    rw [hget]
    exact ht _ (List.getElem_mem hj)

/-- **The cut is the last one within the limit that leaves a text.** -/
theorem isGreatest_utf8SafeTruncate (h : validUtf8 s = true) (maxLen : Nat) :
    IsGreatest {p | p ≤ min maxLen s.length ∧ validUtf8 (s.take p) = true}
      (utf8SafeTruncate s maxLen) := by
  unfold utf8SafeTruncate
  split
  -- the text is short enough as it is
  · next hshort =>
    refine ⟨⟨le_min hshort (Nat.le_refl _), by rw [List.take_length]; exact h⟩, ?_⟩
    rintro p ⟨hp, -⟩
    exact hp.trans (Nat.min_le_right _ _)
  · next hlong =>
    have hlt := Nat.not_le.mp hlong
    -- or it is cut behind its longest valid prefix
    obtain ⟨p, r, -, hlongest, -⟩ := exists_longestText h maxLen
    rw [boundaryAtOrBefore_longest h hlt hlongest]
    have htake : s.take p.length = p := (List.prefix_iff_eq_take.mp hlongest.isPrefix).symm
    refine ⟨⟨le_min hlongest.length_le hlongest.isPrefix.length_le, by
      rw [htake]; exact hlongest.valid⟩, ?_⟩
    rintro q ⟨hq, hvalid⟩
    have hlength : (s.take q).length = q :=
      List.length_take_of_le (hq.trans (Nat.min_le_right _ _))
    have hle := hlongest.longest (s.take q) (List.take_prefix q s) hvalid
      (by rw [hlength]; exact hq.trans (Nat.min_le_left _ _))
    rwa [hlength] at hle

/-- What is stored of an output: all of it, or the front of it with the marker. -/
structure Capped (out stored : Bytes) : Prop where
  valid : validUtf8 stored = true
  cases : (stored = out ∧ out.length ≤ kMaxToolContent) ∨
    ∃ p, p <+: out ∧ p.length ≤ kMaxToolContent ∧ stored = p ++ utf8 "\n[...truncated]"

theorem capped_capToolContent {out : Bytes} (h : validUtf8 out = true) :
    Capped out (capToolContent out) := by
  unfold capToolContent
  split
  · obtain ⟨⟨hle, hvalid⟩, -⟩ := isGreatest_utf8SafeTruncate h kMaxToolContent
    refine ⟨?_, .inr ⟨_, List.take_prefix _ out, ?_, rfl⟩⟩
    · rw [validUtf8_append hvalid]
      decide
    · exact (List.length_take_le _ _).trans (hle.trans (Nat.min_le_left _ _))
  · next hshort => exact ⟨h, .inl ⟨rfl, Nat.not_lt.mp hshort⟩⟩

end Cut

/-! ### What a turn stores -/

/-- The output of some task the turn has waited for. -/
def LoopView.Delivered (v : LoopView) (out : Bytes) : Prop :=
  ∃ p ∈ v.awaited, toolOutput p.2 = .ok out

/-- A tool message is only stored for such an output. -/
def StoresDelivered (v : LoopView) : TurnEff → Prop
  | .append _ m => m.role = .tool → ∃ out, v.Delivered out ∧ m.content = capToolContent out
  | _ => True

/-- The effects of the turn around the tool loop. They store no tool message, and the loop does not
see them. -/
def TurnEff.IsAround : TurnEff → Prop
  | .append _ m => m.role ≠ .tool
  | e => e.part ≠ .model ∧ e.part ≠ .task

theorem TurnEff.IsAround.of_part {e : TurnEff} {part : TurnPart} (he : e.part = part)
    (hstore : part ≠ .store) (hmodel : part ≠ .model) (htask : part ≠ .task) : e.IsAround := by
  subst he
  cases e with
  | append => exact absurd rfl hstore
  | _ => exact ⟨hmodel, htask⟩

theorem TurnEff.IsAround.of_isDelivery {c : Bytes} {e : TurnEff} (h : e.IsDelivery c) :
    e.IsAround := by
  rcases h with hreply | ⟨content, rfl⟩
  · exact .of_part hreply (by decide) (by decide) (by decide)
  · intro hrole
    cases hrole

/-- A part of the turn around the loop. -/
theorem wp_around {α : Type} {p : Turn α} (h : p.Only TurnEff.IsAround) (v : LoopView) :
    wp viewMachine StoresDelivered p (fun _ v' => v' = v) v := by
  refine h.wp ?_ rfl
  rintro e he _ rfl
  cases e with
  | append c m => exact ⟨fun htool => absurd htool he, fun _ _ => rfl⟩
  | launchTool => exact absurd rfl he.2
  | awaitTool => exact absurd rfl he.2
  | response r =>
    cases r with
    | complete => exact ⟨trivial, fun _ _ => rfl⟩
    | completeMessages => exact absurd rfl he.1
    | completeWithTools => exact absurd rfl he.1
  | _ => exact ⟨trivial, fun _ _ => rfl⟩

/-- So is one that belongs to another part of the turn. -/
theorem wp_around_part {α : Type} {p : Turn α} {part : TurnPart}
    (h : p.Only (TurnEff.part · = part))
    (v : LoopView) (hstore : part ≠ .store := by decide) (hmodel : part ≠ .model := by decide)
    (htask : part ≠ .task := by decide) :
    wp viewMachine StoresDelivered p (fun _ v' => v' = v) v :=
  wp_around (h.mono fun _ he => .of_part he hstore hmodel htask) v

/-! ### The parts of a turn -/

section Parts

variable {agent : AgentController} {message : MessageEvent} {c : Bytes}

/-- What the loop has appended of tool messages was delivered. -/
theorem Told.delivered {remaining : Nat} {responses : List (List ToolCall × Bytes)}
    {ends : List (ToolCall × ToolEnd)} {t : List ChatMessage} (h : Told remaining responses ends t)
    {m : ChatMessage} (hm : m ∈ t) (htool : m.role = .tool) :
    ∃ p ∈ ends, toolOutput p.2 = .ok m.content := by
  induction h with
  | exhausted => exact absurd hm List.not_mem_nil
  | text remaining content =>
    obtain rfl := List.mem_singleton.mp hm
    cases htool
  | @round remaining calls content json results ends responses t _ _ _ houtputs _ ih =>
    rcases List.mem_append.mp hm with hround | hrest
    · rcases List.mem_cons.mp hround with rfl | hresult
      · cases htool
      -- the message of a task holds its output
      obtain ⟨p, hp, rfl⟩ := List.mem_map.mp hresult
      obtain ⟨result, hresult⟩ := houtputs p hp
      refine ⟨p, List.mem_append_left _ hp, ?_⟩
      rw [hresult, LaunchedTask.message, LaunchedTask.output, endedTask, Option.map_some, hresult]
      rfl
    · obtain ⟨p, hp, hout⟩ := ih hrest
      exact ⟨p, List.mem_append_right _ hp, hout⟩

/-- The loop itself stores nothing. -/
theorem wp_toolLoop_stored (messages : List ChatMessage) :
    wp viewMachine StoresDelivered (toolLoop agent messages) (LoopTold kSafetyLimit messages {})
      {} := by
  have honly : (toolLoop agent messages).Only (TurnEff.inLoop · = true) :=
    Only.of_wp [] (wp_toolLoop agent messages [])
  refine honly.wp_demands (wp_toolLoop_view agent messages) ?_
  intro v e he _
  cases e with
  | append => cases he
  | _ => trivial

/-- Behind the loop its tool messages are stored. -/
theorem wp_persistToolMessages_stored (messages : List ChatMessage) (v : LoopView)
    (h : ∀ m ∈ messages, m.role = .tool → v.Delivered m.content) :
    wp viewMachine StoresDelivered (persistToolMessages c messages) (fun _ _ => True) v := by
  induction messages with
  | nil => trivial
  | cons m messages ih =>
    obtain ⟨hm, hmessages⟩ := List.forall_mem_cons.mp h
    unfold persistToolMessages
    split
    · rw [wp_act_bind]
      refine ⟨fun htool => ?_, fun _ _ => ih hmessages⟩
      cases htool
    split
    -- a tool result was delivered, and is stored as it is
    · next htool =>
      rw [wp_act_bind]
      exact ⟨fun _ => ⟨m.content, hm htool, rfl⟩, fun _ _ => ih hmessages⟩
    · exact ih hmessages

theorem wp_runModel_stored (messages : List ChatMessage) :
    wp viewMachine StoresDelivered (runModel agent message c messages) (fun _ _ => True) {} := by
  unfold runModel
  refine wp_bind_of (wp_toolLoop_stored messages) ?_ fun _ _ _ => trivial
  intro after v hafter
  obtain ⟨responses, ends, t, rfl, htold, rfl⟩ := hafter after rfl
  refine wp_bind_of (wp_persistToolMessages_stored _ _ ?_) ?_ fun _ _ _ => trivial
  · intro m hm htool
    rw [List.drop_left] at hm
    obtain ⟨p, hp, hout⟩ := htold.delivered hm htool
    exact ⟨p, List.mem_append_right _ hp, hout⟩
  · intro _ _ _
    exact wp_mono (wp_around ((only_deliver _ _).mono fun _ he => .of_isDelivery he) _)
      fun _ _ _ => trivial

theorem wp_answerMessage_stored :
    wp viewMachine StoresDelivered (answerMessage agent message c) (fun _ _ => True) {} := by
  unfold answerMessage
  split
  swap
  · exact wp_mono (wp_around_part (only_notice _ _) _) fun _ _ _ => trivial
  rw [wp_act_bind]
  refine ⟨fun htool => (by cases htool), fun _ _ => ?_⟩
  -- up to the loop nothing has been waited for
  refine wp_bind_of (wp_around_part only_summarizeWithModel _) ?_ fun _ _ _ => trivial
  rintro _ _ rfl
  refine wp_bind_of (wp_around_part only_buildMessageList _) ?_ fun _ _ _ => trivial
  rintro list _ rfl
  refine wp_bind_of (wp_around_part (only_checkLlmCall _ _) _) ?_ fun _ _ _ => trivial
  rintro refusal _ rfl
  cases refusal with
  | some reason => exact wp_mono (wp_around_part (only_notice _ _) _) fun _ _ _ => trivial
  | none => exact wp_runModel_stored _

/-- **A turn stores only outputs it has waited for**, each as `capToolContent` leaves it. -/
theorem wp_processAgentMessage_stored :
    wp viewMachine StoresDelivered (processAgentMessage agent message) (fun _ _ => True) {} := by
  unfold processAgentMessage
  rw [wp_act_bind]
  refine ⟨trivial, fun _ _ => ?_⟩
  rw [wp_tryCatch]
  refine wp_mono wp_answerMessage_stored ?_
  intro r v _
  cases r with
  | ok ended => trivial
  | error err => exact wp_mono (wp_around_part (only_notice _ _) _) fun _ _ _ => trivial

end Parts

/-! ### The runs of a turn -/

section Runs

variable {σ : Type}

/-- What the view has seen delivered is in the trace. -/
theorem mem_inputs_of_awaited {tr : List (Event TurnSig σ)} {v : LoopView} {p : ToolCall × ToolEnd}
    (hp : p ∈ (tr.foldl (fun v ev => v.next ev.eff ev.ans) v).awaited) :
    p ∈ v.awaited ∨ ⟨.awaitTool p.1, p.2⟩ ∈ inputs tr := by
  induction tr generalizing v with
  | nil => exact .inl hp
  | cons ev tr ih =>
    obtain ⟨pre, e, x⟩ := ev
    rcases ih hp with hnext | hrest
    -- a call that is awaited is so by an event of the trace
    · by_cases htask : e.isTask = true
      · cases e with
        | awaitTool tc =>
          rcases List.mem_append.mp hnext with hv | hnew
          · exact .inl hv
          · obtain rfl := List.mem_singleton.mp hnew
            exact .inr (List.mem_cons_self ..)
        | launchTool tc => exact .inl hnext
        | _ => cases htask
      -- no other event changes the list
      · rw [(v.next_of_not_task ((Bool.not_eq_true _).mp htask) x).2] at hnext
        exact .inl hnext
    · exact .inr (List.mem_cons_of_mem _ hrest)

/-- **Where outputs are cut, and what is stored of them.** In a UTF-8 text the cut is the last one
within the limit that leaves a text. So whatever else happens in a turn, each tool message it stores
is the output of a task it has waited for, and when what the tool returned is a text, the stored
message is one too: the output within the limit, or the front of it with the marker. -/
theorem cut_and_stored_outputs :
    (∀ s : Bytes, validUtf8 s = true → ∀ maxLen, IsGreatest
      {p | p ≤ min maxLen s.length ∧ validUtf8 (s.take p) = true} (utf8SafeTruncate s maxLen)) ∧
    ∀ (σ : Type) (M : Machine TurnSig σ) (agent : AgentController) (message : MessageEvent)
      (w w' : σ) (tr pre post : List (Event TurnSig σ)) (ev : Event TurnSig σ)
      (r : Except Thrown TurnEnd) (c : Bytes) (m : ChatMessage),
      Exec M w (processAgentMessage agent message) tr w' r → tr = pre ++ ev :: post →
      ev.eff = .append c m → m.role = .tool →
      ∃ tc ended out, ⟨.awaitTool tc, ended⟩ ∈ inputs pre ∧ toolOutput ended = .ok out ∧
        m.content = capToolContent out ∧
        ((∀ result, ended = .returned result → validUtf8 result = true) →
          Capped out m.content) := by
  refine ⟨fun s h maxLen => isGreatest_utf8SafeTruncate h maxLen, ?_⟩
  intro σ M agent message w w' tr pre post ev r c m hexec htr hev htool
  have hstores := hexec.seen (fun _ _ _ => trivial) wp_processAgentMessage_stored htr
  rw [hev] at hstores
  obtain ⟨out, ⟨⟨tc, ended⟩, hawaited, hout⟩, hcontent⟩ := hstores htool
  rcases mem_inputs_of_awaited hawaited with hnone | hmem
  · cases hnone
  refine ⟨tc, ended, out, hmem, hout, hcontent, fun hvalid => ?_⟩
  rw [hcontent]
  refine capped_capToolContent ?_
  -- the two outputs that no tool returns are texts
  cases ended with
  | controllerDestroyed =>
    rw [← Except.ok.inj hout]
    decide
  | returned result =>
    cases result with
    | nil =>
      rw [← Except.ok.inj hout]
      decide
    | cons b result =>
      rw [← Except.ok.inj hout]
      exact hvalid _ rfl
  | thrown t => cases hout

/-- The letter é has two octets, and is not cut in half. An output of 4001 octets is stored without
its end, by a turn with one tool call. -/
theorem long_outputs_cut :
    utf8SafeTruncate (utf8 "aé") 2 = 1 ∧
    IsGreatest {p | p ≤ min 2 (utf8 "aé").length ∧ validUtf8 ((utf8 "aé").take p) = true}
      (utf8SafeTruncate (utf8 "aé") 2) ∧
    ∃ (tr : List (Event TurnSig World)) (w : World) (r : Except Thrown TurnEnd)
      (ev : Event TurnSig World)
      (m : ChatMessage) (out : Bytes),
      Exec World.machine {} (processAgentMessage (plainAgent {}) (privateMessage (utf8 "hi")))
        tr w r ∧
      ev ∈ tr ∧ ev.eff = .append (utf8 "c2c:u") m ∧ out.length = 4001 ∧ Capped out m.content := by
  refine ⟨by decide, cut_and_stored_outputs.1 (utf8 "aé") (by decide) 2, ?_⟩
  obtain ⟨result, hresult, hlong⟩ : ∃ result : Bytes, (∀ b ∈ result, b < 0x80) ∧
      result.length = 4000 :=
    ⟨List.replicate 4000 97, fun b hb => by rw [List.eq_of_mem_replicate hb]; decide,
      List.length_replicate⟩
  let around := toolScenario (utf8 "done") (97 :: result)
  obtain ⟨tr, w, r, hturn⟩ : ∃ tr w r,
      simulateTurn around (plainAgent {}) (privateMessage (utf8 "hi")) {} = (tr, w, r) :=
        ⟨_, _, _, rfl⟩
  have hexec := exec_simulateTurn around (plainAgent {}) (privateMessage (utf8 "hi")) {}
  have hans : ∀ ev ∈ tr, ev.ans = World.answer around ev.pre ev.eff := fun ev hev =>
    ans_of_mem_simulate (p := processAgentMessage (plainAgent {}) (privateMessage (utf8 "hi")))
      (s := {}) (by rw [simulateTurn] at hturn; rw [hturn]; exact hev)
  obtain ⟨ev, hev, heff⟩ : ∃ ev, tr[16]? = some ev ∧ ev.eff = .append (utf8 "c2c:u")
      { role := .tool, content := capToolContent (97 :: result), toolCallId := utf8 "c1" } := by
    obtain rfl : _ = tr := congrArg Prod.fst hturn
    exact ⟨_, rfl, rfl⟩
  rw [hturn] at hexec
  have hmem : ev ∈ tr := List.mem_of_getElem? hev
  obtain ⟨pre, post, htr⟩ := List.append_of_mem hmem
  obtain ⟨tc, ended, out, hawaited, hout, -, hcapped⟩ :=
    cut_and_stored_outputs.2 _ _ _ _ _ _ _ pre post ev _ _ _ hexec htr heff rfl
  -- every tool returns the long output
  have hended : ended = .returned (97 :: result) := by
    obtain ⟨await, hawait, heq⟩ := List.mem_map.mp hawaited
    have hans := hans await (htr ▸ List.mem_append_left _ hawait)
    obtain ⟨pre, e, x⟩ := await
    cases heq
    exact hans
  subst hended
  obtain rfl : 97 :: result = out := Except.ok.inj hout
  refine ⟨tr, w, r, ev, _, _, hexec, hmem, heff, congrArg (· + 1) hlong, hcapped fun _ h => ?_⟩
  obtain rfl := ToolEnd.returned.inj h
  exact validUtf8_of_ascii (List.forall_mem_cons.mpr ⟨by decide, hresult⟩)

end Runs

end Aestival
