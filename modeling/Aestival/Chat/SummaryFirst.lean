import Aestival.Chat.SummaryContents
import Aestival.Library.Runs
import Aestival.Library.Tables

/-!
# Where the summary stands

Any number of threads run `summarize_with_model` on one conversation at once, and others append to
it or clear it. A summarizer that has taken its snapshot waits for the model in between, so it may
save long after another one has, on a conversation it has never seen.

The conversation has at most one system message all the same, and that one is a summary and comes
first (`summarizers_summaryFirst`). The invariant is `SummaryFirst`: behind the first message there
are turn messages only. A summarizer that waits has counted at least one message, so what it takes
over behind its range has no system message in it (`SummaryFirst.drop`), and of its range it keeps
turn messages only.
-/

namespace Aestival

/-! ### Summarizers on one conversation -/

/-- The conversation among the stored ones, and the summarizers that wait for the model, each with
its snapshot. -/
structure SummarizersState where
  store : ListStore
  waiting : Nat → Option Snapshot

/-- What may happen: a call of another thread, the first section of a summarizer, and its second
section with what the model call ends with. -/
inductive SummarizersEvent where
  | call (call : ConvCall)
  | first (k : Nat)
  | second (k : Nat) (reply : Completion)
  deriving DecidableEq, Repr

/-- The second section of a summarizer on the conversation `c`. -/
def storeSummary (c : Bytes) (snap : Snapshot) (reply : Completion) (st : ListStore) : ListStore :=
  match finishSummary snap.msgCountBefore reply (st.load c) with
  | none => st
  | some msgs => st.save c msgs

/-- A step on the conversation `c`. A summarizer for which no summary is due does not wait. -/
inductive SummarizersStep (c : Bytes) :
    SummarizersState → SummarizersEvent → SummarizersState → Prop
  | call (s : SummarizersState) (call : ConvCall) :
    SummarizersStep c s (.call call) { s with store := call.exec c s.store }
  | first {s : SummarizersState} {k : Nat} (hidle : s.waiting k = none) :
    SummarizersStep c s (.first k)
      { s with waiting := Function.update s.waiting k (takeSnapshot (s.store.load c)) }
  | second {s : SummarizersState} {k : Nat} {snap : Snapshot} (hwaits : s.waiting k = some snap)
    (reply : Completion) :
    SummarizersStep c s (.second k reply)
      { store := storeSummary c snap reply s.store,
        waiting := Function.update s.waiting k none }

/-- Summarizers and other threads on the conversation `c`, which is empty at first. -/
def summarizers (c : Bytes) : TransitionSystem SummarizersState SummarizersEvent where
  init s := s = ⟨ListStore.empty, fun _ => none⟩
  step := SummarizersStep c

/-! ### The invariant -/

/-- Only the first message may be a system message, and then it is a summary. -/
structure SummaryFirst (l : List ChatMessage) : Prop where
  head : ∀ m, l.head? = some m → m.role = .system → isSummaryMessage m = true
  tail : ∀ m ∈ l.tail, isTurnMessage m = true

namespace SummaryFirst

variable {l : List ChatMessage}

theorem nil : SummaryFirst [] := ⟨by simp, by simp⟩

/-- A summary in front of turn messages. -/
theorem summary_cons (text : Bytes) (h : ∀ m ∈ l, isTurnMessage m = true) :
    SummaryFirst (summaryMessage text :: l) := by
  refine ⟨?_, h⟩
  intro m hm _
  -- the only message that may be of the system is the summary itself
  obtain rfl := Option.some.inj hm
  exact isSummaryMessage_summaryMessage text

/-- Turn messages may follow. -/
theorem append (h : SummaryFirst l) {new : List ChatMessage}
    (hnew : ∀ m ∈ new, isTurnMessage m = true) : SummaryFirst (l ++ new) := by
  cases l with
  -- an empty conversation begins with the first new message
  | nil =>
    refine ⟨?_, fun m hm => hnew m (List.mem_of_mem_tail hm)⟩
    intro m hm hsystem
    have hturn := hnew m (List.mem_of_mem_head? hm)
    exact absurd hsystem (isTurnMessage_iff.mp hturn)
  | cons a l =>
    refine ⟨h.head, ?_⟩
    intro m hm
    rcases List.mem_append.mp hm with hm | hm
    · exact h.tail m hm
    · exact hnew m hm

theorem take (h : SummaryFirst l) (n : Nat) : SummaryFirst (l.take n) := by
  cases n with
  | zero => exact nil
  | succ n =>
    cases l with
    | nil => exact nil
    | cons a l => exact ⟨h.head, fun m hm => h.tail m (List.mem_of_mem_take hm)⟩

/-- Behind a range that is not empty there are turn messages only. -/
theorem drop (h : SummaryFirst l) {n : Nat} (hn : 0 < n) :
    ∀ m ∈ l.drop n, isTurnMessage m = true := by
  intro m hm
  apply h.tail
  rw [← List.drop_one]
  exact List.drop_subset_drop_left l hn hm

/-- There is no system prompt. -/
theorem filter_isSystemPrompt (h : SummaryFirst l) : l.filter isSystemPrompt = [] := by
  rw [List.filter_eq_nil_iff]
  intro m hm hprompt
  cases l with
  | nil => exact List.not_mem_nil hm
  | cons a l =>
    rcases List.mem_cons.mp hm with rfl | hm
    · -- the first message, if a system message, is a summary
      simp only [isSystemPrompt, Bool.and_eq_true, decide_eq_true_eq, Bool.not_eq_true'] at hprompt
      have hsummary := h.head m rfl hprompt.1
      rw [hprompt.2] at hsummary
      exact Bool.false_ne_true hsummary
    · rw [(not_system_of_turn (h.tail m hm)).1] at hprompt
      exact Bool.false_ne_true hprompt

/-- Truncation keeps the invariant. -/
theorem summarizeIfNeeded (h : SummaryFirst l) : SummaryFirst (Aestival.summarizeIfNeeded l) := by
  rcases (summarizeIfNeeded_shape l) with heq | ⟨text, rest, heq⟩
  · rw [heq]
    exact h
  · rw [heq, h.filter_isSystemPrompt]
    exact summary_cons text fun m hm => (List.mem_filter.mp hm).2

/-- So does the success path: of its range it keeps turn messages only. -/
theorem commitSummary (h : SummaryFirst l) {n : Nat} (hn : 0 < n) {summary : Bytes}
    {msgs : List ChatMessage} (hsome : Aestival.commitSummary n summary l = some msgs) :
    SummaryFirst msgs := by
  unfold Aestival.commitSummary at hsome
  split at hsome
  · cases hsome
  · rw [Option.some.injEq, (h.take n).filter_isSystemPrompt] at hsome
    rw [← hsome]
    refine (summary_cons summary ?_).append (h.drop hn)
    intro m hm
    exact (List.mem_filter.mp hm).2

/-- And the second section as a whole. -/
theorem finishSummary (h : SummaryFirst l) {n : Nat} (hn : 0 < n) {reply : Completion}
    {msgs : List ChatMessage} (hsome : Aestival.finishSummary n reply l = some msgs) :
    SummaryFirst msgs := by
  match reply with
  | .error _ =>
    rw [Aestival.finishSummary, Option.some.injEq, commitFallback_eq] at hsome
    rw [← hsome]
    exact (h.take n).summarizeIfNeeded.append (h.drop hn)
  -- an empty text leaves the conversation as it is, so nothing is saved
  | .ok [] => cases hsome
  | .ok (b :: bs) => exact h.commitSummary hn hsome

/-- The invariant as it is read: one system message at most, at the front, and a summary. -/
theorem reads (h : SummaryFirst l) :
    (l.filter fun m => m.role = .system).length ≤ 1 ∧
      ∀ (i : Nat) (m : ChatMessage), l[i]? = some m → m.role = .system →
        i = 0 ∧ isSummaryMessage m = true := by
  cases l with
  | nil => exact ⟨Nat.zero_le 1, fun i m hi => absurd hi (by simp)⟩
  | cons a l =>
    have hrest : (l.filter fun m => m.role = .system) = [] := by
      rw [List.filter_eq_nil_iff]
      intro m hm
      simpa using isTurnMessage_iff.mp (h.tail m hm)
    constructor
    -- behind the first message none is of the system
    · rw [List.filter_cons, hrest]
      split <;> simp
    · intro i m hi hsystem
      cases i with
      | zero => exact ⟨rfl, h.head m hi hsystem⟩
      | succ i => exact absurd hsystem (isTurnMessage_iff.mp (h.tail m (List.mem_of_getElem? hi)))

end SummaryFirst

/-! ### Every run -/

/-- The invariant of the summarizers: the conversation is in order, and each summarizer that waits
has counted a message. -/
structure SummarizersInv (c : Bytes) (s : SummarizersState) : Prop where
  order : SummaryFirst (s.store.load c)
  counted : ∀ k snap, s.waiting k = some snap → 0 < snap.msgCountBefore

/-- A snapshot is taken of a conversation that is not empty. -/
theorem msgCountBefore_pos {l : List ChatMessage} {snap : Snapshot}
    (h : takeSnapshot l = some snap) : 0 < snap.msgCountBefore := by
  unfold takeSnapshot at h
  split at h
  · cases h
  · next hbig =>
    obtain rfl := Option.some.inj h
    cases l with
    -- an empty conversation is not too large
    | nil => exact absurd (Nat.zero_le _) hbig
    | cons m ms => exact Nat.succ_pos _

/-- A call of another thread keeps the order. -/
theorem SummaryFirst.exec {c : Bytes} {st : ListStore} (h : SummaryFirst (st.load c))
    (call : ConvCall) : SummaryFirst ((call.exec c st).load c) := by
  cases hm : call.message? with
  | some m =>
    rw [ConvCall.exec_of_message hm, ListStore.load_appendMessage]
    refine h.append ?_
    intro m' hm'
    obtain rfl := List.mem_singleton.mp hm'
    exact isTurnMessage_iff.mpr (ConvCall.role_ne_system hm)
  | none =>
    obtain rfl := ConvCall.message?_eq_none.mp hm
    show SummaryFirst ((st.clearMessages c).load c)
    rw [ListStore.load_clearMessages]
    exact .nil

/-- The second section of a summarizer keeps the order. -/
theorem SummaryFirst.storeSummary {c : Bytes} {st : ListStore} (h : SummaryFirst (st.load c))
    {snap : Snapshot} (hn : 0 < snap.msgCountBefore) (reply : Completion) :
    SummaryFirst ((storeSummary c snap reply st).load c) := by
  unfold Aestival.storeSummary
  cases hmsgs : Aestival.finishSummary snap.msgCountBefore reply (st.load c) with
  | none => exact h
  | some msgs =>
    show SummaryFirst ((st.save c msgs).load c)
    rw [ListStore.load_save]
    exact h.finishSummary hn hmsgs

/-- Every step keeps the invariant. -/
theorem SummarizersInv.step {c : Bytes} {s s' : SummarizersState} {e : SummarizersEvent}
    (h : SummarizersInv c s) (hstep : SummarizersStep c s e s') : SummarizersInv c s' := by
  cases hstep with
  | call call => exact ⟨h.order.exec call, h.counted⟩
  | @first k hidle =>
    refine ⟨h.order, ?_⟩
    intro j snap hj
    -- the summarizer that begins, and those that have waited before
    rcases update_eq_iff.mp hj with ⟨-, hnew⟩ | ⟨-, hold⟩
    · exact msgCountBefore_pos hnew
    · exact h.counted j snap hold
  | @second k snap hwaits reply =>
    refine ⟨h.order.storeSummary (h.counted k snap hwaits) reply, ?_⟩
    intro j snap' hj
    exact h.counted j snap' (some_of_erase hj).2

/-- **At most one summary, and it comes first**, whatever summarizers and other threads do. -/
theorem summarizers_summaryFirst {c : Bytes} {s : SummarizersState}
    (h : (summarizers c).Reachable s) :
    ((s.store.load c).filter fun m => m.role = .system).length ≤ 1 ∧
      ∀ (i : Nat) (m : ChatMessage), (s.store.load c)[i]? = some m → m.role = .system →
        i = 0 ∧ isSummaryMessage m = true := by
  obtain ⟨tr, hrun⟩ := h
  have hinv : SummarizersInv c s := by
    refine hrun.invariant ?_ ?_
    · rintro s rfl
      exact ⟨.nil, fun k snap hk => absurd hk (by simp)⟩
    · intro s e s' hs hstep
      exact hs.step hstep
  exact hinv.order.reads

/-- Two summarizers count the same message, and the second one saves over the summary of the
first. -/
theorem two_summarizers_one_summary :
    ∃ s, (summarizers [99]).Reachable s ∧
      (∃ m, s.store.load [99] = [summaryMessage [116], m]) ∧
      ((s.store.load [99]).filter fun m => m.role = .system).length ≤ 1 ∧
      ∀ (i : Nat) (m : ChatMessage), (s.store.load [99])[i]? = some m → m.role = .system →
        i = 0 ∧ isSummaryMessage m = true := by
  -- of the large message only its length matters
  obtain ⟨large, hlarge⟩ : ∃ large : Bytes, large.length = 70000 :=
    ⟨List.replicate 70000 97, List.length_replicate⟩
  let m : ChatMessage := { role := .user, senderNick := [110], content := large }
  have hbig : ∃ snap, takeSnapshot [m] = some snap ∧ snap.msgCountBefore = 1 := by
    refine ⟨_, if_neg ?_, rfl⟩
    rw [totalBytes_cons, totalBytes_nil]
    show ¬ large.length + 0 ≤ 65536
    omega
  obtain ⟨snap, hsnap, hcount⟩ := hbig
  have h0 : (summarizers [99]).Reachable ⟨ListStore.empty, fun _ => none⟩ := ⟨[], .start rfl⟩
  have h1 := h0.step (SummarizersStep.call _ (.appendUser [110] large))
  have h2 := h1.step (SummarizersStep.first (k := 0) rfl)
  have h3 := h2.step (SummarizersStep.first (k := 1) rfl)
  have h4 := h3.step (@SummarizersStep.second _ _ 0 snap hsnap (.ok [115]))
  have h5 := h4.step (@SummarizersStep.second _ _ 1 snap hsnap (.ok [116]))
  refine ⟨_, h5, ⟨m, ?_⟩, summarizers_summaryFirst h5⟩
  simp only [storeSummary, hcount]
  rfl

end Aestival
