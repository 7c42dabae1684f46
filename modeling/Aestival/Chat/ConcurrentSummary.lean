import Aestival.Chat.ContextManager

/-!
# Summarization under concurrent calls

A summary is computed while other threads append to the conversation or clear it. What should hold
afterwards is `SummarySafe`: the conversation ends with what was appended since the last clear, and
when a clear happened, nothing of the older messages is left, neither a kept message nor the
summary the model made of them. The second part is stated as an independence: the result is the
same for every other past of the same length.

`summarizeWithModel_safe_iff` says when the code delivers it. Without a clear it always does. After
a clear the code compares numbers of messages only, so

* a reply of the model is discarded only while fewer messages have been appended than there were
  before; otherwise the new messages are taken for the old ones and the summary is stored
  (`clear_then_append_undone`);
* after an exception the new messages themselves are truncated like old ones, unless they are small
  or their first one is too large to be absorbed.
-/

namespace Aestival

/-! ### What the calls leave in the conversation -/

/-- The messages appended since the last clear, or all of them when there is none. -/
def sinceLastClear (calls : List ConvCall) : List ChatMessage :=
  calls.foldl (fun acc call => match call.message? with
    | some m => acc ++ [m]
    | none => []) []

/-- Some call is a clear. -/
def Cleared (calls : List ConvCall) : Prop := .clear ∈ calls

instance (calls : List ConvCall) : Decidable (Cleared calls) :=
  inferInstanceAs (Decidable (.clear ∈ calls))

theorem cleared_concat {calls : List ConvCall} {call : ConvCall} :
    Cleared (calls ++ [call]) ↔ Cleared calls ∨ call = .clear := by
  simp only [Cleared, List.mem_append, List.mem_singleton]
  exact or_congr_right eq_comm

theorem sinceLastClear_concat (calls : List ConvCall) (call : ConvCall) :
    sinceLastClear (calls ++ [call]) = match call.message? with
      | some m => sinceLastClear calls ++ [m]
      | none => [] := by
  simp [sinceLastClear]

theorem ConvCall.message?_eq_none {call : ConvCall} : call.message? = none ↔ call = .clear := by
  cases call <;> simp [ConvCall.message?]

/-- Only turn messages are appended. -/
theorem role_ne_system_of_mem_sinceLastClear {calls : List ConvCall} {m : ChatMessage}
    (h : m ∈ sinceLastClear calls) : m.role ≠ .system := by
  induction calls using List.reverseRecOn with
  | nil => exact absurd h List.not_mem_nil
  | append_singleton calls call ih =>
    rw [sinceLastClear_concat] at h
    cases hm : call.message? with
    | none => rw [hm] at h; exact absurd h List.not_mem_nil
    | some m' =>
      rw [hm] at h
      rcases List.mem_append.mp h with h | h
      · exact ih h
      · obtain rfl := List.mem_singleton.mp h
        exact ConvCall.role_ne_system hm

/-- After the calls the conversation holds what was appended since the last clear, behind what was
there before when nothing cleared it. -/
theorem load_foldl_exec (st : ListStore) (c : Bytes) (calls : List ConvCall) :
    (Cleared calls → (calls.foldl (ConvCall.exec c) st).load c = sinceLastClear calls) ∧
    (¬ Cleared calls →
      (calls.foldl (ConvCall.exec c) st).load c = st.load c ++ sinceLastClear calls) := by
  induction calls using List.reverseRecOn with
  | nil => exact ⟨fun h => absurd h List.not_mem_nil, fun _ => (List.append_nil _).symm⟩
  | append_singleton calls call ih =>
    rw [List.foldl_append, List.foldl_cons, List.foldl_nil, sinceLastClear_concat, cleared_concat]
    cases hm : call.message? with
    -- a clear: nothing before it counts
    | none =>
      obtain rfl := ConvCall.message?_eq_none.mp hm
      exact ⟨fun _ => ListStore.load_clearMessages .., fun h => absurd (Or.inr rfl) h⟩
    -- a message is the last one, with or without a clear before it
    | some m =>
      have hne : call ≠ .clear := fun h => by rw [ConvCall.message?_eq_none.mpr h] at hm; cases hm
      rw [ConvCall.exec_of_message hm, ListStore.load_appendMessage]
      constructor
      · intro h
        rw [ih.1 (h.resolve_right hne)]
      · intro h
        rw [ih.2 (fun hc => h (Or.inl hc)), List.append_assoc]

/-! ### What should hold -/

/-- Two replies of the same kind: both an exception, both empty, or both a text. -/
def SameKind : Completion → Completion → Prop
  | .error _, .error _ => True
  | .ok s, .ok t => s = [] ↔ t = []
  | _, _ => False

/-- Two pasts the code treats alike: as many messages, and a summary due in both or in neither. -/
def SamePast (old old' : List ChatMessage) : Prop :=
  old'.length = old.length ∧
    (totalBytes old' ≤ kMaxTotalBytes ↔ totalBytes old ≤ kMaxTotalBytes)

/-- After `summarize_with_model`, nothing appended is lost and nothing cleared is back. -/
structure SummarySafe (st : ListStore) (c : Bytes) (calls : List ConvCall) (reply : Completion) :
    Prop where
  /-- The conversation ends with the messages appended since the last clear, in order. -/
  ends : sinceLastClear calls <:+ (summarizeWithModel st c calls reply).load c
  /-- After a clear the result does not depend on anything older: neither on the messages before
  it nor on the reply made from them. -/
  forgets : Cleared calls → ∀ (st' : ListStore) (calls' : List ConvCall) (reply' : Completion),
    SamePast (st.load c) (st'.load c) → Cleared calls' →
    sinceLastClear calls' = sinceLastClear calls → SameKind reply reply' →
    (summarizeWithModel st' c calls' reply').load c =
      (summarizeWithModel st c calls reply).load c

/-- The fallback truncation leaves these messages alone: they are small, or the first one is too
large to be absorbed. -/
def FallbackLeaves (messages : List ChatMessage) : Prop :=
  totalBytes messages ≤ kMaxTotalBytes ∨
    ∃ m ms, messages = m :: ms ∧ kSummaryTruncateBytes < m.content.length

/-- When the code is safe. The last part is about a conversation that was cleared while the model
was asked. -/
def SafeWhen (old : List ChatMessage) (calls : List ConvCall) (reply : Completion) : Prop :=
  totalBytes old ≤ kMaxTotalBytes ∨ ¬ Cleared calls ∨
    match reply with
    | .ok s => s = [] ∨ (sinceLastClear calls).length < old.length
    | .error _ => FallbackLeaves ((sinceLastClear calls).take old.length)

/-! ### The fallback on turn messages -/

/-- A list without system messages starts the summary from nothing. -/
theorem absorbStart_of_turns {l : List ChatMessage} (h : ∀ m ∈ l, m.role ≠ .system) :
    absorbStart l = [] := by
  have hnone : l.reverse.find? isSummaryMessage = none := by
    rw [List.find?_eq_none]
    intro m hm
    simp [isSummaryMessage, h m (List.mem_reverse.mp hm)]
  rw [absorbStart, previousSummary, hnone]
  rfl

theorem summarizeIfNeeded_of_leaves {l : List ChatMessage} (h : ∀ m ∈ l, m.role ≠ .system)
    (hl : FallbackLeaves l) : summarizeIfNeeded l = l := by
  unfold summarizeIfNeeded
  rcases hl with hsmall | ⟨m, ms, rfl, hbig⟩
  · exact if_pos hsmall
  · split
    · rfl
    · -- the first message does not fit, so nothing is absorbed
      have hm : m.role ≠ .system := h m (List.mem_cons_self ..)
      rw [absorbStart_of_turns h]
      simp [absorb, hm, hbig]

/-- When the fallback does act, the first message is absorbed: the result starts with a summary
and is no longer than the list. -/
theorem summarizeIfNeeded_of_not_leaves {l : List ChatMessage} (h : ∀ m ∈ l, m.role ≠ .system)
    (hl : ¬ FallbackLeaves l) :
    ∃ acc rest, summarizeIfNeeded l = summaryMessage acc :: rest ∧ rest.length < l.length := by
  simp only [FallbackLeaves, not_or, not_exists, not_and, not_lt] at hl
  obtain ⟨hbig, hfirst⟩ := hl
  cases l with
  | nil => exact absurd (Nat.zero_le _) hbig
  | cons m ms =>
    have hm : m.role ≠ .system := h m (List.mem_cons_self ..)
    -- the first message fits into the summary, so it is absorbed
    have hfits := hfirst m ms rfl
    have habs : absorb [] (m :: ms) = absorb (m.content ++ utf8 " ") ms := by
      simp [absorb, hm, not_lt.mpr hfits]
    -- and the summary is not empty
    have hacc : (absorb (m.content ++ utf8 " ") ms).1 ≠ [] := by
      intro hnil
      have := prefix_absorb (m.content ++ utf8 " ") ms
      rw [hnil, List.prefix_nil] at this
      exact absurd (List.append_eq_nil_iff.mp this).2 (by decide)
    -- no prompt is kept in front of it
    have hprompts : (m :: ms).filter isSystemPrompt = [] := by
      rw [List.filter_eq_nil_iff]
      intro x hx
      simp [isSystemPrompt, h x hx]
    refine ⟨(absorb (m.content ++ utf8 " ") ms).1,
      (absorb (m.content ++ utf8 " ") ms).2.filter isTurnMessage, ?_, ?_⟩
    · unfold summarizeIfNeeded
      rw [if_neg hbig, absorbStart_of_turns h, habs]
      simp only [hacc, if_false, hprompts, List.nil_append, List.singleton_append]
    · refine lt_of_le_of_lt (List.length_filter_le ..) (Nat.lt_succ_of_le ?_)
      exact (absorb_suffix _ ms).length_le

/-! ### The result of a call -/

section Result

variable {st : ListStore} {c : Bytes} {calls : List ConvCall} {reply : Completion}

theorem load_summarizeWithModel_of_small (h : totalBytes (st.load c) ≤ kMaxTotalBytes) :
    (summarizeWithModel st c calls reply).load c =
      (calls.foldl (ConvCall.exec c) st).load c := by
  simp only [summarizeWithModel, takeSnapshot, if_pos h]

theorem load_summarizeWithModel_of_big (h : ¬ totalBytes (st.load c) ≤ kMaxTotalBytes) :
    (summarizeWithModel st c calls reply).load c =
      (finishSummary (st.load c).length reply ((calls.foldl (ConvCall.exec c) st).load c)).getD
        ((calls.foldl (ConvCall.exec c) st).load c) := by
  simp only [summarizeWithModel, takeSnapshot, if_neg h]
  cases finishSummary (st.load c).length reply ((calls.foldl (ConvCall.exec c) st).load c) with
  | none => rfl
  | some msgs => exact ListStore.load_save ..

/-- Without a clear the new messages follow the original range, whatever happens to it. -/
theorem ends_of_not_cleared (h : ¬ Cleared calls) :
    sinceLastClear calls <:+ (summarizeWithModel st c calls reply).load c := by
  have hload := (load_foldl_exec st c calls).2 h
  by_cases hsmall : totalBytes (st.load c) ≤ kMaxTotalBytes
  · rw [load_summarizeWithModel_of_small hsmall, hload]
    exact List.suffix_append ..
  · rw [load_summarizeWithModel_of_big hsmall, hload]
    match reply with
    | .error _ =>
      simp only [finishSummary, Option.getD_some, commitFallback_eq, List.drop_left]
      exact List.suffix_append ..
    | .ok [] => exact List.suffix_append ..
    | .ok (b :: bs) =>
      have hlen : ¬ (st.load c ++ sinceLastClear calls).length < (st.load c).length := by simp
      simp only [finishSummary, commitSummary, hlen, if_false, Option.getD_some, List.drop_left]
      exact List.suffix_append ..

/-- After a clear the second section sees the new messages alone. -/
theorem load_summarizeWithModel_of_cleared (hbig : ¬ totalBytes (st.load c) ≤ kMaxTotalBytes)
    (h : Cleared calls) :
    (summarizeWithModel st c calls reply).load c =
      (finishSummary (st.load c).length reply (sinceLastClear calls)).getD
        (sinceLastClear calls) := by
  rw [load_summarizeWithModel_of_big hbig, (load_foldl_exec st c calls).1 h]

end Result

/-! ### When the call is safe -/

/-- An exception after a clear: the new messages survive exactly when the fallback leaves them
alone. -/
theorem suffix_commitFallback_iff {new : List ChatMessage} (h : ∀ m ∈ new, m.role ≠ .system)
    (n : Nat) : new <:+ commitFallback n new ↔ FallbackLeaves (new.take n) := by
  have htake : ∀ m ∈ new.take n, m.role ≠ .system := fun m hm => h m (List.mem_of_mem_take hm)
  rw [commitFallback_eq]
  constructor
  · intro hsuf
    by_contra hnot
    obtain ⟨acc, rest, heq, hlen⟩ := summarizeIfNeeded_of_not_leaves htake hnot
    rw [heq, List.cons_append] at hsuf
    -- the result is not longer, so it is the list itself, but it starts with a system message
    have hle : (summaryMessage acc :: (rest ++ new.drop n)).length ≤ new.length := by
      have := List.take_append_drop n new
      have hsum : (new.take n).length + (new.drop n).length = new.length := by
        rw [← List.length_append, this]
      simp only [List.length_cons, List.length_append]
      omega
    have hnew := hsuf.eq_of_length_le hle
    have hmem : summaryMessage acc ∈ new := by
      rw [hnew]
      exact List.mem_cons_self ..
    exact h _ hmem rfl
  · intro hleaves
    rw [summarizeIfNeeded_of_leaves htake hleaves, List.take_append_drop]

/-- A reply after a clear with at least as many new messages as there were old ones: its text ends
up in the conversation. -/
theorem commitSummary_inj {n : Nat} {s t : Bytes} {new : List ChatMessage}
    (hlen : ¬ new.length < n) (h : commitSummary n s new = commitSummary n t new) : s = t := by
  simp only [commitSummary, hlen, if_false, Option.some.injEq, List.append_assoc,
    List.append_cancel_left_eq, List.cons_append, List.nil_append, List.cons.injEq,
    and_true] at h
  exact summaryMessage_inj h

/-- **When a summary is safe.** Nothing is lost and nothing cleared comes back exactly when no
summary was due, or no clear fell into the model call, or the reply was empty, or a reply met fewer
new messages than there were old ones, or an exception met new messages that the fallback leaves
alone. -/
theorem summarizeWithModel_safe_iff (st : ListStore) (c : Bytes) (calls : List ConvCall)
    (reply : Completion) :
    SummarySafe st c calls reply ↔ SafeWhen (st.load c) calls reply := by
  -- no summary is due: the calls alone make the conversation
  by_cases hsmall : totalBytes (st.load c) ≤ kMaxTotalBytes
  · refine ⟨fun _ => Or.inl hsmall, fun _ => ⟨?_, ?_⟩⟩
    · rw [load_summarizeWithModel_of_small hsmall]
      by_cases hc : Cleared calls
      · rw [(load_foldl_exec st c calls).1 hc]
      · rw [(load_foldl_exec st c calls).2 hc]
        exact List.suffix_append ..
    · intro hc st' calls' reply' hpast hc' hsince _
      rw [load_summarizeWithModel_of_small hsmall,
        load_summarizeWithModel_of_small (hpast.2.mpr hsmall),
        (load_foldl_exec st c calls).1 hc, (load_foldl_exec st' c calls').1 hc', hsince]
  by_cases hc : Cleared calls
  swap
  · exact ⟨fun _ => Or.inr (Or.inl hc), fun _ => ⟨ends_of_not_cleared hc, fun h => absurd h hc⟩⟩
  -- a clear while the model answers
  have hturns : ∀ m ∈ sinceLastClear calls, m.role ≠ .system := fun _ =>
    role_ne_system_of_mem_sinceLastClear
  have hwhen : SafeWhen (st.load c) calls reply ↔ match reply with
      | .ok s => s = [] ∨ (sinceLastClear calls).length < (st.load c).length
      | .error _ => FallbackLeaves ((sinceLastClear calls).take (st.load c).length) := by
    simp [SafeWhen, hsmall, hc]
  rw [hwhen]
  have hload : (summarizeWithModel st c calls reply).load c =
      (finishSummary (st.load c).length reply (sinceLastClear calls)).getD
        (sinceLastClear calls) := load_summarizeWithModel_of_cleared hsmall hc
  match reply, hload with
  -- no answer: the fallback summarizes what is there by then
  | .error e, hload =>
    simp only [finishSummary, Option.getD_some] at hload
    constructor
    · intro h
      rw [← suffix_commitFallback_iff hturns, ← hload]
      exact h.ends
    · intro h
      refine ⟨?_, ?_⟩
      · rw [hload]
        exact (suffix_commitFallback_iff hturns _).mpr h
      · intro _ st' calls' reply' hpast hc' hsince hkind
        match reply', hkind with
        | .error e', _ =>
          rw [load_summarizeWithModel_of_cleared (fun h => hsmall (hpast.2.mp h)) hc', hload,
            hsince, hpast.1]
          rfl
  -- an empty answer commits nothing
  | .ok [], hload =>
    refine ⟨fun _ => Or.inl rfl, fun _ => ⟨?_, ?_⟩⟩
    · rw [hload]
      exact List.suffix_refl _
    · intro _ st' calls' reply' hpast hc' hsince hkind
      match reply', hkind with
      | .ok t, hkind =>
        obtain rfl := hkind.mp rfl
        rw [load_summarizeWithModel_of_cleared (fun h => hsmall (hpast.2.mp h)) hc', hload, hsince]
        rfl
  -- the text is committed unless fewer messages are there than were taken
  | .ok (b :: bs), hload =>
    simp only [finishSummary] at hload
    by_cases hlen : (sinceLastClear calls).length < (st.load c).length
    · refine ⟨fun _ => Or.inr hlen, fun _ => ⟨?_, ?_⟩⟩
      · rw [hload, commitSummary, if_pos hlen]
        exact List.suffix_refl _
      · intro _ st' calls' reply' hpast hc' hsince hkind
        match reply', hkind with
        | .ok [], hkind => exact absurd (hkind.mpr rfl) (List.cons_ne_nil b bs)
        | .ok (d :: ds), _ =>
          rw [load_summarizeWithModel_of_cleared (fun h => hsmall (hpast.2.mp h)) hc', hload,
            hsince, hpast.1]
          simp [finishSummary, commitSummary, hlen]
    · -- the same run with a longer reply stores another summary
      refine ⟨fun h => ?_, fun h => ?_⟩
      · have hother := h.forgets hc st calls (.ok (b :: b :: bs)) ⟨rfl, Iff.rfl⟩ hc rfl
          (by simp [SameKind])
        rw [hload, load_summarizeWithModel_of_cleared hsmall hc, finishSummary] at hother
        have hsome : ∀ s, ∃ msgs,
            commitSummary (st.load c).length s (sinceLastClear calls) = some msgs := fun s => by
          simp [commitSummary, hlen]
        obtain ⟨k, hk⟩ := hsome (b :: b :: bs)
        obtain ⟨l, hl⟩ := hsome (b :: bs)
        rw [hk, hl, Option.getD_some, Option.getD_some] at hother
        have := commitSummary_inj hlen (hk.trans (hother ▸ hl.symm))
        exact absurd (congrArg List.length this) (by simp)
      · exact absurd h (by simp [hlen])

/-- **A clear is undone.** One large message is being summarized when the conversation is cleared
and a new message arrives. There are as many messages as before, so the summary of the cleared
message is stored. -/
theorem clear_then_append_undone :
    ¬ ∀ (st : ListStore) (c : Bytes) (calls : List ConvCall) (reply : Completion),
      SummarySafe st c calls reply := by
  intro h
  -- only the length of the large message counts, so its octets stay out of the terms below
  obtain ⟨large, hlarge⟩ : ∃ large : Bytes, large.length = 70000 :=
    ⟨List.replicate 70000 97, List.length_replicate⟩
  have hsafe := h (ListStore.empty.save [99] [{ role := .assistant, content := large }]) [99]
    [.clear, .appendUser [110] [104, 105]] (.ok [115])
  rw [summarizeWithModel_safe_iff, ListStore.load_save] at hsafe
  rcases hsafe with hsmall | hclear | hreply
  · rw [totalBytes_cons, totalBytes_nil, hlarge] at hsmall
    exact absurd hsmall (by decide)
  · exact hclear (by decide)
  · rcases hreply with hempty | hshorter
    · cases hempty
    · exact Nat.lt_irrefl 1 hshorter

end Aestival
