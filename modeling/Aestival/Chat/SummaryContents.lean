import Aestival.Chat.ConcurrentSummary

/-!
# What a summary accounts for

A summary takes the place of the first turn messages of a conversation and keeps the others. Two
questions are asked of it: whether the rest is as it was, and whether the model, or the text of the
summary, has got what was removed.

* `summarize_if_needed` removes exactly the messages whose text it has put into the summary
  (`summarizeIfNeeded_keepsText`).
* `summarize_with_model` decides twice: the prompt shows the messages up to the one that exceeds
  `kConcatMaxBytes`, and the last `kKeepLast` are kept. What lies between is removed unseen, so
  nothing is removed unseen exactly if the prompt reaches the messages that are kept
  (`removesSeen_iff`).
-/

namespace Aestival

open Bytes

/-! ### Truncation -/

/-- What should hold of a truncation. -/
structure KeepsText (messages result : List ChatMessage) : Prop where
  /-- Messages that are not too large stay as they are. -/
  small : totalBytes messages ≤ kMaxTotalBytes → result = messages
  /-- The system prompts are kept, in order. -/
  prompts : result.filter isSystemPrompt = messages.filter isSystemPrompt
  /-- The turn messages are kept, or the first of them are in the only summary, in order, and the
  others are kept behind it, in order. -/
  turns : result = messages ∨ ∃ absorbed kept text,
    messages.filter isTurnMessage = absorbed ++ kept ∧
    result = messages.filter isSystemPrompt ++ summaryMessage text :: kept ∧
    result.filter isSummaryMessage = [summaryMessage text] ∧
    OccurInOrder (absorbed.map ChatMessage.content) text
  /-- The text of the new summary starts with the one of the most recent summary. -/
  previous : ∀ s, previousSummary messages = some s → kMaxTotalBytes < totalBytes messages →
    ∃ text, result.filter isSummaryMessage = [summaryMessage text] ∧ s <+: text

theorem isTurnMessage_iff {m : ChatMessage} : isTurnMessage m = true ↔ m.role ≠ .system :=
  decide_eq_true_iff

@[simp] theorem isSummaryMessage_summaryMessage (text : Bytes) :
    isSummaryMessage (summaryMessage text) = true := by
  simp [isSummaryMessage, summaryMessage]

/-- A turn message is no system message of either kind. -/
theorem not_system_of_turn {m : ChatMessage} (h : isTurnMessage m = true) :
    isSystemPrompt m = false ∧ isSummaryMessage m = false := by
  have hrole := isTurnMessage_iff.mp h
  simp [isSystemPrompt, isSummaryMessage, hrole]

/-- `absorb` splits the turn messages: the text of the first ones is put behind the text so far,
and the others are left over. -/
theorem absorb_spec (acc : Bytes) (l : List ChatMessage) :
    ∃ absorbed, l.filter isTurnMessage = absorbed ++ (absorb acc l).2.filter isTurnMessage ∧
      (absorb acc l).1 = acc ++ absorbed.flatMap fun m => m.content ++ utf8 " " := by
  induction l generalizing acc with
  | nil => exact ⟨[], rfl, (List.append_nil acc).symm⟩
  | cons m ms ih =>
    unfold absorb
    split
    -- prompts are skipped
    · next hsystem =>
      rw [List.filter_cons_of_neg (by simp [isTurnMessage, hsystem])]
      exact ih acc
    split
    -- the first message that does not fit ends the summary
    · exact ⟨[], rfl, (List.append_nil acc).symm⟩
    -- any other is added to the text
    · next hturn _ =>
      obtain ⟨absorbed, hsplit, htext⟩ := ih (acc ++ m.content ++ utf8 " ")
      refine ⟨m :: absorbed, ?_, ?_⟩
      · rw [List.filter_cons_of_pos (isTurnMessage_iff.mpr hturn), hsplit]
        rfl
      · rw [htext, List.flatMap_cons]
        simp only [List.append_assoc]

/-- A system prompt is no summary. -/
theorem not_summary_of_prompt {m : ChatMessage} (h : isSystemPrompt m = true) :
    isSummaryMessage m = false := by
  simp only [isSystemPrompt, Bool.and_eq_true, Bool.not_eq_true'] at h
  exact h.2

section Summarized

variable {prompts kept : List ChatMessage} (hprompts : ∀ m ∈ prompts, isSystemPrompt m = true)
  (hkept : ∀ m ∈ kept, isTurnMessage m = true)
include hprompts hkept

/-- A summary between system prompts and turn messages does not count among the prompts. -/
theorem filter_isSystemPrompt_summarized (text : Bytes) :
    (prompts ++ summaryMessage text :: kept).filter isSystemPrompt = prompts := by
  have hsummary : isSystemPrompt (summaryMessage text) = false := by simp [isSystemPrompt]
  have hturns : kept.filter isSystemPrompt = [] := by
    rw [List.filter_eq_nil_iff]
    intro m hm
    simp [(not_system_of_turn (hkept m hm)).1]
  rw [List.filter_append, List.filter_cons_of_neg (by simp [hsummary]), hturns, List.append_nil]
  exact List.filter_eq_self.mpr hprompts

/-- It is the only summary. -/
theorem filter_isSummaryMessage_summarized (text : Bytes) :
    (prompts ++ summaryMessage text :: kept).filter isSummaryMessage = [summaryMessage text] := by
  have hnone : prompts.filter isSummaryMessage = [] := by
    rw [List.filter_eq_nil_iff]
    intro m hm
    simp [not_summary_of_prompt (hprompts m hm)]
  have hturns : kept.filter isSummaryMessage = [] := by
    rw [List.filter_eq_nil_iff]
    intro m hm
    simp [(not_system_of_turn (hkept m hm)).2]
  rw [List.filter_append, List.filter_cons_of_pos (isSummaryMessage_summaryMessage text), hnone,
    hturns, List.nil_append]

end Summarized

/-- Truncation leaves the messages as they are, or puts one summary between the system prompts and
turn messages. -/
theorem summarizeIfNeeded_shape (messages : List ChatMessage) :
    summarizeIfNeeded messages = messages ∨ ∃ (text : Bytes) (rest : List ChatMessage),
      summarizeIfNeeded messages =
        messages.filter isSystemPrompt ++ summaryMessage text :: rest.filter isTurnMessage := by
  unfold summarizeIfNeeded
  split
  · exact .inl rfl
  dsimp only
  split
  · exact .inl rfl
  · right
    refine ⟨(absorb (absorbStart messages) messages).1, (absorb (absorbStart messages) messages).2,
      ?_⟩
    rw [List.append_assoc, List.singleton_append]

/-- **Truncation loses no text.** -/
theorem summarizeIfNeeded_keepsText (messages : List ChatMessage) :
    KeepsText messages (summarizeIfNeeded messages) := by
  unfold summarizeIfNeeded
  split
  · next hsmall => exact ⟨fun _ => rfl, rfl, .inl rfl, fun _ _ hbig => absurd hsmall hbig.not_ge⟩
  next hbig =>
  -- the messages absorbed are a part of the list, and the text holds their contents in order
  obtain ⟨absorbed, hsplit, htext⟩ := absorb_spec (absorbStart messages) messages
  generalize absorb (absorbStart messages) messages = out at hsplit htext
  obtain ⟨acc, rest⟩ := out
  dsimp only at hsplit htext ⊢
  split
  · next hnil =>
    -- nothing is absorbed, and there is no summary that could go on
    refine ⟨fun _ => rfl, rfl, .inl rfl, ?_⟩
    intro s hs _
    rw [absorbStart, hs, hnil] at htext
    have hempty := (List.append_eq_nil_iff.mp htext.symm).1
    exact absurd (List.append_eq_nil_iff.mp hempty).2 (by decide)
  · next hacc =>
    have hprompts : ∀ m ∈ messages.filter isSystemPrompt, isSystemPrompt m = true :=
      fun m hm => (List.mem_filter.mp hm).2
    have hkept : ∀ m ∈ rest.filter isTurnMessage, isTurnMessage m = true :=
      fun m hm => (List.mem_filter.mp hm).2
    have hsummary := filter_isSummaryMessage_summarized hprompts hkept acc
    have horder : OccurInOrder (absorbed.map ChatMessage.content) acc := by
      rw [htext]
      exact (OccurInOrder.flatMap (fun _ => []) ChatMessage.content (fun _ => utf8 " ")
        absorbed).append_left _
    rw [List.append_assoc, List.singleton_append]
    refine ⟨fun hsmall => absurd hsmall hbig, filter_isSystemPrompt_summarized hprompts hkept acc,
      .inr ⟨absorbed, _, acc, hsplit, rfl, hsummary, horder⟩, ?_⟩
    intro s hs _
    refine ⟨acc, hsummary, ?_⟩
    -- the text starts with the most recent summary and a line end
    rw [htext, absorbStart, hs, List.append_assoc]
    exact List.prefix_append ..

/-! ### What the model is shown -/

/-- The line of a message in the prompt. -/
def promptLine (m : ChatMessage) : Bytes :=
  utf8 "[" ++ m.role.text ++ utf8 "] " ++ m.content ++ utf8 "\n"

/-- The instruction in front of the messages. -/
def promptIntro : Bytes :=
  utf8 "请将以下对话摘要为一段简洁的中文总结，保留重要事实、实体和用户偏好。只返回摘要文本：\n\n"

/-- The line of the most recent summary, if there is one. -/
def previousLine (messages : List ChatMessage) : Bytes :=
  match previousSummary messages with
  | some s => utf8 "[previous summary] " ++ s ++ utf8 "\n"
  | none => []

/-- How many of these messages a prompt shows that is already `size` long: all up to the one whose
line makes it longer than `kConcatMaxBytes`. -/
def shownCount : Nat → List ChatMessage → Nat
  | _, [] => 0
  | size, m :: ms =>
    if size + (promptLine m).length > kConcatMaxBytes then 1
    else shownCount (size + (promptLine m).length) ms + 1

/-- The turn messages the prompt shows. -/
def shownMessages (messages : List ChatMessage) : List ChatMessage :=
  (messages.filter isTurnMessage).take
    (shownCount (previousLine messages).length (messages.filter isTurnMessage))

/-- The loop of the prompt shows the turn messages up to the one that exceeds the limit. -/
theorem concatMessages_eq (concat : Bytes) (l : List ChatMessage) :
    concatMessages concat l = concat ++ ((l.filter isTurnMessage).take
      (shownCount concat.length (l.filter isTurnMessage))).flatMap promptLine := by
  -- the text that has been put together so far varies along the loop
  induction l generalizing concat with
  | nil => exact (List.append_nil concat).symm
  | cons m ms ih =>
    unfold concatMessages
    split
    · next hsystem =>
      rw [List.filter_cons_of_neg (by simp [isTurnMessage, hsystem])]
      exact ih concat
    next hturn =>
    rw [List.filter_cons_of_pos (isTurnMessage_iff.mpr hturn)]
    have hnext : (concat ++ promptLine m).length = concat.length + (promptLine m).length :=
      List.length_append
    show (if (concat ++ promptLine m).length > kConcatMaxBytes then concat ++ promptLine m
      else concatMessages (concat ++ promptLine m) ms) = _
    rw [hnext, shownCount]
    split
    · simp
    · -- the line fits, so the loop goes on behind it
      rw [ih, hnext, List.take_succ_cons, List.flatMap_cons, List.append_assoc]

/-- The prompt: the instruction, the most recent summary, and the messages shown. -/
theorem summaryPrompt_eq (messages : List ChatMessage) :
    summaryPrompt messages =
      promptIntro ++ (previousLine messages ++ (shownMessages messages).flatMap promptLine) :=
  congrArg (promptIntro ++ ·) (concatMessages_eq (previousLine messages) messages)

/-- Each message shown is in the prompt with its full content. -/
theorem content_infix_of_shown {messages : List ChatMessage} {m : ChatMessage}
    (h : m ∈ shownMessages messages) : m.content <:+: summaryPrompt messages := by
  have horder : OccurInOrder ((shownMessages messages).map ChatMessage.content)
      ((shownMessages messages).flatMap promptLine) :=
    OccurInOrder.flatMap (fun m => utf8 "[" ++ m.role.text ++ utf8 "] ") ChatMessage.content
      (fun _ => utf8 "\n") _
  rw [summaryPrompt_eq]
  exact ((horder.append_left _).append_left _).infix_of_mem (List.mem_map_of_mem h)

/-! ### What a reply removes -/

/-- The messages in front of the last `kKeepLast`: the ones a reply replaces. -/
def replacedMessages (messages : List ChatMessage) : List ChatMessage :=
  (messages.take (messages.length - kKeepLast)).filter isTurnMessage

/-- The messages a reply replaces although the prompt has stopped in front of them. -/
def unseenMessages (messages : List ChatMessage) : List ChatMessage :=
  (replacedMessages messages).drop
    (shownCount (previousLine messages).length (messages.filter isTurnMessage))

/-- What should hold of a summary without concurrent calls: the turn messages it removes come
first and are in the prompt with their full content, and the others stay as they are. -/
def RemovesSeen (st : ListStore) (c : Bytes) (reply : Bytes) : Prop :=
  ∃ removed, (st.load c).filter isTurnMessage =
      removed ++ ((summarizeWithModel st c [] (.ok reply)).load c).filter isTurnMessage ∧
    ∀ m ∈ removed, ∃ snap, takeSnapshot (st.load c) = some snap ∧ m.content <:+: snap.prompt

theorem replacedMessages_append (messages : List ChatMessage) :
    messages.filter isTurnMessage =
      replacedMessages messages ++
        (messages.drop (messages.length - kKeepLast)).filter isTurnMessage := by
  rw [replacedMessages, ← List.filter_append, List.take_append_drop]

/-- What the prompt shows are the first turn messages, so it shows what is replaced as far as it
reaches. -/
theorem mem_shown_or_unseen {messages : List ChatMessage} {m : ChatMessage}
    (h : m ∈ replacedMessages messages) :
    m ∈ shownMessages messages ∨ m ∈ unseenMessages messages := by
  rw [shownMessages, unseenMessages]
  generalize shownCount _ _ = n
  -- what is replaced, up to where the prompt ends and from there on
  rw [← List.take_append_drop n (replacedMessages messages), List.mem_append] at h
  refine h.imp_left fun hm => ?_
  rw [replacedMessages_append, List.take_append]
  exact List.mem_append_left _ hm

/-- The first messages are all shown exactly if the lines of all but the last of them fit. -/
theorem length_le_shownCount_iff (size : Nat) (l rest : List ChatMessage) :
    l.length ≤ shownCount size (l ++ rest) ↔
      l.dropLast = [] ∨ size + (l.dropLast.flatMap promptLine).length ≤ kConcatMaxBytes := by
  induction l generalizing size with
  | nil => simp
  | cons m l ih =>
    rw [List.cons_append, shownCount]
    cases l with
    | nil =>
      have hpos : 1 ≤ if size + (promptLine m).length > kConcatMaxBytes then 1
          else shownCount (size + (promptLine m).length) ([] ++ rest) + 1 := by
        split <;> omega
      simpa using hpos
    | cons m' l =>
      have hlast : (m :: m' :: l).dropLast = m :: (m' :: l).dropLast := rfl
      have hlength : (m :: m' :: l).length = (m' :: l).length + 1 := rfl
      rw [hlast, hlength, List.flatMap_cons, List.length_append, ← Nat.add_assoc]
      simp only [reduceCtorEq, false_or]
      split
      · next hexceeds =>
        -- the prompt ends with the first line, and one more was to be shown
        constructor
        · intro h
          simp at h
        · intro h
          omega
      · next hfits =>
        rw [Nat.add_le_add_iff_right, ih]
        constructor
        · rintro (hnil | hle)
          · rw [hnil]
            simpa using hfits
          · exact hle
        · exact .inr

/-- Nothing is replaced unseen exactly if the lines of all but the last of the messages replaced
fit behind the most recent summary. -/
theorem unseenMessages_eq_nil_iff (messages : List ChatMessage) :
    unseenMessages messages = [] ↔ (replacedMessages messages).dropLast = [] ∨
      (previousLine messages).length +
        ((replacedMessages messages).dropLast.flatMap promptLine).length ≤ kConcatMaxBytes := by
  rw [unseenMessages, List.drop_eq_nil_iff, ← length_le_shownCount_iff,
    ← replacedMessages_append]

section Reply

variable (st : ListStore) (c : Bytes) (b : UInt8) (bs : Bytes)

/-- A reply keeps the turn messages among the last `kKeepLast`. -/
theorem filter_isTurnMessage_summarized (hbig : ¬ totalBytes (st.load c) ≤ kMaxTotalBytes) :
    ((summarizeWithModel st c [] (.ok (b :: bs))).load c).filter isTurnMessage =
      ((st.load c).drop ((st.load c).length - kKeepLast)).filter isTurnMessage := by
  have hload : (summarizeWithModel st c [] (.ok (b :: bs))).load c = _ :=
    load_summarizeWithModel_of_big hbig
  have hstart : (if (st.load c).length > kKeepLast then (st.load c).length - kKeepLast else 0) =
      (st.load c).length - kKeepLast := by
    split <;> omega
  have hprompts : ((st.load c).filter isSystemPrompt).filter isTurnMessage = [] := by
    rw [List.filter_eq_nil_iff]
    intro m hm hturn
    have := (not_system_of_turn hturn).1
    simp [(List.mem_filter.mp hm).2] at this
  simp only [List.foldl_nil, finishSummary, commitSummary, lt_irrefl, if_false, hstart,
    List.take_length, List.drop_length, List.append_nil, Option.getD_some] at hload
  rw [hload, List.filter_append, List.filter_append, hprompts, List.filter_filter]
  simp only [Bool.and_self]
  rfl

/-- **When nothing is removed unseen.** A summary removes only what the model was shown exactly if
no summary was due, or what the prompt does not reach before the messages that are kept happens to
occur in it all the same. -/
theorem removesSeen_iff : RemovesSeen st c (b :: bs) ↔
    totalBytes (st.load c) ≤ kMaxTotalBytes ∨
      ∀ m ∈ unseenMessages (st.load c), m.content <:+:
        promptIntro ++ (previousLine (st.load c) ++
          (shownMessages (st.load c)).flatMap promptLine) := by
  by_cases hsmall : totalBytes (st.load c) ≤ kMaxTotalBytes
  -- no summary is due, and nothing is removed
  · refine ⟨fun _ => .inl hsmall, fun _ => ⟨[], ?_, fun m hm => absurd hm List.not_mem_nil⟩⟩
    rw [load_summarizeWithModel_of_small hsmall]
    rfl
  have hkept := filter_isTurnMessage_summarized st c b bs hsmall
  have hsnap : takeSnapshot (st.load c) =
      some ⟨(st.load c).length, summaryPrompt (st.load c)⟩ := if_neg hsmall
  rw [← summaryPrompt_eq]
  constructor
  · rintro ⟨removed, hsplit, hseen⟩
    right
    intro m hm
    -- the messages removed are the ones a reply replaces
    rw [hkept, replacedMessages_append] at hsplit
    have hremoved := List.append_cancel_right hsplit
    obtain ⟨snap, hsome, hin⟩ := hseen m (hremoved ▸ List.mem_of_mem_drop hm)
    rw [hsnap, Option.some.injEq] at hsome
    rw [← hsome] at hin
    exact hin
  -- each message replaced is shown, or occurs in the prompt anyway
  · intro hwhen
    refine ⟨replacedMessages (st.load c), ?_, ?_⟩
    · rw [hkept]
      exact replacedMessages_append (st.load c)
    · intro m hm
      refine ⟨_, hsnap, ?_⟩
      rcases mem_shown_or_unseen hm with hshown | hunseen
      · exact content_infix_of_shown hshown
      · exact hwhen.resolve_left hsmall m hunseen

end Reply

/-- **A message is removed unseen.** The first message fills the prompt, the second one is no longer
shown, and ten more are kept. -/
theorem second_message_unseen :
    ¬ ∀ (st : ListStore) (c : Bytes) (b : UInt8) (bs : Bytes), RemovesSeen st c (b :: bs) := by
  intro h
  -- of the large message only its length counts, and that it is free of the octet 1
  obtain ⟨large, hlarge, hone⟩ : ∃ large : Bytes, large.length = 70000 ∧ 1 ∉ large := by
    refine ⟨List.replicate 70000 97, List.length_replicate, ?_⟩
    intro hmem
    exact absurd (List.eq_of_mem_replicate hmem) (by decide)
  let first : ChatMessage := { role := .user, senderNick := [110], content := large }
  let second : ChatMessage := { role := .assistant, content := [1] }
  let kept := List.replicate 10 ({ role := .assistant, content := [104] } : ChatMessage)
  have hload : (ListStore.empty.save [99] (first :: second :: kept)).load [99] =
      first :: second :: kept := ListStore.load_save ..
  have hseen := h (ListStore.empty.save [99] (first :: second :: kept)) [99] 115 []
  rw [removesSeen_iff, hload] at hseen
  -- the line of the first message alone is longer than the limit
  have hline : 8192 < (promptLine first).length := by
    simp only [promptLine, first, List.length_append, hlarge]
    omega
  have hcount : ∀ rest, shownCount 0 (first :: rest) = 1 := by
    intro rest
    rw [shownCount, if_pos]
    show 8192 < 0 + (promptLine first).length
    omega
  have hshown : shownMessages (first :: second :: kept) = [first] := by
    show List.take (shownCount 0 (first :: second :: kept)) (first :: second :: kept) = [first]
    rw [hcount]
    rfl
  have hunseen : unseenMessages (first :: second :: kept) = [second] := by
    show List.drop (shownCount 0 (first :: second :: kept)) [first, second] = [second]
    rw [hcount]
    rfl
  rcases hseen with hsmall | hin
  · rw [totalBytes_cons] at hsmall
    have : 70000 ≤ kMaxTotalBytes := hlarge ▸ Nat.le_trans (Nat.le_add_right ..) hsmall
    exact absurd this (by decide)
  · -- the octet 1 would have to be in the prompt
    rw [hunseen, hshown] at hin
    have hmem := (hin second (List.mem_singleton_self _)).subset (List.mem_singleton_self 1)
    have hintro : (1 : UInt8) ∉ promptIntro := by decide +kernel
    have hnone : previousLine (first :: second :: kept) = [] := rfl
    rw [hnone, List.nil_append, List.flatMap_singleton, promptLine, List.mem_append] at hmem
    rcases hmem with hmem | hmem
    · exact hintro hmem
    · simp [first, hone, Role.text, utf8] at hmem
      revert hmem
      decide

end Aestival
