import Aestival.Chat.Storage

/-!
# The chat context manager

`chat_context_manager` keeps a conversation below `kMaxTotalBytes` by replacing its older part with
a summary. `summarize_with_model` runs in two critical sections around one model call made without
the lock:

* `takeSnapshot` loads the conversation, decides whether a summary is due, and builds the prompt;
* `finishSummary` reloads the conversation and computes what is saved, if anything: `commitSummary`
  after a reply, `commitFallback` (over `summarizeIfNeeded`) when the call has thrown.

Between the sections other threads append to the conversation or clear it. The second section knows
of this only what the number of messages tells it.
-/

namespace Aestival

/-! ### Constants -/

def kMaxTotalBytes : Nat := 65536
def kConcatMaxBytes : Nat := 8192
def kKeepLast : Nat := 10
def kSummaryTruncateBytes : Nat := 1200
def kSummaryPrefix : Bytes := utf8 "Conversation summary: "

/-- `is_summary_message`. -/
def isSummaryMessage (m : ChatMessage) : Bool :=
  m.role = .system && kSummaryPrefix.isPrefixOf m.content

/-- The system message that carries a summary. -/
def summaryMessage (summary : Bytes) : ChatMessage :=
  { role := .system, content := kSummaryPrefix ++ summary }

theorem summaryMessage_inj {s t : Bytes} (h : summaryMessage s = summaryMessage t) : s = t := by
  simp only [summaryMessage, ChatMessage.mk.injEq, List.append_cancel_left_eq, true_and,
    and_true] at h
  exact h

/-- A user-defined system prompt: a system message that is not a summary. -/
def isSystemPrompt (m : ChatMessage) : Bool :=
  m.role = .system && !isSummaryMessage m

/-- A message that is not a system message. -/
def isTurnMessage (m : ChatMessage) : Bool := m.role ≠ .system

/-- The text of the most recent summary, if there is one. -/
def previousSummary (messages : List ChatMessage) : Option Bytes :=
  (messages.reverse.find? isSummaryMessage).map fun m => m.content.drop kSummaryPrefix.length

/-! ### The first critical section -/

/-- The loop over the messages that fills the prompt. It stops after the message that makes the
text longer than `kConcatMaxBytes`. -/
def concatMessages : Bytes → List ChatMessage → Bytes
  | concat, [] => concat
  | concat, m :: ms =>
    if m.role = .system then concatMessages concat ms
    else
      let next := concat ++ (utf8 "[" ++ m.role.text ++ utf8 "] " ++ m.content ++ utf8 "\n")
      if next.length > kConcatMaxBytes then next else concatMessages next ms

/-- The prompt for the model. -/
def summaryPrompt (messages : List ChatMessage) : Bytes :=
  let concat := match previousSummary messages with
    | some s => utf8 "[previous summary] " ++ s ++ utf8 "\n"
    | none => []
  utf8 "请将以下对话摘要为一段简洁的中文总结，保留重要事实、实体和用户偏好。只返回摘要文本：\n\n" ++
    concatMessages concat messages

/-- What the first section hands over: the number of messages and the prompt. -/
structure Snapshot where
  msgCountBefore : Nat
  prompt : Bytes
  deriving DecidableEq, Repr

/-- The first section of `summarize_with_model`; `none` when no summary is due. -/
def takeSnapshot (messages : List ChatMessage) : Option Snapshot :=
  if totalBytes messages ≤ kMaxTotalBytes then none
  else some ⟨messages.length, summaryPrompt messages⟩

/-! ### The second critical section -/

/-- A thrown `std::exception`. Its text goes to the log only. -/
inductive Thrown where
  | exception
  deriving DecidableEq, Repr

/-- What `model_client::complete` ends with: a text, or an exception. -/
abbrev Completion := Except Thrown Bytes

/-- The success path: what is saved, or `none` where the section returns without saving. The
original range is the first `msgCountBefore` messages; of them the system prompts and the last
`kKeepLast` are kept, around the new summary. -/
def commitSummary (msgCountBefore : Nat) (summary : Bytes) (messages : List ChatMessage) :
    Option (List ChatMessage) :=
  if messages.length < msgCountBefore then none
  else
    let original := messages.take msgCountBefore
    let keepStart := if msgCountBefore > kKeepLast then msgCountBefore - kKeepLast else 0
    some (original.filter isSystemPrompt ++ [summaryMessage summary] ++
      (original.drop keepStart).filter isTurnMessage ++ messages.drop msgCountBefore)

/-- The loop of `summarize_if_needed`: absorb messages into the summary while they fit. The text,
and the messages from the first one on that did not fit. -/
def absorb : Bytes → List ChatMessage → Bytes × List ChatMessage
  | acc, [] => (acc, [])
  | acc, m :: ms =>
    if m.role = .system then absorb acc ms
    else if acc.length + m.content.length > kSummaryTruncateBytes then (acc, m :: ms)
    else absorb (acc ++ m.content ++ utf8 " ") ms

/-- What is left over is a final part of the messages. -/
theorem absorb_suffix (acc : Bytes) (l : List ChatMessage) : (absorb acc l).2 <:+ l := by
  induction l generalizing acc with
  | nil => exact List.suffix_refl _
  | cons m ms ih =>
    unfold absorb
    split
    · exact (ih acc).trans (List.suffix_cons m ms)
    split
    · exact List.suffix_refl _
    · exact (ih _).trans (List.suffix_cons m ms)

/-- Absorbing only adds to the text. -/
theorem prefix_absorb (acc : Bytes) (l : List ChatMessage) : acc <+: (absorb acc l).1 := by
  induction l generalizing acc with
  | nil => exact List.prefix_refl _
  | cons m ms ih =>
    unfold absorb
    split
    · exact ih acc
    split
    · exact List.prefix_refl _
    · refine List.IsPrefix.trans ?_ (ih _)
      rw [List.append_assoc]
      exact List.prefix_append ..

/-- The text `summarize_if_needed` starts from: the most recent summary, if there is one. -/
def absorbStart (messages : List ChatMessage) : Bytes :=
  match previousSummary messages with
  | some s => s ++ utf8 "\n"
  | none => []

/-- `summarize_if_needed`: truncation by length, without a model. -/
def summarizeIfNeeded (messages : List ChatMessage) : List ChatMessage :=
  if totalBytes messages ≤ kMaxTotalBytes then messages
  else
    let (acc, rest) := absorb (absorbStart messages) messages
    if acc = [] then messages
    else messages.filter isSystemPrompt ++ [summaryMessage acc] ++ rest.filter isTurnMessage

/-- The `catch` block: what is saved. Messages after the original range are kept as they are. -/
def commitFallback (msgCountBefore : Nat) (messages : List ChatMessage) : List ChatMessage :=
  if messages.length > msgCountBefore then
    summarizeIfNeeded (messages.take msgCountBefore) ++ messages.drop msgCountBefore
  else summarizeIfNeeded messages

/-- Both branches of the `catch` block truncate the original range and keep what follows it. -/
theorem commitFallback_eq (n : Nat) (messages : List ChatMessage) :
    commitFallback n messages = summarizeIfNeeded (messages.take n) ++ messages.drop n := by
  unfold commitFallback
  split
  · rfl
  · next h =>
    rw [List.take_of_length_le (not_lt.mp h), List.drop_of_length_le (not_lt.mp h),
      List.append_nil]

/-- The second section of `summarize_with_model`: what is saved, if anything. -/
def finishSummary (msgCountBefore : Nat) (reply : Completion) (messages : List ChatMessage) :
    Option (List ChatMessage) :=
  match reply with
  | .error _ => some (commitFallback msgCountBefore messages)
  | .ok [] => none
  | .ok (c :: cs) => commitSummary msgCountBefore (c :: cs) messages

/-! ### Calls of other threads -/

/-- A call on one conversation that changes it. -/
inductive ConvCall where
  | appendUser (senderNick content : Bytes)
  | appendAssistant (content : Bytes)
  | appendTool (toolCallId content : Bytes)
  | appendAssistantWithToolCalls (content toolCallsJson : Bytes)
  | clear
  deriving DecidableEq, Repr

/-- The message a call appends; `none` for `clear`. -/
def ConvCall.message? : ConvCall → Option ChatMessage
  | .appendUser senderNick content => some { role := .user, senderNick, content }
  | .appendAssistant content => some { role := .assistant, content }
  | .appendTool toolCallId content => some { role := .tool, content, toolCallId }
  | .appendAssistantWithToolCalls content toolCallsJson =>
    some { role := .assistant, content, toolCallsJson }
  | .clear => none

/-- The call on the conversation `c`. -/
def ConvCall.exec (c : Bytes) (st : ListStore) (call : ConvCall) : ListStore :=
  match call.message? with
  | some m => st.appendMessage c m
  | none => st.clearMessages c

theorem ConvCall.exec_of_message {call : ConvCall} {m : ChatMessage} (h : call.message? = some m)
    (c : Bytes) (st : ListStore) : call.exec c st = st.appendMessage c m := by
  rw [ConvCall.exec, h]

/-- No call appends a system message. -/
theorem ConvCall.role_ne_system {call : ConvCall} {m : ChatMessage}
    (h : call.message? = some m) : m.role ≠ .system := by
  cases call <;> simp only [ConvCall.message?, Option.some.injEq, reduceCtorEq] at h <;>
    simp [← h]

/-- `summarize_with_model` on the conversation `c`, with the calls other threads make on `c` after
the first section: during the model call when there is one, and simply afterwards when no summary
was due. -/
def summarizeWithModel (st : ListStore) (c : Bytes) (calls : List ConvCall) (reply : Completion) :
    ListStore :=
  let st' := calls.foldl (ConvCall.exec c) st
  match takeSnapshot (st.load c) with
  | none => st'
  | some snap =>
    match finishSummary snap.msgCountBefore reply (st'.load c) with
    | none => st'
    | some msgs => st'.save c msgs

end Aestival
