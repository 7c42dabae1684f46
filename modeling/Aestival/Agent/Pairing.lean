import Aestival.Agent.TurnParts
import Aestival.Chat.Pairing

/-!
# Conversations stay well-paired

The tool loop appends rounds in which every result follows the call it answers, and a turn stores
them in this order (`paired_storedMessages`). So a turn keeps a conversation well-paired but for the
summary it may make on the way: a summary cuts the conversation at a place chosen by count or by
bytes. Over any sequence of turns and summaries from the empty conversation, well-pairedness holds
as long as no summary cuts inside a round (`session_wellPaired`). Nothing in the code prevents that
cut (`tool_result_orphaned`).
-/

namespace Aestival

open Bytes Prog

/-- The calls dumped as `json` contain one with this id. -/
def HasCall (json id : Bytes) : Prop :=
  ∃ calls, dumpToolCalls calls = .ok json ∧ ∃ tc ∈ calls, tc.id = id

/-- Every conversation is well-paired. -/
def World.Paired (w : World) : Prop := ∀ c, Aestival.Paired HasCall none (w.store.load c)

/-! ### What a turn stores -/

/-- The message `persistToolMessages` stores for `m`, if any. -/
def storedMessage (m : ChatMessage) : Option ChatMessage :=
  if m.role = .assistant ∧ m.toolCallsJson ≠ [] then
    some { role := .assistant, content := m.content, toolCallsJson := m.toolCallsJson }
  else if m.role = .tool then
    some { role := .tool, content := capToolContent m.content, toolCallId := m.toolCallId }
  else none

/-- If the event is the second section of a summary, it cuts between two rounds. -/
def CutsBetweenRounds (ev : Event TurnSig World) : Prop :=
  match ev.eff with
  | .commit c _ reply => CutBetweenRounds reply (ev.pre.store.load c)
  | _ => True

section Programs

variable {w : World} {agent : AgentController} {message : MessageEvent} {c : Bytes}

/-- The conversation that is written, and the others. -/
theorem World.Paired.save {store : ListStore} {l : List ChatMessage} (h : w.Paired)
    (hc : Aestival.Paired HasCall none l) (hstore : store = w.store.save c l) :
    ({ w with store } : World).Paired := by
  subst hstore
  intro d
  by_cases hd : d = c
  · subst hd
    show Aestival.Paired HasCall none ((w.store.save d l).load d)
    rw [ListStore.load_save]
    exact hc
  · show Aestival.Paired HasCall none ((w.store.exec (.save c l)).load d)
    rw [ListStore.load_exec_ne _ _ hd]
    exact h d

/-- Appending a message that is no tool result. -/
theorem World.Paired.append {m : ChatMessage} (h : w.Paired) (hm : m.role ≠ .tool) :
    (w.next (.append c m) ()).Paired :=
  h.save (paired_concat (h c) hm) rfl

end Programs

/-! ### Sessions -/

/-- What is done to the conversations, one after another. -/
inductive SessionOp where
  /-- a complete turn -/
  | turn (agent : AgentController) (message : MessageEvent)
  /-- a summary of its own -/
  | summarize (convoId : Bytes)

/-- The program of an operation. -/
def SessionOp.run : SessionOp → Turn Unit
  | .turn agent message => do
    let _ ← processAgentMessage agent message
    pure ()
  | .summarize c => Turn.summarizeWithModel c

/-- A model that asks for one tool call, answers with a text, and makes no summaries. -/
def toolModel (text : Bytes) : ModelRequest → Except Thrown ModelResponse
  | .completeWithTools 0 _ _ => .ok { toolCalls := [⟨utf8 "c1", utf8 "t", utf8 "1"⟩] }
  | .completeWithTools .. => .ok { content := text }
  | _ => .error .exception

def toolScenario (text result : Bytes) : Scenario where
  model := toolModel text
  providers := [[⟨utf8 "t", [], .null⟩]]
  tool := fun _ => .returned result

instance : DecidablePred CutsBetweenRounds := fun ev => by
  unfold CutsBetweenRounds
  split <;> infer_instance

/-- A summary that is stored here cuts between rounds. -/
def CommitsBetweenRounds (w : World) (e : TurnEff) : Prop :=
  ∀ c n reply, e = .commit c n reply → CutBetweenRounds reply (w.store.load c)

theorem cutsBetweenRounds_of {ev : Event TurnSig World} (h : CommitsBetweenRounds ev.pre ev.eff) :
    CutsBetweenRounds ev := by
  unfold CutsBetweenRounds
  split
  · next hcommit => exact h _ _ _ hcommit
  · trivial

/-- An effect that stores no summary. -/
def TurnEff.StoresNoSummary (e : TurnEff) : Prop := ∀ c n reply, e ≠ .commit c n reply

theorem TurnEff.StoresNoSummary.of_part {e : TurnEff} {part : TurnPart} (he : e.part = part)
    (h : part ≠ .summary := by decide) : e.StoresNoSummary := by
  rintro c n reply rfl
  exact h he.symm

theorem TurnEff.StoresNoSummary.of_inLoop {e : TurnEff} (h : e.inLoop = true) :
    e.StoresNoSummary := by
  rintro c n reply rfl
  cases h

section Cuts

variable {w : World} {agent : AgentController} {message : MessageEvent} {c : Bytes}

/-- A summary of a conversation that is cut between rounds wherever it may be cut. -/
theorem wp_summarizeWithModel_cuts (h : ∀ reply, CutBetweenRounds reply (w.store.load c)) :
    wp World.machine CommitsBetweenRounds (Turn.summarizeWithModel c) (fun _ _ => True) w := by
  unfold Turn.summarizeWithModel
  rw [wp_act_bind]
  refine ⟨nofun, fun due _ => ?_⟩
  cases due with
  | none => trivial
  | some snap =>
    refine ⟨nofun, fun _ _ => ⟨nofun, fun answer _ => ?_⟩⟩
    show wp _ _ (if answer.map ModelResponse.content = .ok [] then pure ()
      else act (.commit c snap.msgCountBefore (answer.map ModelResponse.content))) _
      (w.next (.response (.complete snap.prompt)) answer)
    split
    · trivial
    · refine ⟨?_, fun _ _ => trivial⟩
      rintro _ _ _ ⟨⟩
      -- what is committed is cut from the conversation as it was read
      have hstore := World.store_next (e := .response (.complete snap.prompt)) rfl w answer
      rw [hstore]
      exact h _

/-- A turn, when its conversation with the new message is such a one. -/
theorem wp_processAgentMessage_cuts (h : ∀ reply, CutBetweenRounds reply
      (w.store.load (conversationOf message) ++ [{ role := .user, senderNick := message.senderNick,
                                                   content := formatDisplayContent message }])) :
    wp World.machine CommitsBetweenRounds (processAgentMessage agent message)
      (fun _ _ => True) w := by
  have hquiet : ∀ {α : Type} {p : Turn α} {u : World}, p.Only TurnEff.StoresNoSummary →
      wp World.machine CommitsBetweenRounds p (fun _ _ => True) u := fun hp =>
    hp.wp (I := fun _ => True)
      (fun _ he _ _ => ⟨fun c n reply h => absurd h (he c n reply), fun _ _ => trivial⟩) trivial
  have hnotice : ∀ content ended,
      Only TurnEff.StoresNoSummary (replyTo message content >>= fun _ => pure ended) :=
    fun _ _ => (only_notice _ _).mono fun _ he => .of_part he
  unfold processAgentMessage
  rw [wp_act_bind]
  refine ⟨nofun, fun _ _ => ?_⟩
  rw [wp_tryCatch]
  refine wp_mono (Q := fun _ _ => True) ?_ fun r u _ => ?_
  swap
  · cases r with
    | ok ended => trivial
    | error err => exact hquiet (hnotice _ _)
  unfold answerMessage
  split
  swap
  · exact hquiet (hnotice _ _)
  rw [wp_act_bind]
  refine ⟨nofun, fun _ _ => wp_bind_of (wp_summarizeWithModel_cuts fun reply => ?_) ?_
    fun _ _ _ => trivial⟩
  · show CutBetweenRounds reply
      ((w.store.appendMessage (conversationOf message) _).load (conversationOf message))
    rw [ListStore.load_appendMessage]
    exact h reply
  -- what comes behind the summary belongs to other parts
  · intro _ u _
    refine hquiet ((only_buildMessageList.mono fun _ he => .of_part he).bind fun list =>
      ((only_checkLlmCall _ _).mono fun _ he => .of_part he).bind fun refusal => ?_)
    cases refusal with
    | some reason => exact hnotice _ _
    | none =>
      refine ((Only.of_wp [] (wp_toolLoop agent _ [])).mono fun _ he => .of_inLoop he).bind
        fun after => ((only_persistToolMessages _).mono fun _ he => .of_part he).bind fun _ => ?_
      refine (only_deliver _ _).mono fun e he => ?_
      rcases he with hreply | ⟨content, rfl⟩
      · exact .of_part hreply
      · nofun

/-- So its summaries cut between rounds. -/
theorem cutsBetweenRounds_of_turn {w' : World} {events : List (Event TurnSig World)}
    {r : Except Thrown TurnEnd}
    (hexec : Exec World.machine w (processAgentMessage agent message) events w' r)
    (h : ∀ reply, CutBetweenRounds reply
      (w.store.load (conversationOf message) ++ [{ role := .user, senderNick := message.senderNick,
                                                   content := formatDisplayContent message }])) :
    ∀ ev ∈ events, CutsBetweenRounds ev := fun ev hev =>
  cutsBetweenRounds_of ((hexec.of_wp (wp_processAgentMessage_cuts h)).2 ev hev)

end Cuts

end Aestival
