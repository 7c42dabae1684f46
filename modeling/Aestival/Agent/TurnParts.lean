import Aestival.Agent.ToolLoop

/-!
# The parts of a turn

Every effect of a turn belongs to one part of it (`TurnEff.part`), and every function of the
controller performs effects of few parts only. A property that concerns some parts is proved over
these, and the functions of the others are framed: they cannot do what it speaks of.
-/

namespace Aestival

open Bytes Prog

/-- The parts of a turn. -/
inductive TurnPart where
  /-- the counter of the messages -/
  | counting
  /-- what is sent to the user -/
  | reply
  /-- what is appended to the conversation -/
  | store
  /-- the summary of the conversation -/
  | summary
  /-- the list of messages the model is given -/
  | list
  /-- the policy engine and the statistics -/
  | accounting
  /-- the requests of the tool loop -/
  | model
  /-- the tasks that execute tools -/
  | task
  deriving DecidableEq, Repr

/-- The part a request is made in. -/
def ModelRequest.part : ModelRequest → TurnPart
  | .complete _ => .summary
  | .completeMessages _ | .completeWithTools .. => .model

/-- The part an effect belongs to. -/
def TurnEff.part : TurnEff → TurnPart
  | .countMessage => .counting
  | .reply .. => .reply
  | .append .. => .store
  | .snapshot _ | .commit .. => .summary
  | .load _ | .currentTime => .list
  | .request r | .response r => r.part
  | .getTools => .model
  | .launchTool _ | .awaitTool _ => .task
  | .addTokens .. | .recordUsage .. | .today | .loadDay | .casDay .. | .storeUsed _ | .loadUsed
  | .addUsed _ | .rateLimit .. => .accounting

/-- A reply, or the message of the model it is stored as. -/
def TurnEff.IsDelivery (c : Bytes) (e : TurnEff) : Prop :=
  e.part = .reply ∨ ∃ content, e = .append c { role := .assistant, content }

theorem TurnEff.part_of_isAccounting {e : TurnEff} (h : e.isAccounting = true) :
    e.part = .accounting := by
  cases e <;> first | rfl | cases h

section Parts

variable {agent : AgentController} {message : MessageEvent} {c : Bytes}

theorem only_replyTo (content : Bytes) :
    (replyTo message content).Only (TurnEff.part · = .reply) :=
  only_act_bind.mpr ⟨rfl, fun sent => only_ofExcept sent⟩

theorem only_notice (content : Bytes) (ended : TurnEnd) :
    (replyTo message content >>= fun _ => pure ended).Only (TurnEff.part · = .reply) :=
  (only_replyTo content).bind fun _ => only_pure ended

theorem only_summarizeWithModel :
    (Turn.summarizeWithModel c).Only (TurnEff.part · = .summary) := by
  refine only_act_bind.mpr ⟨rfl, fun due => ?_⟩
  cases due with
  | none => exact only_pure _
  | some snap =>
    refine only_act_bind.mpr ⟨rfl, fun _ => only_act_bind.mpr ⟨rfl, fun answer => ?_⟩⟩
    change Only _ (if answer.map ModelResponse.content = .ok [] then _ else _)
    split
    · exact only_pure _
    · exact only_act.mpr rfl

theorem only_buildMessageList : (buildMessageList agent c).Only (TurnEff.part · = .list) := by
  refine only_act_bind.mpr ⟨rfl, fun messages => ?_⟩
  split
  · exact only_pure _
  · exact only_act_bind.mpr ⟨rfl, fun _ => only_pure _⟩

theorem only_checkLlmCall (policy : PolicyConfig) (actor : Bytes) :
    (checkLlmCall policy actor).Only (TurnEff.part · = .accounting) :=
  Only.of_wp []
    (wp_checkLlmCall (fun _ he => TurnEff.part_of_isAccounting he) policy actor)

theorem only_recordTokenUsage (usage : Json) :
    (recordTokenUsage agent usage).Only (TurnEff.part · = .accounting) :=
  Only.of_wp []
    (wp_recordTokenUsage (fun _ he => TurnEff.part_of_isAccounting he) agent usage)

theorem only_launchTools (calls : List ToolCall) :
    (launchTools calls).Only (TurnEff.part · = .task) := by
  induction calls with
  | nil => exact only_pure _
  | cons tc calls ih => exact only_act_bind.mpr ⟨rfl, fun _ => ih⟩

theorem only_collectTools (calls : List ToolCall) (messages : List ChatMessage) :
    (collectTools calls messages).Only (TurnEff.part · = .task) := by
  induction calls generalizing messages with
  | nil => exact only_pure _
  | cons tc calls ih =>
    refine only_act_bind.mpr ⟨rfl, fun ended => ?_⟩
    exact Only.bind (only_ofExcept _) fun result => ih _

theorem only_persistToolMessages (messages : List ChatMessage) :
    (persistToolMessages c messages).Only (TurnEff.part · = .store) := by
  refine (Only.of_wp [] (wp_persistToolMessages c messages [])).mono ?_
  rintro _ ⟨m, rfl⟩
  rfl

/-- What is delivered is stored as a message of the model. -/
theorem only_deliver (before after : List ChatMessage) :
    (deliver message c before after).Only (TurnEff.IsDelivery c) := by
  have hnotice : ∀ content ended,
      (replyTo message content >>= fun _ => pure ended).Only (TurnEff.IsDelivery c) :=
    fun content ended => (only_notice content ended).mono fun _ he => .inl he
  unfold deliver
  split
  · exact only_pure _
  change Only _ (if filterOutput (finalReply after) = [] then _ else _)
  split
  · exact hnotice _ _
  · exact only_act_bind.mpr ⟨.inr ⟨_, rfl⟩, fun _ => hnotice _ _⟩

end Parts

end Aestival
