import Aestival.Agent.ToolLoop
import Aestival.EncodeUtils
import Aestival.Library.Runs

/-!
# Conversations and their workers

`agent_controller::handle_message` and the `worker_pool` behind it. The session thread handles one
message after the other: it runs the command `clear` at once (`system_command_handler.cpp`) and puts
other messages into the queue of their conversation. Each conversation has one worker, which takes
messages from its queue and runs one turn after the other. All these threads are interleaved, at the
effects of the turns.

Turns are numbered in the order in which their messages were received. `cleared` records how many
messages had been received when `clear` was last run in a conversation, and `writes` what the turns
have written to the conversation since its messages were last deleted. No code reads them.

Messages that the policy engine blocks, that another command or a plugin takes, or that arrive
outside the mode `agent` do not come this far and change no stored conversation: `delete database`
removes the file of the database, which the open connection goes on using until the restart.
-/

namespace Aestival

open Bytes Prog

/-- `n == "clear"`. -/
def IsClear (message : MessageEvent) : Prop := toAsciiLower (trim message.content) = utf8 "clear"

instance (message : MessageEvent) : Decidable (IsClear message) :=
  inferInstanceAs (Decidable (_ = _))

/-- The conversation that an effect writes to. -/
def TurnEff.writesTo : TurnEff → Option Bytes
  | .append c _ => some c
  | .commit c _ _ => some c
  | _ => none

/-- A turn has written to a conversation: the text of the user, a tool message, the reply, or a
summary. -/
structure Write where
  turn : Nat
  effect : TurnEff

/-- The conversation behind a write. -/
def Write.apply (l : List ChatMessage) (w : Write) : List ChatMessage :=
  match w.effect with
  | .append _ m => l ++ [m]
  | .commit _ n reply => (finishSummary n reply l).getD l
  | _ => l

structure Conversations where
  world : World := {}
  /-- the number of messages that were put into queues -/
  received : Nat := 0
  /-- the queues of the slots -/
  queues : Bytes → List (Nat × MessageEvent) := fun _ => []
  /-- the turns that run, with what is left of them -/
  current : Bytes → Option (Nat × Turn TurnEnd) := fun _ => none
  cleared : Bytes → Option Nat := fun _ => none
  writes : Bytes → List Write := fun _ => []

namespace Conversations

/-- `worker_pool::enqueue`. -/
def enqueue (s : Conversations) (message : MessageEvent) : Conversations :=
  let cid := conversationOf message
  { s with
    received := s.received + 1
    queues := Function.update s.queues cid (s.queues cid ++ [(s.received, message)]) }

/-- The command `clear`. Its key is the actor id, also where the worker says `global`. -/
def clear (s : Conversations) (message : MessageEvent) : Conversations :=
  { s with
    world := { s.world with store := s.world.store.clearMessages (actorIdOf message) }
    cleared := Function.update s.cleared (conversationOf message) (some s.received)
    writes := Function.update s.writes (actorIdOf message) [] }

/-- `worker_loop` takes a message from the queue and begins its turn. -/
def start (s : Conversations) (agent : AgentController) (cid : Bytes) (n : Nat)
    (message : MessageEvent) (rest : List (Nat × MessageEvent)) : Conversations :=
  { s with
    queues := Function.update s.queues cid rest
    current := Function.update s.current cid (some (n, processAgentMessage agent message)) }

/-- What is remembered of the writes when the turn `n` performs an effect. -/
def note (s : Conversations) (n : Nat) (e : TurnEff) : Bytes → List Write :=
  match e.writesTo with
  | some c => Function.update s.writes c (s.writes c ++ [⟨n, e⟩])
  | none => s.writes

/-- The turn that runs in a conversation performs an effect. -/
def perform (s : Conversations) (cid : Bytes) (n : Nat) (e : TurnEff) (x : e.Ans)
    (rest : Turn TurnEnd) : Conversations :=
  { s with
    world := s.world.next e x
    current := Function.update s.current cid (some (n, rest))
    writes := s.note n e }

/-- The turn has ended, and the worker looks at its queue again. -/
def finish (s : Conversations) (cid : Bytes) : Conversations :=
  { s with current := Function.update s.current cid none }

end Conversations

/-- What the threads do. -/
inductive ConversationEvent where
  | enqueue (message : MessageEvent)
  | clear (message : MessageEvent)
  | start (cid : Bytes)
  | perform (cid : Bytes) (e : TurnEff) (x : e.Ans)
  | finish (cid : Bytes)

namespace Conversations

/-- One step of a thread. -/
inductive Step (agent : AgentController) (s : Conversations) :
    ConversationEvent → Conversations → Prop
  | enqueue {m : MessageEvent} (h : ¬ IsClear m) : Step agent s (.enqueue m) (s.enqueue m)
  | clear {m : MessageEvent} (h : IsClear m) : Step agent s (.clear m) (s.clear m)
  | start {cid : Bytes} {n : Nat} {message : MessageEvent} {rest : List (Nat × MessageEvent)}
    (hidle : s.current cid = none) (hqueue : s.queues cid = (n, message) :: rest) :
    Step agent s (.start cid) (s.start agent cid n message rest)
  | perform {cid : Bytes} {n : Nat} {e : TurnEff} {x : e.Ans} {k : e.Ans → Turn TurnEnd}
    (hcurrent : s.current cid = some (n, .op e k)) (hx : s.world.Admits e x) :
    Step agent s (.perform cid e x) (s.perform cid n e x (k x))
  | finish {cid : Bytes} {n : Nat} {p : Turn TurnEnd} (hcurrent : s.current cid = some (n, p))
    (hover : p.isOver = true) : Step agent s (.finish cid) (s.finish cid)

/-- Nothing has been received, and what is stored is of an earlier process. -/
def Initial (s : Conversations) : Prop := ∃ world, s = { world }

end Conversations

/-- The session thread and the workers of one agent. -/
def conversations (agent : AgentController) : TransitionSystem Conversations ConversationEvent where
  init := Conversations.Initial
  step := Conversations.Step agent

namespace Conversations

variable {agent : AgentController} {s : Conversations} {c : Bytes} {n : Nat} {p : Turn TurnEnd}

/-- The steps of a worker whose turn has these events. -/
structure StepsOf (c : Bytes) (events : List (Event TurnSig World))
    (steps : List (Conversations × ConversationEvent)) : Prop where
  event : ∀ q ∈ steps, ∃ ev ∈ events, q.1.world = ev.pre ∧ q.2 = .perform c ev.eff ev.ans
  step : ∀ ev ∈ events, ∃ t, (t, .perform c ev.eff ev.ans) ∈ steps

theorem StepsOf.cons {events : List (Event TurnSig World)}
    {steps : List (Conversations × ConversationEvent)} (h : StepsOf c events steps)
    (s : Conversations) (e : TurnEff) (x : e.Ans) :
    StepsOf c (⟨s.world, e, x⟩ :: events) ((s, .perform c e x) :: steps) := by
  refine ⟨fun q hq => ?_, fun ev hev => ?_⟩
  · rcases List.mem_cons.mp hq with rfl | hq
    · exact ⟨_, List.mem_cons_self, rfl, rfl⟩
    · obtain ⟨ev, hev, heq⟩ := h.event q hq
      exact ⟨ev, List.mem_cons_of_mem _ hev, heq⟩
  · rcases List.mem_cons.mp hev with rfl | hev
    · exact ⟨s, List.mem_cons_self⟩
    · obtain ⟨t, ht⟩ := h.step ev hev
      exact ⟨t, List.mem_cons_of_mem _ ht⟩

/-- A turn that runs to its end while the other threads rest. -/
theorem run_exec {A : TransitionSystem Conversations ConversationEvent} (hA : A.step = Step agent)
    {tr : List (Conversations × ConversationEvent)} {events : List (Event TurnSig World)}
    {w' : World} {r : Except Thrown TurnEnd} (h : A.Run tr s)
    (hcurrent : s.current c = some (n, p)) (hexec : Exec World.machine s.world p events w' r) :
    ∃ tr' s' p', A.Run (tr ++ tr') s' ∧ StepsOf c events tr' ∧ s'.world = w' ∧
      s'.current c = some (n, p') ∧ p'.isOver = true ∧
      (∀ d, d ≠ c → s'.current d = s.current d) ∧ s'.queues = s.queues ∧
      s'.received = s.received ∧ s'.cleared = s.cleared := by
  generalize hw : s.world = w at hexec
  -- no other conversation takes a step
  induction hexec generalizing s tr with
  | ret w a =>
    exact ⟨[], s, _, by rwa [List.append_nil], ⟨nofun, nofun⟩, hw, hcurrent, rfl, fun _ _ => rfl,
      rfl, rfl, rfl⟩
  | throw w err =>
    exact ⟨[], s, _, by rwa [List.append_nil], ⟨nofun, nofun⟩, hw, hcurrent, rfl, fun _ _ => rfl,
      rfl, rfl, rfl⟩
  | @op w w' e k x events r hx _ ih =>
    subst hw
    -- every effect of the turn is a step of the run
    have hstep : A.step s (.perform c e x) (s.perform c n e x (k x)) := hA ▸ .perform hcurrent hx
    obtain ⟨tr', s', p', hrun, hall, hworld, hp', hover, hothers, hqueues, hreceived, hcleared⟩ :=
      ih (h.step hstep) (Function.update_self ..) rfl
    refine ⟨(s, .perform c e x) :: tr', s', p', ?_, hall.cons s e x, hworld, hp', hover, ?_,
      hqueues, hreceived, hcleared⟩
    · rwa [List.append_assoc] at hrun
    · intro d hd
      rw [hothers d hd]
      exact Function.update_of_ne hd ..

end Conversations

/-! ### A turn and its own conversation -/

/-- An effect that writes to this conversation, if to any. -/
def TurnEff.Own (c : Bytes) (e : TurnEff) : Prop := ∀ d, e.writesTo = some d → d = c

/-- An effect that a turn of this conversation may have: it writes to this conversation, and the
rate it asks for is that of this key. -/
def TurnEff.Concerns (policy : PolicyConfig) (c : Bytes) : TurnEff → Prop
  | .append d _ => d = c
  | .commit d _ _ => d = c
  | .rateLimit n actor => n = policy.maxMessagesPerMinute ∧ actor = c
  | _ => True

theorem TurnEff.Concerns.own {policy : PolicyConfig} {c : Bytes} {e : TurnEff}
    (h : e.Concerns policy c) : e.Own c := by
  intro d hd
  cases e with
  | append => exact (Option.some.inj hd).symm.trans h
  | commit => exact (Option.some.inj hd).symm.trans h
  | _ => cases hd

section Concerns

variable {agent : AgentController} {message : MessageEvent} {policy : PolicyConfig} {c : Bytes}

theorem concerns_atomicDayReset : atomicDayReset.Only (TurnEff.Concerns policy c) := by
  unfold atomicDayReset
  refine only_act_bind.mpr ⟨trivial, fun today => ?_⟩
  refine only_act_bind.mpr ⟨trivial, fun expected => ?_⟩
  split
  · simp
  · refine only_act_bind.mpr ⟨trivial, fun won => ?_⟩
    split
    · exact only_act.mpr trivial
    · simp

/-- The key of the rate limit is that of the conversation. -/
theorem concerns_checkLlmCall : (checkLlmCall policy c).Only (TurnEff.Concerns policy c) := by
  have hrate : (checkRate policy c).Only (TurnEff.Concerns policy c) := by
    unfold checkRate
    split
    · exact only_act_bind.mpr ⟨⟨rfl, rfl⟩, fun answer => only_pure _⟩
    · simp
  unfold checkLlmCall
  -- with a token budget the rate is asked for only if the budget is not used up
  refine concerns_atomicDayReset.bind fun _ => ?_
  split
  · refine only_act_bind.mpr ⟨trivial, fun used => ?_⟩
    split
    · simp
    · exact hrate
  · exact hrate

theorem concerns_recordTokenUsage (usage : Json) :
    (recordTokenUsage agent usage).Only (TurnEff.Concerns policy c) := by
  unfold recordTokenUsage
  split
  · simp
  split
  · split
    · simp
    · refine only_act_bind.mpr ⟨trivial, fun _ => only_act_bind.mpr ⟨trivial, fun _ => ?_⟩⟩
      exact concerns_atomicDayReset.bind fun _ => only_act.mpr trivial
  · split <;> simp

theorem concerns_ask (r : ModelRequest) : (ask r).Only (TurnEff.Concerns policy c) := by
  refine only_act_bind.mpr ⟨trivial, fun _ => ?_⟩
  exact only_act_bind.mpr ⟨trivial, fun answer => only_ofExcept answer⟩

theorem concerns_replyTo (content : Bytes) :
    (replyTo message content).Only (TurnEff.Concerns policy c) :=
  only_act_bind.mpr ⟨trivial, fun sent => only_ofExcept sent⟩

theorem concerns_notice (content : Bytes) (ended : TurnEnd) :
    (replyTo message content >>= fun _ => pure ended).Only (TurnEff.Concerns policy c) :=
  (concerns_replyTo content).bind fun _ => only_pure ended

theorem concerns_summarizeWithModel :
    (Turn.summarizeWithModel c).Only (TurnEff.Concerns policy c) := by
  unfold Turn.summarizeWithModel
  refine only_act_bind.mpr ⟨trivial, fun due => ?_⟩
  cases due with
  | none => simp
  | some snap =>
    refine only_act_bind.mpr ⟨trivial, fun _ => only_act_bind.mpr ⟨trivial, fun answer => ?_⟩⟩
    dsimp only
    split
    · simp
    · exact only_act.mpr rfl

theorem concerns_buildMessageList : (buildMessageList agent c).Only
    (TurnEff.Concerns policy c) := by
  unfold buildMessageList
  refine only_act_bind.mpr ⟨trivial, fun messages => ?_⟩
  split
  · simp
  · exact only_act_bind.mpr ⟨trivial, fun _ => only_pure _⟩

theorem concerns_launchTools (calls : List ToolCall) :
    (launchTools calls).Only (TurnEff.Concerns policy c) := by
  induction calls with
  | nil => exact only_pure _
  | cons tc calls ih => exact only_act_bind.mpr ⟨trivial, fun _ => ih⟩

theorem concerns_collectTools (calls : List ToolCall) (messages : List ChatMessage) :
    (collectTools calls messages).Only (TurnEff.Concerns policy c) := by
  induction calls generalizing messages with
  | nil => exact only_pure _
  | cons tc calls ih =>
    refine only_act_bind.mpr ⟨trivial, fun ended => ?_⟩
    exact Only.bind (only_ofExcept _) fun result => ih _

theorem concerns_toolRounds (tools : List Json) (remaining round : Nat)
    (messages : List ChatMessage) :
    (toolRounds agent tools remaining round messages).Only (TurnEff.Concerns policy c) := by
  induction remaining generalizing round messages with
  | zero => exact only_pure _
  -- one round: a request, the statistics, and the tools that the model asks for
  | succ remaining ih =>
    refine (concerns_ask _).bind fun resp => (concerns_recordTokenUsage _).bind fun _ => ?_
    split
    · simp
    · refine Only.bind (only_ofExcept _) fun json => (concerns_launchTools _).bind fun _ => ?_
      exact (concerns_collectTools _ _).bind fun messages => ih _ _

theorem concerns_toolLoop (messages : List ChatMessage) :
    (toolLoop agent messages).Only (TurnEff.Concerns policy c) := by
  unfold toolLoop
  refine only_act_bind.mpr ⟨trivial, fun providers => ?_⟩
  dsimp only
  split
  · exact (concerns_ask _).bind fun resp => only_pure _
  · exact concerns_toolRounds _ _ _ _

theorem concerns_persistToolMessages (messages : List ChatMessage) :
    (persistToolMessages c messages).Only (TurnEff.Concerns policy c) := by
  induction messages with
  | nil => exact only_pure _
  | cons m messages ih =>
    unfold persistToolMessages
    split
    · exact only_act_bind.mpr ⟨rfl, fun _ => ih⟩
    split
    · exact only_act_bind.mpr ⟨rfl, fun _ => ih⟩
    · exact ih

theorem concerns_deliver (before after : List ChatMessage) :
    (deliver message c before after).Only (TurnEff.Concerns policy c) := by
  unfold deliver
  split
  · simp
  dsimp only
  split
  · exact concerns_notice _ _
  · exact only_act_bind.mpr ⟨rfl, fun _ => concerns_notice _ _⟩

/-- **A turn writes to its own conversation only, and asks for the rate of its own key.** -/
theorem concerns_processAgentMessage (agent : AgentController) (message : MessageEvent) :
    (processAgentMessage agent message).Only
      (TurnEff.Concerns agent.policy (conversationOf message)) := by
  -- whatever is thrown, the handler only sends a notice
  refine only_act_bind.mpr ⟨trivial, fun _ => Only.tryCatch ?_ fun _ => concerns_notice _ _⟩
  unfold answerMessage
  split
  · refine only_act_bind.mpr ⟨rfl, fun _ => concerns_summarizeWithModel.bind fun _ => ?_⟩
    refine concerns_buildMessageList.bind fun list => concerns_checkLlmCall.bind fun refusal => ?_
    cases refusal with
    | some reason => exact concerns_notice _ _
    | none =>
      refine (concerns_toolLoop _).bind fun after => ?_
      exact (concerns_persistToolMessages _).bind fun _ => concerns_deliver _ _
  · exact concerns_notice _ _

/-- A turn writes to its own conversation only. -/
theorem own_of_processAgentMessage (agent : AgentController) (message : MessageEvent) :
    (processAgentMessage agent message).Only (TurnEff.Own (conversationOf message)) :=
  (concerns_processAgentMessage agent message).mono fun _ he => he.own

end Concerns

end Aestival
