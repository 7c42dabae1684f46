import Aestival.Agent.PluginCommands
import Aestival.Agent.StopAgent
import Aestival.Platform.Dispatch

/-!
# An agent at work

The io thread of a session hands the frames of the gateway to `dispatch_event`, one after the other.
The handler that `wire_events` has set locks its weak pointer to the controller, `handle_message`
runs in the same thread, and what no command and no plugin takes goes into the queue of its
conversation. A `LiveAgent` is all of this beside the threads of `AgentThreads`: workers with their
turns, tool tasks, and whoever destroys the controller.

The commands work on the conversations the turns work on, so the host is given the ones the threads
have left (`hostNow`), and the threads go on with the ones it leaves. Others may look up and toggle
plugins at any time.

`AgentThreads.pending` are the messages of a conversation whose turns are not over. What a step does
with them is one equation (`pending_step`): what was pending and what comes in is what is done and
what is pending then.
-/

namespace Aestival

open Bytes

/-! ### The system -/

structure LiveAgent where
  threads : AgentThreads := {}
  host : PluginHost

namespace LiveAgent

variable (s : LiveAgent)

/-- The host, with the conversations as they are. -/
def hostNow : PluginHost := { s.host with contexts := s.threads.world.store }

/-- What `handle_message` makes of a message. -/
def handled (agentId : Bytes) (env : MessageEnv) (message : MessageEvent) : MessageEnd :=
  s.hostNow.handleMessage agentId env message

/-- The threads, with the conversations as the host has left them. -/
def threadsAfter (h : PluginHost) : AgentThreads :=
  { s.threads with world := { s.threads.world with store := h.contexts } }

end LiveAgent

/-- What happens to the agent. -/
inductive LiveEvent where
  /-- the io thread dispatches an event of the gateway -/
  | frame (event : Bytes) (data : Json.Text)
  /-- `handle_message`, with what the message meets -/
  | handle (env : MessageEnv)
  /-- others use the manager of the plugins -/
  | plugins (e : PluginEvent)
  | thread (e : ThreadEvent)

/-- The event belongs to the io thread. -/
def ThreadEvent.ofIo : ThreadEvent → Bool
  | .receive _ | .enqueue _ | .handled => true
  | _ => false

/-- The event is one of the manager that agents share. -/
def PluginEvent.isShared : PluginEvent → Bool
  | .toggle .. | .lookUp .. => true
  | _ => false

/-- One step. -/
inductive LiveStep (agent : AgentController) (agentId : Bytes) (s : LiveAgent) :
    LiveEvent → LiveAgent → Prop
  | received {event : Bytes} {data : Json.Text} {pm : ParsedMessage} {t : AgentThreads}
    (hparsed : dispatchEvent event data = some pm)
    (hstep : AgentThreads.Step agent s.threads (.receive pm.event) t) :
    LiveStep agent agentId s (.frame event data) { s with threads := t }
  /-- The event has no message, or the controller is gone. -/
  | skipped {event : Bytes} {data : Json.Text}
    (hskip : dispatchEvent event data = none ∨ s.threads.holders = ∅) :
    LiveStep agent agentId s (.frame event data) s
  | queued {env : MessageEnv} {message : MessageEvent} {t : AgentThreads}
    (hmessage : s.threads.handling = some message)
    (hend : (s.handled agentId env message).enqueued = true)
    (hstep : AgentThreads.Step agent (s.threadsAfter (s.handled agentId env message).host)
      (.enqueue message) t) :
    LiveStep agent agentId s (.handle env) ⟨t, (s.handled agentId env message).host⟩
  /-- The policy, a command, a plugin or the mode has kept the message from the queues. -/
  | consumed {env : MessageEnv} {message : MessageEvent} {t : AgentThreads}
    (hmessage : s.threads.handling = some message)
    (hend : (s.handled agentId env message).enqueued = false)
    (hstep : AgentThreads.Step agent (s.threadsAfter (s.handled agentId env message).host)
      .handled t) :
    LiveStep agent agentId s (.handle env) ⟨t, (s.handled agentId env message).host⟩
  | returned {t : AgentThreads} (hdone : s.threads.handling = none)
    (hstep : AgentThreads.Step agent s.threads .handled t) :
    LiveStep agent agentId s (.thread .handled) { s with threads := t }
  | plugins {e : PluginEvent} (hshared : e.isShared = true) :
    LiveStep agent agentId s (.plugins e) { s with host := s.host.step agentId e }
  | thread {e : ThreadEvent} {t : AgentThreads} (hother : e.ofIo = false)
    (hstep : AgentThreads.Step agent s.threads e t) :
    LiveStep agent agentId s (.thread e) { s with threads := t }

/-- An agent, from the end of `build_agent` on. -/
def liveAgents (agent : AgentController) (agentId : Bytes) :
    TransitionSystem LiveAgent LiveEvent where
  init s := s.threads.Initial
  step s e s' := s.threads.life ≠ .terminated ∧ LiveStep agent agentId s e s'

/-! ### Pending messages -/

/-- The turn has returned. -/
def RunningTurn.isReturned (turn : RunningTurn) : Bool :=
  match turn.rest with
  | .ret _ => true
  | _ => false

namespace AgentThreads

/-- The message of the turn that runs in a conversation. -/
def current (s : AgentThreads) (cid : Bytes) : List MessageEvent :=
  match s.workers cid with
  | some (.running turn) => [turn.message]
  | _ => []

/-- The messages of a conversation whose turns are not over. -/
def pending (s : AgentThreads) (cid : Bytes) : List MessageEvent := s.current cid ++ s.queues cid

/-- The message a step puts into the queue of the conversation. -/
def entered (cid : Bytes) : ThreadEvent → List MessageEvent
  | .enqueue message => if conversationOf message = cid then [message] else []
  | _ => []

/-- The message whose turn a step ends. -/
def ended (s : AgentThreads) (cid : Bytes) : ThreadEvent → List MessageEvent
  | .finish c =>
    match s.workers c with
    | some (.running turn) => if c = cid ∧ turn.isReturned = true then [turn.message] else []
    | _ => []
  | _ => []

variable {agent : AgentController} {s s' : AgentThreads} {e : ThreadEvent} {c cid : Bytes}

theorem current_of_running {turn : RunningTurn} (h : s.Running cid turn) :
    s.current cid = [turn.message] := by
  rw [current, show s.workers cid = some (.running turn) from h]

theorem current_of_waiting (h : s.workers cid = some .waiting) : s.current cid = [] := by
  rw [current, h]

theorem current_congr (h : s'.workers cid = s.workers cid) : s'.current cid = s.current cid := by
  rw [current, h, current]

theorem pending_congr (hworkers : s'.workers cid = s.workers cid)
    (hqueues : s'.queues cid = s.queues cid) : s'.pending cid = s.pending cid := by
  rw [pending, current_congr hworkers, hqueues, pending]

/-- A worker of another conversation moves. -/
theorem pending_of_ne {w : WorkerState} (hne : cid ≠ c)
    (hworkers : s'.workers = Function.update s.workers c (some w))
    (hqueues : s'.queues = s.queues) : s'.pending cid = s.pending cid := by
  refine pending_congr ?_ (by rw [hqueues])
  rw [hworkers, Function.update_of_ne hne]

/-- A turn goes on. -/
theorem pending_of_turn {turn turn' : RunningTurn} (hturn : s.Running c turn)
    (hworkers : s'.workers = Function.update s.workers c (some (.running turn')))
    (hmessage : turn'.message = turn.message) (hqueues : s'.queues = s.queues) :
    s'.pending cid = s.pending cid := by
  by_cases hc : cid = c
  · subst hc
    have hturn' : s'.Running cid turn' := by
      show s'.workers cid = _
      rw [hworkers, Function.update_self]
    rw [pending, current_of_running hturn', hmessage, ← current_of_running hturn, hqueues, pending]
  · exact pending_of_ne hc hworkers hqueues

/-- A worker changes its state outside of a turn. -/
theorem pending_of_idle {w w' : WorkerState} (hw : s.workers c = some w)
    (hworkers : s'.workers = Function.update s.workers c (some w'))
    (hidle : ∀ turn, w ≠ .running turn) (hidle' : ∀ turn, w' ≠ .running turn)
    (hqueues : s'.queues = s.queues) : s'.pending cid = s.pending cid := by
  by_cases hc : cid = c
  · subst hc
    -- the thread runs no turn before or after
    have hnone : s.current cid = [] := by
      rw [current, hw]
      cases w with
      | running turn => exact absurd rfl (hidle turn)
      | _ => rfl
    have hnone' : s'.current cid = [] := by
      rw [current, hworkers, Function.update_self]
      cases w' with
      | running turn => exact absurd rfl (hidle' turn)
      | _ => rfl
    rw [pending, hnone', hqueues, pending, hnone]
  · exact pending_of_ne hc hworkers hqueues

/-- A message is put into a queue. Where the conversation has no slot, nothing runs in it. -/
theorem pending_enqueue (message : MessageEvent) :
    (s.enqueue message).pending cid = s.pending cid ++ entered cid (.enqueue message) := by
  by_cases hc : conversationOf message = cid
  · subst hc
    have hcurrent : (s.enqueue message).current (conversationOf message) =
        s.current (conversationOf message) := by
      rw [current, workers_enqueue, current]
      cases s.workers (conversationOf message) <;> rfl
    rw [pending, hcurrent, queues_enqueue, pending, entered, if_pos rfl, List.append_assoc]
  · rw [entered, if_neg hc, List.append_nil]
    exact pending_congr (Function.update_of_ne (Ne.symm hc) ..)
      (Function.update_of_ne (Ne.symm hc) ..)

/-- A worker takes the message in front. -/
theorem pending_take {message : MessageEvent} {queue : List MessageEvent} {turn : RunningTurn}
    (hworker : s.workers c = some .waiting) (hqueue : s.queues c = message :: queue)
    (hmessage : turn.message = message) :
    ({ s with queues := Function.update s.queues c queue }.setTurn c turn).pending cid =
      s.pending cid := by
  by_cases hc : cid = c
  · subst hc
    rw [pending, current_of_running (running_setTurn ..), pending, current_of_waiting hworker,
      hqueue, hmessage]
    show [message] ++ Function.update s.queues cid queue cid = _
    rw [Function.update_self]
    rfl
  · exact pending_congr (Function.update_of_ne hc ..) (Function.update_of_ne hc ..)

/-- A turn has returned. -/
theorem pending_finish {turn : RunningTurn} {x : TurnEnd} (hturn : s.Running c turn)
    (hover : turn.rest = .ret x) :
    s.pending cid = s.ended cid (.finish c) ++ (s.setWorker c .waiting).pending cid := by
  have hreturned : turn.isReturned = true := by rw [RunningTurn.isReturned, hover]
  have hended : s.ended cid (.finish c) = if c = cid then [turn.message] else [] := by
    rw [ended, show s.workers c = some (.running turn) from hturn]
    simp only [hreturned, and_true]
  rw [hended]
  -- the message of the turn that is over, in its own conversation
  by_cases hc : c = cid
  · subst hc
    have hnone : (s.setWorker c .waiting).current c = [] :=
      current_of_waiting (Function.update_self ..)
    rw [if_pos rfl, pending, current_of_running hturn, pending, hnone]
    rfl
  · have hother : (s.setWorker c .waiting).pending cid = s.pending cid :=
      pending_of_ne (Ne.symm hc) rfl rfl
    rw [if_neg hc, hother]
    rfl

/-- **What was pending and what comes in is what is done and what is pending then.** -/
theorem pending_step (hstep : Step agent s e s') (cid : Bytes) :
    s.pending cid ++ entered cid e = s.ended cid e ++ s'.pending cid := by
  -- most steps leave all messages where they are
  have hkeep : ∀ {s' : AgentThreads}, s'.pending cid = s.pending cid →
      s.pending cid ++ [] = [] ++ s'.pending cid := by
    intro s' h
    rw [List.append_nil, List.nil_append, h]
  cases hstep with
  | enqueue _ _ => exact (pending_enqueue _).symm
  | take hworker hqueue => exact hkeep (pending_take hworker hqueue rfl)
  | finish hturn hover _ =>
    exact (List.append_nil _).trans (pending_finish hturn hover)
  | @uncaught c turn t hturn hover _ =>
    have hended : s.ended cid (.finish c) = [] := by
      have hreturned : turn.isReturned = false := by rw [RunningTurn.isReturned, hover]
      rw [ended, show s.workers c = some (.running turn) from hturn]
      simp only [hreturned, Bool.false_eq_true, and_false, if_false]
    rw [hended]
    exact hkeep rfl
  | leave hworker _ _ => exact hkeep (pending_of_idle hworker rfl nofun nofun rfl)
  | lockSelf hturn _ _ _ _ => exact hkeep (pending_of_turn hturn rfl rfl rfl)
  | badWeakPtr hturn _ _ _ _ => exact hkeep (pending_of_turn hturn rfl rfl rfl)
  | dropSelf hturn _ _ => exact hkeep (pending_of_turn hturn rfl rfl rfl)
  | launchTool hturn _ _ => exact hkeep (pending_of_turn hturn rfl rfl rfl)
  | awaitTool hturn _ _ _ _ => exact hkeep (pending_of_turn hturn rfl rfl rfl)
  | dropFuture hturn _ _ _ _ => exact hkeep (pending_of_turn hturn rfl rfl rfl)
  | perform hturn _ _ _ _ => exact hkeep (pending_of_turn hturn rfl rfl rfl)
  | launch _ _ => exact hkeep rfl
  | reset _ => exact hkeep rfl
  | notified _ => exact hkeep rfl
  | receive _ _ => exact hkeep rfl
  | handled _ => exact hkeep rfl
  | lockTask _ _ _ => exact hkeep rfl
  | expired _ _ _ => exact hkeep rfl
  | execute _ _ _ => exact hkeep rfl
  | dropTask _ _ _ => exact hkeep rfl
  | join _ _ _ _ => exact hkeep rfl
  | joinSelf _ => exact hkeep rfl
  | joined _ _ => exact hkeep rfl
  | destroyed _ _ => exact hkeep rfl

end AgentThreads

end Aestival
