import Aestival.Agent.ToolLoop
import Aestival.Library.Runs
import Aestival.Library.SharedPtr

/-!
# The threads around one controller

An `agent_controller` lives as long as a `shared_ptr` to it exists. The instance in the registry has
one until `stop_agent`, `remove_agent`, `start_agent` or `stop_all` resets it, the notification
thread one while it runs, the io thread of the session one while it handles a message. A worker has
one for a moment at the start of each tool round, when `shared_from_this()` is turned into the weak
pointer of the round, and a tool task has one while it executes its tool.

Whoever lets go of the last one runs `~agent_controller`, in its own thread: `worker_pool::stop`
asks all workers to stop and joins them one after the other. A worker stops when its queue is empty.

All these threads are interleaved. The turns of the workers are the ones of `processAgentMessage`,
one effect after the other. `futures` holds the futures of a round, in the order of the calls; their
destructors wait for the tasks, too, which matters when `get` has thrown.
-/

namespace Aestival

open Bytes Prog

/-- Who can have a `shared_ptr` to the controller. -/
inductive Owner where
  | registry
  | notification
  | session
  | worker (cid : Bytes)
  | task (t : Nat)
  deriving DecidableEq, Repr

/-- Where the task of a tool call is. `leaving` is in front of the destructor of `self`, and
`destroying` inside of the destructor of the controller that it runs. -/
inductive TaskState where
  | launched
  | executing
  | leaving (result : ToolEnd)
  | destroying (result : ToolEnd)
  | ready (result : ToolEnd)
  deriving DecidableEq, Repr

/-- A task that `std::async` has started. -/
structure ToolTask where
  call : ToolCall
  state : TaskState := .launched

/-- The pointers of a tool round: none yet, the temporary of `shared_from_this()`, `weak_self`. -/
inductive RoundSelf where
  | none
  | temporary
  | weak
  deriving DecidableEq, Repr

/-- The destructor that the task runs has returned. -/
def ToolTask.endDestructor (task : ToolTask) : ToolTask :=
  match task.state with
  | .destroying result => { task with state := .ready result }
  | _ => task

/-- A turn with what is left of it. `futures` are the tasks it has not waited for yet. -/
structure RunningTurn where
  message : MessageEvent
  rest : Turn TurnEnd
  self : RoundSelf := .none
  futures : List Nat := []

/-- Where a worker is: at its condition variable, in a turn, or behind its loop. -/
inductive WorkerState where
  | waiting
  | running (turn : RunningTurn)
  | stopped

/-- Whether the controller lives. `destructor` says who runs it, which workers have been joined, and
which one it is joining. -/
inductive Life where
  | alive
  | destructor (caller : Owner) (joined : List Bytes) (joining : Option Bytes)
  | destroyed
  | terminated
  deriving DecidableEq, Repr

/-- One controller, from the end of `build_agent` on. -/
structure AgentThreads where
  world : World := {}
  holders : Finset Owner := {.registry}
  life : Life := .alive
  /-- `launch_agent` has started the notification thread -/
  launched : Bool := false
  /-- the message `handle_message` has not passed on yet -/
  handling : Option MessageEvent := none
  queues : Bytes → List MessageEvent := fun _ => []
  /-- the slots, with their workers -/
  workers : Bytes → Option WorkerState := fun _ => none
  tasks : List ToolTask := []

/-- The handler of `process_agent_message`. -/
def failTurn (message : MessageEvent) : Turn TurnEnd := do
  let _ ← replyTo message (utf8 "LLM request failed — check logs for details.")
  pure .failed

theorem processAgentMessage_eq (agent : AgentController) (message : MessageEvent) :
    processAgentMessage agent message = act .countMessage >>= fun _ =>
      (answerMessage agent message (conversationOf message)).tryCatch fun _ => failTurn message :=
  rfl

/-- The effect launches a task or waits for one. -/
def TurnEff.usesTask : TurnEff → Bool
  | .launchTool _ | .awaitTool _ => true
  | _ => false

/-- The turn is about to launch a task. -/
def RunningTurn.launches (turn : RunningTurn) : Prop := ∃ call k,
    turn.rest = .op (.launchTool call) k

namespace AgentThreads

/-- A `shared_ptr` is destroyed. The last one takes the controller with it. -/
def drop (s : AgentThreads) (o : Owner) : AgentThreads :=
  { s with
    holders := s.holders.erase o
    life := if s.holders.erase o = ∅ then .destructor o [] none else s.life }

theorem life_drop {s : AgentThreads} {o : Owner} (h : s.holders.erase o ≠ ∅) :
    (s.drop o).life = s.life := if_neg h

theorem life_drop_last {s : AgentThreads} {o : Owner} (h : s.holders.erase o = ∅) :
    (s.drop o).life = .destructor o [] none := if_pos h

def setWorker (s : AgentThreads) (cid : Bytes) (w : WorkerState) : AgentThreads :=
  { s with workers := Function.update s.workers cid (some w) }

def setTurn (s : AgentThreads) (cid : Bytes) (turn : RunningTurn) : AgentThreads :=
  s.setWorker cid (.running turn)

def setTask (s : AgentThreads) (t : Nat) (task : ToolTask) (state : TaskState) : AgentThreads :=
  { s with tasks := s.tasks.set t { task with state } }

/-- The worker of a slot is in this turn. -/
def Running (s : AgentThreads) (cid : Bytes) (turn : RunningTurn) : Prop :=
  s.workers cid = some (.running turn)

/-- The task has this state. -/
def TaskAt (s : AgentThreads) (t : Nat) (task : ToolTask) : Prop := s.tasks[t]? = some task

/-- `worker_pool::enqueue`. A conversation without a slot gets one. -/
def enqueue (s : AgentThreads) (message : MessageEvent) : AgentThreads :=
  let cid := conversationOf message
  { s with
    handling := none
    queues := Function.update s.queues cid (s.queues cid ++ [message])
    workers := Function.update s.workers cid (some ((s.workers cid).getD .waiting)) }

theorem queues_enqueue (s : AgentThreads) (message : MessageEvent) :
    (s.enqueue message).queues (conversationOf message) =
      s.queues (conversationOf message) ++ [message] := Function.update_self ..

theorem workers_enqueue (s : AgentThreads) (message : MessageEvent) :
    (s.enqueue message).workers (conversationOf message) =
      some ((s.workers (conversationOf message)).getD .waiting) := Function.update_self ..

theorem running_setTurn (s : AgentThreads) (cid : Bytes) (turn : RunningTurn) :
    (s.setTurn cid turn).Running cid turn := Function.update_self ..

/-- `~agent_controller` has returned, and the thread that has run it goes on. -/
def destroyed (s : AgentThreads) (caller : Owner) : AgentThreads :=
  { s with
    life := .destroyed
    tasks := match caller with
      | .task t => s.tasks.modify t ToolTask.endDestructor
      | _ => s.tasks }

end AgentThreads

/-- What the threads do. -/
inductive ThreadEvent where
  /-- `launch_agent` gives the notification thread its copy -/
  | launch
  /-- the registry resets its pointer -/
  | reset
  /-- the notification thread ends -/
  | notified
  /-- the io thread locks its weak pointer for a message -/
  | receive (message : MessageEvent)
  /-- it puts the message into the queue of its conversation -/
  | enqueue (message : MessageEvent)
  /-- it is done with the message -/
  | handled
  /-- a worker begins a turn -/
  | take (cid : Bytes)
  /-- `shared_from_this()` -/
  | lockSelf (cid : Bytes)
  /-- its result becomes `weak_self` -/
  | dropSelf (cid : Bytes)
  | launchTool (cid : Bytes)
  | awaitTool (cid : Bytes)
  /-- the destructor of a future, after an exception -/
  | dropFuture (cid : Bytes)
  | perform (cid : Bytes) (e : TurnEff) (x : e.Ans)
  | finish (cid : Bytes)
  /-- a worker leaves its loop -/
  | leave (cid : Bytes)
  /-- a task locks `weak_self` -/
  | lockTask (t : Nat)
  | execute (t : Nat) (result : ToolEnd)
  /-- `self` of a task is destroyed -/
  | dropTask (t : Nat)
  /-- the destructor begins to join a worker -/
  | join (cid : Bytes)
  /-- the worker has been joined -/
  | joined (cid : Bytes)
  | destroyed

namespace AgentThreads

/-- One step of a thread. -/
inductive Step (agent : AgentController) (s : AgentThreads) : ThreadEvent → AgentThreads → Prop
  | launch (h : .registry ∈ s.holders) (hfirst : s.launched = false) :
    Step agent s .launch
      { s with launched := true, holders := insert .notification s.holders }
  | reset (h : .registry ∈ s.holders) : Step agent s .reset (s.drop .registry)
  | notified (h : .notification ∈ s.holders) : Step agent s .notified (s.drop .notification)
  | receive {m : MessageEvent} (hfree : .session ∉ s.holders) (halive : s.holders.Nonempty) :
    Step agent s (.receive m)
      { s with handling := some m, holders := insert .session s.holders }
  | enqueue {message : MessageEvent} (h : .session ∈ s.holders)
    (hmessage : s.handling = some message) : Step agent s (.enqueue message) (s.enqueue message)
  | handled (h : .session ∈ s.holders) : Step agent s .handled (s.drop .session)
  | take {cid : Bytes} {message : MessageEvent} {queue : List MessageEvent}
    (hworker : s.workers cid = some .waiting) (hqueue : s.queues cid = message :: queue) :
    Step agent s (.take cid)
      ({ s with queues := Function.update s.queues cid queue }.setTurn cid
        { message, rest := processAgentMessage agent message })
  | lockSelf {cid : Bytes} {turn : RunningTurn} (hturn : s.Running cid turn)
    (hlaunch : turn.launches) (hself : turn.self = .none) (hfirst : turn.futures = [])
    (halive : s.holders.Nonempty) :
    Step agent s (.lockSelf cid)
      ({ s with holders := insert (Owner.worker cid) s.holders }.setTurn cid
        { turn with self := .temporary })
  | badWeakPtr {cid : Bytes} {turn : RunningTurn} (hturn : s.Running cid turn)
    (hlaunch : turn.launches) (hself : turn.self = .none) (hfirst : turn.futures = [])
    (hexpired : s.holders = ∅) :
    Step agent s (.lockSelf cid) (s.setTurn cid { turn with rest := failTurn turn.message })
  | dropSelf {cid : Bytes} {turn : RunningTurn} (hturn : s.Running cid turn)
    (hself : turn.self = .temporary) (h : .worker cid ∈ s.holders) :
    Step agent s (.dropSelf cid) ((s.drop (.worker cid)).setTurn cid
      -- the last reference takes the worker into the destructor, and it does not come back
      { turn with self := if s.holders.erase (.worker cid) = ∅ then .temporary else .weak })
  | launchTool {cid : Bytes} {turn : RunningTurn} {call : ToolCall} {k : Unit → Turn TurnEnd}
    (hturn : s.Running cid turn) (hrest : turn.rest = .op (.launchTool call) k)
    (hself : turn.self = .weak) :
    Step agent s (.launchTool cid)
      ({ s with tasks := s.tasks ++ [ToolTask.mk call .launched] }.setTurn cid
        { turn with rest := k (), futures := turn.futures ++ [s.tasks.length] })
  | awaitTool {cid : Bytes} {turn : RunningTurn} {call : ToolCall} {k : ToolEnd → Turn TurnEnd}
    {t : Nat} {futures : List Nat} {task : ToolTask} {result : ToolEnd}
    (hturn : s.Running cid turn) (hrest : turn.rest = .op (.awaitTool call) k)
    (hfutures : turn.futures = t :: futures) (htask : s.TaskAt t task)
    (hready : task.state = .ready result) :
    Step agent s (.awaitTool cid) (s.setTurn cid
      { turn with
        rest := k result, futures, self := if futures = [] then .none else turn.self })
  | dropFuture {cid : Bytes} {turn : RunningTurn} {t : Nat} {futures : List Nat} {task : ToolTask}
    {result : ToolEnd} (hturn : s.Running cid turn)
    (hrest : ∀ e k, turn.rest = .op e k → e.usesTask = false)
    (hfutures : turn.futures = t :: futures) (htask : s.TaskAt t task)
    (hready : task.state = .ready result) :
    Step agent s (.dropFuture cid) (s.setTurn cid { turn with futures, self := .none })
  | perform {cid : Bytes} {turn : RunningTurn} {e : TurnEff} {x : e.Ans} {k : e.Ans → Turn TurnEnd}
    (hturn : s.Running cid turn) (hrest : turn.rest = .op e k) (hown : e.usesTask = false)
    (hround : turn.futures = []) (hx : s.world.Admits e x) :
    Step agent s (.perform cid e x) ({ s with world := s.world.next e x }.setTurn cid
      { turn with rest := k x })
  | finish {cid : Bytes} {turn : RunningTurn} {ended : TurnEnd} (hturn : s.Running cid turn)
    (hover : turn.rest = .ret ended) (hround : turn.futures = []) :
    Step agent s (.finish cid) (s.setWorker cid .waiting)
  | uncaught {cid : Bytes} {turn : RunningTurn} {t : Thrown} (hturn : s.Running cid turn)
    (hover : turn.rest = .throw t) (hround : turn.futures = []) :
    Step agent s (.finish cid) { s with life := .terminated }
  | leave {cid : Bytes} (hworker : s.workers cid = some .waiting) (hqueue : s.queues cid = [])
    (hstopping : s.life ≠ .alive) : Step agent s (.leave cid) (s.setWorker cid .stopped)
  | lockTask {t : Nat} {task : ToolTask} (htask : s.TaskAt t task) (hstate : task.state = .launched)
    (halive : s.holders.Nonempty) :
    Step agent s (.lockTask t)
      ({ s with holders := insert (Owner.task t) s.holders }.setTask t task .executing)
  | expired {t : Nat} {task : ToolTask} (htask : s.TaskAt t task) (hstate : task.state = .launched)
    (hexpired : s.holders = ∅) :
    Step agent s (.lockTask t) (s.setTask t task (.ready .controllerDestroyed))
  | execute {t : Nat} {task : ToolTask} (htask : s.TaskAt t task) (hstate : task.state = .executing)
    (result : ToolEnd) : Step agent s (.execute t result) (s.setTask t task (.leaving result))
  | dropTask {t : Nat} {task : ToolTask} {result : ToolEnd} (htask : s.TaskAt t task)
    (hstate : task.state = .leaving result) (h : .task t ∈ s.holders) :
    Step agent s (.dropTask t) ((s.drop (.task t)).setTask t task
      (if s.holders.erase (.task t) = ∅ then .destroying result else .ready result))
  | join {cid : Bytes} {caller : Owner} {joined : List Bytes}
    (hlife : s.life = .destructor caller joined none) (hslot : (s.workers cid).isSome = true)
    (hnew : cid ∉ joined) (hother : caller ≠ .worker cid) :
    Step agent s (.join cid) { s with life := .destructor caller joined (some cid) }
  | joinSelf {cid : Bytes} {joined : List Bytes}
    (hlife : s.life = .destructor (.worker cid) joined none) :
    -- a thread cannot join itself, and the exception leaves a destructor
    Step agent s (.join cid) { s with life := .terminated }
  | joined {cid : Bytes} {caller : Owner} {joined : List Bytes}
    (hlife : s.life = .destructor caller joined (some cid))
    (hstopped : s.workers cid = some .stopped) :
    Step agent s (.joined cid) { s with life := .destructor caller (cid :: joined) none }
  | destroyed {caller : Owner} {joined : List Bytes}
    (hlife : s.life = .destructor caller joined none)
    (hall : ∀ cid, (s.workers cid).isSome = true → cid ∈ joined) :
    Step agent s .destroyed (s.destroyed caller)

/-- `build_agent` has just put the controller into its instance, over what an earlier process has
stored. -/
def Initial (s : AgentThreads) : Prop := ∃ world, s = { world }

end AgentThreads

/-- The threads around a controller. None takes a step when the process has been terminated. -/
def agentThreads (agent : AgentController) : TransitionSystem AgentThreads ThreadEvent where
  init := AgentThreads.Initial
  step s e s' := s.life ≠ .terminated ∧ AgentThreads.Step agent s e s'

end Aestival
