import Aestival.Agent.AgentThreads

/-!
# Stopping an agent during a tool call

A tool task keeps the controller alive while it executes its tool. If everybody else lets go of the
controller in the meantime, the task is the last one: it runs the destructor, which joins the worker
that waits for the future of this very task.

* `JoinsOwnWorker`: the destructor runs inside a tool task and joins a worker that waits for the
  task.
* `joinsOwnWorker_stays`: nothing but the end of the process ends this, so it is a deadlock.
* `stop_without_deadlock`: no such state is reached in a run in which whoever else lets go of the
  controller leaves it to another one of its kind, or does so while no tool is executed
  (`LeavesTools`).
* `stop_during_tool`: the registry resets its pointer while a tool is executed.
-/

namespace Aestival

open Bytes Prog

/-- The owner is a tool task. -/
def Owner.IsTask : Owner → Prop
  | .task _ => True
  | _ => False

/-- The owner, other than a task, that lets go of the controller. -/
def ThreadEvent.dropped : ThreadEvent → Option Owner
  | .reset => some .registry
  | .notified => some .notification
  | .handled => some .session
  | .dropSelf cid => some (.worker cid)
  | _ => none

namespace AgentThreads

variable {agent : AgentController} {s s' : AgentThreads} {e : ThreadEvent}

/-- The worker of the slot waits for the task: in `get` of its future, or in the destructor of the
future. -/
def WaitsFor (s : AgentThreads) (cid : Bytes) (t : Nat) : Prop :=
  ∃ turn, s.Running cid turn ∧ ¬ turn.launches ∧ turn.futures.head? = some t ∧
    ∀ task result, s.TaskAt t task → task.state ≠ .ready result

/-- `~agent_controller` runs inside a tool task, and joins a worker that waits for this task. -/
def JoinsOwnWorker (s : AgentThreads) : Prop :=
  ∃ t joined cid, s.life = .destructor (.task t) joined (some cid) ∧ s.WaitsFor cid t

/-- The condition on a step: who lets go of the controller leaves it to others that are no tasks,
or no task has it. -/
def LeavesTools (s : AgentThreads) (e : ThreadEvent) : Prop :=
  ∀ o, e.dropped = some o → LeavesKept (¬ ·.IsTask) s.holders o

/-! ### The last owner -/

/-- The controller is kept by owners that are no tasks, and destroyed by one of them. -/
structure KeptOutside (s : AgentThreads) : Prop where
  kept : KeptBy (¬ ·.IsTask) s.holders
  caller : ∀ o joined joining, s.life = .destructor o joined joining → ¬ o.IsTask

theorem KeptOutside.initial (h : s.Initial) : s.KeptOutside := by
  obtain ⟨world, rfl⟩ := h
  exact ⟨.singleton id, nofun⟩

/-- A step that touches neither the owners nor the destructor. -/
theorem KeptOutside.frame (h : s.KeptOutside) (hholders : s'.holders = s.holders)
    (hlife : s'.life = s.life) : s'.KeptOutside :=
  ⟨hholders ▸ h.kept, hlife ▸ h.caller⟩

/-- Somebody gets a pointer. -/
theorem KeptOutside.gain (h : s.KeptOutside) (halive : s.holders.Nonempty) {o : Owner}
    (hholders : s'.holders = insert o s.holders) (hlife : s'.life = s.life) : s'.KeptOutside :=
  ⟨hholders ▸ h.kept.insert halive o, hlife ▸ h.caller⟩

/-- Somebody lets go of the controller. -/
theorem KeptOutside.drop (h : s.KeptOutside) {o : Owner} (ho : o ∈ s.holders)
    (hleaves : ¬ o.IsTask → LeavesKept (¬ ·.IsTask) s.holders o) : (s.drop o).KeptOutside := by
  refine ⟨?_, fun o' joined joining hlife => ?_⟩
  · by_cases htask : o.IsTask
    · exact h.kept.erase_guest (not_not_intro htask)
    · exact .erase (hleaves htask)
  · have hlife : (if s.holders.erase o = ∅ then Life.destructor o [] none else s.life) =
      .destructor o' joined joining := hlife
    -- the pointer was the last one, or somebody else goes on holding the controller
    split at hlife
    case isTrue hlast =>
      obtain rfl := (Life.destructor.inj hlife).1
      exact h.kept.keeper_of_last ho hlast
    case isFalse => exact h.caller o' joined joining hlife

theorem KeptOutside.step (h : s.KeptOutside) (hstep : Step agent s e s')
    (hleaves : LeavesTools s e) : s'.KeptOutside := by
  cases hstep with
  -- what takes a reference, what drops one, and what does neither
  | launch hregistry _ => exact h.gain ⟨_, hregistry⟩ rfl rfl
  | reset ho => exact h.drop ho fun _ => hleaves _ rfl
  | notified ho => exact h.drop ho fun _ => hleaves _ rfl
  | receive _ halive => exact h.gain halive rfl rfl
  | handled ho => exact h.drop ho fun _ => hleaves _ rfl
  | lockSelf _ _ _ _ halive => exact h.gain halive rfl rfl
  | dropSelf _ _ ho => exact (h.drop ho fun _ => hleaves _ rfl).frame rfl rfl
  | lockTask _ _ halive => exact h.gain halive rfl rfl
  | dropTask _ _ ho => exact (h.drop ho fun hno => absurd trivial hno).frame rfl rfl
  | uncaught => exact ⟨h.kept, nofun⟩
  | joinSelf _ => exact ⟨h.kept, nofun⟩
  | destroyed _ _ => exact ⟨h.kept, nofun⟩
  | join hlife _ _ _ =>
    refine ⟨h.kept, fun o joined joining heq => ?_⟩
    obtain rfl := (Life.destructor.inj heq).1
    exact h.caller _ _ _ hlife
  | joined hlife _ =>
    refine ⟨h.kept, fun o joined joining heq => ?_⟩
    obtain rfl := (Life.destructor.inj heq).1
    exact h.caller _ _ _ hlife
  | _ => exact h.frame rfl rfl

theorem KeptOutside.not_joinsOwnWorker (h : s.KeptOutside) : ¬ s.JoinsOwnWorker := by
  rintro ⟨t, joined, cid, hlife, -⟩
  exact h.caller _ _ _ hlife trivial

/-! ### The deadlock -/

/-- Where the destructor runs, nobody has a pointer any more, and a task that runs it is inside. -/
structure DestructorRuns (s : AgentThreads) : Prop where
  unheld : ∀ o joined joining, s.life = .destructor o joined joining → s.holders = ∅
  inside : ∀ t joined joining, s.life = .destructor (.task t) joined joining →
    ∃ task result, s.TaskAt t task ∧ task.state = .destroying result

theorem DestructorRuns.of_not_running
    (h : ∀ o joined joining, s.life ≠ .destructor o joined joining) : s.DestructorRuns :=
  ⟨fun o joined joining heq => absurd heq (h o joined joining),
    fun _ joined joining heq => absurd heq (h _ joined joining)⟩

theorem DestructorRuns.initial (h : s.Initial) : s.DestructorRuns := by
  obtain ⟨world, rfl⟩ := h
  exact .of_not_running nofun

/-- Somebody has a pointer, so the destructor does not run. -/
theorem DestructorRuns.of_held (h : s.DestructorRuns) (hheld : s.holders.Nonempty)
    (hlife : s'.life = s.life) : s'.DestructorRuns := by
  refine .of_not_running fun o joined joining heq => ?_
  rw [hlife] at heq
  exact hheld.ne_empty (h.unheld o joined joining heq)

/-- A step that leaves the owners and the destructor as they are, and every task that is inside of
it. -/
theorem DestructorRuns.frame (h : s.DestructorRuns) (hholders : s'.holders = s.holders)
    (hlife : s'.life = s.life) (htasks : ∀ t task result, s.TaskAt t task →
      task.state = .destroying result → s'.TaskAt t task) : s'.DestructorRuns := by
  refine ⟨fun o joined joining heq => ?_, fun t joined joining heq => ?_⟩
  · rw [hholders]
    exact h.unheld o joined joining (hlife ▸ heq)
  · obtain ⟨task, result, htask, hstate⟩ := h.inside t joined joining (hlife ▸ heq)
    exact ⟨task, result, htasks t task result htask hstate, hstate⟩

/-- What becomes of the tasks when one of them changes its state. -/
theorem TaskAt.setTask {t u : Nat} {task other : ToolTask} {state : TaskState}
    (h : s.TaskAt u other)
    (hne : u ≠ t) : (s.setTask t task state).TaskAt u other := by
  show (s.tasks.set t { task with state })[u]? = some other
  rw [List.getElem?_set_ne hne.symm]
  exact h

theorem TaskAt.setTask_self {t : Nat} {task : ToolTask} (h : s.TaskAt t task)
    (state : TaskState) : (s.setTask t task state).TaskAt t { task with state } := by
  show (s.tasks.set t { task with state })[t]? = some _
  obtain ⟨hlt, -⟩ := List.getElem?_eq_some_iff.mp h
  exact List.getElem?_set_self hlt

theorem TaskAt.launchTool {t : Nat} {task : ToolTask} (h : s.TaskAt t task) (call : ToolCall) :
    (s.tasks ++ [ToolTask.mk call .launched])[t]? = some task := by
  obtain ⟨hlt, -⟩ := List.getElem?_eq_some_iff.mp h
  rw [List.getElem?_append_left hlt]
  exact h

/-- Another one than a task lets go of the controller. -/
theorem DestructorRuns.drop (h : s.DestructorRuns) {o : Owner} (ho : o ∈ s.holders)
    (hno : ¬ o.IsTask) : (s.drop o).DestructorRuns := by
  -- the last pointer begins the destructor, in the thread of its owner
  by_cases hlast : s.holders.erase o = ∅
  · have hlife := life_drop_last hlast
    refine ⟨fun _ _ _ _ => hlast, fun t joined joining heq => ?_⟩
    rw [hlife] at heq
    obtain rfl := (Life.destructor.inj heq).1
    exact absurd trivial hno
  · exact h.of_held ⟨o, ho⟩ (life_drop hlast)

/-- A task lets go of the controller. -/
theorem DestructorRuns.dropTask (h : s.DestructorRuns) {t : Nat} {task : ToolTask}
    (htask : s.TaskAt t task) (result : ToolEnd) (ho : .task t ∈ s.holders) :
    ((s.drop (.task t)).setTask t task
      (if s.holders.erase (.task t) = ∅ then .destroying result else .ready result)
        ).DestructorRuns := by
  by_cases hlast : s.holders.erase (.task t) = ∅
  · rw [if_pos hlast]
    have hlife := life_drop_last hlast
    refine ⟨fun _ _ _ _ => hlast, fun u joined joining heq => ?_⟩
    have heq : (s.drop (.task t)).life = .destructor (.task u) joined joining := heq
    rw [hlife] at heq
    -- the task goes into the destructor that it runs
    obtain rfl := Owner.task.inj (Life.destructor.inj heq).1
    exact ⟨_, result, TaskAt.setTask_self (s := s.drop (.task t)) htask _, rfl⟩
  · exact h.of_held ⟨_, ho⟩ (life_drop hlast)

/-- Two states of one task. -/
theorem TaskAt.unique {t : Nat} {task other : ToolTask} (h : s.TaskAt t task)
    (h' : s.TaskAt t other) : task = other := Option.some.inj (h.symm.trans h')

/-- A task that is not inside of the destructor changes its state. -/
theorem DestructorRuns.setTask (h : s.DestructorRuns) {t : Nat} {task : ToolTask}
    (state : TaskState)
    (htask : s.TaskAt t task) (hstate : ∀ result, task.state ≠ .destroying result) :
    (s.setTask t task state).DestructorRuns := by
  refine h.frame rfl rfl fun u other result hother hinside => hother.setTask ?_
  rintro rfl
  obtain rfl := htask.unique hother
  exact hstate result hinside

theorem DestructorRuns.step (h : s.DestructorRuns) (hstep : Step agent s e s') :
    s'.DestructorRuns := by
  cases hstep with
  -- while someone holds the agent, its destructor does not run
  | launch ho _ => exact h.of_held ⟨_, ho⟩ rfl
  | reset ho => exact h.drop ho id
  | notified ho => exact h.drop ho id
  | receive _ halive => exact h.of_held halive rfl
  | handled ho => exact h.drop ho id
  | lockSelf _ _ _ _ halive => exact h.of_held halive rfl
  | dropSelf _ _ ho => exact (h.drop ho id).frame rfl rfl fun _ _ _ htask _ => htask
  | launchTool _ _ _ => exact h.frame rfl rfl fun _ _ _ htask _ => htask.launchTool _
  | lockTask _ _ halive => exact h.of_held halive rfl
  | expired htask hstate _ => exact h.setTask _ htask (by rw [hstate]; nofun)
  | execute htask hstate => exact h.setTask _ htask (by rw [hstate]; nofun)
  | dropTask htask _ ho => exact h.dropTask htask _ ho
  | uncaught => exact .of_not_running nofun
  | joinSelf _ => exact .of_not_running nofun
  | destroyed _ _ => exact .of_not_running nofun
  | join hlife _ _ _ =>
    refine ⟨fun _ _ _ _ => h.unheld _ _ _ hlife, fun t joined joining heq => ?_⟩
    obtain rfl := (Life.destructor.inj heq).1
    exact h.inside _ _ _ hlife
  | joined hlife _ =>
    refine ⟨fun _ _ _ _ => h.unheld _ _ _ hlife, fun t joined joining heq => ?_⟩
    obtain rfl := (Life.destructor.inj heq).1
    exact h.inside _ _ _ hlife
  | _ => exact h.frame rfl rfl fun _ _ _ htask _ => htask

/-- Two turns of one worker. -/
theorem Running.unique {cid : Bytes} {turn other : RunningTurn} (h : s.Running cid turn)
    (h' : s.Running cid other) : turn = other :=
  WorkerState.running.inj (Option.some.inj (h.symm.trans h'))

theorem Running.isSome {cid : Bytes} {turn : RunningTurn} (h : s.Running cid turn) :
    (s.workers cid).isSome = true := by
  rw [show s.workers cid = some (.running turn) from h]
  rfl

theorem WaitsFor.frame {cid : Bytes} {t : Nat} (h : s.WaitsFor cid t)
    (hworker : s'.workers cid = s.workers cid) (htask : s'.tasks[t]? = s.tasks[t]?) :
    s'.WaitsFor cid t := by
  obtain ⟨turn, hturn, hlaunch, hhead, hready⟩ := h
  refine ⟨turn, hworker.trans hturn, hlaunch, hhead, fun task result hat => ?_⟩
  exact hready task result (htask.symm.trans hat)

/-- **A worker that is joined by its own task is joined forever.** Only an exception that ends the
process ends this. -/
theorem joinsOwnWorker_stays (hruns : s.DestructorRuns) (h : s.JoinsOwnWorker)
    (hstep : Step agent s e s') : s'.JoinsOwnWorker ∨ s'.life = .terminated := by
  obtain ⟨t, joined, cid, hlife, hwaits⟩ := h
  obtain ⟨task, result, htask, hstate⟩ := hruns.inside t joined _ hlife
  have hempty : s.holders = ∅ := hruns.unheld _ _ _ hlife
  have hunheld : ∀ o, o ∉ s.holders := by
    rw [hempty]
    exact Finset.notMem_empty
  have hdead : ¬ s.holders.Nonempty := fun hne => hne.ne_empty hempty
  have hkeep : ∀ {s'' : AgentThreads}, s''.life = s.life → s''.workers cid = s.workers cid →
      s''.tasks[t]? = s.tasks[t]? → s''.JoinsOwnWorker := fun hlife' hworker htasks =>
    ⟨t, joined, cid, hlife'.trans hlife, hwaits.frame hworker htasks⟩
  obtain ⟨turn, hturn, hlaunch, hhead, hready⟩ := hwaits
  -- the worker that waits takes no step
  have hother : ∀ {d : Bytes} {turn' : RunningTurn}, s.Running d turn' →
      (turn'.launches ∨ turn'.futures = [] ∨ ∃ u futures other r, turn'.futures = u :: futures ∧
        s.TaskAt u other ∧ other.state = .ready r) → cid ≠ d := by
    rintro d turn' hturn' hmoves rfl
    obtain rfl := hturn.unique hturn'
    rcases hmoves with hmoves | hmoves | ⟨u, futures, other, r, hfutures, hat, hr⟩
    · exact hlaunch hmoves
    · rw [hmoves] at hhead
      cases hhead
    · rw [hfutures] at hhead
      obtain rfl := Option.some.inj hhead
      exact hready other r hat hr
  have hbusy : ∀ {d : Bytes}, s.workers d = some .waiting → cid ≠ d := by
    rintro d hwaiting rfl
    rw [hturn] at hwaiting
    cases hwaiting
  -- and the task that has the destructor does not come out of it
  have htasks : ∀ {u : Nat} {other : ToolTask} (state : TaskState), s.TaskAt u other →
      (∀ r, other.state ≠ .destroying r) → (s.setTask u other state).tasks[t]? = s.tasks[t]? := by
    intro u other state hat hnot
    refine Eq.trans (htask.setTask ?_) htask.symm
    rintro rfl
    obtain rfl := htask.unique hat
    exact hnot result hstate
  have hworkers : ∀ {d : Bytes} (w : WorkerState), cid ≠ d →
      Function.update s.workers d (some w) cid = s.workers cid := fun w hne =>
    Function.update_of_ne hne ..
  cases hstep with
  | launch ho _ => exact absurd ho (hunheld _)
  | reset ho => exact absurd ho (hunheld _)
  | notified ho => exact absurd ho (hunheld _)
  | receive _ halive => exact absurd halive hdead
  | enqueue ho _ => exact absurd ho (hunheld _)
  | handled ho => exact absurd ho (hunheld _)
  | take hworker _ => exact .inl (hkeep rfl (hworkers _ (hbusy hworker)) rfl)
  | lockSelf _ _ _ _ halive => exact absurd halive hdead
  | badWeakPtr hturn' hmoves _ _ _ =>
    exact .inl (hkeep rfl (hworkers _ (hother hturn' (.inl hmoves))) rfl)
  | dropSelf _ _ ho => exact absurd ho (hunheld _)
  | launchTool hturn' hrest _ =>
    have hne := hother hturn' (.inl ⟨_, _, hrest⟩)
    exact .inl (hkeep rfl (hworkers _ hne) ((htask.launchTool _).trans htask.symm))
  | awaitTool hturn' _ hfutures hat hr =>
    have hne := hother hturn' (.inr (.inr ⟨_, _, _, _, hfutures, hat, hr⟩))
    exact .inl (hkeep rfl (hworkers _ hne) rfl)
  | dropFuture hturn' _ hfutures hat hr =>
    have hne := hother hturn' (.inr (.inr ⟨_, _, _, _, hfutures, hat, hr⟩))
    exact .inl (hkeep rfl (hworkers _ hne) rfl)
  | perform hturn' _ _ hround _ =>
    exact .inl (hkeep rfl (hworkers _ (hother hturn' (.inr (.inl hround)))) rfl)
  | finish hturn' _ hround =>
    exact .inl (hkeep rfl (hworkers _ (hother hturn' (.inr (.inl hround)))) rfl)
  | uncaught _ _ _ => exact .inr rfl
  | leave hworker _ _ => exact .inl (hkeep rfl (hworkers _ (hbusy hworker)) rfl)
  | lockTask _ _ halive => exact absurd halive hdead
  | expired hat hlaunched _ => exact .inl (hkeep rfl rfl (htasks _ hat (by rw [hlaunched]; nofun)))
  | execute hat hexecuting _ =>
    exact .inl (hkeep rfl rfl (htasks _ hat (by rw [hexecuting]; nofun)))
  | dropTask _ _ ho => exact absurd ho (hunheld _)
  | join hlife' _ _ _ =>
    rw [hlife] at hlife'
    cases hlife'
  | joinSelf hlife' =>
    rw [hlife] at hlife'
    cases hlife'
  | joined hlife' hstopped =>
    -- the worker is still in its turn
    rw [hlife] at hlife'
    obtain ⟨-, -, heq⟩ := Life.destructor.inj hlife'
    obtain rfl := Option.some.inj heq
    rw [hturn] at hstopped
    cases hstopped
  | destroyed hlife' _ =>
    rw [hlife] at hlife'
    cases hlife'

end AgentThreads

open AgentThreads

/-! ### A turn in the middle of a tool call -/

/-- The runs whose steps all meet the condition. -/
abbrev guardedThreads (agent : AgentController) : TransitionSystem AgentThreads ThreadEvent :=
  (agentThreads agent).restrict LeavesTools

/-- The effects of a turn that concern no task. -/
def ownEffect (e : TurnEff) : Bool := !e.usesTask

/-- The state in which the turn of this worker has come to another point. -/
def AgentThreads.at (s : AgentThreads) (cid : Bytes) (turn : RunningTurn) (w : World)
    (rest : Turn TurnEnd) : AgentThreads :=
  { s with world := w }.setTurn cid { turn with rest }

theorem AgentThreads.at_self {s : AgentThreads} {cid : Bytes} {turn : RunningTurn}
    (hturn : s.Running cid turn) : s.at cid turn s.world turn.rest = s := by
  have hworkers : Function.update s.workers cid (some (.running turn)) = s.workers :=
    Function.update_eq_self_iff.mpr hturn.symm
  show { s with workers := Function.update s.workers cid (some (.running turn)) } = s
  rw [hworkers]

theorem AgentThreads.at_at (s : AgentThreads) (cid : Bytes) (turn : RunningTurn) (w w' : World)
    (p p' : Turn TurnEnd) : (s.at cid turn w p).at cid turn w' p' = s.at cid turn w' p' := by
  have hworkers : Function.update (s.at cid turn w p).workers cid
      (some (.running { turn with rest := p' })) =
        Function.update s.workers cid (some (.running { turn with rest := p' })) :=
    Function.update_idem ..
  show { s with world := w', workers := Function.update (s.at cid turn w p).workers cid _ } =
    { s with world := w', workers := Function.update s.workers cid _ }
  rw [hworkers]

/-- A turn goes on to its next task. -/
theorem AgentThreads.run_advance {agent : AgentController} {tr : List (AgentThreads × ThreadEvent)}
    {s : AgentThreads} {cid : Bytes} {turn : RunningTurn} (h : (guardedThreads agent).Run tr s)
    (halive : s.life = .alive) (hturn : s.Running cid turn) (hround : turn.futures = [])
    (around : Scenario) :
    ∃ tr', (guardedThreads agent).Run tr' (s.at cid turn
      (advance World.machine (World.answer around) ownEffect s.world turn.rest).1
      (advance World.machine (World.answer around) ownEffect s.world turn.rest).2) := by
  -- one effect after the other, up to one that concerns a task
  refine advance_induction
    (I := fun w p => ∃ tr', (guardedThreads agent).Run tr' (s.at cid turn w p))
    ?_ ⟨tr, (at_self hturn).symm ▸ h⟩
  rintro w e k hown ⟨tr', hrun⟩
  have hnow : (s.at cid turn w (.op e k)).Running cid { turn with rest := .op e k } :=
    Function.update_self ..
  -- the turn neither launches nor awaits a task here
  have hquiet : e.usesTask = false := by simpa [ownEffect] using hown
  have hstep : Step agent (s.at cid turn w (.op e k))
      (.perform cid e (World.answer around w e)) _ :=
    .perform hnow rfl hquiet hround (World.admits_answer around w e)
  have hperform : Step agent (s.at cid turn w (.op e k)) (.perform cid e (World.answer around w e))
      ((s.at cid turn w (.op e k)).at cid turn (w.next e (World.answer around w e)) (k _)) := hstep
  rw [at_at] at hperform
  exact ⟨_, hrun.step ⟨⟨ne_of_eq_of_ne halive nofun, hperform⟩, nofun⟩⟩

/-- The call and the model of the example. -/
def sampleCall : ToolCall := ⟨utf8 "1", utf8 "t", utf8 "\x7b\x7d"⟩

def sampleScenario : Scenario where
  model := fun _ => .ok { toolCalls := [sampleCall] }
  providers := [[⟨utf8 "t", [], .null⟩]]

/-- `hi`, of the user `u`. -/
def sampleMessage : MessageEvent := privateMessage (utf8 "hi")

/-- The turn comes to a tool call. -/
theorem turn_calls_tool : ∃ w k k',
    advance World.machine (World.answer sampleScenario) ownEffect {}
        (processAgentMessage (plainAgent {}) sampleMessage) = (w, .op (.launchTool sampleCall) k) ∧
      k () = .op (.awaitTool sampleCall) k' :=
  ⟨_, _, _, rfl, rfl⟩

/-- A step that meets the condition. -/
theorem AgentThreads.run_step {agent : AgentController} {tr : List (AgentThreads × ThreadEvent)}
    {s s' : AgentThreads} {e : ThreadEvent} (h : (guardedThreads agent).Run tr s)
    (hlive : s.life = .alive) (hstep : Step agent s e s') (hleaves : LeavesTools s e) :
    (guardedThreads agent).Run (tr ++ [(s, e)]) s' :=
  h.step ⟨⟨ne_of_eq_of_ne hlive nofun, hstep⟩, hleaves⟩

/-- An owner that is no task stays. -/
theorem AgentThreads.LeavesTools.of_stays {s : AgentThreads} {e : ThreadEvent} {o k : Owner}
    (he : e.dropped = some o) (hk : k ∈ s.holders) (hne : k ≠ o) (htask : ¬ k.IsTask) :
    LeavesTools s e := by
  intro o' ho'
  obtain rfl := Option.some.inj (he.symm.trans ho')
  exact .inl ⟨k, hk, hne, htask⟩

/-- The living controller with its pointers, and the worker of the sample in the middle of a turn.
-/
structure InTurn (s : AgentThreads) (holders : Finset Owner) (turn : RunningTurn) : Prop where
  alive : s.life = .alive
  holders : s.holders = holders
  running : s.Running (conversationOf sampleMessage) turn

/-- One of several pointers is dropped. -/
theorem InTurn.drop {s : AgentThreads} {holders : Finset Owner} {turn : RunningTurn}
    (h : InTurn s holders turn) {o : Owner} (hsome : holders.erase o ≠ ∅) :
    InTurn (s.drop o) (holders.erase o) turn := by
  have hrest : s.holders.erase o = holders.erase o := by rw [h.holders]
  exact ⟨(life_drop (hrest ▸ hsome)).trans h.alive, hrest, h.running⟩

theorem InTurn.setTask {s : AgentThreads} {holders : Finset Owner} {turn : RunningTurn}
    (h : InTurn s holders turn) (t : Nat) (task : ToolTask) (state : TaskState) :
    InTurn (s.setTask t task state) holders turn :=
  ⟨h.alive, h.holders, h.running⟩

/-- The agent is launched, and a turn begins. -/
theorem run_to_turn : ∃ tr s, (guardedThreads (plainAgent {})).Run tr s ∧
    InTurn s {.notification, .registry}
      { message := sampleMessage, rest := processAgentMessage (plainAgent {}) sampleMessage } ∧
      s.world = {} ∧ s.tasks = [] := by
  have hinit : (guardedThreads (plainAgent {})).Run [] {} := .start ⟨{}, rfl⟩
  have hlaunch := run_step hinit rfl (.launch (Finset.mem_singleton_self _) rfl) nofun
  have hreceive := run_step hlaunch rfl
    (.receive (m := sampleMessage) (by decide) ⟨.registry, by decide⟩) nofun
  have henqueue := run_step hreceive rfl (.enqueue (by decide) rfl) nofun
  generalize hs : AgentThreads.enqueue _ _ = s at henqueue
  have halive : s.life = .alive := by rw [← hs]; rfl
  have hholders : s.holders = {.session, .notification, .registry} := by rw [← hs]; rfl
  have hworker : s.workers (conversationOf sampleMessage) = some .waiting := by
    rw [← hs]
    exact workers_enqueue ..
  have hqueue : s.queues (conversationOf sampleMessage) = [sampleMessage] := by
    rw [← hs]
    exact queues_enqueue ..
  have hworld : s.world = {} ∧ s.tasks = [] := by
    rw [← hs]
    exact ⟨rfl, rfl⟩
  -- the session gives up its reference, and the worker takes the message
  have hhandled := run_step henqueue halive (.handled (by rw [hholders]; decide))
    (.of_stays (k := .registry) rfl (by rw [hholders]; decide) (by decide) id)
  have hrest : s.holders.erase .session = {.notification, .registry} := by
    rw [hholders]
    decide
  have hstill : (s.drop .session).life = .alive :=
    (life_drop (by rw [hrest]; decide)).trans halive
  have htake := run_step hhandled hstill (.take hworker hqueue) nofun
  exact ⟨_, _, htake, ⟨hstill, hrest, running_setTurn ..⟩, hworld⟩

/-- The turn has launched a task and waits for it. -/
theorem run_to_tool : ∃ tr s k, (guardedThreads (plainAgent {})).Run tr s ∧
    InTurn s {.notification, .registry}
      { message := sampleMessage, rest := .op (.awaitTool sampleCall) k,
        self := .weak, futures := [0] } ∧
      s.tasks = [⟨sampleCall, .launched⟩] := by
  obtain ⟨tr, s, hrun, hturn, hworld, htasks⟩ := run_to_turn
  obtain ⟨w, k, k', hadvance, hk⟩ := turn_calls_tool
  obtain ⟨tr', hcalls⟩ := run_advance hrun hturn.alive hturn.running rfl sampleScenario
  rw [hworld] at hcalls
  dsimp only at hcalls
  rw [hadvance] at hcalls
  generalize hs₁ : s.at _ _ w _ = s₁ at hcalls
  have h₁ : InTurn s₁ {.notification, .registry}
      { message := sampleMessage, rest := .op (.launchTool sampleCall) k } := by
    rw [← hs₁]
    exact ⟨hturn.alive, hturn.holders, running_setTurn ..⟩
  -- `weak_self` is made while the registry and the notification thread have their pointers
  have hlock := run_step hcalls h₁.alive (.lockSelf h₁.running ⟨_, _, rfl⟩ rfl rfl
    ⟨.registry, by rw [h₁.holders]; decide⟩) nofun
  generalize hs₂ : AgentThreads.setTurn _ _ _ = s₂ at hlock
  have h₂ : InTurn s₂ {.worker (conversationOf sampleMessage), .notification, .registry}
      { message := sampleMessage, rest := .op (.launchTool sampleCall) k, self := .temporary } := by
    rw [← hs₂, ← h₁.holders]
    exact ⟨h₁.alive, rfl, running_setTurn ..⟩
  have hweak := run_step hlock h₂.alive (.dropSelf h₂.running rfl (by rw [h₂.holders]; decide))
    (.of_stays (k := .registry) rfl (by rw [h₂.holders]; decide) (by decide) id)
  have hrest : s₂.holders.erase (.worker (conversationOf sampleMessage)) =
      {.notification, .registry} := by
    rw [h₂.holders]
    decide
  have hsome : s₂.holders.erase (.worker (conversationOf sampleMessage)) ≠ ∅ := by
    rw [hrest]
    decide
  rw [if_neg hsome] at hweak
  generalize hs₃ : AgentThreads.setTurn _ _ _ = s₃ at hweak
  have h₃ : InTurn s₃ {.notification, .registry}
      { message := sampleMessage, rest := .op (.launchTool sampleCall) k, self := .weak } := by
    rw [← hs₃]
    exact ⟨(life_drop hsome).trans h₂.alive, hrest, running_setTurn ..⟩
  have htasks₃ : s₃.tasks = [] := by
    rw [← hs₃, ← hs₂, ← hs₁]
    exact htasks
  have hlaunch := run_step hweak h₃.alive (.launchTool h₃.running rfl rfl) nofun
  rw [hk, htasks₃] at hlaunch
  exact ⟨_, _, k', hlaunch, ⟨h₃.alive, h₃.holders, running_setTurn ..⟩, rfl⟩

/-- The task executes its tool, and the worker waits for it. -/
theorem run_to_execution : ∃ tr s k, (guardedThreads (plainAgent {})).Run tr s ∧
    InTurn s {.task 0, .notification, .registry}
      { message := sampleMessage, rest := .op (.awaitTool sampleCall) k,
        self := .weak, futures := [0] } ∧
      s.tasks = [⟨sampleCall, .executing⟩] := by
  obtain ⟨tr, s, k, hrun, hturn, htasks⟩ := run_to_tool
  have htask : s.TaskAt 0 ⟨sampleCall, .launched⟩ := by
    rw [TaskAt, htasks]
    rfl
  have hlock := run_step hrun hturn.alive
    (.lockTask htask rfl ⟨.registry, by rw [hturn.holders]; decide⟩) nofun
  refine ⟨_, _, k, hlock, ⟨hturn.alive, ?_, hturn.running⟩, ?_⟩
  · rw [← hturn.holders]
    rfl
  · show s.tasks.set 0 _ = _
    rw [htasks]
    rfl

/-! ### Stopping -/

/-- **Stopping an agent does not deadlock** in a run in which nobody leaves the controller to its
tool tasks. -/
theorem stop_without_deadlock {agent : AgentController} {tr : List (AgentThreads × ThreadEvent)}
    {s : AgentThreads} (h : (agentThreads agent).Run tr s)
    (hleaves : ∀ p ∈ tr, LeavesTools p.1 p.2) : ¬ s.JoinsOwnWorker := by
  refine ((h.restrict hleaves).invariant (I := KeptOutside) ?_ ?_).not_joinsOwnWorker
  · exact fun s hs => .initial hs
  · exact fun s e s' hs hstep => hs.step hstep.1.2 hstep.2

/-- **The deadlock lasts.** -/
theorem joinsOwnWorker_forever {agent : AgentController} {tr : List (AgentThreads × ThreadEvent)}
    {s s' : AgentThreads} {e : ThreadEvent} (h : (agentThreads agent).Run tr s)
    (hjoins : s.JoinsOwnWorker) (hstep : (agentThreads agent).step s e s') :
    s'.JoinsOwnWorker ∨ s'.life = .terminated := by
  have hruns : s.DestructorRuns := by
    refine h.invariant (I := DestructorRuns) ?_ ?_
    · exact fun s hs => .initial hs
    · exact fun s e s' hs hstep => hs.step hstep.2
  exact joinsOwnWorker_stays hruns hjoins hstep.2

/-- The tool ends first, and the registry resets the last pointer. -/
theorem stop_without_deadlock_after_tool :
    ∃ s : AgentThreads, s.life = .destructor .registry [] (some (conversationOf sampleMessage)) ∧
      ¬ s.JoinsOwnWorker := by
  obtain ⟨tr, s, k, hrun, hturn, htasks⟩ := run_to_execution
  have htask : s.TaskAt 0 ⟨sampleCall, .executing⟩ := by
    rw [TaskAt, htasks]
    rfl
  have hexecute := run_step hrun hturn.alive (.execute htask rfl (.returned [])) nofun
  have h₁ := hturn.setTask 0 ⟨sampleCall, .executing⟩ (.leaving (.returned []))
  have htask₁ := htask.setTask_self (.leaving (.returned []))
  generalize AgentThreads.setTask s 0 _ _ = s₁ at hexecute h₁ htask₁
  have hdone := run_step hexecute h₁.alive
    (.dropTask htask₁ rfl (by rw [h₁.holders]; decide)) nofun
  have hdropped := h₁.drop (o := .task 0) (by decide)
  have h₂ := hdropped.setTask 0 ⟨sampleCall, .leaving (.returned [])⟩
    (if s₁.holders.erase (.task 0) = ∅ then .destroying (.returned []) else .ready (.returned []))
  generalize AgentThreads.setTask _ 0 _ _ = s₂ at hdone h₂
  -- now nobody but the registry and the notification thread has a pointer
  have hnotified := run_step hdone h₂.alive (.notified (by rw [h₂.holders]; decide))
    (.of_stays (k := .registry) rfl (by rw [h₂.holders]; decide) (by decide) id)
  have h₃ := h₂.drop (o := .notification) (by decide)
  generalize s₂.drop .notification = s₃ at hnotified h₃
  have honly : s₃.holders = {.registry} := by
    rw [h₃.holders]
    decide
  have hlast : s₃.holders.erase .registry = ∅ := by
    rw [honly]
    decide
  have hreset := run_step hnotified h₃.alive (.reset (by rw [honly]; decide)) (by
    intro o _
    refine .inr fun o' ho' => ?_
    rw [honly] at ho'
    rw [Finset.mem_singleton.mp ho']
    exact id)
  have hlife : (s₃.drop .registry).life = .destructor .registry [] none := life_drop_last hlast
  have hslot : ((s₃.drop .registry).workers (conversationOf sampleMessage)).isSome = true :=
    h₃.running.isSome
  have hjoin := hreset.step
    ⟨⟨ne_of_eq_of_ne hlife nofun, Step.join hlife hslot List.not_mem_nil nofun⟩, nofun⟩
  exact ⟨_, rfl, stop_without_deadlock hjoin.of_restrict.1 hjoin.of_restrict.2⟩

/-- **The registry resets its pointer while a tool is executed.** The task destroys the controller
and joins the worker that waits for it. -/
theorem stop_during_tool :
    ∃ tr s, (agentThreads (plainAgent {})).Run tr s ∧ s.JoinsOwnWorker := by
  obtain ⟨tr, s, k, hguarded, hturn, htasks⟩ := run_to_execution
  -- everybody but the task lets go of the controller
  have hnotified := hguarded.of_restrict.1.step ⟨ne_of_eq_of_ne hturn.alive nofun,
    Step.notified (by rw [hturn.holders]; decide)⟩
  have h₁ := hturn.drop (o := .notification) (by decide)
  have hreset := hnotified.step
    ⟨ne_of_eq_of_ne h₁.alive nofun, Step.reset (by rw [h₁.holders]; decide)⟩
  have h₂ := h₁.drop (o := .registry) (by decide)
  generalize hs : AgentThreads.drop (s.drop .notification) .registry = s₁ at hreset h₂
  have htask : s₁.TaskAt 0 ⟨sampleCall, .executing⟩ := by
    rw [← hs]
    exact congrArg (·[0]?) htasks
  have hexecute := hreset.step
    ⟨ne_of_eq_of_ne h₂.alive nofun, Step.execute htask rfl (.returned [])⟩
  have h₃ := h₂.setTask 0 ⟨sampleCall, .executing⟩ (.leaving (.returned []))
  have htask₂ := htask.setTask_self (.leaving (.returned []))
  generalize AgentThreads.setTask s₁ 0 _ _ = s₂ at hexecute h₃ htask₂
  -- the task is the last one
  have hlast : s₂.holders.erase (.task 0) = ∅ := by
    rw [h₃.holders]
    decide
  have hdestroy := hexecute.step ⟨ne_of_eq_of_ne h₃.alive nofun, Step.dropTask htask₂ rfl
    (by rw [h₃.holders]; decide)⟩
  rw [if_pos hlast] at hdestroy
  have hlife : (s₂.drop (.task 0)).life = .destructor (.task 0) [] none := life_drop_last hlast
  have htask₃ : (s₂.drop (.task 0)).TaskAt 0 _ := htask₂
  have htask₃ := htask₃.setTask_self (.destroying (.returned []))
  have hrunning := h₃.running
  have hjoin := hdestroy.step
    ⟨ne_of_eq_of_ne hlife nofun, Step.join hlife hrunning.isSome List.not_mem_nil nofun⟩
  refine ⟨_, _, hjoin, 0, [], _, rfl, _, hrunning, nofun, rfl, fun task result hat => ?_⟩
  obtain rfl := htask₃.unique hat
  nofun

end Aestival
