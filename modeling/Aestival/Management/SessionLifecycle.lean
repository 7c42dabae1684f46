import Aestival.Management.SessionSpecs

/-!
# Status and session

Two properties of all runs of the registry.

The status of an agent tells whether its session is running (`TruthfulStatus`) as long as no chat
command stops the session of an agent that is running or starting, since nobody tells the registry
(`status_truthful`).

A session is stopped before it is destroyed (`DestroysStopped`) exactly if every operation
`StopsFirst`: `start_all` never stores an agent under the id of one whose session is running, and no
agent is removed or started whose launch failed after its session had been started
(`destroys_stopped_iff`).
-/

namespace Aestival

open Bytes Relation

/-! ### Invariants of single agents -/

/-- An agent that was built without an exception has a running session. -/
theorem builtSession_of_none {ends : Launches} {cfg : AgentConfig}
    (h : buildAgent ends.launch cfg = none) : builtSession ends cfg =
      some (QqSession.start {}) := by
  -- only the last of the checks of `buildAgent` depends on the launch
  rw [buildAgent] at h
  split at h
  · exact nomatch h
  split at h
  · exact nomatch h
  next hqq =>
  rw [builtSession, if_pos (not_not.mp hqq)]
  cases hend : ends cfg with
  | started => rfl
  | notBuilt what => simp [Launches.launch, LaunchEnd.failure, hend] at h
  | startFailed what => rfl

namespace AgentView

variable {v v' : AgentView}

/-- The session of an agent that is running or starting is running. -/
def Honest (v : AgentView) : Prop :=
  ∀ inst, v.inst = some inst → inst.status.isActive = true →
    ∃ s, v.session = some s ∧ s.running = true

/-- A running session belongs to an agent that is running, starting, or in the state `error`. -/
def Tracked (v : AgentView) : Prop :=
  ∀ s, v.session = some s → s.running = true →
    ∃ inst, v.inst = some inst ∧ (inst.status.isActive = true ∨ inst.status = .error)

theorem Honest.change (hv : Honest v) (h : Change v v') : Honest v' := by
  cases h with
  | built ends inst h =>
    rintro _ ⟨⟩ hactive
    -- an agent that could not be built is in the state `error`, and nothing is asked of it
    rcases h with ⟨-, hbuild⟩ | herror
    · exact ⟨_, builtSession_of_none hbuild, rfl⟩
    · rw [herror] at hactive
      exact nomatch hactive
  | removed => exact nofun
  | stopped =>
    rintro _ ⟨⟩ hactive
    exact nomatch hactive
  | edited cfg hidle =>
    rintro _ ⟨⟩ hactive
    exact absurd (hactive.symm.trans hidle) Bool.noConfusion
  -- the session has called the handler, so it runs
  | connected hrun => exact fun _ _ _ => ⟨_, rfl, hrun⟩

theorem Tracked.change (hv : Tracked v) (h : Change v v') : Tracked v' := by
  cases h with
  | built ends inst h =>
    refine fun _ _ _ => ⟨inst, rfl, h.imp (fun h => ?_) id⟩
    rw [h.1]
    rfl
  | removed => exact nofun
  | stopped h =>
    intro s hs hrun
    obtain ⟨s', -, rfl⟩ := Option.map_eq_some_iff.mp hs
    exact nomatch hrun
  -- the configuration of an agent is edited while it is idle; its session may be a failed one
  | @edited inst s cfg hidle =>
    intro s' hs hrun
    obtain ⟨inst', hinst, hstatus⟩ := hv s' hs hrun
    obtain rfl := Option.some.inj hinst
    exact ⟨_, rfl, hstatus⟩
  | connected hrun => exact fun _ _ _ => ⟨_, rfl, .inl rfl⟩

/-- What every change keeps is kept by any number of them. -/
theorem of_changes {P : AgentView → Prop} (hkeep : ∀ v v', P v → Change v v' → P v')
    (h : ReflTransGen Change v v') (hv : P v) : P v' := by
  induction h with
  | refl => exact hv
  | tail _ hlast ih => exact hkeep _ _ ih hlast

end AgentView

/-- An invariant of single agents holds behind a step if changes keep it, and if a session that is
stopped in a chat does. -/
theorem view_of_exec {P : AgentView → Prop} (hkeep : ∀ v v', P v → AgentView.Change v v' → P v')
    {r : SessionRegistry} {op : LifecycleOp}
    (hstop : ∀ id d s msg, op = .message id d s msg → AsksToStop d s msg →
      P ⟨r.registry.getAgent id, (r.sessions id).map QqSession.stop⟩)
    (h : ∀ id, P (r.view id)) (id : Bytes) : P ((r.exec op).left.view id) := by
  by_cases hchat : ∃ id d s msg, op = .message id d s msg ∧ AsksToStop d s msg
  · obtain ⟨id', d, s, msg, rfl, hasks⟩ := hchat
    rw [SessionRegistry.view_message hasks]
    split
    · exact hstop id' d s msg rfl hasks
    · exact h id
  · -- any other step is a sequence of changes
    refine AgentView.of_changes hkeep ?_ (h id)
    exact r.changes_exec (fun id' d s msg hop hasks => hchat ⟨id', d, s, msg, hop, hasks⟩) id

/-! ### The status -/

/-- The status tells the truth about the session: an agent that is running has a running session,
and starting an agent whose session was stopped builds and launches it anew. -/
structure TruthfulStatus (r : SessionRegistry) : Prop where
  running : ∀ id inst, r.registry.getAgent id = some inst → inst.status = .running →
    r.running id = true
  restarts : ∀ ends id inst s, r.registry.getAgent id = some inst → r.sessions id = some s →
    s.running = false → r.startAgent ends id = SessionRegistry.relaunch ends r id inst

/-- The command `stop` is not handled for an agent that is running or starting. -/
def StopsInactive (r : SessionRegistry) (op : LifecycleOp) : Prop :=
  ∀ id d s msg, op = .message id d s msg → AsksToStop d s msg →
    ∀ inst, r.registry.getAgent id = some inst → inst.status.isActive = false

theorem stopsInactive_of_ne {r : SessionRegistry} {op : LifecycleOp}
    (h : ∀ id d s msg, op ≠ .message id d s msg) : StopsInactive r op :=
  fun id d s msg hop => absurd hop (h id d s msg)

theorem truthful_of_honest {r : SessionRegistry} (h : ∀ id, (r.view id).Honest) :
    TruthfulStatus r where
  running id inst hget hstatus := by
    obtain ⟨s, hs, hrun⟩ := h id inst hget (by rw [hstatus]; rfl)
    exact (Option.any_eq_true _ _).mpr ⟨s, hs, hrun⟩
  restarts ends id inst s hget hs hidle := by
    -- neither of the two branches that do not relaunch is possible
    have hinactive : inst.status.isActive ≠ true := by
      intro hactive
      obtain ⟨s', hs', hrun⟩ := h id inst hget hactive
      obtain rfl := Option.some.inj (hs.symm.trans hs')
      exact Bool.noConfusion (hidle.symm.trans hrun)
    rw [SessionRegistry.startAgent, hget]
    dsimp only
    split
    · next hstatus => exact absurd (by rw [hstatus]; rfl) hinactive
    · next hstatus => exact absurd (by rw [hstatus]; rfl) hinactive
    · rfl

theorem honest_exec {r : SessionRegistry} {op : LifecycleOp} (h : ∀ id, (r.view id).Honest)
    (hop : StopsInactive r op) (id : Bytes) : ((r.exec op).left.view id).Honest := by
  refine view_of_exec (fun _ _ hv hc => hv.change hc) ?_ h id
  intro id' d s msg heq hasks inst hget hactive
  exact absurd (hactive.symm.trans (hop id' d s msg heq hasks inst hget)) Bool.noConfusion

/-- **The status tells the truth** in every run in which no chat command stops an agent that is
running or starting. -/
theorem status_truthful {tr : List (SessionRegistry × LifecycleOp)} {r : SessionRegistry}
    (hrun : sessionRegistries.Run tr r) (hstops : ∀ x ∈ tr, StopsInactive x.1 x.2) :
    TruthfulStatus r := by
  refine truthful_of_honest ?_
  refine (hrun.restrict hstops).invariant (I := fun r => ∀ id, (r.view id).Honest) ?_ ?_
  · rintro r ⟨configPath, rfl⟩
    exact fun id => nofun
  · rintro r op r' hr ⟨rfl, hop⟩
    exact honest_exec hr hop

/-! ### Destroying sessions -/

/-- No session that the operation destroys is running. -/
def DestroysStopped (r : SessionRegistry) (op : LifecycleOp) : Prop :=
  ∀ s ∈ (r.exec op).destroyed, s.running = false

/-- The agent is in the state `error`, and its session is running: a launch has failed after it had
started the session. -/
def SessionRegistry.FailedRunning (r : SessionRegistry) (id : Bytes) : Prop :=
  ∃ inst, r.registry.getAgent id = some inst ∧ inst.status = .error ∧ r.running id = true

/-- The operation finds no running session under the id it stores something new under: `start_all`
meets no id that is in use, by a running session from before or by an earlier agent of the
configuration, and no agent that has failed and still runs is removed or started. -/
def StopsFirst (r : SessionRegistry) : LifecycleOp → Prop
  | .startAll ends cfg =>
    (∀ ac ∈ cfg.agents, ac.enabled = true → r.running ac.id = false) ∧
      (cfg.agents.filter (·.enabled)).Pairwise fun a b =>
        a.id = b.id → builtSession ends a = none
  | .remove id => ¬ r.FailedRunning id
  | .start _ id => ¬ r.FailedRunning id
  | _ => True

namespace SessionRegistry

variable {r : SessionRegistry} {ends : Launches}

theorem running_eq_false_iff {id : Bytes} :
    r.running id = false ↔ ∀ s ∈ (r.sessions id).toList, s.running = false := by
  rw [running]
  cases r.sessions id with
  | none => simp
  | some s => simp

theorem any_builtSession_eq_false_iff {cfg : AgentConfig} :
    (builtSession ends cfg).any (·.running) = false ↔ builtSession ends cfg = none := by
  rw [builtSession]
  split
  · split
    · simp
    · simp [QqSession.start]
  · simp

/-- The agents that `start_all` meets from some point on. -/
theorem destroysStopped_startFrom (ends : Launches) (l : List AgentConfig) (r : SessionRegistry) :
    (∀ s ∈ (startFrom ends l r).destroyed, s.running = false) ↔
      (∀ ac ∈ l, ac.enabled = true → r.running ac.id = false) ∧
        (l.filter (·.enabled)).Pairwise fun a b => a.id = b.id → builtSession ends a = none := by
  -- induction on the agents; the registry behind the first one has its session under its id
  induction l generalizing r with
  | nil => simp [startFrom]
  | cons ac rest ih =>
    rw [startFrom]
    dsimp only
    by_cases henabled : ac.enabled = true
    · -- the session under the id of `ac` is destroyed, and its own takes the place
      have hnext : ∀ id, (startOne ends r ac).left.running id =
          if id = ac.id then (builtSession ends ac).any (·.running) else r.running id := by
        intro id
        rw [startOne, if_pos henabled, running]
        dsimp only
        split
        · next hid => rw [hid, Function.update_self]
        · next hid => rw [Function.update_of_ne hid, running]
      have hfirst : (startOne ends r ac).destroyed = (r.sessions ac.id).toList := by
        rw [startOne, if_pos henabled]
      rw [List.forall_mem_append, ih, hfirst, ← running_eq_false_iff,
        List.filter_cons_of_pos henabled, List.pairwise_cons, List.forall_mem_cons]
      constructor
      · rintro ⟨hac, hrest, hpairs⟩
        refine ⟨⟨fun _ => hac, fun b hb hbon => ?_⟩, fun b hb hid => ?_, hpairs⟩
        -- from the registry behind `ac` back to the one before it
        · have hb' := hrest b hb hbon
          rw [hnext] at hb'
          split at hb'
          · next hid => rwa [hid]
          · exact hb'
        · obtain ⟨hb, hbon⟩ := List.mem_filter.mp hb
          have hb' := hrest b hb hbon
          rw [hnext, if_pos hid.symm] at hb'
          exact any_builtSession_eq_false_iff.mp hb'
      -- an agent with the id of `ac` meets the session of `ac`, and others what was there
      · rintro ⟨⟨hac, hrest⟩, hfirst, hpairs⟩
        refine ⟨hac henabled, fun b hb hbon => ?_, hpairs⟩
        rw [hnext]
        split
        · next hid =>
          rw [hfirst b (List.mem_filter.mpr ⟨hb, hbon⟩) hid.symm]
          rfl
        · exact hrest b hb hbon
    · have hskip : startOne ends r ac = { left := r } := by
        rw [startOne, if_neg henabled]
      rw [hskip]
      dsimp only
      rw [List.nil_append, ih, List.filter_cons_of_neg henabled, List.forall_mem_cons]
      constructor
      · rintro ⟨hrest, hpairs⟩
        exact ⟨⟨fun hon => absurd hon henabled, hrest⟩, hpairs⟩
      · rintro ⟨⟨-, hrest⟩, hpairs⟩
        exact ⟨hrest, hpairs⟩

/-- A tracked agent that is not active runs only if its launch has failed. -/
theorem running_iff_failedRunning (h : ∀ id, (r.view id).Tracked) {id : Bytes}
    {inst : AgentInstance} (hget : r.registry.getAgent id = some inst)
    (hidle : inst.status.isActive = false) : r.running id = true ↔ r.FailedRunning id := by
  constructor
  · intro hrun
    obtain ⟨s, hs, hrunning⟩ := (Option.any_eq_true _ _).mp hrun
    obtain ⟨inst', hinst, hstatus⟩ := h id s hs hrunning
    obtain rfl := Option.some.inj (hget.symm.trans hinst)
    -- by the invariant its status is active or `error`, and it is idle
    refine ⟨inst, hget, hstatus.resolve_left ?_, hrun⟩
    rw [hidle]
    exact Bool.false_ne_true
  · rintro ⟨-, -, -, hrun⟩
    exact hrun

theorem not_failedRunning_of_active {id : Bytes} {inst : AgentInstance}
    (hget : r.registry.getAgent id = some inst) (hactive : inst.status ≠ .error) :
    ¬ r.FailedRunning id := by
  rintro ⟨inst', hget', herror, -⟩
  obtain rfl := Option.some.inj (hget.symm.trans hget')
  exact hactive herror

theorem not_failedRunning_of_none {id : Bytes} (hget : r.registry.getAgent id = none) :
    ¬ r.FailedRunning id := by
  rintro ⟨inst, hget', -, -⟩
  exact nomatch hget.symm.trans hget'

theorem destroysStopped_remove (h : ∀ id, (r.view id).Tracked) (id : Bytes) :
    DestroysStopped r (.remove id) ↔ ¬ r.FailedRunning id := by
  rw [DestroysStopped]
  show (∀ s ∈ (r.removeAgent id).destroyed, s.running = false) ↔ _
  rw [removeAgent]
  dsimp only
  split
  · next hget => exact ⟨fun _ => not_failedRunning_of_none hget, fun _ => by simp⟩
  · next inst hget =>
    dsimp only
    split
    · next hactive =>
      -- an active agent is stopped first
      have hstopped : ∀ s ∈ (r.stopSession id id).toList, s.running = false := by
        rw [stopSession, Function.update_self]
        cases r.sessions id with
        | none => simp
        | some s => simp [QqSession.stop]
      refine ⟨fun _ => not_failedRunning_of_active hget ?_, fun _ => hstopped⟩
      intro herror
      rw [herror] at hactive
      exact Bool.false_ne_true hactive
    -- an idle agent is removed with its session as it is
    · next hidle =>
      rw [← running_eq_false_iff, ← running_iff_failedRunning h hget (by simpa using hidle),
        Bool.not_eq_true]

theorem destroysStopped_start (h : ∀ id, (r.view id).Tracked) (ends : Launches) (id : Bytes) :
    DestroysStopped r (.start ends id) ↔ ¬ r.FailedRunning id := by
  rw [DestroysStopped]
  show (∀ s ∈ (r.startAgent ends id).destroyed, s.running = false) ↔ _
  rw [startAgent]
  split
  · next hget => exact ⟨fun _ => not_failedRunning_of_none hget, fun _ => by simp⟩
  · next inst hget =>
    split
    · next hstatus =>
      refine ⟨fun _ => not_failedRunning_of_active hget ?_, fun _ => by simp⟩
      rw [hstatus]
      simp
    · next hstatus =>
      refine ⟨fun _ => not_failedRunning_of_active hget ?_, fun _ => by simp⟩
      rw [hstatus]
      simp
    · next hrunning hstarting =>
      have hidle : inst.status.isActive = false := by
        cases hs : inst.status with
        | running => exact absurd hs hrunning
        | starting => exact absurd hs hstarting
        | stopped => rfl
        | stopping => rfl
        | error => rfl
      -- the session is destroyed before the agent is built anew, however that ends
      have hdestroyed : (relaunch ends r id inst).destroyed = (r.sessions id).toList := by
        rw [relaunch]
        split <;> rfl
      rw [hdestroyed, ← running_eq_false_iff, ← running_iff_failedRunning h hget hidle,
        Bool.not_eq_true]

/-- An operation that destroys nothing. -/
theorem destroysStopped_of_nil {op : LifecycleOp} (h : (r.exec op).destroyed = []) :
    DestroysStopped r op := by
  intro s hs
  rw [h] at hs
  exact absurd hs List.not_mem_nil

/-- **One operation**: it destroys no running session exactly if it stops first. -/
theorem destroysStopped_iff (h : ∀ id, (r.view id).Tracked) (op : LifecycleOp) :
    DestroysStopped r op ↔ StopsFirst r op := by
  cases op with
  | startAll ends cfg => exact destroysStopped_startFrom ends cfg.agents r
  | remove id => exact destroysStopped_remove h id
  | start ends id => exact destroysStopped_start h ends id
  -- nothing else destroys a session: `stop_agent` keeps it, and `add_agent` takes a free id
  | stopAll => exact iff_of_true (destroysStopped_of_nil rfl) trivial
  | add ends cfg =>
    refine iff_of_true (destroysStopped_of_nil ?_) trivial
    show (r.addAgent ends cfg).destroyed = []
    rw [addAgent]
    dsimp only
    split <;> rfl
  | stop id =>
    refine iff_of_true (destroysStopped_of_nil ?_) trivial
    show (r.stopAgent id).destroyed = []
    rw [stopAgent]
    dsimp only
    split <;> rfl
  | update id cfg => exact iff_of_true (destroysStopped_of_nil rfl) trivial
  | connected id => exact iff_of_true (destroysStopped_of_nil rfl) trivial
  | message id d s msg => exact iff_of_true (destroysStopped_of_nil rfl) trivial

theorem tracked_exec (h : ∀ id, (r.view id).Tracked) (op : LifecycleOp) (id : Bytes) :
    ((r.exec op).left.view id).Tracked := by
  refine view_of_exec (fun _ _ hv hc => hv.change hc) ?_ h id
  -- a stopped session is not running, whatever the status says
  intro id' d s msg _ _ s' hs hrun
  obtain ⟨s'', -, rfl⟩ := Option.map_eq_some_iff.mp hs
  exact nomatch hrun

theorem tracked_of_run {tr : List (SessionRegistry × LifecycleOp)}
    (hrun : sessionRegistries.Run tr r) : ∀ id, (r.view id).Tracked := by
  refine hrun.invariant (I := fun r => ∀ id, (r.view id).Tracked) ?_ ?_
  · rintro r ⟨configPath, rfl⟩
    exact fun id => nofun
  · rintro r op r' hr rfl
    exact tracked_exec hr op

end SessionRegistry

/-- **No running session is destroyed** in a run exactly if all its operations stop first. -/
theorem destroys_stopped_iff {tr : List (SessionRegistry × LifecycleOp)} {r : SessionRegistry}
    (hrun : sessionRegistries.Run tr r) :
    (∀ x ∈ tr, DestroysStopped x.1 x.2) ↔ ∀ x ∈ tr, StopsFirst x.1 x.2 := by
  refine forall₂_congr fun x hx => SessionRegistry.destroysStopped_iff ?_ x.2
  -- each step is taken in a state that the part of the run before it reaches
  obtain ⟨pre, post, rfl⟩ := List.append_of_mem hx
  exact SessionRegistry.tracked_of_run hrun.upTo

/-! ### A process with one agent -/

/-- The states a list of operations is carried out in. -/
def SessionRegistry.history (r : SessionRegistry) :
    List LifecycleOp → List (SessionRegistry × LifecycleOp)
  | [] => []
  | op :: ops => (r, op) :: (r.exec op).left.history ops

def SessionRegistry.after (r : SessionRegistry) (ops : List LifecycleOp) : SessionRegistry :=
  ops.foldl (fun r op => (r.exec op).left) r

theorem SessionRegistry.forall_history {P : SessionRegistry → LifecycleOp → Prop}
    {ops : List LifecycleOp} (h : ∀ op ∈ ops, ∀ r, P r op) {r : SessionRegistry} :
    ∀ x ∈ r.history ops, P x.1 x.2 := by
  induction ops generalizing r with
  | nil => exact fun x hx => absurd hx List.not_mem_nil
  | cons op ops ih =>
    obtain ⟨hop, hops⟩ := List.forall_mem_cons.mp h
    exact List.forall_mem_cons.mpr ⟨hop r, ih hops⟩

theorem run_history {tr : List (SessionRegistry × LifecycleOp)} {r : SessionRegistry}
    (hrun : sessionRegistries.Run tr r) (ops : List LifecycleOp) :
    sessionRegistries.Run (tr ++ r.history ops) (r.after ops) := by
  induction ops generalizing tr r with
  | nil => rwa [SessionRegistry.history, List.append_nil]
  | cons op ops ih =>
    have hstep : sessionRegistries.Run (tr ++ [(r, op)]) (r.exec op).left := hrun.step rfl
    have hnext := ih hstep
    rwa [List.append_assoc, List.singleton_append] at hnext

/-- The registry of a new process. -/
def newRegistry : SessionRegistry := { registry := ⟨∅, utf8 "bot_config.json"⟩ }

theorem run_newRegistry (ops : List LifecycleOp) :
    sessionRegistries.Run (newRegistry.history ops) (newRegistry.after ops) :=
  run_history (.start ⟨_, rfl⟩) ops

/-- Every agent launches. -/
def allStart : Launches := fun _ => .started

/-- One agent is started, and its session connects. -/
def oneConnected : List LifecycleOp :=
  [.startAll allStart { agents := [{ id := utf8 "a" }], global := {} }, .connected (utf8 "a")]

/-- The administrator of the agent stops it in a chat. -/
def chatStop : LifecycleOp :=
  .message (utf8 "a") { adminIds := [utf8 "admin"] } {}
    { content := utf8 "stop", isPrivate := true, userOpenid := utf8 "admin" }

/-- An agent that is stopped by the registry. -/
theorem status_truthful_stopped :
    TruthfulStatus (newRegistry.after (oneConnected ++ [.stop (utf8 "a")])) := by
  refine status_truthful (run_newRegistry _) (SessionRegistry.forall_history fun op hop r => ?_)
  -- no chat message is among the operations
  refine stopsInactive_of_ne fun id d s msg h => ?_
  subst h
  simp [oneConnected] at hop

/-- An agent that is stopped in a chat: its status is still `running`, so that it is not started
again. -/
theorem chat_stop_unnoticed :
    ∃ tr r, sessionRegistries.Run tr r ∧ ¬ TruthfulStatus r ∧
      (r.startAgent allStart (utf8 "a")).left = r := by
  refine ⟨_, _, run_newRegistry (oneConnected ++ [chatStop]), fun h => ?_, by rfl⟩
  have hrunning := h.running (utf8 "a") { config := { id := utf8 "a" }, status := .running }
    (by rfl) rfl
  exact absurd hrunning (by decide +kernel)

/-- An agent is stopped and started again. -/
def restart : List LifecycleOp :=
  oneConnected ++ [.stop (utf8 "a"), .start allStart (utf8 "a")]

theorem destroys_stopped_restart :
    (newRegistry.history restart).length = 4 ∧
      ∀ x ∈ newRegistry.history restart, DestroysStopped x.1 x.2 := by
  refine ⟨rfl, (destroys_stopped_iff (run_newRegistry restart)).mpr ?_⟩
  simp only [restart, oneConnected, List.cons_append, List.nil_append,
    SessionRegistry.history, List.forall_mem_cons]
  refine ⟨⟨?_, ?_⟩, trivial, trivial, ?_, fun x hx => absurd hx List.not_mem_nil⟩
  · simp [newRegistry, SessionRegistry.running]
  · simp
  · have hget : (newRegistry.after (oneConnected ++ [.stop (utf8 "a")])).registry.getAgent
        (utf8 "a") = some { config := { id := utf8 "a" }, status := .stopped } := by
      rfl
    exact SessionRegistry.not_failedRunning_of_active hget nofun

/-- A configuration with two agents of one id is loaded, and starting it destroys the session of
the first. -/
theorem start_all_destroys_running :
    ∃ cfg, loadBotConfig (.document ⟨.obj [(utf8 "agents", .arr [
        .obj [(utf8 "id", .str (utf8 "a"))], .obj [(utf8 "id", .str (utf8 "a"))]])],
        by decide +kernel⟩) = .ok cfg ∧
      ∃ tr r, sessionRegistries.Run tr r ∧ ∃ x ∈ tr, ¬ DestroysStopped x.1 x.2 := by
  refine ⟨{ agents := [{ id := utf8 "a" }, { id := utf8 "a" }], global := {} }, by rfl, ?_⟩
  refine ⟨_, _, run_newRegistry [.startAll allStart
    { agents := [{ id := utf8 "a" }, { id := utf8 "a" }], global := {} }], _,
    List.mem_singleton_self _, fun h => ?_⟩
  exact absurd (h { running := true } (by decide +kernel)) nofun

end Aestival
