import Aestival.Management.Sessions
import Mathlib.Logic.Relation

/-!
# What the operations do to one agent

An operation of the registry changes the instance and the session under an id in one of five ways
(`AgentView.Change`), or several times in a row (`changes_exec`). The one other thing that happens
is that a controller handles the command `stop`: then the session is stopped, and the instance is
not told (`exec_message`).

Invariants of single agents are proved over `Change`.
-/

namespace Aestival

open Bytes Relation

/-! ### Changes -/

/-- An instance and its session. -/
structure AgentView where
  inst : Option AgentInstance
  session : Option QqSession

/-- One change of an agent. -/
inductive AgentView.Change : AgentView → AgentView → Prop
  -- whatever was there before is replaced, and its session with it
  | built {v : AgentView} (ends : Launches) (inst : AgentInstance)
    (h : inst.status = .starting ∧ buildAgent ends.launch inst.config = none ∨
      inst.status = .error) :
    Change v ⟨some inst, builtSession ends inst.config⟩
  | removed {v : AgentView} : Change v ⟨none, none⟩
  | stopped {inst : AgentInstance} {s : Option QqSession} (h : inst.status.isActive = true) :
    Change ⟨some inst, s⟩ ⟨some { inst with status := .stopped }, s.map QqSession.stop⟩
  | edited {inst : AgentInstance} {s : Option QqSession} (cfg : AgentConfig)
    (h : inst.status.isActive = false) :
    Change ⟨some inst, s⟩ ⟨some { inst with config := cfg }, s⟩
  | connected {inst : AgentInstance} {s : QqSession} (h : s.running = true) :
    Change ⟨some inst, some s⟩ ⟨some { inst with status := .running }, some s⟩

namespace SessionRegistry

def view (r : SessionRegistry) (id : Bytes) : AgentView := ⟨r.registry.getAgent id, r.sessions id⟩

/-- Every agent has changed some number of times, perhaps not at all. -/
def Changes (r r' : SessionRegistry) : Prop :=
  ∀ id, ReflTransGen AgentView.Change (r.view id) (r'.view id)

variable {r r' r'' : SessionRegistry} {ends : Launches}

theorem Changes.refl (r : SessionRegistry) : Changes r r := fun _ => .refl

theorem Changes.trans (h : Changes r r') (h' : Changes r' r'') : Changes r r'' :=
  fun id => (h id).trans (h' id)

/-- Only the agent `id` changes. -/
theorem changes_of_one (id : Bytes) {registry : Registry} {sessions : Bytes → Option QqSession}
    (hother : ∀ id', id' ≠ id → registry.getAgent id' = r.registry.getAgent id' ∧
      sessions id' = r.sessions id')
    (hone : ReflTransGen AgentView.Change (r.view id) ⟨registry.getAgent id, sessions id⟩) :
    Changes r ⟨registry, sessions⟩ := by
  intro id'
  by_cases hid : id' = id
  · rw [hid]
    exact hone
  · obtain ⟨hget, hsession⟩ := hother id' hid
    have hview : SessionRegistry.view ⟨registry, sessions⟩ id' = r.view id' := by
      simp only [view, hget, hsession]
    rw [hview]

/-- An instance is stored together with its session. -/
theorem changes_set {id : Bytes} {inst : AgentInstance} {session : Option QqSession}
    (h : AgentView.Change (r.view id) ⟨some inst, session⟩) :
    Changes r ⟨r.registry.set id inst, Function.update r.sessions id session⟩ := by
  refine changes_of_one id (fun id' hid => ?_) ?_
  · exact ⟨Registry.getAgent_set_of_ne hid, Function.update_of_ne hid _ _⟩
  · rw [Registry.getAgent_set_self, Function.update_self]
    exact .single h

/-- An instance is stored, and the session is left as it is. -/
theorem changes_set_inst {id : Bytes} {inst : AgentInstance}
    (h : AgentView.Change (r.view id) ⟨some inst, r.sessions id⟩) :
    Changes r ⟨r.registry.set id inst, r.sessions⟩ := by
  -- storing the session that is there changes nothing
  have hset := changes_set h
  rwa [Function.update_eq_self] at hset

/-- What building an agent ends with is stored. -/
theorem changes_built {id : Bytes} (inst : AgentInstance)
    (h : inst.status = .starting ∧ buildAgent ends.launch inst.config = none ∨
      inst.status = .error) :
    Changes r ⟨r.registry.set id inst,
      Function.update r.sessions id (builtSession ends inst.config)⟩ :=
  changes_set (.built ends inst h)

/-! ### Operations -/

theorem changes_startOne (ends : Launches) (r : SessionRegistry) (ac : AgentConfig) :
    Changes r (startOne ends r ac).left := by
  rw [startOne]
  split
  -- the instance is stored either way: as starting, or in the state `error`
  · next henabled =>
    dsimp only
    rw [Registry.startOne, if_pos henabled]
    split
    · next hbuild => exact changes_built _ (.inl ⟨rfl, hbuild⟩)
    · exact changes_built _ (.inr rfl)
  · exact .refl r

theorem changes_startFrom (ends : Launches) (l : List AgentConfig) (r : SessionRegistry) :
    Changes r (startFrom ends l r).left := by
  induction l generalizing r with
  | nil => exact .refl r
  | cons ac rest ih => exact (changes_startOne ends r ac).trans (ih _)

theorem changes_addAgent (ends : Launches) (r : SessionRegistry) (cfg : AgentConfig) :
    Changes r (r.addAgent ends cfg).left := by
  rw [addAgent]
  dsimp only
  split
  · exact .refl r
  -- an id that passes the check is free, so nothing is replaced here
  · next hcheck =>
    dsimp only
    rw [Registry.addAgent, hcheck]
    dsimp only
    split
    · next hbuild => exact changes_built _ (.inl ⟨rfl, hbuild⟩)
    · exact changes_built _ (.inr rfl)

theorem changes_removeAgent (r : SessionRegistry) (id : Bytes) :
    Changes r (r.removeAgent id).left := by
  rw [removeAgent]
  dsimp only
  split
  · exact .refl r
  · next inst hget =>
    dsimp only
    rw [Registry.removeAgent, hget]
    refine changes_of_one id (fun id' hid => ⟨AList.lookup_erase_ne hid, ?_⟩) ?_
    -- the sessions of other agents, whether this one had to be stopped or not
    · rw [Function.update_of_ne hid]
      split
      · exact Function.update_of_ne hid _ _
      · rfl
    · have hnone : Registry.getAgent { r.registry with agents := r.registry.agents.erase id } id =
          none := AList.lookup_erase id r.registry.agents
      rw [hnone, Function.update_self]
      exact .single .removed

theorem changes_relaunch (ends : Launches) (r : SessionRegistry) (id : Bytes)
    (inst : AgentInstance) : Changes r (relaunch ends r id inst).left := by
  rw [relaunch]
  split
  · next hbuild =>
    exact changes_built { inst with status := .starting, lastError := [] } (.inl ⟨rfl, hbuild⟩)
  · next what hbuild =>
    exact changes_built { inst with status := .error, lastError := what } (.inr rfl)

theorem changes_startAgent (ends : Launches) (r : SessionRegistry) (id : Bytes) :
    Changes r (r.startAgent ends id).left := by
  rw [startAgent]
  split
  · exact .refl r
  · split
    · exact .refl r
    · exact .refl r
    · exact changes_relaunch ends r id _

theorem changes_stopAgent (r : SessionRegistry) (id : Bytes) :
    Changes r (r.stopAgent id).left := by
  rw [stopAgent]
  dsimp only
  split
  · exact .refl r
  · next inst hget =>
    dsimp only
    rw [Registry.stopAgent, hget]
    dsimp only
    split
    -- only an active agent is stopped
    · next hactive =>
      refine changes_set ?_
      rw [view, hget]
      exact .stopped hactive
    · exact .refl r

theorem changes_stopAll (r : SessionRegistry) : Changes r r.stopAll := by
  rw [stopAll]
  generalize r.registry.agents.keys = ids
  -- `stop_all` passes over the ids that were registered when it began
  induction ids generalizing r with
  | nil => exact .refl r
  | cons id ids ih => exact (changes_stopAgent r id).trans (ih _)

theorem changes_updateAgentConfig (r : SessionRegistry) (id : Bytes) (cfg : AgentConfig) :
    Changes r (r.updateAgentConfig id cfg).left := by
  rw [updateAgentConfig]
  dsimp only
  rw [Registry.updateAgentConfig]
  split
  · exact .refl r
  · next inst hget =>
    split
    · exact .refl r
    · next hactive =>
      refine changes_set_inst ?_
      rw [view, hget]
      exact .edited cfg (by simpa using hactive)

theorem changes_connected (r : SessionRegistry) (id : Bytes) : Changes r (r.connected id) := by
  rw [connected]
  split
  · next hrunning =>
    rw [Registry.connected]
    split
    · exact .refl r
    · next inst hget =>
      -- only a running session calls the handler
      obtain ⟨s, hs, hrun⟩ := (Option.any_eq_true _ _).mp hrunning
      refine changes_set_inst ?_
      rw [view, hget, hs]
      exact .connected hrun
  · exact .refl r

/-- **What a step does to the agents**, unless it is the command `stop` in a chat. -/
theorem changes_exec (r : SessionRegistry) {op : LifecycleOp}
    (h : ∀ id d s msg, op = .message id d s msg → ¬ AsksToStop d s msg) :
    Changes r (r.exec op).left := by
  cases op with
  | startAll ends cfg => exact changes_startFrom ends cfg.agents r
  | stopAll => exact changes_stopAll r
  | add ends cfg => exact changes_addAgent ends r cfg
  | remove id => exact changes_removeAgent r id
  | start ends id => exact changes_startAgent ends r id
  | stop id => exact changes_stopAgent r id
  | update id cfg => exact changes_updateAgentConfig r id cfg
  | connected id => exact changes_connected r id
  | message id d s msg =>
    -- a message that asks nobody to stop
    have hno : ¬ AsksToStop d s msg := h id d s msg rfl
    show Changes r (r.message id d s msg)
    rw [message, if_neg hno]
    exact .refl r

/-- The command `stop` stops the session, and that is all. -/
theorem view_message {id : Bytes} {d : CommandDeps} {s : CommandState} {msg : MessageEvent}
    (h : AsksToStop d s msg) (id' : Bytes) :
    (r.exec (.message id d s msg)).left.view id' =
      if id' = id then ⟨r.registry.getAgent id, (r.sessions id).map QqSession.stop⟩ else
        r.view id' := by
  show (r.message id d s msg).view id' = _
  rw [message, if_pos h]
  split
  · next hid =>
    subst hid
    simp only [view, stopSession, Function.update_self]
  · next hid => simp only [view, stopSession, Function.update_of_ne hid]

end SessionRegistry

end Aestival
