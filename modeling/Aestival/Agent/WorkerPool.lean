import Aestival.Agent.Effects
import Aestival.Library.Runs
import Aestival.Library.Tables

/-!
# The worker pool

`worker_pool` has a slot for each conversation: a queue and a thread that works on it. A call of
`enqueue` takes two steps. It looks up the slot of the conversation, or creates it, under the lock
of the map; then it pushes the message under the lock of the slot. `stop` sets `stopping_`, takes
the lock of the map, marks every slot, joins every worker and clears the map, and gives the lock
back only then. All threads are interleaved at these steps; any number of threads may call `enqueue`
and `stop`. No worker calls `stop` on its own pool, and the processor throws nothing: either would
end the process.

`objects` are all slots that were ever created, in the order of their creation, and `slots` is the
map. A call keeps the address it has found, and pushes to what is there by then. The memory of a
slot that has been removed from the map is free: a new slot may get its address, and a push of a
call that still has the old one goes into the queue of the new slot, whatever its conversation.
Where nothing was created there, the push reaches the removed object, which nobody reads.

Pushes are numbered. `pushed` and `handed` record, for each conversation, its messages that were
pushed and those that were handed to the processor. No code reads them.
-/

namespace Aestival

open Bytes

/-- A message with the number of its push. -/
abbrev Queued := Nat × MessageEvent

/-- Where a thread is in `worker_loop`. -/
inductive WorkerAt where
  /-- It looks at its queue, or waits until there is something to do. -/
  | waiting
  /-- It is in `proc_`. -/
  | processing (m : Queued)
  /-- It has left the loop. -/
  | exited

/-- `slot`, with its address and the conversation its worker was started for. -/
structure Slot where
  address : Nat
  cid : Bytes
  queue : List Queued := []
  stopping : Bool := false
  worker : WorkerAt := .waiting

/-- A call of `enqueue` between its two steps: the message and the slot it has found. -/
structure EnqueueCall where
  message : MessageEvent
  slot : Nat

/-- Where the thread is that has the lock of the map in `stop`. -/
inductive StopAt where
  | marking
  | joining
  deriving DecidableEq, Repr

structure WorkerPool where
  /-- `stopping_` -/
  stopping : Bool := false
  /-- the calls of `stop` that have set `stopping_` and wait for the lock of the map -/
  stops : Nat := 0
  stopAt : Option StopAt := none
  /-- `slots_` -/
  slots : Bytes → Option Nat := fun _ => none
  objects : Nat → Option Slot := fun _ => none
  created : Nat := 0
  /-- the object that was created last at an address -/
  memory : Nat → Option Nat := fun _ => none
  /-- the calls of `enqueue` -/
  calls : Nat → Option EnqueueCall := fun _ => none
  pushes : Nat := 0
  pushed : Bytes → List Queued := fun _ => []
  handed : Bytes → List Queued := fun _ => []

/-- The key of a message, for which an empty one is replaced. -/
def cidOf (key : MessageEvent → Bytes) (message : MessageEvent) : Bytes :=
  if key message = [] then utf8 "global" else key message

namespace WorkerPool

variable (s : WorkerPool)

/-- `enqueue` has found a slot. -/
def found (call : Nat) (message : MessageEvent) (i : Nat) : WorkerPool :=
  { s with calls := Function.update s.calls call (some ⟨message, i⟩) }

/-- No slot of the map is there. -/
def IsFree (address : Nat) : Prop :=
  ∀ cid i slot, s.slots cid = some i → s.objects i = some slot → slot.address ≠ address

/-- `enqueue` has created a slot, and its thread. -/
def create (call : Nat) (message : MessageEvent) (cid : Bytes) (address : Nat) : WorkerPool :=
  { s with
    slots := Function.update s.slots cid (some s.created)
    objects := Function.update s.objects s.created (some { address, cid })
    created := s.created + 1
    memory := Function.update s.memory address (some s.created)
    calls := Function.update s.calls call (some ⟨message, s.created⟩) }

def setObject (i : Nat) (slot : Slot) : WorkerPool :=
  { s with objects := Function.update s.objects i (some slot) }

/-- What is at the address that a call has found. -/
def target (c : EnqueueCall) : Option Nat :=
  (s.objects c.slot).bind fun slot => s.memory slot.address

/-- The second step of `enqueue`, which pushes to the object `i`. -/
def push (call i : Nat) (c : EnqueueCall) (cid : Bytes) (slot : Slot) : WorkerPool :=
  { s with
    objects := Function.update s.objects i
      (some { slot with queue := slot.queue ++ [(s.pushes, c.message)] })
    calls := Function.update s.calls call none
    pushes := s.pushes + 1
    pushed := Function.update s.pushed cid (s.pushed cid ++ [(s.pushes, c.message)]) }

/-- A worker takes a message of the conversation `cid` and hands it to the processor. -/
def take (i : Nat) (slot : Slot) (m : Queued) (rest : List Queued) (cid : Bytes) : WorkerPool :=
  { s with
    objects := Function.update s.objects i
      (some { slot with queue := rest, worker := .processing m })
    handed := Function.update s.handed cid (s.handed cid ++ [m]) }

end WorkerPool

/-- What the threads do. -/
inductive PoolEvent where
  | lookup (call : Nat) (message : MessageEvent)
  | push (call : Nat)
  | take (i : Nat)
  | finish (i : Nat)
  | exit (i : Nat)
  | stopBegin
  | stopLock
  | stopMark (cid : Bytes)
  | stopJoin
  | stopClear

namespace WorkerPool

/-- One step of a thread. -/
inductive Step (key : MessageEvent → Bytes) (s : WorkerPool) : PoolEvent → WorkerPool → Prop
  | found {call i : Nat} {message : MessageEvent} (hcall : s.calls call = none)
    (hlock : s.stopAt = none) (hslot : s.slots (cidOf key message) = some i) :
    Step key s (.lookup call message) (s.found call message i)
  | create {call address : Nat} {message : MessageEvent} (hcall : s.calls call = none)
    (hlock : s.stopAt = none) (hslot : s.slots (cidOf key message) = none)
    (hfree : s.IsFree address) :
    Step key s (.lookup call message) (s.create call message (cidOf key message) address)
  | push {call i : Nat} {c : EnqueueCall} {slot : Slot} (hcall : s.calls call = some c)
    (htarget : s.target c = some i) (hobject : s.objects i = some slot) :
    Step key s (.push call) (s.push call i c (cidOf key c.message) slot)
  | take {i : Nat} {slot : Slot} {m : Queued} {rest : List Queued}
    (hobject : s.objects i = some slot) (hwaiting : slot.worker = .waiting)
    (hqueue : slot.queue = m :: rest) :
    Step key s (.take i) (s.take i slot m rest (cidOf key m.2))
  | finish {i : Nat} {slot : Slot} {m : Queued} (hobject : s.objects i = some slot)
    (hprocessing : slot.worker = .processing m) :
    Step key s (.finish i) (s.setObject i { slot with worker := .waiting })
  | exit {i : Nat} {slot : Slot} (hobject : s.objects i = some slot)
    (hwaiting : slot.worker = .waiting) (hstop : slot.stopping = true ∨ s.stopping = true)
    (hempty : slot.queue = []) :
    Step key s (.exit i) (s.setObject i { slot with worker := .exited })
  | stopBegin : Step key s .stopBegin { s with stopping := true, stops := s.stops + 1 }
  | stopLock (hstops : 0 < s.stops) (hlock : s.stopAt = none) :
    Step key s .stopLock { s with stops := s.stops - 1, stopAt := some .marking }
  | stopMark {cid : Bytes} {i : Nat} {slot : Slot} (hmarking : s.stopAt = some .marking)
    (hslot : s.slots cid = some i) (hobject : s.objects i = some slot) :
    Step key s (.stopMark cid) (s.setObject i { slot with stopping := true })
  /-- Every slot of the map is marked. -/
  | stopJoin (hmarking : s.stopAt = some .marking)
    (hmarked : ∀ cid i slot, s.slots cid = some i → s.objects i = some slot →
      slot.stopping = true) :
    Step key s .stopJoin { s with stopAt := some .joining }
  /-- Every worker has been joined. -/
  | stopClear (hjoining : s.stopAt = some .joining)
    (hexited : ∀ cid i slot, s.slots cid = some i → s.objects i = some slot →
      slot.worker = .exited) :
    Step key s .stopClear { s with slots := fun _ => none, stopAt := none }

end WorkerPool

/-- The pool with a key function, and all threads that use it. -/
def workerPools (key : MessageEvent → Bytes) : TransitionSystem WorkerPool PoolEvent where
  init s := s = {}
  step := WorkerPool.Step key

/-! ### Slots, calls and the map -/

namespace WorkerPool

/-- How the map, the objects and the calls fit together. -/
structure Linked (key : MessageEvent → Bytes) (s : WorkerPool) : Prop where
  /-- The map leads to a slot of the conversation. -/
  slots : ∀ cid i, s.slots cid = some i → ∃ slot, s.objects i = some slot ∧ slot.cid = cid
  /-- A call has found a slot of its conversation. -/
  calls : ∀ call c, s.calls call = some c →
    ∃ slot, s.objects c.slot = some slot ∧ slot.cid = cidOf key c.message
  created : ∀ i slot, s.objects i = some slot → i < s.created
  /-- Every slot of the map is where its address says. -/
  memory : ∀ cid i slot, s.slots cid = some i → s.objects i = some slot →
    s.memory slot.address = some i
  /-- A slot whose worker is at work is in the map. -/
  live : ∀ i slot, s.objects i = some slot → slot.worker ≠ .exited → s.slots slot.cid = some i

theorem linked_init (key : MessageEvent → Bytes) : Linked key {} :=
  ⟨nofun, nofun, nofun, nofun, nofun⟩

section Linked

variable {key : MessageEvent → Bytes} {s : WorkerPool}

/-- Another state of a slot. A worker that has exited stays so. -/
theorem Linked.setObject (h : s.Linked key) {i : Nat} {slot : Slot} (slot' : Slot)
    (hobject : s.objects i = some slot) (hcid : slot'.cid = slot.cid)
    (haddress : slot'.address = slot.address)
    (hlive : slot'.worker ≠ .exited → slot.worker ≠ .exited) :
    (s.setObject i slot').Linked key := by
  -- what is said of the conversation of a slot is as true of its new state
  have hstill : ∀ {j cid}, (∃ x, s.objects j = some x ∧ x.cid = cid) →
      ∃ x, (s.setObject i slot').objects j = some x ∧ x.cid = cid := by
    rintro j cid ⟨x, hx, hxcid⟩
    by_cases hj : j = i
    · subst hj
      obtain rfl := Option.some.inj (hobject.symm.trans hx)
      exact ⟨slot', Function.update_self .., hcid.trans hxcid⟩
    · exact ⟨x, (Function.update_of_ne hj ..).trans hx, hxcid⟩
  refine ⟨fun cid j hj => hstill (h.slots cid j hj), fun call c hc => hstill (h.calls call c hc),
    fun j x hx => ?_, fun cid j x hj hx => ?_, fun j x hx hxlive => ?_⟩
  · rcases update_eq_some_iff.mp hx with ⟨rfl, -⟩ | ⟨-, hx⟩
    · exact h.created j slot hobject
    · exact h.created j x hx
  · rcases update_eq_some_iff.mp hx with ⟨rfl, rfl⟩ | ⟨-, hx⟩
    · rw [haddress]
      exact h.memory cid j slot hj hobject
    · exact h.memory cid j x hj hx
  · rcases update_eq_some_iff.mp hx with ⟨rfl, rfl⟩ | ⟨-, hx⟩
    · rw [hcid]
      exact h.live j slot hobject (hlive hxlive)
    · exact h.live j x hx hxlive

theorem Linked.found (h : s.Linked key) {message : MessageEvent} {i : Nat} (call : Nat)
    (hslot : s.slots (cidOf key message) = some i) : (s.found call message i).Linked key := by
  refine ⟨h.slots, fun call' c hc => ?_, h.created, h.memory, h.live⟩
  rcases update_eq_some_iff.mp hc with ⟨-, rfl⟩ | ⟨-, hc⟩
  · exact h.slots _ _ hslot
  · exact h.calls call' c hc

/-- A slot in the map is of the conversation that leads to it. -/
theorem Linked.cid_of_slots (h : s.Linked key) {cid : Bytes} {i : Nat} {slot : Slot}
    (hslot : s.slots cid = some i) (hobject : s.objects i = some slot) : slot.cid = cid := by
  obtain ⟨slot', hobject', hcid⟩ := h.slots cid i hslot
  obtain rfl := Option.some.inj (hobject.symm.trans hobject')
  exact hcid

/-- So is the slot that a call has found. -/
theorem Linked.cid_of_calls (h : s.Linked key) {call : Nat} {c : EnqueueCall} {slot : Slot}
    (hcall : s.calls call = some c) (hobject : s.objects c.slot = some slot) :
    slot.cid = cidOf key c.message := by
  obtain ⟨slot', hobject', hcid⟩ := h.calls call c hcall
  obtain rfl := Option.some.inj (hobject.symm.trans hobject')
  exact hcid

/-- A new slot is a new object. -/
theorem Linked.ne_created (h : s.Linked key) {i : Nat} {slot : Slot}
    (hobject : s.objects i = some slot) : i ≠ s.created :=
  (h.created i slot hobject).ne

/-- What a call has found in the map is still at its address. -/
theorem Linked.target_of_slots (h : s.Linked key) {c : EnqueueCall} {cid : Bytes}
    (hslot : s.slots cid = some c.slot) : s.target c = some c.slot := by
  obtain ⟨slot, hobject, -⟩ := h.slots cid c.slot hslot
  rw [target, hobject, Option.bind_some]
  exact h.memory cid c.slot slot hslot hobject

theorem Linked.create (h : s.Linked key) {message : MessageEvent} (call : Nat) {address : Nat}
    (hslot : s.slots (cidOf key message) = none) (hfree : s.IsFree address) :
    (s.create call message (cidOf key message) address).Linked key := by
  -- the objects that are there stay what they are
  have hstill : ∀ {j cid}, (∃ x, s.objects j = some x ∧ x.cid = cid) →
      ∃ x, (s.create call message (cidOf key message) address).objects j = some x ∧
        x.cid = cid := by
    rintro j cid ⟨x, hx, hxcid⟩
    exact ⟨x, (Function.update_of_ne (h.ne_created hx) ..).trans hx, hxcid⟩
  have hnew : ∃ x, (s.create call message (cidOf key message) address).objects s.created = some x ∧
      x.cid = cidOf key message :=
    ⟨_, Function.update_self .., rfl⟩
  refine ⟨fun cid j hj => ?_, fun call' c hc => ?_, fun j x hx => ?_, fun cid j x hj hx => ?_,
    fun j x hx hxlive => ?_⟩
  · rcases update_eq_some_iff.mp hj with ⟨rfl, rfl⟩ | ⟨-, hj⟩
    · exact hnew
    · exact hstill (h.slots cid j hj)
  · rcases update_eq_some_iff.mp hc with ⟨-, rfl⟩ | ⟨-, hc⟩
    · exact hnew
    · exact hstill (h.calls call' c hc)
  · rcases update_eq_some_iff.mp hx with ⟨rfl, -⟩ | ⟨-, hx⟩
    · exact Nat.lt_succ_self _
    · exact Nat.lt_succ_of_lt (h.created j x hx)
  · rcases update_eq_some_iff.mp hx with ⟨rfl, rfl⟩ | ⟨hne, hx⟩
    · exact Function.update_self ..
    · rcases update_eq_some_iff.mp hj with ⟨-, rfl⟩ | ⟨-, hj⟩
      · exact absurd rfl hne
      · -- the new slot is at an address where none of the map is
        exact (Function.update_of_ne (hfree cid j x hj hx) ..).trans (h.memory cid j x hj hx)
  · rcases update_eq_some_iff.mp hx with ⟨rfl, rfl⟩ | ⟨-, hx⟩
    · exact Function.update_self ..
    · have hold := h.live j x hx hxlive
      -- the conversation of a slot that is in the map is not the one a slot is created for
      refine (Function.update_of_ne ?_ ..).trans hold
      rintro heq
      rw [heq, hslot] at hold
      exact nomatch hold

/-- The map is cleared when all its workers have exited. -/
theorem Linked.clear (h : s.Linked key)
    (hexited : ∀ cid i slot, s.slots cid = some i → s.objects i = some slot →
      slot.worker = .exited) :
    Linked key { s with slots := fun _ => none, stopAt := none } := by
  refine ⟨nofun, h.calls, h.created, nofun, fun i slot hobject hlive => ?_⟩
  exact absurd (hexited slot.cid i slot (h.live i slot hobject hlive) hobject) hlive

theorem linked_step {e : PoolEvent} {s' : WorkerPool} (h : s.Linked key)
    (hstep : Step key s e s') : s'.Linked key := by
  cases hstep with
  | @found call i message hcall hlock hslot => exact h.found call hslot
  | create hcall hlock hslot hfree => exact h.create _ hslot hfree
  | @push call i c slot hcall htarget hobject =>
    obtain ⟨hslots, hcalls, hcreated, hmemory, hlive⟩ :=
      h.setObject { slot with queue := slot.queue ++ [(s.pushes, c.message)] } hobject rfl rfl id
    refine ⟨hslots, fun call' c' hc' => ?_, hcreated, hmemory, hlive⟩
    -- the call has returned
    exact hcalls call' c' (some_of_erase hc').2
  | @take i slot m rest hobject hwaiting hqueue =>
    have hlive : slot.worker ≠ .exited := by
      rw [hwaiting]
      exact nofun
    obtain ⟨hslots, hcalls, hcreated, hmemory, hlive⟩ := h.setObject
      { slot with queue := rest, worker := .processing m } hobject rfl rfl fun _ => hlive
    exact ⟨hslots, hcalls, hcreated, hmemory, hlive⟩
  | @finish i slot m hobject hprocessing =>
    refine h.setObject _ hobject rfl rfl fun _ => ?_
    rw [hprocessing]
    exact nofun
  | @exit i slot hobject hwaiting hstop hempty =>
    -- this worker has just exited, so nothing is asked of its slot any more
    exact h.setObject _ hobject rfl rfl fun hlive => absurd rfl hlive
  | stopMark hmarking hslot hobject => exact h.setObject _ hobject rfl rfl id
  | stopClear hjoining hexited => exact h.clear hexited
  | stopBegin => exact ⟨h.slots, h.calls, h.created, h.memory, h.live⟩
  | stopLock hstops hlock => exact ⟨h.slots, h.calls, h.created, h.memory, h.live⟩
  | stopJoin hmarking hmarked => exact ⟨h.slots, h.calls, h.created, h.memory, h.live⟩

end Linked

end WorkerPool

end Aestival
