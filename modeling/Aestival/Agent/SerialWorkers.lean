import Aestival.Agent.WorkerPool

/-!
# Workers are serial

The messages of a conversation are handed to the processor in the order in which they were pushed,
each at most once, and one after the other (`Serial`), in every interleaving in which each push goes
to a slot of the map (`workers_serial`). A slot leaves the map only when its worker has exited, and
a new slot of the same conversation begins with an empty queue. The invariant is about the slot that
is in the map: its queue is of its own conversation, and behind the messages that were handed over
it is a part of what was pushed (`InOrder`).

A call that pushes to a slot that has been removed may find a new slot there, of another
conversation. Its message is then handed over by the wrong worker, beside the next message of its
own conversation (`workers_overlap`).
-/

namespace Aestival

open Bytes

namespace WorkerPool

/-- What should hold of the conversations. -/
structure Serial (key : MessageEvent → Bytes) (s : WorkerPool) : Prop where
  /-- Messages are handed over in the order of their pushes. -/
  ordered : ∀ cid, (s.handed cid).Sublist (s.pushed cid)
  /-- No push is handed over twice. -/
  once : ∀ cid, (s.handed cid).Nodup
  /-- Two calls of the processor at one time are for different conversations. -/
  exclusive : ∀ i j slot slot' m m', s.objects i = some slot → s.objects j = some slot' →
    slot.worker = .processing m → slot'.worker = .processing m' →
    cidOf key m.2 = cidOf key m'.2 → i = j

/-- If the event is a push, its slot is in the map. -/
def PushesToMap (s : WorkerPool) (e : PoolEvent) : Prop :=
  ∀ call c, e = .push call → s.calls call = some c → ∃ cid, s.slots cid = some c.slot

/-! ### The numbers of the pushes -/

/-- Pushes are numbered upwards. -/
structure Numbered (s : WorkerPool) : Prop where
  pushed : ∀ cid, (s.pushed cid).Pairwise (·.1 < ·.1)
  below : ∀ cid, ∀ x ∈ s.pushed cid, x.1 < s.pushes
  handed : ∀ cid, ∀ x ∈ s.handed cid, x.1 < s.pushes
  waiting : ∀ i slot, s.objects i = some slot → ∀ x ∈ slot.queue, x.1 < s.pushes

theorem numbered_init : Numbered {} :=
  ⟨fun _ => List.Pairwise.nil, fun _ _ hx => absurd hx List.not_mem_nil,
    fun _ _ hx => absurd hx List.not_mem_nil, nofun⟩

section Steps

variable {key : MessageEvent → Bytes} {s : WorkerPool}

/-- The numbers tell pushes apart. -/
theorem Numbered.nodup_pushed (h : s.Numbered) (cid : Bytes) : (s.pushed cid).Nodup :=
  (h.pushed cid).imp fun hlt heq => absurd hlt (by rw [heq]; exact Nat.lt_irrefl _)

/-- What is in a new list of one conversation is new or was in the old one. -/
theorem mem_update_append {f : Bytes → List Queued} {cid cid' : Bytes} {m x : Queued}
    (hx : x ∈ Function.update f cid (f cid ++ [m]) cid') : x ∈ f cid' ∨ x = m := by
  by_cases hsame : cid' = cid
  · subst hsame
    rw [Function.update_self] at hx
    exact (List.mem_append.mp hx).imp_right List.mem_singleton.mp
  · rw [Function.update_of_ne hsame] at hx
    exact Or.inl hx

/-- No new message waits. -/
theorem Numbered.setObject (h : s.Numbered) {i : Nat} {slot slot' : Slot}
    (hobject : s.objects i = some slot) (hqueue : ∀ x ∈ slot'.queue, x ∈ slot.queue) :
    (s.setObject i slot').Numbered := by
  refine ⟨h.pushed, h.below, h.handed, fun j x hx y hy => ?_⟩
  rcases update_eq_some_iff.mp hx with ⟨rfl, rfl⟩ | ⟨-, hx⟩
  · exact h.waiting j slot hobject y (hqueue y hy)
  · exact h.waiting j x hx y hy

theorem Numbered.push (h : s.Numbered) (call : Nat) {i : Nat} (c : EnqueueCall) (cid : Bytes)
    {slot : Slot} (hobject : s.objects i = some slot) : (s.push call i c cid slot).Numbered := by
  refine ⟨fun cid' => ?_, fun cid' x hx => ?_, fun cid' x hx => ?_, fun j slot' hj x hx => ?_⟩
  · show (Function.update s.pushed _ _ _).Pairwise _
    by_cases hsame : cid' = cid
    · subst hsame
      rw [Function.update_self]
      -- the number of this push is above all that were given out
      refine List.pairwise_append.mpr ⟨h.pushed _, List.pairwise_singleton _ _, ?_⟩
      intro x hx y hy
      obtain rfl := List.mem_singleton.mp hy
      exact h.below _ x hx
    · rw [Function.update_of_ne hsame]
      exact h.pushed cid'
  · rcases mem_update_append hx with hx | rfl
    · exact Nat.lt_succ_of_lt (h.below cid' x hx)
    · exact Nat.lt_succ_self _
  · exact Nat.lt_succ_of_lt (h.handed cid' x hx)
  · rcases update_eq_some_iff.mp hj with ⟨rfl, rfl⟩ | ⟨-, hj⟩
    · rcases List.mem_append.mp hx with hx | hx
      · exact Nat.lt_succ_of_lt (h.waiting j slot hobject x hx)
      · obtain rfl := List.mem_singleton.mp hx
        exact Nat.lt_succ_self _
    · exact Nat.lt_succ_of_lt (h.waiting j slot' hj x hx)

theorem numbered_step {e : PoolEvent} {s' : WorkerPool} (h : s.Numbered)
    (hstep : Step key s e s') : s'.Numbered := by
  cases hstep with
  | create hcall hlock hslot hfree =>
    refine ⟨h.pushed, h.below, h.handed, fun j x hx y hy => ?_⟩
    rcases update_eq_some_iff.mp hx with ⟨-, rfl⟩ | ⟨-, hx⟩
    -- a new slot has no messages
    · exact absurd hy List.not_mem_nil
    · exact h.waiting j x hx y hy
  | push hcall htarget hobject => exact h.push _ _ _ hobject
  | @take i slot m rest hobject hwaiting hqueue =>
    -- what is taken was waiting, and has a number already
    have hfront : ∀ x ∈ m :: rest, x.1 < s.pushes := by
      rw [← hqueue]
      exact h.waiting i slot hobject
    have hset : (s.setObject i { slot with queue := rest, worker := .processing m }).Numbered :=
      h.setObject hobject fun x hx => hqueue ▸ List.mem_cons_of_mem _ hx
    refine ⟨h.pushed, h.below, fun cid x hx => ?_, hset.waiting⟩
    rcases mem_update_append hx with hx | rfl
    · exact h.handed cid x hx
    · exact hfront _ (List.mem_cons_self ..)
  -- the other events move no message
  | finish hobject hprocessing => exact h.setObject hobject fun _ hx => hx
  | exit hobject hwaiting hstop hempty => exact h.setObject hobject fun _ hx => hx
  | stopMark hmarking hslot hobject => exact h.setObject hobject fun _ hx => hx
  | stopClear hjoining hexited => exact ⟨h.pushed, h.below, h.handed, h.waiting⟩
  | found hcall hlock hslot => exact ⟨h.pushed, h.below, h.handed, h.waiting⟩
  | stopBegin => exact ⟨h.pushed, h.below, h.handed, h.waiting⟩
  | stopLock hstops hlock => exact ⟨h.pushed, h.below, h.handed, h.waiting⟩
  | stopJoin hmarking hmarked => exact ⟨h.pushed, h.below, h.handed, h.waiting⟩

/-! ### The order of the conversations -/

/-- The invariant. -/
structure InOrder (key : MessageEvent → Bytes) (s : WorkerPool) : Prop where
  /-- What was handed over, and behind it what waits. -/
  waiting : ∀ cid i slot, s.slots cid = some i → s.objects i = some slot →
    (s.handed cid ++ slot.queue).Sublist (s.pushed cid)
  handed : ∀ cid, (s.handed cid).Sublist (s.pushed cid)
  /-- A queue is of the conversation of its slot. -/
  own : ∀ cid i slot, s.slots cid = some i → s.objects i = some slot →
    ∀ x ∈ slot.queue, cidOf key x.2 = cid
  /-- So is the message that a worker processes. -/
  processing : ∀ i slot m, s.objects i = some slot → slot.worker = .processing m →
    cidOf key m.2 = slot.cid

theorem inOrder_init (key : MessageEvent → Bytes) : InOrder key {} :=
  ⟨nofun, fun _ => List.Sublist.refl _, nofun, nofun⟩

/-- The queue of the slot stays as it is, and no message is taken. -/
theorem InOrder.setObject (h : s.InOrder key) {i : Nat} {slot slot' : Slot}
    (hobject : s.objects i = some slot) (hcid : slot'.cid = slot.cid)
    (hqueue : slot'.queue = slot.queue)
    (hworker : ∀ m, slot'.worker = .processing m → slot.worker = .processing m) :
    (s.setObject i slot').InOrder key := by
  -- the slot is of the same conversation and has the same queue
  refine ⟨fun cid j x hj hx => ?_, h.handed, fun cid j x hj hx => ?_, fun j x m hx hm => ?_⟩
  · rcases update_eq_some_iff.mp hx with ⟨rfl, rfl⟩ | ⟨-, hx⟩
    · rw [hqueue]
      exact h.waiting cid j slot hj hobject
    · exact h.waiting cid j x hj hx
  · rcases update_eq_some_iff.mp hx with ⟨rfl, rfl⟩ | ⟨-, hx⟩
    · rw [hqueue]
      exact h.own cid j slot hj hobject
    · exact h.own cid j x hj hx
  · rcases update_eq_some_iff.mp hx with ⟨rfl, rfl⟩ | ⟨-, hx⟩
    · rw [hcid]
      exact h.processing j slot m hobject (hworker m hm)
    · exact h.processing j x m hx hm

theorem InOrder.create (h : s.InOrder key) (call : Nat) (message : MessageEvent) (cid : Bytes)
    (address : Nat) : (s.create call message cid address).InOrder key := by
  refine ⟨fun cid' j x hj hx => ?_, h.handed, fun cid' j x hj hx => ?_, fun j x m hx hm => ?_⟩
  · rcases update_eq_some_iff.mp hx with ⟨-, rfl⟩ | ⟨hne, hx⟩
    · -- nothing waits in a new slot
      show (s.handed cid' ++ []).Sublist (s.pushed cid')
      rw [List.append_nil]
      exact h.handed cid'
    · rcases update_eq_some_iff.mp hj with ⟨-, rfl⟩ | ⟨-, hj⟩
      · exact absurd rfl hne
      · exact h.waiting cid' j x hj hx
  · rcases update_eq_some_iff.mp hx with ⟨-, rfl⟩ | ⟨hne, hx⟩
    · exact fun _ hy => absurd hy List.not_mem_nil
    · rcases update_eq_some_iff.mp hj with ⟨-, rfl⟩ | ⟨-, hj⟩
      · exact absurd rfl hne
      · exact h.own cid' j x hj hx
  · rcases update_eq_some_iff.mp hx with ⟨-, rfl⟩ | ⟨-, hx⟩
    · exact nomatch hm
    · exact h.processing j x m hx hm

/-- A push to the slot that the call has found, which is the one of its conversation in the map. -/
theorem InOrder.push (h : s.InOrder key) (hlinked : s.Linked key) (call : Nat) {i : Nat}
    {c : EnqueueCall} {slot : Slot} (hcid : slot.cid = cidOf key c.message)
    (hobject : s.objects i = some slot) :
    (s.push call i c (cidOf key c.message) slot).InOrder key := by
  have hgrows := sublist_update_append s.pushed (cidOf key c.message)
  refine ⟨fun cid j x hj hx => ?_, fun cid => (h.handed cid).trans (hgrows cid _),
    fun cid j x hj hx y hy => ?_, fun j x m hx hm => ?_⟩
  · rcases update_eq_some_iff.mp hx with ⟨rfl, rfl⟩ | ⟨-, hx⟩
    · -- the push reaches the slot of the map, so it is one of this conversation
      obtain rfl : cidOf key c.message = cid := hcid.symm.trans (hlinked.cid_of_slots hj hobject)
      show (s.handed _ ++ (slot.queue ++ _)).Sublist (Function.update s.pushed _ _ _)
      rw [Function.update_self, ← List.append_assoc]
      exact (h.waiting _ j slot hj hobject).append_right _
    · exact (h.waiting cid j x hj hx).trans (hgrows cid _)
  · rcases update_eq_some_iff.mp hx with ⟨rfl, rfl⟩ | ⟨-, hx⟩
    · rcases List.mem_append.mp hy with hy | hy
      · exact h.own cid j slot hj hobject y hy
      · obtain rfl := List.mem_singleton.mp hy
        exact hcid.symm.trans (hlinked.cid_of_slots hj hobject)
    · exact h.own cid j x hj hx y hy
  · rcases update_eq_some_iff.mp hx with ⟨rfl, rfl⟩ | ⟨-, hx⟩
    · exact h.processing j slot m hobject hm
    · exact h.processing j x m hx hm

theorem InOrder.take (h : s.InOrder key) (hlinked : s.Linked key) {i : Nat} {slot : Slot}
    {m : Queued} {rest : List Queued} (hobject : s.objects i = some slot)
    (hwaiting : slot.worker = .waiting) (hqueue : slot.queue = m :: rest) :
    (s.take i slot m rest (cidOf key m.2)).InOrder key := by
  -- a worker that takes a message is at work, so its slot is the one in the map
  have hmap : s.slots slot.cid = some i := by
    refine hlinked.live i slot hobject ?_
    rw [hwaiting]
    exact nofun
  have hown : ∀ x ∈ m :: rest, cidOf key x.2 = slot.cid := by
    rw [← hqueue]
    exact h.own slot.cid i slot hmap hobject
  have hcid : cidOf key m.2 = slot.cid := hown m (List.mem_cons_self ..)
  have hnext : (s.handed slot.cid ++ m :: rest).Sublist (s.pushed slot.cid) := by
    rw [← hqueue]
    exact h.waiting slot.cid i slot hmap hobject
  -- the message moves from the front of the queue to the end of what was handed over
  have hsplit : s.handed slot.cid ++ m :: rest = s.handed slot.cid ++ [m] ++ rest := by
    rw [List.append_assoc, List.singleton_append]
  rw [hsplit] at hnext
  rw [hcid]
  refine ⟨fun cid j x hj hx => ?_, fun cid => ?_, fun cid j x hj hx y hy => ?_,
    fun j x m' hx hm => ?_⟩
  · show (Function.update s.handed _ _ cid ++ x.queue).Sublist _
    by_cases hsame : cid = slot.cid
    · subst hsame
      obtain rfl : i = j := Option.some.inj (hmap.symm.trans hj)
      rcases update_eq_some_iff.mp hx with ⟨-, rfl⟩ | ⟨hne, -⟩
      · rw [Function.update_self]
        exact hnext
      · exact absurd rfl hne
    · rw [Function.update_of_ne hsame]
      rcases update_eq_some_iff.mp hx with ⟨rfl, -⟩ | ⟨-, hx⟩
      · -- a slot is in the map under its own conversation only
        exact absurd (hlinked.cid_of_slots hj hobject).symm hsame
      · exact h.waiting cid j x hj hx
  · show (Function.update s.handed _ _ cid).Sublist _
    by_cases hsame : cid = slot.cid
    · subst hsame
      rw [Function.update_self]
      exact (List.sublist_append_left _ _).trans hnext
    · rw [Function.update_of_ne hsame]
      exact h.handed cid
  · rcases update_eq_some_iff.mp hx with ⟨rfl, rfl⟩ | ⟨-, hx⟩
    · exact (hown y (List.mem_cons_of_mem _ hy)).trans (hlinked.cid_of_slots hj hobject)
    · exact h.own cid j x hj hx y hy
  · rcases update_eq_some_iff.mp hx with ⟨rfl, rfl⟩ | ⟨-, hx⟩
    · obtain rfl := WorkerAt.processing.inj hm
      exact hcid
    · exact h.processing j x m' hx hm

/-- A push to the map reaches the slot that the call has found. -/
theorem Linked.push_to_map (hlinked : s.Linked key) {call i : Nat} {c : EnqueueCall}
    (hmap : s.PushesToMap (.push call)) (hcall : s.calls call = some c)
    (htarget : s.target c = some i) : i = c.slot := by
  obtain ⟨cid, hslot⟩ := hmap call c rfl hcall
  exact Option.some.inj (htarget.symm.trans (hlinked.target_of_slots hslot))

theorem inOrder_step {e : PoolEvent} {s' : WorkerPool} (hlinked : s.Linked key)
    (h : s.InOrder key) (hmap : s.PushesToMap e) (hstep : Step key s e s') : s'.InOrder key := by
  cases hstep with
  | create hcall hlock hslot hfree => exact h.create _ _ _ _
  | push hcall htarget hobject =>
    obtain rfl := hlinked.push_to_map hmap hcall htarget
    exact h.push hlinked _ (hlinked.cid_of_calls hcall hobject) hobject
  | take hobject hwaiting hqueue => exact h.take hlinked hobject hwaiting hqueue
  | finish hobject hprocessing => exact h.setObject hobject rfl rfl nofun
  | exit hobject hwaiting hstop hempty => exact h.setObject hobject rfl rfl nofun
  | stopMark hmarking hslot hobject => exact h.setObject hobject rfl rfl fun _ hm => hm
  -- what still waits in the removed slots is given up
  | stopClear hjoining hexited => exact ⟨nofun, h.handed, nofun, h.processing⟩
  | found hcall hlock hslot => exact ⟨h.waiting, h.handed, h.own, h.processing⟩
  | stopBegin => exact ⟨h.waiting, h.handed, h.own, h.processing⟩
  | stopLock hstops hlock => exact ⟨h.waiting, h.handed, h.own, h.processing⟩
  | stopJoin hmarking hmarked => exact ⟨h.waiting, h.handed, h.own, h.processing⟩

/-- At most one slot of a conversation has a worker that has not exited: the one in the map. -/
theorem Linked.serial (hlinked : s.Linked key) (hnumbered : s.Numbered) (h : s.InOrder key) :
    s.Serial key where
  ordered := h.handed
  once cid := (hnumbered.nodup_pushed cid).sublist (h.handed cid)
  exclusive i j slot slot' m m' hi hj hm hm' hcid := by
    -- both slots are in the map, and under one conversation
    have hmap : s.slots slot.cid = some i := hlinked.live i slot hi (by rw [hm]; exact nofun)
    have hmap' : s.slots slot'.cid = some j := hlinked.live j slot' hj (by rw [hm']; exact nofun)
    rw [h.processing i slot m hi hm, h.processing j slot' m' hj hm'] at hcid
    rw [hcid, hmap'] at hmap
    exact (Option.some.inj hmap).symm

end Steps

/-- What every run keeps. -/
theorem linked_numbered {key : MessageEvent → Bytes} {tr : List (WorkerPool × PoolEvent)}
    {s : WorkerPool} (hrun : (workerPools key).Run tr s) : s.Linked key ∧ s.Numbered := by
  refine hrun.invariant (I := fun s => s.Linked key ∧ s.Numbered) ?_ ?_
  · rintro s rfl
    exact ⟨linked_init key, numbered_init⟩
  · rintro s e s' ⟨hlinked, hnumbered⟩ hstep
    exact ⟨linked_step hlinked hstep, numbered_step hnumbered hstep⟩

/-- What a run keeps in which every push goes to the map. -/
theorem inOrder_of_run {key : MessageEvent → Bytes} {tr : List (WorkerPool × PoolEvent)}
    {s : WorkerPool} (hrun : (workerPools key).Run tr s) (hmap : ∀ x ∈ tr, x.1.PushesToMap x.2) :
    s.InOrder key := by
  have hinv : s.Linked key ∧ s.InOrder key := by
    refine (hrun.restrict hmap).invariant (I := fun s => s.Linked key ∧ s.InOrder key) ?_ ?_
    · rintro s rfl
      exact ⟨linked_init key, inOrder_init key⟩
    · rintro s e s' ⟨hlinked, horder⟩ ⟨hstep, hpush⟩
      exact ⟨linked_step hlinked hstep, inOrder_step hlinked horder hpush hstep⟩
  exact hinv.2

end WorkerPool

/-- **The workers are serial** in every run whose pushes all go to slots of the map. -/
theorem workers_serial (key : MessageEvent → Bytes) {tr : List (WorkerPool × PoolEvent)}
    {s : WorkerPool} (hrun : (workerPools key).Run tr s)
    (hmap : ∀ x ∈ tr, x.1.PushesToMap x.2) : s.Serial key :=
  have ⟨hlinked, hnumbered⟩ := WorkerPool.linked_numbered hrun
  hlinked.serial hnumbered (WorkerPool.inOrder_of_run hrun hmap)

/-! ### A conversation of two messages -/

/-- A private message of a user. -/
def hi : MessageEvent := { content := utf8 "hi", isPrivate := true, userOpenid := utf8 "u" }

/-- The key of `hi`, and of every other message. -/
def userKey (_ : MessageEvent) : Bytes := utf8 "u"

/-- No push leads out of the map when each of them is one of these. -/
theorem pushesToMap_concat {tr : List (WorkerPool × PoolEvent)} {s : WorkerPool} {e : PoolEvent}
    (h : ∀ x ∈ tr, x.1.PushesToMap x.2) (hlast : s.PushesToMap e) :
    ∀ x ∈ tr ++ [(s, e)], x.1.PushesToMap x.2 := by
  intro x hx
  rcases List.mem_append.mp hx with hx | hx
  · exact h x hx
  · obtain rfl := List.mem_singleton.mp hx
    exact hlast

/-- Two messages are pushed before the first is taken. -/
theorem run_two_messages :
    ∃ tr s, (workerPools userKey).Run tr s ∧ (∀ x ∈ tr, x.1.PushesToMap x.2) ∧
      s.handed (utf8 "u") = [(0, hi), (1, hi)] := by
  have start : (workerPools userKey).Run [] {} := .start rfl
  -- two calls for one user: the first makes the slot, the second finds it
  have first := start.step (@WorkerPool.Step.create userKey _ 0 0 hi rfl rfl rfl nofun)
  have pushed := first.step (@WorkerPool.Step.push userKey _ 0 0 _ _ rfl rfl rfl)
  have second := pushed.step (@WorkerPool.Step.found userKey _ 1 _ hi rfl rfl rfl)
  have both := second.step (@WorkerPool.Step.push userKey _ 1 0 _ _ rfl rfl rfl)
  -- the worker takes one message after the other
  have taken := both.step (@WorkerPool.Step.take userKey _ 0 _ _ _ rfl rfl rfl)
  have back := taken.step (@WorkerPool.Step.finish userKey _ 0 _ _ rfl rfl)
  have again := back.step (@WorkerPool.Step.take userKey _ 0 _ _ _ rfl rfl rfl)
  refine ⟨_, _, again, ?_, rfl⟩
  -- both messages reach the slot of the map
  refine pushesToMap_concat (pushesToMap_concat (pushesToMap_concat (pushesToMap_concat
    (pushesToMap_concat (pushesToMap_concat (pushesToMap_concat ?_ ?_) ?_) ?_) ?_) ?_) ?_) ?_
  · exact fun _ hx => absurd hx List.not_mem_nil
  · exact nofun
  · rintro _ _ ⟨⟩ ⟨⟩
    exact ⟨utf8 "u", rfl⟩
  · exact nofun
  · rintro _ _ ⟨⟩ ⟨⟩
    exact ⟨utf8 "u", rfl⟩
  · exact nofun
  · exact nofun
  · exact nofun

theorem workers_serial_two_messages :
    ∃ s : WorkerPool, s.handed (utf8 "u") = [(0, hi), (1, hi)] ∧ s.Serial userKey :=
  have ⟨_, s, hrun, hmap, hhanded⟩ := run_two_messages
  ⟨s, hhanded, workers_serial userKey hrun hmap⟩

/-! ### A push to memory that was freed -/

/-- The key of a private message. -/
def openidKey (message : MessageEvent) : Bytes := message.userOpenid

/-- `hi`, of another user. -/
def hiOther : MessageEvent := { hi with userOpenid := utf8 "v" }

/-- A pool with one slot. -/
theorem eq_of_one_slot {i j : Nat} {cid cid' : Bytes} {f : Nat → Option Slot} {a slot : Slot}
    (hslot : Function.update (fun _ => none) cid (some i) cid' = some j)
    (hobject : Function.update f i (some a) j = some slot) : slot = a := by
  rcases update_eq_some_iff.mp hslot with ⟨-, rfl⟩ | ⟨-, hnone⟩
  · rw [Function.update_self] at hobject
    exact (Option.some.inj hobject).symm
  · exact nomatch hnone

/-- A call of the user `u` has created a slot, and `stop` removes it. The slot of `v` is created at
its address, and the call pushes into the queue of `v`. Then two messages of `u` are processed at
the same time. -/
theorem workers_overlap : ∃ tr s, (workerPools openidKey).Run tr s ∧ ¬ s.Serial openidKey := by
  have start : (workerPools openidKey).Run [] {} := .start rfl
  have found := start.step (@WorkerPool.Step.create openidKey _ 0 0 hi rfl rfl rfl nofun)
  have begun := found.step .stopBegin
  have locked := begun.step (.stopLock Nat.one_pos rfl)
  have marked := locked.step (@WorkerPool.Step.stopMark openidKey _ (utf8 "u") _ _ rfl rfl rfl)
  have joining := marked.step (.stopJoin rfl fun cid i slot hslot hobject => by
    rw [eq_of_one_slot hslot hobject])
  have exited := joining.step (@WorkerPool.Step.exit openidKey _ 0 _ rfl rfl (Or.inl rfl) rfl)
  have cleared := exited.step (.stopClear rfl fun cid i slot hslot hobject => by
    rw [eq_of_one_slot hslot hobject])
  -- the slot of `v` is at the same address, and its worker is busy
  have other := cleared.step (@WorkerPool.Step.create openidKey _ 1 0 hiOther rfl rfl rfl nofun)
  have pushed := other.step (@WorkerPool.Step.push openidKey _ 1 1 _ _ rfl rfl rfl)
  have busy := pushed.step (@WorkerPool.Step.take openidKey _ 1 _ _ _ rfl rfl rfl)
  have astray := busy.step (@WorkerPool.Step.push openidKey _ 0 1 _ _ rfl rfl rfl)
  -- the next message of `u` gets a slot of its own
  have next := astray.step (@WorkerPool.Step.create openidKey _ 2 1 hi rfl rfl rfl
    fun cid i slot hslot hobject => by rw [eq_of_one_slot hslot hobject]; exact nofun)
  have queued := next.step (@WorkerPool.Step.push openidKey _ 2 2 _ _ rfl rfl rfl)
  have handed := queued.step (@WorkerPool.Step.take openidKey _ 2 _ _ _ rfl rfl rfl)
  have back := handed.step (@WorkerPool.Step.finish openidKey _ 1 _ _ rfl rfl)
  have both := back.step (@WorkerPool.Step.take openidKey _ 1 _ _ _ rfl rfl rfl)
  refine ⟨_, _, both, fun h => ?_⟩
  exact absurd (h.exclusive 1 2 _ _ _ _ rfl rfl rfl rfl rfl) (by decide)

end Aestival
