import Aestival.Agent.SerialWorkers

/-!
# Accepted messages

A message that was pushed should have been handed to the processor, or wait in a slot of the map
whose worker is at work; and a push should go to a slot of the map (`LosesNothing`).

Between the two steps of `enqueue` no lock is held. A `stop` may come there: the worker exits
because its queue is empty, the slot is removed, and the push goes to its address, where by then
nothing may be or another slot. `enqueue` does not look at `stopping_` either: behind a `stop` it
creates slots whose workers exit as soon as their queue is empty, also before the first push.

`losesNothing_iff` is what holds of every run: nothing is lost if and only if each push meets a
worker that has not exited. Before a `stop` begins, each push does (`meetsWorker_of_not_stopping`).
-/

namespace Aestival

open Bytes

namespace WorkerPool

/-! ### What should hold -/

/-- Each message that was pushed was handed over, or waits for a worker. -/
def NothingLost (s : WorkerPool) : Prop :=
  ∀ cid, ∀ x ∈ s.pushed cid, x ∈ s.handed cid ∨
    ∃ i slot, s.slots cid = some i ∧ s.objects i = some slot ∧ x ∈ slot.queue ∧
      slot.worker ≠ .exited

end WorkerPool

/-- In every state of the run no message is lost, and every push goes to a slot of the map. -/
structure LosesNothing (tr : List (WorkerPool × PoolEvent)) (s : WorkerPool) : Prop where
  before : ∀ x ∈ tr, x.1.NothingLost
  behind : s.NothingLost
  pushes : ∀ x ∈ tr, x.1.PushesToMap x.2

namespace WorkerPool

/-- If the event is a push, the worker of the slot that was looked up has not exited. -/
def MeetsWorker (s : WorkerPool) (e : PoolEvent) : Prop :=
  ∀ call c slot, e = .push call → s.calls call = some c → s.objects c.slot = some slot →
    slot.worker ≠ .exited

/-! ### Pushes that meet a worker -/

section Steps

variable {key : MessageEvent → Bytes} {s : WorkerPool}

theorem nothingLost_init : NothingLost {} := fun _ _ hx => absurd hx List.not_mem_nil

/-- A worker exits only when nothing waits for it. -/
theorem NothingLost.setObject (h : s.NothingLost) {i : Nat} {slot slot' : Slot}
    (hobject : s.objects i = some slot) (hqueue : slot'.queue = slot.queue)
    (hexit : slot'.worker = .exited → slot.worker = .exited ∨ slot.queue = []) :
    (s.setObject i slot').NothingLost := by
  intro cid x hx
  rcases h cid x hx with hhanded | ⟨j, slot₁, hj, hobject₁, hwaits, hlive⟩
  · exact Or.inl hhanded
  by_cases hij : j = i
  · subst hij
    obtain rfl := Option.some.inj (hobject.symm.trans hobject₁)
    -- something waits here, so the worker does not exit in this step
    refine Or.inr ⟨j, slot', hj, Function.update_self .., hqueue ▸ hwaits, fun hexited => ?_⟩
    rcases hexit hexited with hexited | hnil
    · exact hlive hexited
    · rw [hnil] at hwaits
      exact absurd hwaits List.not_mem_nil
  · exact Or.inr ⟨j, slot₁, hj, (Function.update_of_ne hij ..).trans hobject₁, hwaits, hlive⟩

theorem NothingLost.create (h : s.NothingLost) (hlinked : s.Linked key) (call : Nat)
    (message : MessageEvent) {cid : Bytes} (address : Nat) (hslot : s.slots cid = none) :
    (s.create call message cid address).NothingLost := by
  intro cid' x hx
  rcases h cid' x hx with hhanded | ⟨j, slot, hj, hobject, hwaits, hlive⟩
  · exact Or.inl hhanded
  have hne : cid' ≠ cid := by
    rintro rfl
    exact nomatch hslot.symm.trans hj
  exact Or.inr ⟨j, slot, (Function.update_of_ne hne ..).trans hj,
    (Function.update_of_ne (hlinked.ne_created hobject) ..).trans hobject, hwaits, hlive⟩

theorem NothingLost.push (h : s.NothingLost) (hlinked : s.Linked key) {call : Nat}
    {c : EnqueueCall} {slot : Slot} (hcall : s.calls call = some c)
    (hobject : s.objects c.slot = some slot) (hlive : slot.worker ≠ .exited) :
    (s.push call c.slot c (cidOf key c.message) slot).NothingLost := by
  have hmap : s.slots (cidOf key c.message) = some c.slot := by
    rw [← hlinked.cid_of_calls hcall hobject]
    exact hlinked.live c.slot slot hobject hlive
  -- what waited before the push still waits
  have hold : ∀ cid, ∀ x ∈ s.pushed cid, x ∈ s.handed cid ∨
      ∃ i slot', s.slots cid = some i ∧
        (s.push call c.slot c (cidOf key c.message) slot).objects i = some slot' ∧ x ∈ slot'.queue ∧
        slot'.worker ≠ .exited := by
    intro cid x hx
    rcases h cid x hx with hhanded | ⟨j, slot₁, hj, hobject₁, hwaits, hlive₁⟩
    · exact Or.inl hhanded
    by_cases hij : j = c.slot
    · subst hij
      obtain rfl := Option.some.inj (hobject.symm.trans hobject₁)
      exact Or.inr ⟨c.slot, _, hj, Function.update_self .., List.mem_append_left _ hwaits, hlive⟩
    · exact Or.inr ⟨j, slot₁, hj, (Function.update_of_ne hij ..).trans hobject₁, hwaits, hlive₁⟩
  intro cid x hx
  have hx : x ∈ Function.update s.pushed _ _ cid := hx
  by_cases hsame : cid = cidOf key c.message
  · subst hsame
    rw [Function.update_self] at hx
    rcases List.mem_append.mp hx with hx | hx
    · exact hold _ x hx
    · -- the message that is pushed now
      exact Or.inr ⟨c.slot, _, hmap, Function.update_self .., List.mem_append_right _ hx, hlive⟩
  · rw [Function.update_of_ne hsame] at hx
    exact hold cid x hx

theorem NothingLost.take (h : s.NothingLost) (horder : s.InOrder key) {i : Nat} {slot : Slot}
    {m : Queued} {rest : List Queued} (hobject : s.objects i = some slot)
    (hqueue : slot.queue = m :: rest) :
    (s.take i slot m rest (cidOf key m.2)).NothingLost := by
  have hgrows := sublist_update_append s.handed (cidOf key m.2)
  intro cid x hx
  rcases h cid x hx with hhanded | ⟨j, slot₁, hj, hobject₁, hwaits, hlive⟩
  · exact Or.inl ((hgrows cid [m]).subset hhanded)
  by_cases hij : j = i
  · subst hij
    obtain rfl := Option.some.inj (hobject.symm.trans hobject₁)
    have hown := horder.own cid j slot hj hobject x hwaits
    rw [hqueue] at hwaits
    rcases List.mem_cons.mp hwaits with rfl | hwaits
    -- the first of the queue is handed over, the rest goes on waiting
    · refine Or.inl ?_
      show x ∈ Function.update s.handed _ _ _
      rw [hown, Function.update_self]
      exact List.mem_append_right _ (List.mem_singleton_self x)
    · exact Or.inr ⟨j, _, hj, Function.update_self .., hwaits, nofun⟩
  · exact Or.inr ⟨j, slot₁, hj, (Function.update_of_ne hij ..).trans hobject₁, hwaits, hlive⟩

/-- When the map is cleared, nothing waits in it. -/
theorem NothingLost.clear (h : s.NothingLost)
    (hexited : ∀ cid i slot, s.slots cid = some i → s.objects i = some slot →
      slot.worker = .exited) :
    NothingLost { s with slots := fun _ => none, stopAt := none } := by
  intro cid x hx
  -- what waited had a worker that has not exited, but all of them have been joined
  rcases h cid x hx with hhanded | ⟨j, slot, hj, hobject, -, hlive⟩
  · exact Or.inl hhanded
  · exact absurd (hexited cid j slot hj hobject) hlive

/-- A push that meets a worker goes to the map. -/
theorem pushesToMap_of_meetsWorker {e : PoolEvent} (hlinked : s.Linked key)
    (h : s.MeetsWorker e) : s.PushesToMap e := by
  intro call c he hcall
  obtain ⟨slot, hobject, -⟩ := hlinked.calls call c hcall
  exact ⟨slot.cid, hlinked.live c.slot slot hobject (h call c slot he hcall hobject)⟩

/-- A step loses nothing, unless it is a push that meets no worker. -/
theorem nothingLost_step {e : PoolEvent} {s' : WorkerPool} (hlinked : s.Linked key)
    (horder : s.InOrder key) (h : s.NothingLost) (hmeets : s.MeetsWorker e)
    (hstep : Step key s e s') : s'.NothingLost := by
  cases hstep with
  | create hcall hlock hslot hfree => exact h.create hlinked _ _ _ hslot
  | push hcall htarget hobject =>
    obtain rfl := hlinked.push_to_map (pushesToMap_of_meetsWorker hlinked hmeets) hcall htarget
    exact h.push hlinked hcall hobject (hmeets _ _ _ rfl hcall hobject)
  | take hobject hwaiting hqueue => exact h.take horder hobject hqueue
  | finish hobject hprocessing => exact h.setObject hobject rfl nofun
  | exit hobject hwaiting hstop hempty => exact h.setObject hobject rfl fun _ => Or.inr hempty
  | stopMark hmarking hslot hobject => exact h.setObject hobject rfl Or.inl
  | stopClear hjoining hexited => exact h.clear hexited
  | found hcall hlock hslot => exact h
  | stopBegin => exact h
  | stopLock hstops hlock => exact h
  | stopJoin hmarking hmarked => exact h

/-! ### Pushes that meet no worker -/

/-- What is pushed to a slot without a worker is lost. -/
theorem lost_of_push (hnumbered : s.Numbered) {call i : Nat} {c : EnqueueCall} {slot : Slot}
    (cid : Bytes) (hexited : slot.worker = .exited) :
    ¬ (s.push call i c cid slot).NothingLost := by
  intro h
  -- the number of the push is new: it was not handed over and waits nowhere else
  have hpushed : (s.pushes, c.message) ∈ (s.push call i c cid slot).pushed cid := by
    show _ ∈ Function.update s.pushed _ _ _
    rw [Function.update_self]
    exact List.mem_append_right _ (List.mem_singleton_self _)
  rcases h cid _ hpushed with hhanded | ⟨j, slot₁, hj, hobject₁, hwaits, hlive⟩
  · exact absurd (hnumbered.handed cid _ hhanded) (Nat.lt_irrefl _)
  · rcases update_eq_some_iff.mp hobject₁ with ⟨-, rfl⟩ | ⟨-, hobject₁⟩
    · exact hlive hexited
    · exact absurd (hnumbered.waiting j slot₁ hobject₁ _ hwaits) (Nat.lt_irrefl _)

end Steps

/-! ### Before a stop -/

/-- As long as `stopping_` is not set, no `stop` is under way, and no worker has a reason to exit.
-/
structure Calm (s : WorkerPool) : Prop where
  stops : s.stops = 0
  stopAt : s.stopAt = none
  slots : ∀ i slot, s.objects i = some slot → slot.stopping = false ∧ slot.worker ≠ .exited

theorem Calm.setObject {s : WorkerPool} (h : s.Calm) (i : Nat) (slot' : Slot)
    (hcalm : slot'.stopping = false ∧ slot'.worker ≠ .exited) : (s.setObject i slot').Calm := by
  refine ⟨h.stops, h.stopAt, fun j x hx => ?_⟩
  rcases update_eq_some_iff.mp hx with ⟨-, rfl⟩ | ⟨-, hx⟩
  · exact hcalm
  · exact h.slots j x hx

theorem calm_step {key : MessageEvent → Bytes} {s s' : WorkerPool} {e : PoolEvent}
    (h : s.stopping = false → s.Calm) (hstep : Step key s e s') (hstopping : s'.stopping = false) :
    s'.Calm := by
  cases hstep with
  -- the step that ends the calm
  | stopBegin => exact nomatch hstopping
  | found hcall hlock hslot =>
    exact ⟨(h hstopping).stops, (h hstopping).stopAt, (h hstopping).slots⟩
  | @create call address message hcall hlock hslot hfree =>
    have hcalm := (h hstopping).setObject s.created { address, cid := cidOf key message }
      ⟨rfl, nofun⟩
    exact ⟨hcalm.stops, hcalm.stopAt, hcalm.slots⟩
  | @push call i c slot hcall htarget hobject =>
    have hslot := (h hstopping).slots _ _ hobject
    have hcalm := (h hstopping).setObject i
      { slot with queue := slot.queue ++ [(s.pushes, c.message)] } ⟨hslot.1, hslot.2⟩
    exact ⟨hcalm.stops, hcalm.stopAt, hcalm.slots⟩
  | @take i slot m rest hobject hwaiting hqueue =>
    have hcalm := (h hstopping).setObject i { slot with queue := rest, worker := .processing m }
      ⟨((h hstopping).slots _ _ hobject).1, nofun⟩
    exact ⟨hcalm.stops, hcalm.stopAt, hcalm.slots⟩
  | finish hobject hprocessing =>
    exact (h hstopping).setObject _ _ ⟨((h hstopping).slots _ _ hobject).1, nofun⟩
  | exit hobject hwaiting hstop hempty =>
    -- a worker exits when its slot is marked or the pool is stopping; neither is the case
    rcases hstop with hmarked | hstop
    · exact nomatch ((h hstopping).slots _ _ hobject).1.symm.trans hmarked
    · exact nomatch hstopping.symm.trans hstop
  | stopMark hmarking hslot hobject => exact nomatch (h hstopping).stopAt.symm.trans hmarking
  | stopClear hjoining hexited => exact nomatch (h hstopping).stopAt.symm.trans hjoining
  | stopLock hstops hlock => exact absurd (h hstopping).stops hstops.ne'
  | stopJoin hmarking hmarked => exact nomatch (h hstopping).stopAt.symm.trans hmarking

/-- Before the first `stop`, every push meets a worker. -/
theorem meetsWorker_of_not_stopping {key : MessageEvent → Bytes}
    {tr : List (WorkerPool × PoolEvent)} {s : WorkerPool} (hrun : (workerPools key).Run tr s)
    (hstopping : s.stopping = false) (e : PoolEvent) : s.MeetsWorker e := by
  have hcalm : s.stopping = false → s.Calm := by
    refine hrun.invariant (I := fun s => s.stopping = false → s.Calm) ?_ ?_
    · rintro s rfl -
      exact ⟨rfl, rfl, nofun⟩
    · exact fun s e s' h hstep hstopping => calm_step h hstep hstopping
  exact fun call c slot _ _ hobject => ((hcalm hstopping).slots c.slot slot hobject).2

/-! ### Runs -/

/-- What a run keeps in which every push meets a worker. -/
theorem nothingLost_of_run {key : MessageEvent → Bytes} {tr : List (WorkerPool × PoolEvent)}
    {s : WorkerPool} (hrun : (workerPools key).Run tr s) (h : ∀ x ∈ tr, x.1.MeetsWorker x.2) :
    s.NothingLost := by
  have hinv : s.Linked key ∧ s.InOrder key ∧ s.NothingLost := by
    refine (hrun.restrict h).invariant
      (I := fun s => s.Linked key ∧ s.InOrder key ∧ s.NothingLost) ?_ ?_
    · rintro s rfl
      exact ⟨linked_init key, inOrder_init key, nothingLost_init⟩
    · rintro s e s' ⟨hlinked, horder, hlost⟩ ⟨hstep, hmeets⟩
      have hmap := pushesToMap_of_meetsWorker hlinked hmeets
      exact ⟨linked_step hlinked hstep, inOrder_step hlinked horder hmap hstep,
        nothingLost_step hlinked horder hlost hmeets hstep⟩
  exact hinv.2.2

end WorkerPool

open WorkerPool in
/-- **No message is lost** in a run if and only if each push meets a worker that has not exited. -/
theorem losesNothing_iff {key : MessageEvent → Bytes} {tr : List (WorkerPool × PoolEvent)}
    {s : WorkerPool} (hrun : (workerPools key).Run tr s) :
    LosesNothing tr s ↔ ∀ x ∈ tr, x.1.MeetsWorker x.2 := by
  constructor
  -- the state behind the push is one of the run, and the message is lost there
  · intro h x hx call c slot he hcall hobject hexited
    have hmap := h.pushes x hx
    obtain ⟨pre, post, rfl⟩ := List.append_of_mem hx
    obtain ⟨s', hstep, hs'⟩ := hrun.stepAt
    obtain ⟨hlinked, hnumbered⟩ := linked_numbered hrun.upTo
    have hlost : ¬ s'.NothingLost := by
      rw [he] at hstep hmap
      cases hstep with
      | push hcall' htarget' hobject' =>
        obtain rfl := Option.some.inj (hcall.symm.trans hcall')
        -- the slot is in the map, so the push goes to it
        obtain rfl := hlinked.push_to_map hmap hcall htarget'
        obtain rfl := Option.some.inj (hobject.symm.trans hobject')
        exact lost_of_push hnumbered _ hexited
    rcases hs' with rfl | ⟨y, hy, rfl⟩
    · exact hlost h.behind
    · exact hlost (h.before y (List.mem_append_right _ (List.mem_cons_of_mem _ hy)))
  · intro h
    refine ⟨fun x hx => ?_, nothingLost_of_run hrun h, fun x hx => ?_⟩
    · obtain ⟨pre, post, rfl⟩ := List.append_of_mem hx
      exact nothingLost_of_run hrun.upTo fun y hy => h y (List.mem_append_left _ hy)
    · obtain ⟨pre, post, rfl⟩ := List.append_of_mem hx
      exact pushesToMap_of_meetsWorker (linked_numbered hrun.upTo).1 (h x hx)

/-! ### A stop between look-up and push -/

/-- A message is pushed while nobody stops the pool. -/
theorem losesNothing_one_message :
    ∃ tr s, (workerPools userKey).Run tr s ∧ s.pushed (utf8 "u") = [(0, hi)] ∧
      LosesNothing tr s := by
  have start : (workerPools userKey).Run [] {} := .start rfl
  have found := start.step (@WorkerPool.Step.create userKey _ 0 0 hi rfl rfl rfl nofun)
  have pushed := found.step (@WorkerPool.Step.push userKey _ 0 0 _ _ rfl rfl rfl)
  refine ⟨_, _, pushed, rfl, (losesNothing_iff pushed).mpr fun x hx => ?_⟩
  rcases List.mem_append.mp hx with hx | hx
  · obtain rfl := List.mem_singleton.mp hx
    exact WorkerPool.meetsWorker_of_not_stopping start rfl _
  · obtain rfl := List.mem_singleton.mp hx
    exact WorkerPool.meetsWorker_of_not_stopping found rfl _

/-- The slot is removed before the message is pushed, and the message is nowhere. -/
theorem push_behind_stop :
    ∃ tr s, (workerPools userKey).Run tr s ∧ ¬ s.NothingLost ∧
      ∃ x ∈ tr, ¬ x.1.PushesToMap x.2 := by
  have start : (workerPools userKey).Run [] {} := .start rfl
  have found := start.step (@WorkerPool.Step.create userKey _ 0 0 hi rfl rfl rfl nofun)
  -- `stop` runs to its end while the call has its slot and has not pushed yet
  have begun := found.step .stopBegin
  have locked := begun.step (.stopLock Nat.one_pos rfl)
  have marked := locked.step (@WorkerPool.Step.stopMark userKey _ (utf8 "u") _ _ rfl rfl rfl)
  have joining := marked.step (.stopJoin rfl fun cid i slot hslot hobject => by
    rw [eq_of_one_slot hslot hobject])
  have exited := joining.step (@WorkerPool.Step.exit userKey _ 0 _ rfl rfl (Or.inl rfl) rfl)
  have cleared := exited.step (.stopClear rfl fun cid i slot hslot hobject => by
    rw [eq_of_one_slot hslot hobject])
  have pushed := cleared.step (@WorkerPool.Step.push userKey _ 0 0 _ _ rfl rfl rfl)
  refine ⟨_, _, pushed, ?_, _, List.mem_append_right _ (List.mem_singleton_self _), ?_⟩
  · exact WorkerPool.lost_of_push (WorkerPool.linked_numbered cleared).2 _ rfl
  · intro h
    obtain ⟨cid, hslot⟩ := h 0 _ rfl rfl
    exact nomatch hslot

end Aestival
