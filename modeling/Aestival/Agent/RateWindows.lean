import Aestival.Agent.Policy
import Aestival.Library.Tables

/-!
# The windows of the rate limit

`rateLimit` keeps the windows of all keys in one table, from which it erases stale ones when the
table has grown. Seen from one key nothing of this matters: the table behaves as if each key had a
limiter of its own (`RateState.check`, `limiter`), which is `rateLimit_tracks`. An entry that has
been erased, and comes back as a new one, was so old that the next check opens a new window in
either case; for that the clock must not go back, and must have started at its epoch.
-/

namespace Aestival

open Bytes

/-! ### The limiter of one key -/

namespace RateState

variable {maxMessagesPerMinute : Int32} {state own : RateState} {now t : Int}

/-- The critical section without the table: the state it leaves of a key, and its decision. -/
def check (maxMessagesPerMinute : Int32) (state : RateState) (now : Int) : RateState × Bool :=
  let elapsed := (now - state.windowStart).tdiv nanosPerSecond
  if elapsed ≥ kRateWindowSeconds ∨ elapsed < 0 then ({ windowStart := now, count := 1 }, true)
  else
    ({ state with count := state.count + 1 },
      decide ¬ state.count + 1 > maxMessagesPerMinute)

/-- The window is over at this time. -/
def Expired (state : RateState) (now : Int) : Prop :=
  state.windowStart + kRateWindowSeconds * nanosPerSecond ≤ now

theorem Expired.mono (h : state.Expired now) (ht : now ≤ t) : state.Expired t := Int.le_trans h ht

/-- Behind the end of a window a new one is opened. -/
theorem check_of_expired (h : state.Expired now) :
    state.check maxMessagesPerMinute now = ({ windowStart := now, count := 1 }, true) := by
  -- the clock counts nanoseconds, and the elapsed time is cut off to seconds
  have hlong : 60 * 1000000000 ≤ now - state.windowStart := by
    have h : state.windowStart + 60 * 1000000000 ≤ now := h
    omega
  have helapsed : (now - state.windowStart).tdiv nanosPerSecond ≥ kRateWindowSeconds := by
    show (60 : Int) ≤ (now - state.windowStart).tdiv 1000000000
    rw [Int.tdiv_eq_ediv_of_nonneg (by omega)]
    exact Int.le_ediv_of_mul_le (by decide) hlong
  exact if_pos (Or.inl helapsed)

theorem windowStart_check (maxMessagesPerMinute : Int32) (h : 0 ≤ state.windowStart)
    (hnow : 0 ≤ now) : 0 ≤ (state.check maxMessagesPerMinute now).1.windowStart := by
  unfold check
  dsimp only
  split
  · exact hnow
  · exact h

/-- From `now` on, the two states are as good as each other. -/
def Like (now : Int) (state own : RateState) : Prop :=
  state = own ∨ state.Expired now ∧ own.Expired now

theorem Like.mono (h : Like now state own) (ht : now ≤ t) : Like t state own :=
  h.imp_right fun h => ⟨h.1.mono ht, h.2.mono ht⟩

theorem Like.check_eq (h : Like now state own) :
    state.check maxMessagesPerMinute now = own.check maxMessagesPerMinute now := by
  rcases h with rfl | ⟨hstate, hown⟩
  · rfl
  · rw [check_of_expired hstate, check_of_expired hown]

end RateState

/-- The limiter of one key after the checks at these times: its state, and its decisions. -/
def limiter (maxMessagesPerMinute : Int32) (times : List Int) : RateState × List Bool :=
  times.foldl (fun r now =>
    let (state, passed) := r.1.check maxMessagesPerMinute now
    (state, r.2 ++ [passed])) ({}, [])

@[simp] theorem limiter_concat (maxMessagesPerMinute : Int32) (times : List Int) (now : Int) :
    limiter maxMessagesPerMinute (times ++ [now]) =
      (((limiter maxMessagesPerMinute times).1.check maxMessagesPerMinute now).1,
        (limiter maxMessagesPerMinute times).2 ++
          [((limiter maxMessagesPerMinute times).1.check maxMessagesPerMinute now).2]) := by
  simp [limiter]

/-! ### The table -/

namespace RateTable

variable {table : RateTable} {actor c : Bytes} {state : RateState} {now t : Int}
  {maxMessagesPerMinute : Int32} {own : Bytes → RateState}

/-- The state a check begins with. -/
def find (table : RateTable) (actor : Bytes) : RateState := (table.lookup actor).getD {}

theorem keys_set (h : (table.map Prod.fst).Nodup) :
    ((table.set actor state).map Prod.fst).Nodup := by
  unfold set
  split
  · show ((overwrite actor state table).map Prod.fst).Nodup
    rwa [keys_overwrite]
  · next hnew =>
    rw [List.map_append]
    exact List.nodup_append'.mpr ⟨h, List.nodup_singleton _, by simpa using hnew⟩

@[simp] theorem find_set_self : (table.set actor state).find actor = state := by
  unfold find set
  split
  · next h =>
    show ((overwrite actor state table).lookup actor).getD {} = state
    rw [lookup_overwrite_self h, Option.getD_some]
  · next h =>
    have hnone : table.lookup actor = none := by
      rw [List.lookup_eq_none_iff]
      intro p hp
      rw [bne_iff_ne]
      intro heq
      exact h (heq ▸ List.mem_map_of_mem hp)
    simp [List.lookup_append, hnone]

theorem find_set_of_ne (hc : c ≠ actor) : (table.set actor state).find c = table.find c := by
  unfold find set
  split
  · show ((overwrite actor state table).lookup c).getD {} = _
    rw [lookup_overwrite_of_ne hc]
  · have hne : (c == actor) = false := by simpa using hc
    simp [List.lookup_append, List.lookup_cons, hne]

theorem keys_collect (h : (table.map Prod.fst).Nodup) :
    ((table.collect now).map Prod.fst).Nodup := by
  unfold collect
  split
  · exact h.sublist (List.filter_sublist.map Prod.fst)
  · exact h

/-- An entry is erased only when it is stale. -/
theorem find_collect (now : Int) (c : Bytes) (h : (table.map Prod.fst).Nodup) :
    (table.collect now).find c = table.find c ∨
      (table.collect now).find c = {} ∧
        (table.find c).windowStart < now - kRateGcStaleSeconds * nanosPerSecond := by
  unfold collect
  split
  · dsimp only
    unfold find
    rw [lookup_filter h]
    cases hfound : table.lookup c with
    -- a key without an entry has none afterwards either
    | none => exact Or.inl rfl
    | some state =>
      by_cases hstale : state.windowStart < now - kRateGcStaleSeconds * nanosPerSecond
      · exact Or.inr ⟨by simp [Option.filter, hstale], hstale⟩
      · exact Or.inl (by simp [Option.filter, hstale])
  · exact Or.inl rfl

/-- At the time `now` the table is as good as limiters with the states `own`. -/
structure Tracks (table : RateTable) (now : Int) (own : Bytes → RateState) : Prop where
  keys : (table.map Prod.fst).Nodup
  like : ∀ c, (table.find c).Like now (own c)
  started : ∀ c, 0 ≤ (own c).windowStart

theorem Tracks.nil (now : Int) : Tracks [] now fun _ => {} where
  keys := List.nodup_nil
  like := fun _ => Or.inl rfl
  started := fun _ => Int.le_refl 0

theorem Tracks.mono (h : Tracks table now own) (ht : now ≤ t) : Tracks table t own where
  keys := h.keys
  like := fun c => (h.like c).mono ht
  started := h.started

theorem Tracks.set (actor : Bytes) (h : Tracks table now own) (hstate : 0 ≤ state.windowStart) :
    Tracks (table.set actor state) now (Function.update own actor state) where
  keys := keys_set h.keys
  like := by
    intro c
    by_cases hc : c = actor
    · subst hc
      rw [find_set_self, Function.update_self]
      exact Or.inl rfl
    · rw [find_set_of_ne hc, Function.update_of_ne hc]
      exact h.like c
  started := by
    intro c
    by_cases hc : c = actor
    · subst hc
      rwa [Function.update_self]
    · rw [Function.update_of_ne hc]
      exact h.started c

/-- Erasing stale entries makes no difference. -/
theorem Tracks.collect (h : Tracks table now own) : Tracks (table.collect now) now own where
  keys := keys_collect h.keys
  like := by
    intro c
    rcases find_collect now c h.keys with hkept | ⟨herased, hstale⟩
    · rw [hkept]
      exact h.like c
    · -- the window of the entry is over, and so is that of a new one, which starts at the epoch
      have hexpired : (own c).Expired now := by
        rcases h.like c with heq | ⟨-, hown⟩
        · rw [heq] at hstale
          have hstale : (own c).windowStart < now - 120 * 1000000000 := hstale
          show (own c).windowStart + 60 * 1000000000 ≤ now
          omega
        · exact hown
      rw [herased]
      refine Or.inr ⟨?_, hexpired⟩
      have hstarted := h.started c
      have hexpired : (own c).windowStart + 60 * 1000000000 ≤ now := hexpired
      show (0 : Int) + 60 * 1000000000 ≤ now
      omega
  started := h.started

end RateTable

open RateTable

/-- The critical section is the check of one key, written back. -/
theorem rateLimit_eq_check (maxMessagesPerMinute : Int32) (table : RateTable) (actor : Bytes)
    (now : Int) : rateLimit maxMessagesPerMinute table actor now =
      let (state, passed) := (table.find actor).check maxMessagesPerMinute now
      (if passed then (table.set actor state).collect now else table.set actor state, passed) := by
  unfold rateLimit RateState.check RateTable.find
  dsimp only
  split
  · simp
  · split
    · next h => simp [h]
    · next h => simp [h]

/-- **Each key has a limiter of its own.** The decision is that of the limiter of the key, and no
other limiter takes notice. -/
theorem rateLimit_tracks (maxMessagesPerMinute : Int32) {table : RateTable} (actor : Bytes)
    {now : Int} {own : Bytes → RateState} (h : Tracks table now own) (hnow : 0 ≤ now) :
    let own' := (own actor).check maxMessagesPerMinute now
    (rateLimit maxMessagesPerMinute table actor now).2 = own'.2 ∧
      Tracks (rateLimit maxMessagesPerMinute table actor now).1 now
        (Function.update own actor own'.1) := by
  -- the entry of the key is as good as the state of its limiter, so the check comes to the same
  dsimp only
  rw [rateLimit_eq_check, (h.like actor).check_eq]
  have hset := h.set actor
    (RateState.windowStart_check maxMessagesPerMinute (h.started actor) hnow)
  refine ⟨rfl, ?_⟩
  dsimp only
  split
  · exact hset.collect
  · exact hset

end Aestival
