import Mathlib.Data.List.Basic

/-!
# Tickets that are accepted once

A ticket is valid before its deadline, and its key is remembered when it is accepted. Entries are
dropped after some time. A cache of this kind accepts a ticket only once when the entry of the
ticket outlives it: an entry that has been dropped belongs to a ticket that has expired
(`ReplayCache.Spent`).

* `ReplayCache.spent_of_redeem`: an accepted ticket is spent.
* `ReplayCache.Spent.redeem`: it stays so, whatever is presented later.
* `ReplayCache.Spent.not_redeem`: a spent ticket that is still valid is refused.
-/

/-- The keys that are remembered, each with the time after which it is dropped. -/
abbrev ReplayCache (κ : Type) := List (κ × Nat)

namespace ReplayCache

variable {κ : Type} [DecidableEq κ]

/-- Drop the entries that are due. -/
def purge (now : Nat) (m : ReplayCache κ) : ReplayCache κ := m.filter fun e => now ≤ e.2

/-- Remember a key for `lifetime`, unless it is remembered. -/
def redeem (now lifetime : Nat) (key : κ) (m : ReplayCache κ) : Bool × ReplayCache κ :=
  if key ∈ (purge now m).map Prod.fst then (false, purge now m)
  else (true, purge now m ++ [(key, now + lifetime)])

/-- The ticket has expired, or its key is remembered until it has. -/
def Spent (now : Nat) (key : κ) (deadline : Nat) (m : ReplayCache κ) : Prop :=
  deadline ≤ now ∨ ∃ until', (key, until') ∈ m ∧ deadline ≤ until'

variable {now later lifetime deadline : Nat} {key other : κ} {m : ReplayCache κ}

omit [DecidableEq κ] in
theorem mem_purge {e : κ × Nat} : e ∈ purge now m ↔ e ∈ m ∧ now ≤ e.2 := by
  rw [purge, List.mem_filter, decide_eq_true_iff]

omit [DecidableEq κ] in
/-- Time passes, and nothing else happens. -/
theorem Spent.mono (h : Spent now key deadline m) (hle : now ≤ later) :
    Spent later key deadline m :=
  h.imp_left fun hd => Nat.le_trans hd hle

omit [DecidableEq κ] in
/-- The entry is dropped only when the ticket has expired. -/
theorem Spent.purge (h : Spent now key deadline m) (hle : now ≤ later) :
    Spent later key deadline (purge later m) := by
  rcases h with h | ⟨until', hmem, hd⟩
  · exact Or.inl (Nat.le_trans h hle)
  · by_cases hdue : later ≤ until'
    · exact Or.inr ⟨until', mem_purge.mpr ⟨hmem, hdue⟩, hd⟩
    · exact Or.inl (by omega)

/-- **A spent ticket stays spent.** -/
theorem Spent.redeem (h : Spent now key deadline m) (hle : now ≤ later) :
    Spent later key deadline (redeem later lifetime other m).2 := by
  unfold ReplayCache.redeem
  split
  · exact h.purge hle
  · refine (h.purge hle).imp_right ?_
    rintro ⟨until', hmem, hd⟩
    exact ⟨until', List.mem_append_left _ hmem, hd⟩

/-- **An accepted ticket is spent**, when its key is remembered long enough. -/
theorem spent_of_redeem (h : (redeem now lifetime key m).1 = true)
    (hlong : deadline ≤ now + lifetime) :
    Spent now key deadline (redeem now lifetime key m).2 := by
  unfold redeem at h ⊢
  split at h
  · cases h
  next hnew =>
  rw [if_neg hnew]
  exact Or.inr ⟨now + lifetime, List.mem_append_right _ (List.mem_singleton_self _), hlong⟩

/-- **A spent ticket is refused** as long as it is valid. -/
theorem Spent.not_redeem (h : Spent now key deadline m) (hle : now ≤ later)
    (hvalid : later < deadline) :
    (ReplayCache.redeem later lifetime key m).1 = false := by
  unfold ReplayCache.redeem
  rcases h.purge hle with hd | ⟨until', hmem, -⟩
  · omega
  · rw [if_pos (List.mem_map_of_mem hmem)]

end ReplayCache
