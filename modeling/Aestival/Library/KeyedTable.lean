import Mathlib.Data.List.Nodup

/-!
# Tables with a primary key

A table is a list of rows no two of which have the same key. `upsert` is an `INSERT` with
`ON CONFLICT DO UPDATE`: it makes the row of a key from the one that is there, if one is, and leaves
all other rows alone. A look at a row behind it finds what was made, or what was there before
(`find?_upsert`).
-/

/-- Rows with different keys. -/
structure KeyedTable {α κ : Type} (key : α → κ) where
  rows : List α
  nodup : (rows.map key).Nodup

namespace KeyedTable

variable {α κ : Type} [DecidableEq κ] {key : α → κ}

instance : EmptyCollection (KeyedTable key) := ⟨⟨[], .nil⟩⟩

instance : Inhabited (KeyedTable key) := ⟨∅⟩

/-- The row of a key. -/
def find? (t : KeyedTable key) (k : κ) : Option α := t.rows.find? fun r => key r = k

@[simp] theorem find?_empty (k : κ) : (∅ : KeyedTable key).find? k = none := rfl

variable {t : KeyedTable key} {k l : κ} {r : α}

theorem find?_eq_some : t.find? k = some r ↔ r ∈ t.rows ∧ key r = k := by
  constructor
  · intro h
    exact ⟨List.mem_of_find?_eq_some h, by simpa using List.find?_some h⟩
  · rintro ⟨hr, rfl⟩
    cases hfind : t.find? (key r) with
    | none =>
      have hne := List.find?_eq_none.mp hfind r hr
      exact absurd (decide_eq_true rfl) hne
    | some s =>
      have hs : s ∈ t.rows := List.mem_of_find?_eq_some hfind
      have hkey : key s = key r := by simpa using List.find?_some hfind
      rw [List.inj_on_of_nodup_map t.nodup hs hr hkey]

theorem find?_eq_none : t.find? k = none ↔ k ∉ t.rows.map key := by
  rw [find?, List.find?_eq_none, List.mem_map]
  constructor
  · rintro h ⟨r, hr, hk⟩
    exact h r hr (by simpa using hk)
  · intro h r hr hk
    exact h ⟨r, hr, by simpa using hk⟩

/-- The rows with another one for `k`. -/
def replaceRow (key : α → κ) (k : κ) (row : α) (rows : List α) : List α :=
  rows.map fun r => if key r = k then row else r

theorem map_replaceRow {row : α} (hrow : key row = k) (rows : List α) :
    (replaceRow key k row rows).map key = rows.map key := by
  rw [replaceRow, List.map_map]
  refine List.map_congr_left fun r _ => ?_
  show key (if key r = k then row else r) = key r
  split
  case isTrue h => rw [hrow, h]
  case isFalse => rfl

/-- Make the row of `k` from the one that is there. -/
def upsert (t : KeyedTable key) (k : κ) (f : Option α → α) (hf : ∀ o, key (f o) = k) :
    KeyedTable key :=
  match h : t.find? k with
  | some row => ⟨replaceRow key k (f (some row)) t.rows, by
      rw [map_replaceRow (hf _)]
      exact t.nodup⟩
  | none => ⟨t.rows ++ [f none], by
      rw [List.map_append, List.nodup_append]
      refine ⟨t.nodup, List.nodup_singleton _, ?_⟩
      rintro k' hk' _ hlast rfl
      rw [List.map_singleton, List.mem_singleton, hf] at hlast
      exact find?_eq_none.mp h (hlast ▸ hk')⟩

variable {f : Option α → α} {hf : ∀ o, key (f o) = k}

/-- The rows of the new table. -/
theorem mem_upsert : r ∈ (t.upsert k f hf).rows ↔
    r = f (t.find? k) ∨ r ∈ t.rows ∧ key r ≠ k := by
  unfold upsert
  split
  -- the row of the key is replaced in its place
  case h_1 row h =>
    have hrow := find?_eq_some.mp h
    show r ∈ t.rows.map (fun r => if key r = k then f (some row) else r) ↔
      r = f (t.find? k) ∨ _
    rw [h, List.mem_map]
    constructor
    · rintro ⟨s, hs, rfl⟩
      split
      case isTrue => exact .inl rfl
      case isFalse hne => exact .inr ⟨hs, hne⟩
    · rintro (rfl | ⟨hr, hne⟩)
      · exact ⟨row, hrow.1, if_pos hrow.2⟩
      · exact ⟨r, hr, if_neg hne⟩
  -- there is none, and a new one is appended
  case h_2 h =>
    have hnot := find?_eq_none.mp h
    show r ∈ t.rows ++ [f none] ↔ r = f (t.find? k) ∨ _
    rw [h, List.mem_append, List.mem_singleton, or_comm]
    refine or_congr_right (iff_self_and.mpr fun hr hk => hnot ?_)
    exact List.mem_map.mpr ⟨r, hr, hk⟩

/-- **A row behind an upsert**: the one that was made, or the one that was there. -/
theorem find?_upsert :
    (t.upsert k f hf).find? l = if l = k then some (f (t.find? k)) else t.find? l := by
  split
  case isTrue h => exact find?_eq_some.mpr ⟨mem_upsert.mpr (.inl rfl), (hf _).trans h.symm⟩
  case isFalse h =>
    ext r
    rw [find?_eq_some, find?_eq_some, mem_upsert]
    constructor
    · rintro ⟨rfl | ⟨hr, -⟩, hl⟩
      · exact absurd (hl.symm.trans (hf _)) h
      · exact ⟨hr, hl⟩
    · rintro ⟨hr, hl⟩
      exact ⟨.inr ⟨hr, hl ▸ h⟩, hl⟩

end KeyedTable
