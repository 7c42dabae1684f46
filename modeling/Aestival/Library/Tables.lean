import Mathlib.Data.List.Nodup
import Mathlib.Logic.Function.Basic

/-!
# Tables and keyed lists

A table is a list of keys with their values, each key once. `lookup` finds the value of a key; here
is what it finds when a value has been overwritten (`lookup_overwrite_self`) and when rows have been
erased (`lookup_filter`).

A table may also be a function, in which `Function.update` overwrites an entry (`update_eq_iff`). If
it has an entry or none for each key, entries are set (`update_eq_some_iff`) and erased
(`some_of_erase`).

A list whose elements have keys is put together from the elements of each key (`eq_of_parts`), of
which there is one if the keys are distinct (`filter_key_eq`).
-/

section Tables

variable {κ α : Type} [DecidableEq κ] [BEq κ] [LawfulBEq κ]

/-- Overwrite the value of a key that is there. -/
def overwrite (key : κ) (value : α) (table : List (κ × α)) : List (κ × α) :=
  table.map fun p => if p.1 = key then (key, value) else p

variable {table : List (κ × α)} {key k : κ} {value : α}

omit [BEq κ] [LawfulBEq κ] in
theorem keys_overwrite : (overwrite key value table).map Prod.fst = table.map Prod.fst := by
  unfold overwrite
  rw [List.map_map]
  refine List.map_congr_left fun p _ => ?_
  show (if p.1 = key then (key, value) else p).1 = p.1
  split
  · next h => exact h.symm
  · rfl

theorem lookup_overwrite_self (h : key ∈ table.map Prod.fst) :
    (overwrite key value table).lookup key = some value := by
  induction table with
  | nil => simp at h
  -- the key is that of the first row, or of one behind it
  | cons p table ih =>
    show ((if p.1 = key then (key, value) else p) :: overwrite key value table).lookup key = _
    by_cases hp : p.1 = key
    · rw [if_pos hp]
      exact List.lookup_cons_self
    · have hne : (key == p.1) = false := by simpa using Ne.symm hp
      rw [if_neg hp, List.lookup_cons, hne]
      exact ih ((List.mem_cons.mp h).resolve_left (Ne.symm hp))

theorem lookup_overwrite_of_ne (hk : k ≠ key) :
    (overwrite key value table).lookup k = table.lookup k := by
  induction table with
  | nil => rfl
  | cons p table ih =>
    show ((if p.1 = key then (key, value) else p) :: overwrite key value table).lookup k = _
    by_cases hp : p.1 = key
    · have hne : (k == key) = false := by simpa using hk
      rw [if_pos hp, List.lookup_cons, List.lookup_cons, hp, hne]
      exact ih
    · rw [if_neg hp, List.lookup_cons, List.lookup_cons, ih]

/-- What is found among the rows that are left. -/
theorem lookup_filter (h : (table.map Prod.fst).Nodup) (keep : κ × α → Bool) :
    (table.filter keep).lookup k = (table.lookup k).filter fun value => keep (k, value) := by
  induction table with
  | nil => rfl
  | cons p table ih =>
    obtain ⟨hp, htable⟩ := List.nodup_cons.mp h
    by_cases hk : k = p.1
    · subst hk
      rw [List.lookup_cons, beq_self_eq_true]
      show _ = Option.filter (fun value => keep (p.1, value)) (some p.2)
      by_cases hkeep : keep p = true
      · rw [List.filter_cons_of_pos hkeep, List.lookup_cons_self]
        exact (Option.filter_some_pos (p := fun value => keep (p.1, value)) hkeep).symm
      -- the row is erased, and no other has its key
      · have hnone : table.lookup p.1 = none := by
          rw [List.lookup_eq_none_iff]
          intro q hq
          rw [bne_iff_ne]
          intro hkey
          exact hp (hkey ▸ List.mem_map_of_mem hq)
        rw [List.filter_cons_of_neg hkeep, ih htable, hnone]
        have herased : keep (p.1, p.2) = false := Bool.eq_false_iff.mpr hkeep
        exact (Option.filter_some_neg (p := fun value => keep (p.1, value)) herased).symm
    -- a row of another key does not matter, whether it is kept or not
    · have hne : (k == p.1) = false := by simpa using hk
      rw [List.lookup_cons, hne]
      by_cases hkeep : keep p = true
      · rw [List.filter_cons_of_pos hkeep, List.lookup_cons, hne]
        exact ih htable
      · rw [List.filter_cons_of_neg hkeep]
        exact ih htable

end Tables

section Updates

variable {α β : Type} [DecidableEq α]

/-- What is found in an updated table. -/
theorem update_eq_iff {f : α → β} {a c : α} {b v : β} :
    Function.update f a v c = b ↔ c = a ∧ v = b ∨ c ≠ a ∧ f c = b := by
  by_cases hc : c = a
  · rw [hc, Function.update_self, eq_self, true_and, ne_eq, eq_self, not_true, false_and, or_false]
  · rw [Function.update_of_ne hc, ne_eq, eq_false hc, false_and, false_or, not_false_eq_true,
      true_and]

/-- A table where one entry is erased has no others than before. -/
theorem some_of_erase {f : α → Option β} {a c : α} {b : β}
    (h : Function.update f a none c = some b) : c ≠ a ∧ f c = some b := by
  rcases update_eq_iff.mp h with ⟨-, hnone⟩ | hold
  · cases hnone
  · exact hold

/-- And one where an entry is set has this one besides. -/
theorem update_eq_some_iff {f : α → Option β} {a c : α} {b₀ b : β} :
    Function.update f a (some b₀) c = some b ↔ c = a ∧ b₀ = b ∨ c ≠ a ∧ f c = some b := by
  rw [update_eq_iff, Option.some.injEq]

/-- A list that grows at its end, in a table of lists. -/
theorem sublist_update_append (f : α → List β) (a c : α) (l : List β) :
    (f c).Sublist (Function.update f a (f a ++ l) c) := by
  by_cases hc : c = a
  · subst hc
    rw [Function.update_self]
    exact List.sublist_append_left _ _
  · rw [Function.update_of_ne hc]

end Updates

/-- With distinct keys an element is the only one of its key. -/
theorem filter_key_eq {α κ : Type} [DecidableEq κ] {key : α → κ} {l : List α}
    (h : (l.map key).Nodup) {x : α} (hx : x ∈ l) : l.filter (fun y => key y = key x) = [x] := by
  induction l with
  | nil => exact absurd hx List.not_mem_nil
  | cons a l ih =>
    obtain ⟨hnot, hnodup⟩ := List.nodup_cons.mp h
    rcases List.mem_cons.mp hx with rfl | hx
    · rw [List.filter_cons_of_pos (by simp), List.filter_eq_nil_iff.mpr]
      intro y hy heq
      exact hnot (List.mem_map.mpr ⟨y, hy, by simpa using heq⟩)
    · have hne : key a ≠ key x := fun heq => hnot (heq ▸ List.mem_map_of_mem hx)
      rw [List.filter_cons_of_neg (by simpa using hne)]
      exact ih hnodup hx

/-- Two lists are the same if they show the same order and have the same elements of each key. -/
theorem eq_of_parts {α β κ : Type} [DecidableEq κ] {shown : α → β} (key : α → κ)
    (hkey : ∀ x y, shown x = shown y → key x = key y) {l l' : List α}
    (hshown : l.map shown = l'.map shown)
    (hparts : ∀ k, l.filter (fun x => key x = k) = l'.filter fun x => key x = k) : l = l' := by
  induction l generalizing l' with
  | nil => exact (List.map_eq_nil_iff.mp hshown.symm).symm
  | cons x l ih =>
    cases l' with
    | nil => simp at hshown
    | cons y l' =>
      obtain ⟨hhead, htail⟩ := List.cons.inj hshown
      have hxy : key x = key y := hkey x y hhead
      -- the elements of the key of the heads begin with the heads
      have hpart := hparts (key x)
      rw [List.filter_cons_of_pos (by simp), List.filter_cons_of_pos (by simp [hxy])] at hpart
      obtain ⟨rfl, hsame⟩ := List.cons.inj hpart
      rw [ih htail fun k => ?_]
      by_cases hk : key x = k
      · subst hk
        exact hsame
      · have h := hparts k
        rwa [List.filter_cons_of_neg (by simpa using hk),
          List.filter_cons_of_neg (by simpa using hk)] at h
