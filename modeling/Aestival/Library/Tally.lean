import Aestival.Library.Bytes
import Mathlib.Algebra.BigOperators.Group.List.Basic
import Mathlib.Data.List.Dedup
import Mathlib.Data.List.Lex
import Mathlib.Data.List.Sort
import Mathlib.Data.Prod.Lex

/-!
# Tallies

A tally sums amounts by key and keeps one entry for each key, in the order of the keys: what a loop
over `m[key] += amount` makes of an ordered map. The rows it is made of are a list of keys with
their amounts.

* `Tally.sumAt_ofRows`, `Tally.mem_keys_ofRows`, `Tally.total_ofRows`: what the tally of a list of
  rows says of the rows.
* `Tally.ext_iff_sums`: a tally is determined by its keys and their sums, so the order of the rows
  does not matter (`Tally.ofRows_perm`).
* `Tally.ofRows_merge`: tallying the entries of several tallies is the same as tallying all their
  rows.
* `Tally.groups_eq`: the groups of a list of rows, each with its sum, are the entries of its tally.
-/

variable {κ ν : Type} [LinearOrder κ] [AddCommMonoid ν]

/-! ### Rows -/

/-- The sum of the rows of a key. -/
def sumAt (rows : List (κ × ν)) (k : κ) : ν := ((rows.filter fun r => r.1 = k).map Prod.snd).sum

/-- The sum of all rows. -/
def sumAll (rows : List (κ × ν)) : ν := (rows.map Prod.snd).sum

@[simp] theorem sumAt_nil (k : κ) : sumAt ([] : List (κ × ν)) k = 0 := rfl

theorem sumAt_cons (r : κ × ν) (rows : List (κ × ν)) (k : κ) :
    sumAt (r :: rows) k = (if r.1 = k then r.2 else 0) + sumAt rows k := by
  unfold sumAt
  by_cases h : r.1 = k
  · rw [List.filter_cons_of_pos (by simpa using h), if_pos h, List.map_cons, List.sum_cons]
  · rw [List.filter_cons_of_neg (by simpa using h), if_neg h, zero_add]

theorem sumAt_append (rows rows' : List (κ × ν)) (k : κ) :
    sumAt (rows ++ rows') k = sumAt rows k + sumAt rows' k := by
  rw [sumAt, List.filter_append, List.map_append, List.sum_append]
  rfl

theorem sumAt_perm {rows rows' : List (κ × ν)} (h : rows.Perm rows') (k : κ) :
    sumAt rows k = sumAt rows' k := ((h.filter _).map _).sum_eq

/-- A key without rows has no sum. -/
theorem sumAt_eq_zero {rows : List (κ × ν)} {k : κ} (h : k ∉ rows.map Prod.fst) :
    sumAt rows k = 0 := by
  have hnone : rows.filter (fun r => r.1 = k) = [] := by
    rw [List.filter_eq_nil_iff]
    intro r hr hk
    exact h (List.mem_map.mpr ⟨r, hr, of_decide_eq_true hk⟩)
  rw [sumAt, hnone]
  rfl

/-! ### Tallies -/

/-- Keys with what has been summed up for them, in the order of the keys. -/
structure Tally (κ ν : Type) [LinearOrder κ] where
  entries : List (κ × ν)
  sorted : entries.Pairwise fun x y => x.1 < y.1

namespace Tally

/-- Add an amount to the entry of a key. A key that is not there yet starts from zero. -/
def bump (k : κ) (amount : ν) : List (κ × ν) → List (κ × ν)
  | [] => [(k, 0 + amount)]
  | e :: rest =>
    if k < e.1 then (k, 0 + amount) :: e :: rest
    else if k = e.1 then (k, e.2 + amount) :: rest
    else e :: bump k amount rest

theorem mem_bump {k : κ} {amount : ν} {entries : List (κ × ν)} {j : κ} :
    j ∈ (bump k amount entries).map Prod.fst ↔ j = k ∨ j ∈ entries.map Prod.fst := by
  induction entries with
  | nil => simp [bump]
  | cons e rest ih =>
    rw [bump]
    split
    · simp only [List.map_cons, List.mem_cons]
    · split
      · next heq =>
        simp only [List.map_cons, List.mem_cons, heq]
        tauto
      · simp only [List.map_cons, List.mem_cons, ih]
        tauto

theorem sorted_bump {k : κ} {amount : ν} {entries : List (κ × ν)}
    (h : entries.Pairwise fun x y => x.1 < y.1) :
    (bump k amount entries).Pairwise fun x y => x.1 < y.1 := by
  induction entries with
  | nil => exact List.pairwise_singleton _ _
  | cons e rest ih =>
    obtain ⟨he, hrest⟩ := List.pairwise_cons.mp h
    rw [bump]
    split
    · -- the new entry comes first
      next hlt =>
      refine List.pairwise_cons.mpr ⟨fun x hx => ?_, h⟩
      rcases List.mem_cons.mp hx with rfl | hx
      · exact hlt
      · exact hlt.trans (he x hx)
    · next hnlt =>
      split
      · next heq => exact List.pairwise_cons.mpr ⟨fun x hx => heq ▸ he x hx, hrest⟩
      · -- it comes behind the first entry
        next hne =>
        refine List.pairwise_cons.mpr ⟨fun x hx => ?_, ih hrest⟩
        rcases mem_bump.mp (List.mem_map_of_mem hx) with hk | hmem
        · rw [hk]
          exact lt_of_le_of_ne (not_lt.mp hnlt) (Ne.symm hne)
        · obtain ⟨y, hy, heq⟩ := List.mem_map.mp hmem
          exact heq ▸ he y hy

theorem sumAt_bump (k : κ) (amount : ν) (entries : List (κ × ν)) (j : κ) :
    sumAt (bump k amount entries) j = sumAt entries j + if k = j then amount else 0 := by
  induction entries with
  | nil => rw [bump, sumAt_cons, sumAt_nil, add_zero, zero_add, zero_add]
  | cons e rest ih =>
    rw [bump]
    split
    · rw [sumAt_cons, zero_add, add_comm]
    · split
      · next heq =>
        rw [sumAt_cons, sumAt_cons, heq]
        dsimp only
        split
        · rw [add_right_comm]
        · rw [add_zero]
      · rw [sumAt_cons, ih, sumAt_cons, add_assoc]

theorem sumAll_bump (k : κ) (amount : ν) (entries : List (κ × ν)) :
    sumAll (bump k amount entries) = sumAll entries + amount := by
  unfold sumAll
  induction entries with
  | nil => simp [bump]
  | cons e rest ih =>
    rw [bump]
    split
    · rw [List.map_cons, List.sum_cons, zero_add, add_comm]
    · split
      · rw [List.map_cons, List.sum_cons, List.map_cons, List.sum_cons, add_right_comm]
      · rw [List.map_cons, List.sum_cons, ih, List.map_cons, List.sum_cons, add_assoc]

/-- `m[k] += amount`. -/
def add (t : Tally κ ν) (k : κ) (amount : ν) : Tally κ ν where
  entries := bump k amount t.entries
  sorted := sorted_bump t.sorted

/-- The tally of no rows. -/
def empty : Tally κ ν := ⟨[], List.Pairwise.nil⟩

/-- Add rows, one after the other. -/
def addRows (t : Tally κ ν) (rows : List (κ × ν)) : Tally κ ν :=
  rows.foldl (fun t r => t.add r.1 r.2) t

/-- The tally of a list of rows. -/
def ofRows (rows : List (κ × ν)) : Tally κ ν := addRows empty rows

/-- The keys, in their order. -/
def keys (t : Tally κ ν) : List κ := t.entries.map Prod.fst

section AddRows

variable (t : Tally κ ν) (rows : List (κ × ν))

theorem sumAt_addRows (k : κ) :
    sumAt (t.addRows rows).entries k = sumAt t.entries k + sumAt rows k := by
  unfold addRows
  induction rows generalizing t with
  | nil => exact (add_zero _).symm
  | cons r rows ih =>
    rw [List.foldl_cons, ih, sumAt_cons, ← add_assoc]
    exact congrArg (· + _) (sumAt_bump r.1 r.2 t.entries k)

theorem mem_keys_addRows {k : κ} :
    k ∈ (t.addRows rows).keys ↔ k ∈ t.keys ∨ k ∈ rows.map Prod.fst := by
  unfold addRows
  induction rows generalizing t with
  | nil => simp
  | cons r rows ih =>
    rw [List.foldl_cons, ih, List.map_cons, List.mem_cons]
    have hstep : k ∈ (t.add r.1 r.2).keys ↔ k = r.1 ∨ k ∈ t.keys := mem_bump
    rw [hstep]
    tauto

theorem total_addRows :
    sumAll (t.addRows rows).entries = sumAll t.entries + sumAll rows := by
  unfold addRows
  induction rows generalizing t with
  | nil => exact (add_zero _).symm
  | cons r rows ih =>
    have hstep : sumAll (t.add r.1 r.2).entries = sumAll t.entries + r.2 := sumAll_bump ..
    rw [List.foldl_cons, ih, hstep, add_assoc]
    exact congrArg _ List.sum_cons.symm

end AddRows

section OfRows

variable (rows : List (κ × ν))

/-- **The entry of a key is the sum of its rows.** -/
theorem sumAt_ofRows (k : κ) : sumAt (ofRows rows).entries k = sumAt rows k := by
  rw [ofRows, sumAt_addRows]
  exact zero_add _

/-- **The keys are those of the rows.** -/
theorem mem_keys_ofRows {k : κ} : k ∈ (ofRows rows).keys ↔ k ∈ rows.map Prod.fst := by
  rw [ofRows, mem_keys_addRows]
  exact or_iff_right List.not_mem_nil

/-- **Nothing is lost**: the entries add up to what the rows do. -/
theorem total_ofRows : sumAll (ofRows rows).entries = sumAll rows := by
  rw [ofRows, total_addRows]
  exact zero_add _

end OfRows

/-! ### What determines a tally -/

omit [AddCommMonoid ν] in
theorem nodup_keys (t : Tally κ ν) : t.keys.Nodup :=
  List.pairwise_map.mpr (t.sorted.imp fun h => h.ne)

/-- The amount of an entry is the sum at its key. -/
theorem sumAt_of_mem {t : Tally κ ν} {e : κ × ν} (h : e ∈ t.entries) :
    sumAt t.entries e.1 = e.2 := by
  obtain ⟨entries, hsorted⟩ := t
  dsimp only at h ⊢
  induction entries with
  | nil => cases h
  | cons a rest ih =>
    obtain ⟨ha, hrest⟩ := List.pairwise_cons.mp hsorted
    rw [sumAt_cons]
    rcases List.mem_cons.mp h with rfl | hmem
    · -- no other entry has the key of the first
      have hothers : sumAt rest e.1 = 0 := by
        refine sumAt_eq_zero fun hkey => ?_
        obtain ⟨x, hx, heq⟩ := List.mem_map.mp hkey
        exact (ha x hx).ne' heq
      rw [if_pos rfl, hothers, add_zero]
    · rw [if_neg (ha e hmem).ne, zero_add, ih hrest hmem]

/-- The entries are the keys with the sums at them. -/
theorem entries_eq_map (t : Tally κ ν) :
    t.entries = t.keys.map fun k => (k, sumAt t.entries k) := by
  have hid : t.entries = t.entries.map fun e => (e.1, sumAt t.entries e.1) := by
    conv_lhs => rw [← List.map_id t.entries]
    refine List.map_congr_left fun e he => ?_
    exact (congrArg (e.1, ·) (sumAt_of_mem he)).symm
  rw [keys, List.map_map]
  exact hid

omit [AddCommMonoid ν] in
theorem sorted_keys (t : Tally κ ν) : t.keys.Pairwise (· < ·) := List.pairwise_map.mpr t.sorted

/-- Two ascending lists with the same members are equal. -/
theorem eq_of_ascending {l l' : List κ} (h : l.Pairwise (· < ·)) (h' : l'.Pairwise (· < ·))
    (hmem : ∀ k, k ∈ l ↔ k ∈ l') : l = l' := by
  have hperm : l.Perm l' := (List.perm_ext_iff_of_nodup (h.imp ne_of_lt) (h'.imp ne_of_lt)).mpr hmem
  exact hperm.eq_of_pairwise (fun a b _ _ hab hba => absurd hab hba.not_gt) h h'

/-- **A tally is determined by its keys and their sums.** -/
theorem ext_iff_sums {t t' : Tally κ ν} :
    t = t' ↔ (∀ k, k ∈ t.keys ↔ k ∈ t'.keys) ∧ ∀ k, sumAt t.entries k = sumAt t'.entries k := by
  constructor
  · rintro rfl
    exact ⟨fun _ => Iff.rfl, fun _ => rfl⟩
  · rintro ⟨hkeys, hsums⟩
    have hentries : t.entries = t'.entries := by
      rw [t.entries_eq_map, t'.entries_eq_map,
        eq_of_ascending t.sorted_keys t'.sorted_keys hkeys]
      exact List.map_congr_left fun k _ => congrArg (k, ·) (hsums k)
    cases t
    cases t'
    cases hentries
    rfl

/-- The order of the rows does not matter. -/
theorem ofRows_perm {rows rows' : List (κ × ν)} (h : rows.Perm rows') :
    ofRows rows = ofRows rows' := by
  refine ext_iff_sums.mpr ⟨fun k => ?_, fun k => ?_⟩
  · rw [mem_keys_ofRows, mem_keys_ofRows, (h.map _).mem_iff]
  · rw [sumAt_ofRows, sumAt_ofRows, sumAt_perm h]

/-- **Tallies of parts are merged**: the tally of what the parts' tallies say is the tally of all
the rows. -/
theorem ofRows_merge {ι : Type} (parts : List ι) (rows : ι → List (κ × ν)) :
    ofRows (parts.flatMap fun i => (ofRows (rows i)).entries) = ofRows (parts.flatMap rows) := by
  refine ext_iff_sums.mpr ⟨fun k => ?_, fun k => ?_⟩
  · rw [mem_keys_ofRows, mem_keys_ofRows]
    -- a part has the key in its tally exactly if it has a row of it
    have hpart : ∀ i, k ∈ (ofRows (rows i)).entries.map Prod.fst ↔ k ∈ (rows i).map Prod.fst :=
      fun i => mem_keys_ofRows (rows i)
    simp only [List.map_flatMap, List.mem_flatMap, hpart]
  · rw [sumAt_ofRows, sumAt_ofRows]
    induction parts with
    | nil => rfl
    | cons i parts ih =>
      rw [List.flatMap_cons, List.flatMap_cons, sumAt_append, sumAt_append, ih, sumAt_ofRows]

/-! ### Groups -/

/-- The distinct keys of the rows, in descending order. -/
def groupKeys (rows : List (κ × ν)) : List κ :=
  ((rows.map Prod.fst).dedup).insertionSort (· ≥ ·)

/-- `GROUP BY key ORDER BY key DESC`: each key of the rows once, with its sum. -/
def groups (rows : List (κ × ν)) : List (κ × ν) := (groupKeys rows).map fun k => (k, sumAt rows k)

/-- **The groups are the entries of the tally**, the greatest key first. -/
theorem groups_eq (rows : List (κ × ν)) : groups rows = (ofRows rows).entries.reverse := by
  have hmem : ∀ k, k ∈ groupKeys rows ↔ k ∈ rows.map Prod.fst := fun k =>
    (List.perm_insertionSort _ _).mem_iff.trans List.mem_dedup
  have hnodup : (groupKeys rows).Nodup :=
    (List.perm_insertionSort _ _).nodup_iff.mpr (List.nodup_dedup _)
  have hdescending : (groupKeys rows).Pairwise (· > ·) := by
    have hge : (groupKeys rows).Pairwise (· ≥ ·) := List.pairwise_insertionSort _ _
    exact (hge.and hnodup).imp fun h => lt_of_le_of_ne h.1 h.2.symm
  -- both lists of keys are descending
  have hkeys : groupKeys rows = (ofRows rows).keys.reverse := by
    refine List.reverse_injective ?_
    rw [List.reverse_reverse]
    refine eq_of_ascending (List.pairwise_reverse.mpr hdescending) (ofRows rows).sorted_keys
      fun k => ?_
    rw [List.mem_reverse, hmem, mem_keys_ofRows]
  rw [groups, hkeys, (ofRows rows).entries_eq_map, ← List.map_reverse]
  exact List.map_congr_left fun k _ => congrArg (k, ·) (sumAt_ofRows rows k).symm

end Tally

/-! ### Texts as keys -/

/-- A text as the key of an ordered map: texts are compared octet by octet. -/
structure TextKey where
  text : Bytes

namespace TextKey

/-- The octets as numbers, which decide the order. -/
def rank (k : TextKey) : List ℕ := k.text.map UInt8.toNat

theorem rank_injective : Function.Injective rank := by
  intro k l h
  have htext : k.text = l.text := List.map_injective_iff.mpr (fun _ _ => UInt8.toNat_inj.mp) h
  cases k
  cases l
  exact congrArg mk htext

instance : LinearOrder TextKey := LinearOrder.lift' rank rank_injective

end TextKey
