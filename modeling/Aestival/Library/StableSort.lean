import Mathlib.Data.List.Sort

/-!
# Stable sorting

`stableSort key` orders a list by falling keys, and leaves the elements of one key in the order they
had. These two properties determine the result (`eq_of_sortedBy`), so elements may be put into a
sorted list one by one, the list being sorted again each time (`stableSort_append`).
-/

namespace StableSort

variable {α κ : Type} [LinearOrder κ] {key : α → κ}

/-- The keys never rise. -/
def SortedBy (key : α → κ) (l : List α) : Prop := l.Pairwise fun a b => key b ≤ key a

/-- The elements of one key, in the order of the list. -/
def ofKey (key : α → κ) (k : κ) (l : List α) : List α := l.filter fun a => key a = k

/-- Sort by falling keys. -/
def stableSort (key : α → κ) (l : List α) : List α := l.insertionSort fun a b => key b ≤ key a

theorem perm_stableSort (l : List α) : (stableSort key l).Perm l := List.perm_insertionSort _ l

@[simp] theorem mem_stableSort {l : List α} {a : α} : a ∈ stableSort key l ↔ a ∈ l :=
  (perm_stableSort l).mem_iff

theorem sortedBy_stableSort (l : List α) : SortedBy key (stableSort key l) := by
  have htotal : Std.Total fun a b : α => key b ≤ key a := ⟨fun a b => le_total (key b) (key a)⟩
  have htrans : IsTrans α fun a b => key b ≤ key a := ⟨fun a b c hab hbc => hbc.trans hab⟩
  exact List.pairwise_insertionSort _ l

theorem ofKey_cons (k : κ) (a : α) (l : List α) :
    ofKey key k (a :: l) = if key a = k then a :: ofKey key k l else ofKey key k l := by
  simp only [ofKey, List.filter_cons, decide_eq_true_eq]

theorem ofKey_append (k : κ) (l l' : List α) :
    ofKey key k (l ++ l') = ofKey key k l ++ ofKey key k l' :=
  List.filter_append ..

theorem mem_ofKey {k : κ} {a : α} {l : List α} : a ∈ ofKey key k l ↔ a ∈ l ∧ key a = k := by
  rw [ofKey, List.mem_filter, decide_eq_true_eq]

/-- What is inserted comes in front of the elements of its key, and moves no other. -/
theorem ofKey_orderedInsert (k : κ) (a : α) (l : List α) :
    ofKey key k (l.orderedInsert (fun a b => key b ≤ key a) a) = ofKey key k (a :: l) := by
  induction l with
  | nil => rfl
  | cons b l ih =>
    rw [List.orderedInsert_cons]
    split
    · rfl
    · next hab =>
      -- `b` has a greater key than `a`, so only one of the two can be of the key
      simp only [ofKey_cons, ih]
      by_cases ha : key a = k
      · have hb : key b ≠ k := fun hb => hab (hb.trans ha.symm).le
        rw [if_neg hb, if_neg hb]
      · rw [if_neg ha, if_neg ha]

/-- **Sorting is stable**: the elements of one key stay in their order. -/
theorem ofKey_stableSort (k : κ) (l : List α) : ofKey key k (stableSort key l) = ofKey key k l := by
  induction l with
  | nil => rfl
  | cons a l ih =>
    calc ofKey key k (stableSort key (a :: l))
        = ofKey key k (a :: stableSort key l) := ofKey_orderedInsert k a _
      _ = ofKey key k (a :: l) := by rw [ofKey_cons, ih, ofKey_cons]

/-- The first element of a sorted list has the greatest key. -/
theorem SortedBy.key_le_head {a b : α} {l : List α} (h : SortedBy key (a :: l)) (hb : b ∈ a :: l) :
    key b ≤ key a := by
  rcases List.mem_cons.mp hb with rfl | hb
  · exact le_rfl
  · exact (List.pairwise_cons.mp h).1 b hb

/-- A sorted list is determined by its elements of each key. -/
theorem eq_of_sortedBy {l l' : List α} (h : SortedBy key l) (h' : SortedBy key l')
    (heq : ∀ k, ofKey key k l = ofKey key k l') : l = l' := by
  have hmem : ∀ b, b ∈ l ↔ b ∈ l' := by
    intro b
    have hb := congrArg (b ∈ ·) (heq (key b))
    simpa only [mem_ofKey, and_true, eq_iff_iff] using hb
  induction l generalizing l' with
  | nil =>
    refine (List.eq_nil_iff_forall_not_mem.mpr fun b hb => ?_).symm
    exact absurd ((hmem b).mpr hb) List.not_mem_nil
  | cons a l ih =>
    cases l' with
    | nil => exact absurd ((hmem a).mp List.mem_cons_self) List.not_mem_nil
    | cons b l' =>
      -- both heads have the greatest key, and are the first element of it
      have hkey : key a = key b :=
        le_antisymm (h'.key_le_head ((hmem a).mp List.mem_cons_self))
          (h.key_le_head ((hmem b).mpr List.mem_cons_self))
      have hhead := heq (key a)
      rw [ofKey_cons, if_pos rfl, ofKey_cons, if_pos hkey.symm] at hhead
      obtain rfl : a = b := (List.cons.inj hhead).1
      have htail : ∀ k, ofKey key k l = ofKey key k l' := by
        intro k
        have hk := heq k
        rw [ofKey_cons, ofKey_cons] at hk
        split at hk
        · exact (List.cons.inj hk).2
        · exact hk
      have hrest : ∀ c, c ∈ l ↔ c ∈ l' := by
        intro c
        have hc := congrArg (c ∈ ·) (htail (key c))
        simpa only [mem_ofKey, and_true, eq_iff_iff] using hc
      rw [ih (List.pairwise_cons.mp h).2 (List.pairwise_cons.mp h').2 htail hrest]

/-- The result of sorting is the only sorted list with these elements of each key. -/
theorem eq_stableSort {l s : List α} (hs : SortedBy key s)
    (heq : ∀ k, ofKey key k s = ofKey key k l) : s = stableSort key l :=
  eq_of_sortedBy hs (sortedBy_stableSort l) fun k => (heq k).trans (ofKey_stableSort k l).symm

/-- Of what is sorted again and again, every part keeps its order. -/
theorem stableSort_append (l l' : List α) :
    stableSort key (stableSort key l ++ l') = stableSort key (l ++ l') := by
  apply eq_stableSort (sortedBy_stableSort _)
  intro k
  calc ofKey key k (stableSort key (stableSort key l ++ l'))
      = ofKey key k (stableSort key l) ++ ofKey key k l' := by rw [ofKey_stableSort, ofKey_append]
    _ = ofKey key k (l ++ l') := by rw [ofKey_stableSort, ofKey_append]

/-- What is computed from the elements may be sorted with them. -/
theorem stableSort_map {β : Type} (f : β → α) (l : List β) :
    stableSort key (l.map f) = (stableSort (key ∘ f) l).map f :=
  (List.map_insertionSort _ _ f l fun _ _ _ _ => Iff.rfl).symm

end StableSort
