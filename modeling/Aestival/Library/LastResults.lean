import Mathlib.Data.List.DropRight

/-!
# The last results of two searches

Two filters let the same last elements through if both let the last ones through that one of them
does (`rtake_filter_eq_iff`).

Two functions search a list, and of each search the last `n` results are taken. Behind either list
of results stand those of the elements on which the functions agree, so a difference shows only
where fewer than `n` results stand behind it (`AgreeAtEnd`). Where just one of the functions has a
result, the results in front may still make up for the difference (`MadeUp`).

`rtake_filterMap_eq_iff` has both lists of results begin with some that come from elsewhere.
-/

variable {α β : Type}

theorem List.rtake_append (l m : List α) (n : Nat) :
    (l ++ m).rtake n = l.rtake (n - m.length) ++ m.rtake n := by
  rw [List.rtake_eq_reverse_take_reverse, List.rtake_eq_reverse_take_reverse,
    List.rtake_eq_reverse_take_reverse, List.reverse_append, List.take_append, List.reverse_append,
    List.length_reverse]

/-- What comes last in both lists does not tell them apart. -/
theorem rtake_append_eq_iff (l k m : List α) (n : Nat) :
    (l ++ m).rtake n = (k ++ m).rtake n ↔ l.rtake (n - m.length) = k.rtake (n - m.length) := by
  rw [List.rtake_append, List.rtake_append, List.append_left_inj]

theorem rtake_eq_nil_iff (l : List α) (n : Nat) : l.rtake n = [] ↔ n = 0 ∨ l = [] := by
  rw [List.rtake, List.drop_eq_nil_iff, ← List.length_eq_zero_iff]
  omega

theorem rtake_eq_singleton_iff {l : List α} {n : Nat} {x : α} (hn : 0 < n) :
    l.rtake n = [x] ↔ l.getLast? = some x ∧ (n = 1 ∨ l.length = 1) := by
  obtain ⟨n, rfl⟩ := Nat.exists_eq_succ_of_ne_zero (Nat.ne_of_gt hn)
  rcases List.eq_nil_or_concat l with rfl | ⟨l, y, rfl⟩
  · rw [List.rtake_nil]
    exact ⟨nofun, fun h => nomatch h.1⟩
  · rw [List.concat_eq_append, List.rtake_concat_succ, List.append_eq_singleton_iff,
      rtake_eq_nil_iff, List.getLast?_concat]
    simp [and_comm]

section

variable {p r : α → Bool} {l : List α} {k : Nat}

/-- Two filters let the same first elements through if both let the first ones through that one of
them does. -/
theorem take_filter_eq_iff : (l.filter p).take k = (l.filter r).take k ↔
    ∀ x ∈ (l.filter fun x => p x || r x).take k, p x = true ∧ r x = true := by
  induction l generalizing k with
  | nil => simp
  | cons x l ih =>
    cases k with
    | zero => simp
    | succ k =>
      -- both let it through, one of them does, or none
      cases hp : p x <;> cases hr : r x
      · simpa [hp, hr] using ih
      · -- the first one of `r` is not let through by `p`
        simp only [List.filter_cons, hp, hr, Bool.false_eq_true, if_true, if_false, Bool.or_true,
          List.take_succ_cons, List.forall_mem_cons, false_and, iff_false]
        intro h
        have hmem : x ∈ (l.filter p).take (k + 1) := h ▸ List.mem_cons_self
        exact absurd (List.mem_filter.mp (List.mem_of_mem_take hmem)).2 (by simp [hp])
      -- nor is the first one of `p` by `r`
      · simp only [List.filter_cons, hp, hr, Bool.false_eq_true, if_true, if_false, Bool.or_false,
          List.take_succ_cons, List.forall_mem_cons, and_false, false_and, iff_false]
        intro h
        have hmem : x ∈ (l.filter r).take (k + 1) := h ▸ List.mem_cons_self
        exact absurd (List.mem_filter.mp (List.mem_of_mem_take hmem)).2 (by simp [hr])
      · simpa [hp, hr] using ih

theorem rtake_filter_eq_iff : (l.filter p).rtake k = (l.filter r).rtake k ↔
    ∀ x ∈ (l.filter fun x => p x || r x).rtake k, p x = true ∧ r x = true := by
  simp only [List.rtake_eq_reverse_take_reverse, List.reverse_inj, ← List.filter_reverse,
    List.mem_reverse]
  exact take_filter_eq_iff

end

section

variable (f g : α → Option β)

/-- The functions agree on the elements that fewer than `n` results stand behind. -/
def AgreeAtEnd (n : Nat) (l : List α) : Prop :=
  ∀ front a behind, l = front ++ a :: behind → (behind.filterMap f).length < n → f a = g a

/-- Behind an element for which just one of the functions has a result, they agree; and what stands
in front makes the last results equal. -/
def MadeUp (first first' : List β) (n : Nat) (l : List α) : Prop :=
  ∃ front a behind, l = front ++ a :: behind ∧ (∀ b ∈ behind, f b = g b) ∧
    (behind.filterMap f).length < n ∧ (f a).isSome ≠ (g a).isSome ∧
    (first ++ (front ++ [a]).filterMap f).rtake (n - (behind.filterMap f).length) =
      (first' ++ (front ++ [a]).filterMap g).rtake (n - (behind.filterMap f).length)

variable {f g}

theorem exists_last_difference (l : List α) : (∀ a ∈ l, f a = g a) ∨
    ∃ front a behind, l = front ++ a :: behind ∧ f a ≠ g a ∧ ∀ b ∈ behind, f b = g b := by
  classical
  induction l with
  | nil => exact .inl nofun
  | cons a l ih =>
    -- a difference further behind comes later than one at `a`
    rcases ih with hall | ⟨front, b, behind, rfl, hb, hbehind⟩
    · by_cases ha : f a = g a
      · exact .inl (List.forall_mem_cons.mpr ⟨ha, hall⟩)
      · exact .inr ⟨[], a, l, rfl, ha, hall⟩
    · exact .inr ⟨a :: front, b, behind, rfl, hb, hbehind⟩

/-- Of two places in a list, one comes behind the other, or it has as much behind it. -/
theorem mem_or_longer {front front' behind behind' : List α} {a b : α}
    (h : front' ++ b :: behind' = front ++ a :: behind) :
    b ∈ behind ∨ ∃ between, behind' = between ++ behind := by
  rcases List.append_eq_append_iff.mp h with ⟨between, -, hrest⟩ | ⟨between, -, hrest⟩
  · cases between with
    | nil => exact .inr ⟨[], (List.cons.inj hrest).2⟩
    | cons c between => exact .inr ⟨between ++ [a], by simp [(List.cons.inj hrest).2]⟩
  · cases between with
    | nil => exact .inr ⟨[], (List.cons.inj hrest).2.symm⟩
    | cons c between =>
      obtain ⟨-, rfl⟩ := List.cons.inj hrest
      exact .inl (List.mem_append_right between List.mem_cons_self)

/-- What stands behind the last difference is the same for both. -/
theorem rtake_eq_iff_of_agree (first first' : List β) (front : List α) {behind : List α}
    (h : ∀ b ∈ behind, f b = g b) (n : Nat) :
    (first ++ (front ++ behind).filterMap f).rtake n =
        (first' ++ (front ++ behind).filterMap g).rtake n ↔
      (first ++ front.filterMap f).rtake (n - (behind.filterMap f).length) =
        (first' ++ front.filterMap g).rtake (n - (behind.filterMap f).length) := by
  rw [List.filterMap_append, List.filterMap_append, ← List.append_assoc, ← List.append_assoc,
    ← List.filterMap_congr h, rtake_append_eq_iff]

theorem rtake_eq_iff_of_forall (first first' : List β) {l : List α} (h : ∀ a ∈ l, f a = g a)
    (n : Nat) : (first ++ l.filterMap f).rtake n = (first' ++ l.filterMap g).rtake n ↔
      first.rtake (n - (l.filterMap f).length) = first'.rtake (n - (l.filterMap f).length) := by
  have hl := rtake_eq_iff_of_agree first first' [] h n
  rwa [List.nil_append, List.filterMap_nil, List.filterMap_nil, List.append_nil,
    List.append_nil] at hl

/-- **The last results of two searches are equal if and only if** the functions agree where it
matters and what the lists begin with makes no difference, or a difference is made up for. -/
theorem rtake_filterMap_eq_iff (first first' : List β) (n : Nat) (l : List α) :
    (first ++ l.filterMap f).rtake n = (first' ++ l.filterMap g).rtake n ↔
      AgreeAtEnd f g n l ∧ (n ≤ (l.filterMap f).length ∨
        first.rtake (n - (l.filterMap f).length) = first'.rtake (n - (l.filterMap f).length)) ∨
      MadeUp f g first first' n l := by
  -- the last element on which the functions differ decides
  rcases exists_last_difference (f := f) (g := g) l with
    hall | ⟨front, a, behind, rfl, ha, hbehind⟩
  · -- there is no difference
    rw [rtake_eq_iff_of_forall first first' hall]
    constructor
    · refine fun hfirst => .inl ⟨fun front a behind hl _ => ?_, .inr hfirst⟩
      exact hall a (hl ▸ List.mem_append_right front List.mem_cons_self)
    · rintro (⟨-, hn | hfirst⟩ | ⟨front, a, behind, rfl, -, -, hdiffer, -⟩)
      · rw [Nat.sub_eq_zero_of_le hn, List.rtake_zero, List.rtake_zero]
      · exact hfirst
      · rw [hall a (List.mem_append_right front List.mem_cons_self)] at hdiffer
        exact absurd rfl hdiffer
  -- from there on they agree
  · have hlist : front ++ a :: behind = (front ++ [a]) ++ behind := List.append_cons ..
    by_cases hn : n ≤ (behind.filterMap f).length
    · -- it comes too early to matter
      refine iff_of_true ?_ (.inl ⟨fun front' b behind' heq hlt => ?_, .inl (hn.trans ?_)⟩)
      · rw [hlist, rtake_eq_iff_of_agree first first' _ hbehind, Nat.sub_eq_zero_of_le hn,
          List.rtake_zero, List.rtake_zero]
      · rcases mem_or_longer heq.symm with hb | ⟨between, rfl⟩
        · exact hbehind b hb
        · rw [List.filterMap_append, List.length_append] at hlt
          omega
      · rw [hlist, List.filterMap_append, List.length_append]
        exact Nat.le_add_left _ _
    · have hlt := Nat.not_le.mp hn
      constructor
      · intro heq
        refine .inr ⟨front, a, behind, rfl, hbehind, hlt, fun hsome => ha ?_, ?_⟩
        · -- two results would have to be equal
          rw [hlist, rtake_eq_iff_of_agree first first' _ hbehind] at heq
          obtain ⟨k, hk⟩ := Nat.exists_eq_succ_of_ne_zero (Nat.sub_ne_zero_of_lt hlt)
          rw [hk, List.filterMap_append, List.filterMap_append, ← List.append_assoc,
            ← List.append_assoc] at heq
          cases hfa : f a with
          | none =>
            rw [hfa, Option.isSome_none] at hsome
            exact (Option.isNone_iff_eq_none.mp (by simpa using hsome)).symm
          | some x =>
            rw [hfa, Option.isSome_some] at hsome
            obtain ⟨y, hga⟩ := Option.isSome_iff_exists.mp hsome.symm
            rw [List.filterMap_cons_some hfa, List.filterMap_cons_some hga, List.filterMap_nil,
              List.filterMap_nil, List.rtake_concat_succ, List.rtake_concat_succ] at heq
            rw [hga, (List.append_singleton_inj.mp heq).2]
        · rwa [hlist, rtake_eq_iff_of_agree first first' _ hbehind] at heq
      · rintro (⟨hagree, -⟩ | ⟨front', b, behind', heq, hbehind', -, -, hmade⟩)
        · exact absurd (hagree front a behind rfl hlt) ha
        · rw [heq, List.append_cons, rtake_eq_iff_of_agree first first' _ hbehind']
          exact hmade

end
