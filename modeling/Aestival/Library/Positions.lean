import Mathlib.Data.List.Basic
import Mathlib.Data.List.Induction

/-!
# Positions in a list

A position of a list is an element with the elements before it (`positions`). What a loop over the
list produces is then a function of the position, and two such functions are compared position by
position: where one of them only ever leaves something out, equal lists of results mean equal
results everywhere (`filterMap_eq_filterMap_iff`).
-/

variable {α β : Type}

/-- The elements of a list behind `before`, each with everything before it. -/
def positionsFrom : List α → List α → List (List α × α)
  | _, [] => []
  | before, a :: l => (before, a) :: positionsFrom (before ++ [a]) l

/-- The elements of a list, each with the elements before it. -/
def positions (l : List α) : List (List α × α) := positionsFrom [] l

theorem positionsFrom_concat (before l : List α) (a : α) :
    positionsFrom before (l ++ [a]) = positionsFrom before l ++ [(before ++ l, a)] := by
  induction l generalizing before with
  | nil => simp [positionsFrom]
  | cons b l ih =>
    rw [List.cons_append, positionsFrom, ih, positionsFrom, List.append_assoc]
    rfl

theorem positions_concat (l : List α) (a : α) :
    positions (l ++ [a]) = positions l ++ [(l, a)] := positionsFrom_concat [] l a

theorem mem_positions {l before : List α} {a : α} :
    (before, a) ∈ positions l ↔ ∃ after, l = before ++ a :: after := by
  induction l using List.reverseRecOn with
  | nil => simp [positions, positionsFrom]
  | append_singleton l b ih =>
    rw [positions_concat, List.mem_append, ih, List.mem_singleton, Prod.mk.injEq]
    constructor
    · rintro (⟨after, rfl⟩ | ⟨rfl, rfl⟩)
      · exact ⟨after ++ [b], by simp⟩
      · exact ⟨[], rfl⟩
    · rintro ⟨after, heq⟩
      -- the position is the last one, or it is in front of `b`
      rcases List.eq_nil_or_concat after with rfl | ⟨after, c, rfl⟩
      · obtain ⟨rfl, hb⟩ := List.append_inj' heq rfl
        exact .inr ⟨rfl, (List.cons.inj hb).1.symm⟩
      · rw [List.concat_eq_append, ← List.cons_append, ← List.append_assoc] at heq
        exact .inl ⟨after, (List.append_inj' heq rfl).1⟩

/-- What leaves out more has fewer results. -/
theorem length_filterMap_le {f g : α → Option β} {l : List α}
    (h : ∀ a ∈ l, f a = g a ∨ f a = none) : (l.filterMap f).length ≤ (l.filterMap g).length := by
  induction l with
  | nil => exact Nat.le_refl _
  | cons a l ih =>
    have hrest := ih fun b hb => h b (List.mem_cons_of_mem a hb)
    rcases h a List.mem_cons_self with heq | hnone
    · rw [List.filterMap_cons, List.filterMap_cons, heq]
      cases g a with
      | none => exact hrest
      | some b => exact Nat.succ_le_succ hrest
    · rw [List.filterMap_cons_none hnone]
      calc (l.filterMap f).length ≤ (l.filterMap g).length := hrest
        _ ≤ ((a :: l).filterMap g).length := ((List.sublist_cons_self a l).filterMap g).length_le

/-- **Of two functions of which one only leaves results out, the results are equal exactly if the
functions are.** -/
theorem filterMap_eq_filterMap_iff {f g : α → Option β} {l : List α}
    (h : ∀ a ∈ l, f a = g a ∨ f a = none) :
    l.filterMap f = l.filterMap g ↔ ∀ a ∈ l, f a = g a := by
  constructor
  · intro heq
    induction l with
    | nil => exact fun a ha => absurd ha List.not_mem_nil
    | cons a l ih =>
      have hl : ∀ b ∈ l, f b = g b ∨ f b = none := fun b hb => h b (List.mem_cons_of_mem a hb)
      have ha : f a = g a := by
        rcases h a List.mem_cons_self with ha | hnone
        · exact ha
        · rw [hnone]
          cases hg : g a with
          | none => rfl
          | some b =>
            -- then `f` would have fewer results
            have hlength := congrArg List.length heq
            rw [List.filterMap_cons_none hnone, List.filterMap_cons_some hg, List.length_cons]
              at hlength
            exact absurd (length_filterMap_le hl) (by omega)
      have hrest : l.filterMap f = l.filterMap g := by
        rw [List.filterMap_cons, List.filterMap_cons, ha] at heq
        cases hg : g a with
        | none => rwa [hg] at heq
        | some b =>
          rw [hg] at heq
          exact (List.cons.inj heq).2
      exact List.forall_mem_cons.mpr ⟨ha, ih hl hrest⟩
  · exact fun heq => List.filterMap_congr heq
