import Mathlib.Data.List.Infix

/-!
# Pairs of brackets, erased once

Words of opening and closing brackets. `cancel` erases each opening bracket together with a closing
one right behind it, in a single pass from left to right. What is erased may bring together a new
pair, which stays.

A closing bracket is left when the word starts with one or has two in a row
(`closing_mem_cancel_iff`). One is left behind an opening bracket when two opening brackets in a row
come before two closing ones (`pair_sublist_cancel_iff`).
-/

/-- A bracket, of one kind. -/
inductive AngleBracket where
  | opening
  | closing
  deriving DecidableEq, Repr

namespace AngleBracket

/-- A word without its pairs. -/
def cancel : List AngleBracket → List AngleBracket
  | opening :: closing :: w => cancel w
  | x :: w => x :: cancel w
  | [] => []

theorem cancel_pair (w : List AngleBracket) : cancel (opening :: closing :: w) = cancel w := by
  rw [cancel]

theorem cancel_closing (w : List AngleBracket) : cancel (closing :: w) = closing :: cancel w := by
  rw [cancel]
  exact nofun

/-- An opening bracket stays if no closing one is behind it. -/
theorem cancel_opening {w : List AngleBracket} (h : w.head? ≠ some closing) :
    cancel (opening :: w) = opening :: cancel w := by
  rw [cancel]
  rintro v - rfl
  exact h rfl

/-- The cases of the pass: the end, a pair, a bracket that stays. -/
@[elab_as_elim]
theorem cancel_induction {P : List AngleBracket → Prop} (nil : P [])
    (pair : ∀ w, P w → P (opening :: closing :: w))
    (close : ∀ w, P w → P (closing :: w))
    (opened : ∀ w, w.head? ≠ some closing → P w → P (opening :: w)) (w : List AngleBracket) :
    P w := by
  induction w using cancel.induct with
  | case1 w ih => exact pair w ih
  | case2 x w hnot ih =>
    cases x with
    | closing => exact close w ih
    | opening =>
      refine opened w (fun hhead => ?_) ih
      obtain ⟨v, rfl⟩ := List.head?_eq_some_iff.mp hhead
      exact hnot v rfl rfl
  | case3 => exact nil

/-- An opening bracket with another one behind it can be spared for a pair. -/
theorem pair_sublist_of_opening {w : List AngleBracket} (hw : w.head? ≠ some closing)
    (h : [opening, closing].Sublist (opening :: w)) : [opening, closing].Sublist w := by
  have hclosing := List.singleton_sublist.mp (List.cons_sublist_cons.mp h)
  cases w with
  | nil => exact nomatch hclosing
  | cons y w =>
    cases y with
    | closing => exact absurd rfl hw
    | opening =>
      refine List.cons_sublist_cons.mpr (List.singleton_sublist.mpr ?_)
      exact (List.mem_cons.mp hclosing).resolve_left nofun

/-- A closing bracket is left if it is the first one of the word or the second of two in a row. -/
theorem closing_mem_cancel_iff {w : List AngleBracket} :
    closing ∈ cancel w ↔ w.head? = some closing ∨ [closing, closing] <:+: w := by
  induction w using cancel_induction with
  | nil => simp [cancel]
  | pair w ih =>
    rw [cancel_pair, ih, List.infix_cons_iff, List.infix_cons_iff, List.cons_prefix_cons,
      List.cons_prefix_cons]
    -- the pair that is gone stood in front of `w`
    cases w with
    | nil => simp
    | cons y w => simp [List.cons_prefix_cons, eq_comm]
  | close w ih =>
    rw [cancel_closing]
    exact iff_of_true List.mem_cons_self (.inl rfl)
  | opened w hw ih =>
    rw [cancel_opening hw, List.mem_cons, ih, List.infix_cons_iff, List.cons_prefix_cons]
    simp [hw]

/-- Two opening brackets in a row come before two closing ones. -/
def Doubled (w : List AngleBracket) : Prop :=
  ∃ u v z, w = u ++ opening :: opening :: v ++ closing :: closing :: z

theorem doubled_cons_closing {w : List AngleBracket} : Doubled (closing :: w) ↔ Doubled w := by
  constructor
  · rintro ⟨u, v, z, h⟩
    cases u with
    | nil => exact nomatch h
    | cons x u => exact ⟨u, v, z, (List.cons.inj h).2⟩
  · rintro ⟨u, v, z, rfl⟩
    exact ⟨closing :: u, v, z, rfl⟩

/-- With another opening bracket behind the first, two closing ones are all it takes. -/
theorem doubled_cons_opening {w : List AngleBracket} :
    Doubled (opening :: w) ↔
      w.head? = some opening ∧ [closing, closing] <:+: w ∨ Doubled w := by
  constructor
  · rintro ⟨u, v, z, h⟩
    cases u with
    | nil =>
      obtain ⟨-, rfl⟩ := List.cons.inj h
      exact .inl ⟨rfl, opening :: v, z, by simp⟩
    | cons x u => exact .inr ⟨u, v, z, (List.cons.inj h).2⟩
  · rintro (⟨hhead, u, z, rfl⟩ | ⟨u, v, z, rfl⟩)
    · cases u with
      | nil => exact nomatch hhead
      | cons x u =>
        obtain rfl : x = opening := Option.some.inj hhead
        exact ⟨[], u, z, by simp⟩
    · exact ⟨opening :: u, v, z, rfl⟩

theorem Doubled.closing_closing {w : List AngleBracket} (h : Doubled w) :
    [closing, closing] <:+: w := by
  obtain ⟨u, v, z, rfl⟩ := h
  exact ⟨u ++ opening :: opening :: v, z, by simp⟩

/-- **A pair is left over exactly where two opening brackets in a row come before two closing
ones.** -/
theorem pair_sublist_cancel_iff {w : List AngleBracket} :
    [opening, closing].Sublist (cancel w) ↔ Doubled w := by
  induction w using cancel_induction with
  | nil =>
    refine iff_of_false nofun ?_
    rintro ⟨u, v, z, h⟩
    exact absurd h (by simp)
  | pair w ih =>
    rw [cancel_pair, ih, doubled_cons_opening, doubled_cons_closing]
    simp
  | close w ih =>
    rw [cancel_closing, doubled_cons_closing, List.cons_sublist_cons', ih]
    simp
  | opened w hw ih =>
    -- an opening bracket that stays makes a pair with any closing one that is left
    rw [cancel_opening hw, List.cons_sublist_cons, List.singleton_sublist, closing_mem_cancel_iff,
      or_iff_right hw, doubled_cons_opening]
    constructor
    · intro h
      refine .inl ⟨?_, h⟩
      cases w with
      | nil => exact absurd h (by simp)
      | cons x w =>
        cases x with
        | opening => rfl
        | closing => exact absurd rfl hw
    · exact fun h => h.elim And.right Doubled.closing_closing

end AngleBracket
