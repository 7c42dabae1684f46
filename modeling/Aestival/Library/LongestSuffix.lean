import Mathlib.Data.List.Infix

/-!
# Longest suffixes

A queue that takes elements at its end and gives them up at its front holds, of all it has been
given, a suffix. When elements are given up only for a reason that later ones do not remove, it is
the longest suffix of some kind (`LongestSuffix`), and this is proved one operation at a time:
`LongestSuffix.concat` for an element that is added, `LongestSuffix.and` for a condition that is
enforced behind another one, `longestSuffix_dropWhile` and `longestSuffix_of_length` for two ways to
enforce one.
-/

variable {α : Type} {ok ok' : List α → Prop} {l s t : List α}

/-- `s` is the longest suffix of `l` that is `ok`. -/
structure LongestSuffix (ok : List α → Prop) (l s : List α) : Prop where
  suffix : s <:+ l
  holds : ok s
  longest : ∀ t, t <:+ l → ok t → t <:+ s

namespace LongestSuffix

/-- One more element. -/
theorem concat {a : α} (h : LongestSuffix ok l s) (h' : LongestSuffix ok' (s ++ [a]) t)
    (hok : ∀ t, ok' (t ++ [a]) → ok t) : LongestSuffix ok' (l ++ [a]) t where
  suffix := h'.suffix.trans (List.suffix_append_self_iff.mpr h.suffix)
  holds := h'.holds
  longest u hu hu' := by
    refine h'.longest u ?_ hu'
    rcases List.suffix_concat_iff.mp hu with rfl | ⟨v, rfl, hv⟩
    · exact List.nil_suffix
    · exact List.suffix_append_self_iff.mpr (h.longest v hv (hok v hu'))

/-- Two conditions, one enforced behind the other, where the first one holds of every suffix of a
list it holds of. -/
theorem and (h : LongestSuffix ok l s) (h' : LongestSuffix ok' s t)
    (hok : ∀ t, t <:+ s → ok t) : LongestSuffix (fun t => ok t ∧ ok' t) l t where
  suffix := h'.suffix.trans h.suffix
  holds := ⟨hok t h'.suffix, h'.holds⟩
  longest u hu hu' := h'.longest u (h.longest u hu hu'.1) hu'.2

end LongestSuffix

/-- Elements are given up at the front as long as they should go. Those behind the first one that
may stay may stay too. -/
theorem longestSuffix_dropWhile {p : α → Bool} (h : ∀ a ∈ l.dropWhile p, p a = false) :
    LongestSuffix (fun t => ∀ a ∈ t, p a = false) l (l.dropWhile p) where
  suffix := List.dropWhile_suffix p
  holds := h
  longest t ht hok := by
    obtain ⟨front, rfl⟩ := ht
    rw [List.dropWhile_append]
    split
    · cases t with
      | nil => exact List.nil_suffix
      | cons a t => rw [List.dropWhile_cons_of_neg (by simp [hok a List.mem_cons_self])]
    · exact List.suffix_append _ _

/-- A suffix of at most `n` elements is the longest one when it has `n`, or is the whole list. -/
theorem longestSuffix_of_length {n : Nat} (hs : s <:+ l) (hle : s.length ≤ n)
    (hfull : s = l ∨ s.length = n) : LongestSuffix (fun t => t.length ≤ n) l s where
  suffix := hs
  holds := hle
  longest t ht hlength := by
    rcases hfull with rfl | hfull
    · exact ht
    · exact List.suffix_of_suffix_length_le ht hs (hfull ▸ hlength)
