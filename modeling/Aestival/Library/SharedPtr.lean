import Mathlib.Data.Finset.Basic

/-!
# Shared ownership

An object that several holders share lives as long as somebody holds it, and whoever lets go of it
last destroys it. A holder that does not own the object, such as a weak reference, can become a
holder while the object lives.

Some holders may be unable to destroy the object, because what the destructor waits for waits for
them. The object is `KeptBy` the others, when one of these holds it as long as anyone does. Then no
holder of the first kind is ever the last one (`KeptBy.keeper_of_last`), and the rules say which
acquisitions and releases keep it that way.
-/

variable {O : Type}

/-- As long as somebody holds the object, a keeper does. -/
def KeptBy (K : O → Prop) (holders : Finset O) : Prop :=
  holders.Nonempty → ∃ o ∈ holders, K o

/-- The release of a holder that leaves the object to keepers, or to nobody. -/
def LeavesKept (K : O → Prop) (holders : Finset O) (o : O) : Prop :=
  (∃ o' ∈ holders, o' ≠ o ∧ K o') ∨ ∀ o' ∈ holders, K o'

namespace KeptBy

variable {K : O → Prop} {holders : Finset O} {o : O}

theorem singleton (h : K o) : KeptBy K {o} :=
  fun _ => ⟨o, Finset.mem_singleton_self o, h⟩

variable [DecidableEq O]

/-- A holder of a living object is copied, or a weak reference is locked. -/
theorem insert (h : KeptBy K holders) (hne : holders.Nonempty) (o : O) :
    KeptBy K (insert o holders) := by
  intro _
  obtain ⟨o', ho', hK⟩ := h hne
  exact ⟨o', Finset.mem_insert_of_mem ho', hK⟩

/-- A holder that is no keeper lets go of the object. -/
theorem erase_guest (h : KeptBy K holders) (ho : ¬ K o) : KeptBy K (holders.erase o) := by
  intro hne
  obtain ⟨o', ho', hK⟩ := h (hne.mono (Finset.erase_subset o holders))
  have hother : o' ≠ o := fun heq => ho (heq ▸ hK)
  exact ⟨o', Finset.mem_erase_of_ne_of_mem hother ho', hK⟩

/-- A holder lets go of the object and leaves it to keepers, or to nobody. -/
theorem erase (h : LeavesKept K holders o) : KeptBy K (holders.erase o) := by
  rintro ⟨o', ho'⟩
  rcases h with ⟨k, hk, hother, hK⟩ | hall
  · exact ⟨k, Finset.mem_erase_of_ne_of_mem hother hk, hK⟩
  · exact ⟨o', ho', hall o' (Finset.mem_of_mem_erase ho')⟩

/-- **The last holder is a keeper.** -/
theorem keeper_of_last (h : KeptBy K holders) (ho : o ∈ holders) (hlast : holders.erase o = ∅) :
    K o := by
  obtain ⟨o', ho', hK⟩ := h ⟨o, ho⟩
  have hsame : o' = o := by
    by_contra hother
    have hmem : o' ∈ holders.erase o := Finset.mem_erase_of_ne_of_mem hother ho'
    rw [hlast] at hmem
    exact absurd hmem (Finset.notMem_empty o')
  exact hsame ▸ hK

end KeptBy
