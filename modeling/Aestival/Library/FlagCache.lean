import Aestival.Library.Runs
import Mathlib.Data.Finset.Basic
import Mathlib.Data.Set.Function

/-!
# Flags behind a cache

A table keeps a flag for each of many items; what has no row is on. In front of it stands a cache of
what was found off. Items are found in the cache by a key and in the table by a row, and neither
needs to tell all items apart.

`FlagCache.answers_iff` says how far such a store can be trusted: calls about the items of a set are
always answered with the value that was set last if, and only if, both keys and rows tell the items
of the set apart.
-/

/-- The keys found off, and the rows of the table. -/
structure FlagCache (κ ρ : Type) where
  off : Finset κ
  table : ρ → Option Bool

namespace FlagCache

/-- A call about an item: look its flag up, or set it. -/
inductive Call (α : Type) where
  | get (a : α)
  | set (a : α) (flag : Bool)

/-- The item of a call. -/
def Call.item {α : Type} : Call α → α
  | get a => a
  | set a _ => a

/-- The flag a call sets for `a`. -/
def Call.sets {α : Type} [DecidableEq α] (a : α) : Call α → Option Bool
  | get _ => none
  | set b flag => if b = a then some flag else none

/-- The flag that was set last for `a`; a flag that was never set is on. -/
def expected {α : Type} [DecidableEq α] (calls : List (Call α)) (a : α) : Bool :=
  (latest (Call.sets a) calls).getD true

section Store

variable {α κ ρ : Type} [DecidableEq κ] (key : α → κ) (row : α → ρ)

/-- The flag of an item: what the cache has is off, everything else is as the table says. -/
def flag (s : FlagCache κ ρ) (a : α) : Bool :=
  if key a ∈ s.off then false else (s.table (row a)).getD true

/-- For the items of `S` the table has the flags `f`, and the cache has only what is off. -/
structure Agrees (S : Set α) (f : α → Bool) (s : FlagCache κ ρ) : Prop where
  table : ∀ a ∈ S, (s.table (row a)).getD true = f a
  off : ∀ a ∈ S, key a ∈ s.off → f a = false

variable {S : Set α} {f : α → Bool} {s : FlagCache κ ρ}

variable {key row} in
theorem Agrees.flag_eq (h : Agrees key row S f s) {a : α} (ha : a ∈ S) :
    s.flag key row a = f a := by
  rw [flag]
  split
  · next hoff => exact (h.off a ha hoff).symm
  · exact h.table a ha

/-! ### Calls -/

variable [DecidableEq ρ]

/-- What a call leaves. A look-up remembers what it finds off, and setting a flag writes the table
and the cache. -/
def exec (s : FlagCache κ ρ) : Call α → FlagCache κ ρ
  | .get a => if s.flag key row a then s else { s with off := insert (key a) s.off }
  | .set a true => ⟨s.off.erase (key a), Function.update s.table (row a) (some true)⟩
  | .set a false => ⟨insert (key a) s.off, Function.update s.table (row a) (some false)⟩

/-- One call after the other. -/
def execAll (s : FlagCache κ ρ) (calls : List (Call α)) : FlagCache κ ρ :=
  calls.foldl (exec key row) s

/-- The store that nothing was set in. -/
def empty : FlagCache κ ρ := ⟨∅, fun _ => none⟩

theorem execAll_concat (s : FlagCache κ ρ) (calls : List (Call α)) (c : Call α) :
    s.execAll key row (calls ++ [c]) = (s.execAll key row calls).exec key row c := by
  rw [execAll, List.foldl_append]
  rfl

/-! ### What calls keep -/

variable {key row}

/-- A look-up adds only what is off. -/
theorem Agrees.get (h : Agrees key row S f s) (hkey : S.InjOn key) {b : α} (hb : b ∈ S) :
    Agrees key row S f (s.exec key row (.get b)) := by
  rw [exec]
  split
  · exact h
  · next hflag =>
    refine ⟨h.table, fun a ha hoff => ?_⟩
    rcases Finset.mem_insert.mp hoff with heq | hoff
    · obtain rfl := hkey ha hb heq
      rw [← h.flag_eq ha]
      exact Bool.eq_false_of_not_eq_true hflag
    · exact h.off a ha hoff

/-- Setting a flag reaches its own item and no other. -/
theorem Agrees.set [DecidableEq α] (h : Agrees key row S f s) (hkey : S.InjOn key)
    (hrow : S.InjOn row) {b : α} (hb : b ∈ S) (v : Bool) :
    Agrees key row S (Function.update f b v) (s.exec key row (.set b v)) := by
  -- one row of the table is one flag, as rows are told apart
  have htable : ∀ a ∈ S, (Function.update s.table (row b) (some v) (row a)).getD true =
      Function.update f b v a := by
    intro a ha
    by_cases hab : a = b
    · rw [hab, Function.update_self, Function.update_self, Option.getD_some]
    · have hne : row a ≠ row b := fun heq => hab (hrow ha hb heq)
      rw [Function.update_of_ne hne, Function.update_of_ne hab]
      exact h.table a ha
  cases v with
  | true =>
    refine ⟨htable, fun a ha hoff => ?_⟩
    obtain ⟨hne, hoff⟩ := Finset.mem_erase.mp hoff
    have hab : a ≠ b := fun hab => hne (congrArg key hab)
    rw [Function.update_of_ne hab]
    exact h.off a ha hoff
  | false =>
    refine ⟨htable, fun a ha hoff => ?_⟩
    by_cases hab : a = b
    · rw [hab, Function.update_self]
    · rw [Function.update_of_ne hab]
      refine h.off a ha ((Finset.mem_insert.mp hoff).resolve_left fun heq => hab ?_)
      -- and so is one key of the cache
      exact hkey ha hb heq

/-- What is switched off takes everything of its key or its row with it. -/
theorem flag_of_collision {a b : α} (h : key a = key b ∨ row a = row b) :
    (empty.execAll key row [.set b false]).flag key row a = false := by
  have hstore : empty.execAll key row [.set b false] =
      ⟨insert (key b) ∅, Function.update (fun _ => none) (row b) (some false)⟩ := rfl
  rw [hstore, flag]
  split
  · rfl
  · next hoff =>
    rcases h with hkey | hrow
    · exact absurd (Finset.mem_insert.mpr (.inl hkey)) hoff
    · simp only [hrow, Function.update_self, Option.getD_some]

variable [DecidableEq α]

theorem expected_concat_get (calls : List (Call α)) (b : α) :
    expected (calls ++ [.get b]) = expected calls := by
  funext a
  rw [expected, latest_concat]
  rfl

theorem expected_concat_set (calls : List (Call α)) (b : α) (v : Bool) :
    expected (calls ++ [.set b v]) = Function.update (expected calls) b v := by
  funext a
  rw [expected, latest_concat, Call.sets]
  by_cases hab : b = a
  · rw [if_pos hab, hab, Function.update_self]
    rfl
  · rw [if_neg hab, Function.update_of_ne (Ne.symm hab)]
    rfl

/-- After calls about items that are told apart, the store has what was set last. -/
theorem agrees_execAll (hkey : S.InjOn key) (hrow : S.InjOn row) {calls : List (Call α)}
    (hcalls : ∀ c ∈ calls, c.item ∈ S) :
    Agrees key row S (expected calls) (empty.execAll key row calls) := by
  induction calls using List.reverseRecOn with
  | nil => exact ⟨fun _ _ => rfl, fun a _ hoff => absurd hoff (Finset.notMem_empty _)⟩
  | append_singleton calls c ih =>
    have hbefore := ih fun c' hc' => hcalls c' (List.mem_append_left _ hc')
    have hc := hcalls c (List.mem_append_right _ (List.mem_singleton_self c))
    rw [execAll_concat]
    cases c with
    | get b =>
      rw [expected_concat_get]
      exact hbefore.get hkey hc
    | set b v =>
      rw [expected_concat_set]
      exact hbefore.set hkey hrow hc v

/-- **The store answers with what was set last for the items that keys and rows tell apart**, and
for no larger set of items. -/
theorem answers_iff (S : Set α) :
    (∀ calls : List (Call α), (∀ c ∈ calls, c.item ∈ S) → ∀ a ∈ S,
      (empty.execAll key row calls).flag key row a = expected calls a) ↔
    S.InjOn key ∧ S.InjOn row := by
  constructor
  · intro h
    -- of two items with one key or one row, one is switched off, and the other is off as well
    have hsame : ∀ a ∈ S, ∀ b ∈ S, key a = key b ∨ row a = row b → a = b := by
      intro a ha b hb hcollide
      by_contra hne
      have hon := h [.set b false] (fun c hc => by rwa [List.mem_singleton.mp hc]) a ha
      rw [flag_of_collision hcollide, expected, latest, List.reverse_singleton,
        List.findSome?_singleton, Call.sets, if_neg (Ne.symm hne)] at hon
      exact Bool.noConfusion hon
    exact ⟨fun a ha b hb heq => hsame a ha b hb (.inl heq),
      fun a ha b hb heq => hsame a ha b hb (.inr heq)⟩
  · rintro ⟨hkey, hrow⟩ calls hcalls a ha
    exact (agrees_execAll hkey hrow hcalls).flag_eq ha

end Store

end FlagCache
