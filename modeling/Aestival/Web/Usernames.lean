import Aestival.Web.Accounts
import Mathlib.Data.List.Perm.Subperm
import Mathlib.Order.Bounds.Basic

/-!
# Free usernames

`uniqueUsername` tries the base, and then the base with 2, 3 and so on behind it. Its loop has no
bound of its own. It comes to an end since the candidates are different names and the table is
finite: with as many rounds as there are users it never runs out of them.

* `ensures_uniqueUsername`: what the function does with any number of rounds.
* `uniqueUsername_ends`: with enough rounds it returns the first name that is free.
-/

namespace Aestival

/-! ### Names -/

/-- Some user has this name. -/
def AuthDb.HasName (db : AuthDb) (name : JsString) : Prop := name ∈ db.users.map UserRow.username

theorem AuthDb.findUsername_isSome {db : AuthDb} {name : JsString} :
    (db.findUsername name).isSome = true ↔ db.HasName name := by
  rw [findUsername, HasName, List.find?_isSome, List.mem_map]
  exact exists_congr fun u => and_congr_right fun _ => decide_eq_true_iff

/-- The names that the loop tries. -/
def candidate (base : JsString) (k : Nat) : JsString := base ++ js "-" ++ JsString.ofNat k

theorem candidate_injective (base : JsString) : Function.Injective (candidate base) := by
  intro j k h
  exact JsString.ofNat_injective (List.append_cancel_left h)

theorem candidate_ne (base : JsString) (k : Nat) : candidate base k ≠ base := by
  intro h
  have hlen := congrArg List.length h
  have hdash : (js "-").length = 1 := by decide
  rw [candidate, List.length_append, List.length_append, hdash] at hlen
  omega

/-- The numbers behind the base that give a free name. -/
def freeNumbers (db : AuthDb) (base : JsString) : Set Nat :=
  {k | 2 ≤ k ∧ ¬ db.HasName (candidate base k)}

/-- There are more candidates than users. -/
theorem exists_free_candidate {db : AuthDb} {base : JsString} (hbase : db.HasName base)
    {rounds : Nat} (hrounds : db.users.length ≤ rounds) :
    ∃ k ∈ freeNumbers db base, k < 2 + rounds := by
  by_contra hall
  have htaken : ∀ k ∈ List.range' 2 rounds, db.HasName (candidate base k) := by
    intro k hk
    obtain ⟨i, hi, rfl⟩ := List.mem_range'.mp hk
    by_contra hfree
    exact hall ⟨_, ⟨by omega, hfree⟩, by omega⟩
  -- the base and the candidates are different names
  have hnodup : (base :: (List.range' 2 rounds).map (candidate base)).Nodup := by
    refine List.nodup_cons.mpr ⟨fun hmem => ?_, ?_⟩
    · obtain ⟨k, -, hk⟩ := List.mem_map.mp hmem
      exact candidate_ne base k hk
    · exact (List.nodup_range' ..).map (candidate_injective base)
  have hsubset : base :: (List.range' 2 rounds).map (candidate base) ⊆
      db.users.map UserRow.username := by
    intro name hname
    rcases List.mem_cons.mp hname with rfl | hname
    · exact hbase
    · obtain ⟨k, hk, rfl⟩ := List.mem_map.mp hname
      exact htaken k hk
  have hlen := (List.subperm_of_subset hnodup hsubset).length_le
  rw [List.length_cons, List.length_map, List.length_range', List.length_map] at hlen
  omega

/-! ### The search -/

/-- What the loop comes to: the first free candidate, or the end of its rounds. -/
inductive Tried (db : AuthDb) (base : JsString) (rounds counter : Nat) :
    Except JsError JsString → Prop
  | found {k : Nat} (hle : counter ≤ k) (hfree : ¬ db.HasName (candidate base k))
      (htaken : ∀ j, counter ≤ j → j < k → db.HasName (candidate base j)) :
      Tried db base rounds counter (.ok (candidate base k))
  | exhausted (htaken : ∀ j, counter ≤ j → j < counter + rounds → db.HasName (candidate base j)) :
      Tried db base rounds counter (.error .typeError)

/-- A candidate that is taken is passed over. -/
theorem Tried.pass {db : AuthDb} {base : JsString} {rounds counter : Nat}
    {r : Except JsError JsString} (h : Tried db base rounds (counter + 1) r)
    (hhas : db.HasName (candidate base counter)) : Tried db base (rounds + 1) counter r := by
  -- the name of the counter is taken, so the search goes on behind it
  have hfrom : ∀ j, counter ≤ j → j = counter ∨ counter + 1 ≤ j := by omega
  cases h with
  | found hle hfree htaken =>
    refine .found (by omega) hfree fun j hj hlt => ?_
    rcases hfrom j hj with rfl | hj
    · exact hhas
    · exact htaken j hj hlt
  | exhausted htaken =>
    refine .exhausted fun j hj hlt => ?_
    rcases hfrom j hj with rfl | hj
    · exact hhas
    · exact htaken j hj (by omega)

section Search

variable {c : Connection}

/-- The loop only reads. -/
theorem ensures_uniqueSuffix (base : JsString) (rounds : Nat) :
    ∀ counter : Nat, (uniqueSuffix base rounds counter).Ensures
      (fun r c' => c' = c ∧ Tried c.db base rounds counter r) c := by
  induction rounds with
  | zero => exact fun counter => ⟨rfl, .exhausted fun j hj hlt => by omega⟩
  | succ rounds ih =>
    intro counter
    refine ensures_sql_ok rfl ?_
    split
    -- the name is taken
    · next htaken =>
      refine Prog.wp_mono (ih (counter + 1)) ?_
      rintro r c' ⟨hc, hr⟩
      exact ⟨hc, hr.pass (AuthDb.findUsername_isSome.mp htaken)⟩
    -- or it is free
    · next hfree =>
      refine ⟨rfl, .found (Nat.le_refl counter) ?_ fun j hj hlt => by omega⟩
      exact fun hhas => hfree (AuthDb.findUsername_isSome.mpr hhas)

/-- `uniqueUsername` only reads. It returns the base, or comes to what the loop comes to. -/
theorem ensures_uniqueUsername (rounds : Nat) (base : JsString) :
    (uniqueUsername rounds base).Ensures
      (fun r c' => c' = c ∧ (¬ c.db.HasName base ∧ r = .ok base ∨
        c.db.HasName base ∧ Tried c.db base rounds 2 r)) c := by
  refine ensures_sql_ok rfl ?_
  split
  · next htaken =>
    refine Prog.wp_mono (ensures_uniqueSuffix base rounds 2) ?_
    rintro r c' ⟨hc, hr⟩
    exact ⟨hc, .inr ⟨AuthDb.findUsername_isSome.mp htaken, hr⟩⟩
  · next hfree =>
    exact ⟨rfl, .inl ⟨fun hhas => hfree (AuthDb.findUsername_isSome.mpr hhas), rfl⟩⟩

end Search

/-! ### The first free name -/

/-- The first name that is free: the base, or the base with the least number behind it. -/
structure FirstFree (db : AuthDb) (base name : JsString) : Prop where
  kept : ¬ db.HasName base → name = base
  numbered : db.HasName base → ∃ k, IsLeast (freeNumbers db base) k ∧ name = candidate base k
  free : ¬ db.HasName name

/-- With enough rounds the loop finds it. -/
theorem Tried.firstFree {db : AuthDb} {base : JsString} {rounds : Nat}
    {r : Except JsError JsString} (h : Tried db base rounds 2 r) (hbase : db.HasName base)
    (hrounds : db.users.length ≤ rounds) : ∃ name, r = .ok name ∧ FirstFree db base name := by
  cases h with
  | @found k hle hfree htaken =>
    refine ⟨_, rfl, fun hfree => absurd hbase hfree, fun _ => ⟨k, ⟨⟨hle, hfree⟩, ?_⟩, rfl⟩, hfree⟩
    rintro j ⟨hj, hjfree⟩
    by_contra hlt
    exact hjfree (htaken j hj (by omega))
  | exhausted htaken =>
    obtain ⟨k, ⟨hle, hfree⟩, hlt⟩ := exists_free_candidate hbase hrounds
    exact absurd (htaken k hle hlt) hfree

theorem ensures_uniqueUsername_firstFree {c : Connection} {rounds : Nat} (base : JsString)
    (hrounds : c.db.users.length ≤ rounds) :
    (uniqueUsername rounds base).Ensures
      (fun r c' => c' = c ∧ ∃ name, r = .ok name ∧ FirstFree c.db base name) c := by
  refine Prog.wp_mono (ensures_uniqueUsername rounds base) ?_
  rintro r c' ⟨hc, ⟨hfree, rfl⟩ | ⟨hbase, hr⟩⟩
  · exact ⟨hc, base, rfl, fun _ => rfl, fun hbase => absurd hbase hfree, hfree⟩
  · exact ⟨hc, hr.firstFree hbase hrounds⟩

/-- There is one first free name. -/
theorem FirstFree.unique {db : AuthDb} {base name name' : JsString} (h : FirstFree db base name)
    (h' : FirstFree db base name') : name = name' := by
  by_cases hbase : db.HasName base
  · obtain ⟨k, hk, rfl⟩ := h.numbered hbase
    obtain ⟨k', hk', rfl⟩ := h'.numbered hbase
    rw [hk.unique hk']
  · rw [h.kept hbase, h'.kept hbase]

/-- **`uniqueUsername` ends with the first free name**, whatever the table and the base are: with
any number of rounds that is not less than that of the users it returns this name and changes
nothing. -/
theorem uniqueUsername_ends (db : AuthDb) (base : JsString) :
    ∃ name, FirstFree db base name ∧ ∀ rounds, db.users.length ≤ rounds →
      (uniqueUsername rounds base).call db = (.ok name, db) := by
  have hcall : ∀ rounds, db.users.length ≤ rounds → ∃ name, FirstFree db base name ∧
      (uniqueUsername rounds base).call db = (.ok name, db) := by
    intro rounds hrounds
    have hensures := ensures_uniqueUsername_firstFree (c := { db }) base hrounds
    obtain ⟨saved, hc, name, hname, hfirst⟩ := hensures.call
    exact ⟨name, hfirst, Prod.ext hname (congrArg Connection.db hc)⟩
  obtain ⟨name, hfirst, -⟩ := hcall db.users.length (Nat.le_refl _)
  refine ⟨name, hfirst, fun rounds hrounds => ?_⟩
  obtain ⟨name', hfirst', hresult⟩ := hcall rounds hrounds
  rw [hfirst.unique hfirst']
  exact hresult

end Aestival
