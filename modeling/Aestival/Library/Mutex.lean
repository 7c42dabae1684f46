import Aestival.Library.Pool

/-!
# A lock among programs that run side by side

A lock protects a resource, a part of the shared state of a pool. Who takes the lock gets the
resource and gives it back with the lock. `Pool.LockRules` says what that means for the effects of a
program, one effect at a time: `R none` is what holds of the state while the lock is free, and
`R (some φ)` what holds while a member in the phase `φ` has it, so the holder may break what the
free lock promises, as long as its phase says how.

`Pool.Locked` is the invariant of the pool that comes of it: at most one member has the lock, and
the resource is as the holder's phase says, or as the free lock promises. Every step by the rules
keeps it (`Pool.LockRules.step`).
-/

namespace Pool

variable {S : Signature} {σ Φ ε α ι : Type}

/-- What the effects that meet the demand `D` do with a lock and its resource. -/
structure LockRules (M : Machine S σ) (P : Machine S Φ) (D : Φ → S.Eff → Prop) (holds : Φ → Bool)
    (R : Option Φ → σ → Prop) : Prop where
  /-- who takes the lock finds it free, and gets the resource -/
  take : ∀ {φ s e} {x : S.Ans e}, holds φ = false → D φ e → M.admits s e x →
    holds (P.next φ e x) = true →
    (∀ ψ, ¬ R (some ψ) s) ∧ (R none s → R (some (P.next φ e x)) (M.next s e x))
  /-- the holder keeps the resource -/
  keep : ∀ {φ s e} {x : S.Ans e}, holds φ = true → D φ e → M.admits s e x →
    holds (P.next φ e x) = true → R (some φ) s → R (some (P.next φ e x)) (M.next s e x)
  /-- or gives it back -/
  give : ∀ {φ s e} {x : S.Ans e}, holds φ = true → D φ e → M.admits s e x →
    holds (P.next φ e x) = false → R (some φ) s → R none (M.next s e x)
  /-- the others do not touch it -/
  frame : ∀ {φ s e} {x : S.Ans e} {o : Option Φ}, holds φ = false → D φ e → M.admits s e x →
    holds (P.next φ e x) = false → R o s → R o (M.next s e x)

/-- At most one member has the lock, and the resource is as it must be. -/
structure Locked (holds : Φ → Bool) (R : Option Φ → σ → Prop) (c : Pool S σ Φ ε α ι) : Prop where
  one : ∀ {i j}, holds (c.phase i) = true → holds (c.phase j) = true → i = j
  free : (∀ i, holds (c.phase i) = false) → R none c.state
  held : ∀ {i}, holds (c.phase i) = true → R (some (c.phase i)) c.state

variable {M : Machine S σ} {P : Machine S Φ} {D : Φ → S.Eff → Prop} {holds : Φ → Bool}
  {R : Option Φ → σ → Prop} {c c' : Pool S σ Φ ε α ι} {i : ι} {e : S.Eff} {x : S.Ans e}

/-- Nobody has the lock at the start. -/
theorem Locked.of_free (hfree : ∀ i, holds (c.phase i) = false) (hR : R none c.state) :
    c.Locked holds R where
  one {i _} hi _ := by
    rw [hfree i] at hi
    cases hi
  free _ := hR
  held {i} hi := by
    rw [hfree i] at hi
    cases hi

/-- While a member has the lock, no other one has. -/
theorem Locked.others (h : c.Locked holds R) (hi : holds (c.phase i) = true) {j : ι} (hj : j ≠ i) :
    holds (c.phase j) = false := by
  cases hh : holds (c.phase j) with
  | false => rfl
  | true => exact absurd (h.one hh hi) hj

variable [DecidableEq ι]

/-- **Every step by the rules keeps the lock.** -/
theorem LockRules.step (hrules : LockRules M P D holds R) (hD : D (c.phase i) e)
    (hstep : Step M P c i e x c') (hc : c.Locked holds R) : c'.Locked holds R := by
  have hx := hstep.admits
  have hself := hstep.phase_self
  have hother : ∀ {j}, j ≠ i → c'.phase j = c.phase j := hstep.phase_of_ne
  cases hbefore : holds (c.phase i) with
  | true =>
    -- the holder moves, and nobody else has the lock
    have hothers : ∀ {j}, j ≠ i → holds (c'.phase j) = false := fun hj =>
      (congrArg holds (hother hj)).trans (hc.others hbefore hj)
    cases hafter : holds (P.next (c.phase i) e x) with
    | true =>
      have honly : ∀ {j}, holds (c'.phase j) = true → j = i := fun {j} hj => by
        by_contra hne
        rw [hothers hne] at hj
        cases hj
      refine ⟨fun hj hk => (honly hj).trans (honly hk).symm, fun hnone => ?_, fun {j} hj => ?_⟩
      · have hi := hnone i
        rw [hself, hafter] at hi
        cases hi
      · obtain rfl := honly hj
        rw [hself, hstep.state_eq]
        exact hrules.keep hbefore hD hx hafter (hc.held hbefore)
    | false =>
      refine .of_free (fun j => ?_) ?_
      · by_cases hj : j = i
        · rw [hj, hself, hafter]
        · exact hothers hj
      · rw [hstep.state_eq]
        exact hrules.give hbefore hD hx hafter (hc.held hbefore)
  | false =>
    cases hafter : holds (P.next (c.phase i) e x) with
    | true =>
      obtain ⟨hnot, htake⟩ := hrules.take hbefore hD hx hafter
      have hnone : ∀ j, holds (c.phase j) = false := fun j => by
        cases hj : holds (c.phase j) with
        | false => rfl
        | true => exact absurd (hc.held hj) (hnot _)
      have honly : ∀ {j}, holds (c'.phase j) = true → j = i := fun {j} hj => by
        by_contra hne
        rw [hother hne, hnone j] at hj
        cases hj
      refine ⟨fun hj hk => (honly hj).trans (honly hk).symm, fun hnone' => ?_, fun {j} hj => ?_⟩
      · have hi := hnone' i
        rw [hself, hafter] at hi
        cases hi
      · obtain rfl := honly hj
        rw [hself, hstep.state_eq]
        exact htake (hc.free hnone)
    | false =>
      -- what others do with the lock stays as it is
      have hsame : ∀ j, holds (c'.phase j) = holds (c.phase j) := fun j => by
        by_cases hj : j = i
        · rw [hj, hself, hafter, hbefore]
        · rw [hother hj]
      refine ⟨fun hj hk => hc.one (hsame _ ▸ hj) (hsame _ ▸ hk), fun hnone => ?_, fun {j} hj => ?_⟩
      · rw [hstep.state_eq]
        exact hrules.frame hbefore hD hx hafter (hc.free fun j => hsame j ▸ hnone j)
      · have hj' : holds (c.phase j) = true := hsame j ▸ hj
        have hne : j ≠ i := fun hji => by
          rw [hji, hbefore] at hj'
          cases hj'
        rw [hother hne, hstep.state_eq]
        exact hrules.frame hbefore hD hx hafter (hc.held hj')

end Pool
