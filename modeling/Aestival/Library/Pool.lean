import Aestival.Library.Prog
import Mathlib.Algebra.BigOperators.Group.Finset.Piecewise
import Mathlib.Tactic.Abel

/-!
# Programs that run side by side

A pool is a family of programs over one shared state. A step lets one of them perform its next
effect; which one is open, so the runs of a pool are all interleavings.

Next to its remaining program every member carries a phase, computed from its own effects by a
second machine. The phases are how a property of the whole pool speaks of where its members stand.
A member that has been verified on the phase machine stays verified (`Pool.Step.conforms`), so the
demands of `Prog.wp` hold at every step; what the members do to each other is left to an invariant
of the pool (`Pool.Run.invariant`). `Pool.total` sums what the phases carry, and a step changes it
by what it changes in the phase of the member that moves (`Pool.Step.total_eq`).

A run of one member alone is a run of the pool (`Pool.Run.of_exec`).
-/

/-- Programs over the shared state `σ`, each in a phase `Φ`. -/
structure Pool (S : Signature) (σ Φ ε α ι : Type) where
  state : σ
  phase : ι → Φ
  rest : ι → Prog S ε α

namespace Pool

variable {S : Signature} {σ Φ ε α ι : Type}

/-- The sum of what the phases carry. -/
def total {G : Type} [AddCommMonoid G] [Fintype ι] (f : Φ → G) (c : Pool S σ Φ ε α ι) : G :=
  ∑ j, f (c.phase j)

theorem total_eq_zero {G : Type} [AddCommMonoid G] [Fintype ι] {f : Φ → G}
    {c : Pool S σ Φ ε α ι} (h : ∀ j, f (c.phase j) = 0) : c.total f = 0 :=
  Finset.sum_eq_zero fun j _ => h j

/-- Every member is verified for the rest of its program, and ends in a phase of `E`. -/
def Conforms (P : Machine S Φ) (D : Φ → S.Eff → Prop) (E : Φ → Prop) (c : Pool S σ Φ ε α ι) :
    Prop :=
  ∀ j, (c.rest j).wp P D (fun _ φ => E φ) (c.phase j)

/-- A member that is over is in an end phase. -/
theorem Conforms.of_isOver {P : Machine S Φ} {D : Φ → S.Eff → Prop} {E : Φ → Prop}
    {c : Pool S σ Φ ε α ι} (hc : c.Conforms P D E) {j : ι} (hj : (c.rest j).isOver = true) :
    E (c.phase j) := by
  have hend := hc j
  cases hrest : c.rest j with
  | ret a =>
    rw [hrest] at hend
    exact hend
  | throw err =>
    rw [hrest] at hend
    exact hend
  | op e k =>
    rw [hrest] at hj
    cases hj

variable [DecidableEq ι]

/-- The pool after the member `i` has performed `e`, with the answer `x` and the rest `k`. -/
def move (M : Machine S σ) (P : Machine S Φ) (c : Pool S σ Φ ε α ι) (i : ι) (e : S.Eff)
    (x : S.Ans e) (k : S.Ans e → Prog S ε α) : Pool S σ Φ ε α ι where
  state := M.next c.state e x
  phase := Function.update c.phase i (P.next (c.phase i) e x)
  rest := Function.update c.rest i (k x)

/-- The member `i` performs its next effect `e` and is answered `x`. -/
inductive Step (M : Machine S σ) (P : Machine S Φ) (c : Pool S σ Φ ε α ι) (i : ι) (e : S.Eff)
    (x : S.Ans e) : Pool S σ Φ ε α ι → Prop
  | mk {k : S.Ans e → Prog S ε α} (hrest : c.rest i = .op e k) (hx : M.admits c.state e x) :
    Step M P c i e x (c.move M P i e x k)

/-- The pools that are reached from `c₀` by steps for which `ok` holds. -/
inductive Run (M : Machine S σ) (P : Machine S Φ)
    (ok : Pool S σ Φ ε α ι → ι → (e : S.Eff) → S.Ans e → Prop) (c₀ : Pool S σ Φ ε α ι) :
    Pool S σ Φ ε α ι → Prop
  | start : Run M P ok c₀ c₀
  | step {c c' : Pool S σ Φ ε α ι} {i : ι} {e : S.Eff} {x : S.Ans e} (hc : Run M P ok c₀ c)
    (hstep : Step M P c i e x c') (hok : ok c i e x) : Run M P ok c₀ c'

variable {M : Machine S σ} {P : Machine S Φ} {c c' c₀ : Pool S σ Φ ε α ι} {i : ι} {e : S.Eff}
  {x : S.Ans e}

namespace Step

theorem state_eq (h : Step M P c i e x c') : c'.state = M.next c.state e x := by
  cases h
  rfl

theorem phase_eq (h : Step M P c i e x c') :
    c'.phase = Function.update c.phase i (P.next (c.phase i) e x) := by
  cases h
  rfl

theorem admits (h : Step M P c i e x c') : M.admits c.state e x := by
  cases h with
  | mk _ hx => exact hx

/-- The phase of the member that moves. -/
theorem phase_self (h : Step M P c i e x c') : c'.phase i = P.next (c.phase i) e x := by
  rw [h.phase_eq, Function.update_self]

/-- The other members stay where they are. -/
theorem phase_of_ne (h : Step M P c i e x c') {j : ι} (hj : j ≠ i) : c'.phase j = c.phase j := by
  rw [h.phase_eq, Function.update_of_ne hj]

/-- What a verified member performs meets its demand. -/
theorem demand {D : Φ → S.Eff → Prop} {E : Φ → Prop} (h : Step M P c i e x c')
    (hc : c.Conforms P D E) : D (c.phase i) e := by
  cases h with
  | mk hrest _ =>
    have hi := hc i
    rw [hrest] at hi
    exact hi.1

/-- A step keeps the members verified, when its answer is one the phases expect. -/
theorem conforms {D : Φ → S.Eff → Prop} {E : Φ → Prop} (h : Step M P c i e x c')
    (hc : c.Conforms P D E) (hx : P.admits (c.phase i) e x) : c'.Conforms P D E := by
  cases h with
  | mk hrest _ =>
    intro j
    by_cases hj : j = i
    · subst hj
      have hi := hc j
      rw [hrest] at hi
      simp only [move, Function.update_self]
      exact hi.2 x hx
    · simp only [move, Function.update_of_ne hj]
      exact hc j

end Step

/-- A step changes the sum by what it changes in one phase. -/
theorem Step.total_eq {G : Type} [AddCommGroup G] [Fintype ι] (f : Φ → G)
    (h : Step M P c i e x c') :
    c'.total f = c.total f + (f (P.next (c.phase i) e x) - f (c.phase i)) := by
  have hphase : (fun j => f (c'.phase j)) =
      Function.update (fun j => f (c.phase j)) i (f (P.next (c.phase i) e x)) := by
    funext j
    rw [h.phase_eq, Function.apply_update fun _ => f]
  have hsplit := Finset.sum_erase_add Finset.univ (fun j => f (c.phase j)) (Finset.mem_univ i)
  unfold total
  rw [hphase, Finset.sum_update_of_mem (Finset.mem_univ i), Finset.sdiff_singleton_eq_erase,
    ← hsplit]
  abel

/-- What holds at the start and is kept by every step that is `ok` holds throughout. -/
theorem Run.invariant {ok : Pool S σ Φ ε α ι → ι → (e : S.Eff) → S.Ans e → Prop}
    {I : Pool S σ Φ ε α ι → Prop} (h : Run M P ok c₀ c) (hstart : I c₀)
    (hstep : ∀ {c c' : Pool S σ Φ ε α ι} {i e} {x : S.Ans e}, I c → Step M P c i e x c' →
      ok c i e x → I c') : I c := by
  induction h with
  | start => exact hstart
  | step _ hs hok ih => exact hstep ih hs hok

/-- A run of one member, while the others rest, is a run of the pool. Every event of it is a step
of the pool in the state of the event. -/
theorem Run.of_exec {ok : Pool S σ Φ ε α ι → ι → (e : S.Eff) → S.Ans e → Prop}
    (hc : Run M P ok c₀ c) {p : Prog S ε α} {s s' : σ} {tr : List (Prog.Event S σ)}
    {r : Except ε α} (h : p.Exec M s tr s' r) (hp : c.rest i = p) (hs : c.state = s)
    (hok : ∀ (c : Pool S σ Φ ε α ι), ∀ ev ∈ tr, c.state = ev.pre → ok c i ev.eff ev.ans) :
    ∀ ev ∈ tr, ∃ c₁ c₂, Run M P ok c₀ c₁ ∧ c₁.state = ev.pre ∧ Step M P c₁ i ev.eff ev.ans c₂ := by
  -- the other clients stay where they are while this one runs alone
  induction h generalizing c with
  | ret s a =>
    intro ev hev
    cases hev
  | throw s err =>
    intro ev hev
    cases hev
  | @op s s' e k x tr r hx hk ih =>
    subst hs
    intro ev hev
    have hstep : Step M P c i e x (c.move M P i e x k) := .mk hp hx
    rcases List.mem_cons.mp hev with rfl | hev
    · exact ⟨c, _, hc, rfl, hstep⟩
    -- every effect of the execution is a step of the pool
    · have hmoved := hc.step hstep (hok c _ (List.mem_cons_self ..) rfl)
      have hrest : (c.move M P i e x k).rest i = k x := Function.update_self ..
      exact ih hmoved hrest rfl (fun c ev hev => hok c ev (List.mem_cons_of_mem _ hev)) ev hev

/-- The whole run of one member takes the pool to where the run ends. The phase of the member has
followed its events. -/
theorem Run.of_exec_end {ok : Pool S σ Φ ε α ι → ι → (e : S.Eff) → S.Ans e → Prop}
    (hc : Run M P ok c₀ c) {p : Prog S ε α} {s s' : σ} {tr : List (Prog.Event S σ)}
    {r : Except ε α} (h : p.Exec M s tr s' r) (hp : c.rest i = p) (hs : c.state = s)
    (hok : ∀ (c : Pool S σ Φ ε α ι), ∀ ev ∈ tr, c.state = ev.pre → ok c i ev.eff ev.ans) :
    ∃ c', Run M P ok c₀ c' ∧ c'.state = s' ∧
      c'.phase i = tr.foldl (fun φ ev => P.next φ ev.eff ev.ans) (c.phase i) ∧
      (c'.rest i).isOver = true := by
  induction h generalizing c with
  | ret s a => exact ⟨c, hc, hs, rfl, by rw [hp]; rfl⟩
  | throw s err => exact ⟨c, hc, hs, rfl, by rw [hp]; rfl⟩
  -- every effect of the execution is a step of the pool
  | @op s s' e k x tr r hx hk ih =>
    subst hs
    have hstep : Step M P c i e x (c.move M P i e x k) := .mk hp hx
    have hmoved := hc.step hstep (hok c _ (List.mem_cons_self ..) rfl)
    have hrest : (c.move M P i e x k).rest i = k x := Function.update_self ..
    obtain ⟨c', hrun, hstate, hphase, hover⟩ :=
      ih hmoved hrest rfl fun c ev hev => hok c ev (List.mem_cons_of_mem _ hev)
    rw [hstep.phase_self] at hphase
    exact ⟨c', hrun, hstate, hphase, hover⟩

/-! ### Members with different tasks -/

/-- Every member is verified for the rest of its program, with a postcondition of its own. -/
def Verified (P : Machine S Φ) (D : Φ → S.Eff → Prop) (Q : ι → Except ε α → Φ → Prop)
    (c : Pool S σ Φ ε α ι) : Prop :=
  ∀ j, (c.rest j).wp P D (Q j) (c.phase j)

namespace Verified

variable {D : Φ → S.Eff → Prop} {Q : ι → Except ε α → Φ → Prop} {j : ι}

omit [DecidableEq ι] in
/-- A member that has returned. -/
theorem returned (hc : c.Verified P D Q) {a : α} (hj : c.rest j = .ret a) :
    Q j (.ok a) (c.phase j) := by
  have h := hc j
  rwa [hj] at h

omit [DecidableEq ι] in
/-- A member that has thrown. -/
theorem thrown (hc : c.Verified P D Q) {err : ε} (hj : c.rest j = .throw err) :
    Q j (.error err) (c.phase j) := by
  have h := hc j
  rwa [hj] at h

/-- What a verified member performs meets its demand. -/
theorem demand (hc : c.Verified P D Q) (h : Step M P c i e x c') : D (c.phase i) e := by
  cases h with
  | mk hrest _ =>
    have hi := hc i
    rw [hrest] at hi
    exact hi.1

/-- A step keeps the members verified, when its answer is one the phases expect. -/
theorem step (hc : c.Verified P D Q) (h : Step M P c i e x c') (hx : P.admits (c.phase i) e x) :
    c'.Verified P D Q := by
  cases h with
  | mk hrest _ =>
    intro j
    by_cases hj : j = i
    · subst hj
      have hi := hc j
      rw [hrest] at hi
      simp only [move, Function.update_self]
      exact hi.2 x hx
    · simp only [move, Function.update_of_ne hj]
      exact hc j

end Verified

end Pool
