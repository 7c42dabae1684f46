import Mathlib.Data.List.Induction

/-!
# Runs of a transition system

A transition system over states `σ` takes steps labelled by events `ε`; which step it takes is
open. A run is given by its history: the events in order, each with the state it was taken in.

* `TransitionSystem.Run.invariant` is the rule for what every step keeps.
* `TransitionSystem.Run.restrict` turns a run whose steps meet a condition into a run of the system
  that has only these steps (`TransitionSystem.restrict`), and `TransitionSystem.Run.of_restrict`
  goes back.
* `TransitionSystem.Run.since` is the rule for what one step establishes and the steps after it
  keep.

What the events so far say about something is the value of the most recent one that says anything
(`latest`), or the number of those behind the most recent one that starts over (`countSince`).
-/

/-- The value of the most recent element that has one. -/
def latest {ε α : Type} (f : ε → Option α) (l : List ε) : Option α := l.reverse.findSome? f

@[simp] theorem latest_nil {ε α : Type} (f : ε → Option α) : latest f [] = none := rfl

@[simp] theorem latest_concat {ε α : Type} (f : ε → Option α) (l : List ε) (e : ε) :
    latest f (l ++ [e]) = (f e).or (latest f l) := by
  rw [latest, List.reverse_append]
  show List.findSome? f (e :: l.reverse) = _
  rw [List.findSome?_cons]
  cases f e <;> rfl

/-- Of news that may say that there is nothing, the most recent counts. -/
theorem join_latest_concat {ε α : Type} (f : ε → Option (Option α)) (l : List ε) (e : ε) :
    (latest f (l ++ [e])).join = (f e).getD (latest f l).join := by
  rw [latest_concat]
  cases f e <;> rfl

/-- What every step sets or leaves as it is, is as it was set last. -/
theorem foldl_eq_latest {σ ε β : Type} {step : σ → ε → σ} {view : σ → β} {sets : ε → Option β}
    {l : List ε} (h : ∀ e ∈ l, ∀ s, view (step s e) = (sets e).getD (view s)) (s : σ) :
    view (l.foldl step s) = (latest sets l).getD (view s) := by
  induction l using List.reverseRecOn with
  | nil => rfl
  | append_singleton l e ih =>
    obtain ⟨hl, he⟩ := List.forall_mem_append.mp h
    rw [List.foldl_append, List.foldl_cons, List.foldl_nil, he e (List.mem_singleton_self e), ih hl,
      latest_concat, Option.getD_or]

/-- What some steps make true and none makes false. -/
theorem foldl_or {σ ε : Type} {step : σ → ε → σ} {view : σ → Bool} {f : ε → Bool}
    (h : ∀ s e, view (step s e) = (f e || view s)) (l : List ε) (s : σ) :
    view (l.foldl step s) = (l.any f || view s) := by
  induction l generalizing s with
  | nil => rfl
  | cons e l ih => rw [List.foldl_cons, ih, h, List.any_cons, ← Bool.or_assoc, Bool.or_comm (f e)]

/-- The number of elements of a kind behind the last one of another kind. -/
def countSince {ε : Type} (reset count : ε → Bool) (l : List ε) : Nat :=
  l.foldl (fun n e => if reset e then 0 else if count e then n + 1 else n) 0

@[simp] theorem countSince_concat {ε : Type} (reset count : ε → Bool) (l : List ε) (e : ε) :
    countSince reset count (l ++ [e]) =
      if reset e then 0
      else if count e then countSince reset count l + 1 else countSince reset count l := by
  rw [countSince, List.foldl_append]
  rfl

/-- A list is cut in one way only at its last element with a property. -/
theorem eq_of_last_split {α : Type} {p : α → Prop} {a b a' b' : List α} {x x' : α}
    (h : a ++ x :: b = a' ++ x' :: b') (hx : p x) (hb : ∀ y ∈ b, ¬ p y) (hx' : p x')
    (hb' : ∀ y ∈ b', ¬ p y) : a = a' ∧ x = x' ∧ b = b' := by
  rcases List.append_eq_append_iff.mp h with ⟨c, rfl, hc⟩ | ⟨c, rfl, hc⟩
  · cases c with
    | nil => simpa using hc
    | cons y c =>
      -- then the second cut would be within `b`
      obtain ⟨rfl, rfl⟩ := List.cons.inj hc
      exact absurd hx' (hb x' (by simp))
  · cases c with
    | nil => simpa [eq_comm] using hc
    | cons y c =>
      obtain ⟨rfl, rfl⟩ := List.cons.inj hc
      exact absurd hx (hb' x (by simp))

/-- A transition system. -/
structure TransitionSystem (σ ε : Type) where
  init : σ → Prop
  step : σ → ε → σ → Prop

namespace TransitionSystem

variable {σ ε : Type} {A : TransitionSystem σ ε}

/-- A run with its history. -/
inductive Run (A : TransitionSystem σ ε) : List (σ × ε) → σ → Prop
  | start {s : σ} (h : A.init s) : Run A [] s
  | step {tr : List (σ × ε)} {s s' : σ} {e : ε} (h : Run A tr s) (hstep : A.step s e s') :
    Run A (tr ++ [(s, e)]) s'

/-- The states some run ends in. -/
def Reachable (A : TransitionSystem σ ε) (s : σ) : Prop := ∃ tr, Run A tr s

/-- The system with fewer steps. -/
def restrict (A : TransitionSystem σ ε) (ok : σ → ε → Prop) : TransitionSystem σ ε where
  init := A.init
  step s e s' := A.step s e s' ∧ ok s e

namespace Run

variable {tr : List (σ × ε)} {s : σ}

/-- What holds at the start and is kept by every step holds throughout. -/
theorem invariant {I : σ → Prop} (h : Run A tr s) (hinit : ∀ s, A.init s → I s)
    (hstep : ∀ s e s', I s → A.step s e s' → I s') : I s := by
  induction h with
  | start h => exact hinit _ h
  | step _ hs ih => exact hstep _ _ _ ih hs

theorem reachable (h : Run A tr s) : A.Reachable s := ⟨tr, h⟩

/-- A run whose steps are all `ok` is a run of the restricted system. -/
theorem restrict {ok : σ → ε → Prop} (h : Run A tr s) (hok : ∀ p ∈ tr, ok p.1 p.2) :
    Run (A.restrict ok) tr s := by
  induction h with
  | start h => exact .start h
  | step _ hs ih =>
    have hlast := hok _ (List.mem_append_right _ (List.mem_singleton_self _))
    exact .step (ih fun p hp => hok p (List.mem_append_left _ hp)) ⟨hs, hlast⟩

/-- A run of the restricted system, and that its steps are all `ok`. -/
theorem of_restrict {ok : σ → ε → Prop} (h : Run (A.restrict ok) tr s) :
    Run A tr s ∧ ∀ p ∈ tr, ok p.1 p.2 := by
  induction h with
  | start h => exact ⟨.start h, fun _ hp => absurd hp List.not_mem_nil⟩
  | step _ hs ih =>
    refine ⟨ih.1.step hs.1, fun p hp => ?_⟩
    rcases List.mem_append.mp hp with hp | hp
    · exact ih.2 p hp
    · obtain rfl := List.mem_singleton.mp hp
      exact hs.2

/-- The last step of a run. -/
theorem of_concat {s' : σ} {e : ε} (h : Run A (tr ++ [(s, e)]) s') : Run A tr s ∧
    A.step s e s' := by
  generalize hall : tr ++ [(s, e)] = all at h
  cases h with
  | start => exact absurd hall (by simp)
  | step h hstep =>
    obtain ⟨rfl, hlast⟩ := List.append_inj' hall rfl
    obtain ⟨rfl, rfl⟩ := Prod.mk.inj (List.cons.inj hlast).1
    exact ⟨h, hstep⟩

/-- A run up to one of its steps. -/
theorem upTo {pre post : List (σ × ε)} {x : σ × ε} (h : Run A (pre ++ x :: post) s) :
    Run A pre x.1 := by
  induction post using List.reverseRecOn generalizing s with
  | nil => exact h.of_concat.1
  | append_singleton post y ih =>
    rw [← List.cons_append, ← List.append_assoc] at h
    exact ih h.of_concat.1

/-- A step of a run, with the state behind it. -/
theorem stepAt {pre post : List (σ × ε)} {x : σ × ε} (h : Run A (pre ++ x :: post) s) :
    ∃ s', A.step x.1 x.2 s' ∧ (s' = s ∨ ∃ y ∈ post, y.1 = s') := by
  induction post using List.reverseRecOn generalizing s with
  | nil => exact ⟨s, h.of_concat.2, Or.inl rfl⟩
  | append_singleton post y ih =>
    rw [← List.cons_append, ← List.append_assoc] at h
    obtain ⟨s', hstep, hs'⟩ := ih h.of_concat.1
    refine ⟨s', hstep, Or.inr ?_⟩
    rcases hs' with rfl | ⟨z, hz, hs'⟩
    · exact ⟨y, by simp, rfl⟩
    · exact ⟨z, List.mem_append_left _ hz, hs'⟩

/-- What a step establishes and the steps after it keep holds at the end. -/
theorem since {I : σ → Prop} {pre mid : List (σ × ε)} {x : σ × ε}
    (h : Run A (pre ++ x :: mid) s) (hfirst : ∀ s', A.step x.1 x.2 s' → I s')
    (hkeep : ∀ y ∈ mid, ∀ s', I y.1 → A.step y.1 y.2 s' → I s') : I s := by
  induction mid using List.reverseRecOn generalizing s with
  | nil => exact hfirst s h.of_concat.2
  | append_singleton mid y ih =>
    rw [← List.cons_append, ← List.append_assoc] at h
    obtain ⟨hrun, hstep⟩ := h.of_concat
    refine hkeep y (by simp) s ?_ hstep
    exact ih hrun fun z hz => hkeep z (List.mem_append_left _ hz)

end Run

/-- A step from a reachable state leads to a reachable state. -/
theorem Reachable.step {s s' : σ} {e : ε} (h : A.Reachable s) (hstep : A.step s e s') :
    A.Reachable s' := by
  obtain ⟨tr, hrun⟩ := h
  exact ⟨_, hrun.step hstep⟩

end TransitionSystem
