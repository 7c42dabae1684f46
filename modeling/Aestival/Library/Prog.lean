import Mathlib.Init

/-!
# Programs over effects

A program that talks to its surroundings is a tree (`Prog`): it returns, throws, or performs an
effect and goes on with the answer. A signature names the effects and the type of answer each of
them has. The tree says nothing of what the effects mean; that is given by a `Machine`, which for a
state and an effect says which answers are possible and what the state is afterwards. The same
program is run on different machines: on the machine of the real state, on one that records what
has happened, on one that keeps only the phase a protocol is in.

* `Prog.Exec` is the operational meaning: a run from a state, with its trace.
* `Prog.wp` is the predicate transformer. It also demands of every effect that it is performed in
  a state where it may be.
* `Prog.Exec.of_wp` connects them, and `Prog.wp_bind`, `Prog.wp_perform_bind`, `Prog.wp_tryCatch`
  are the rules programs are verified with.
* `Prog.wp_frame` carries what a program does whatever its effects mean (`Machine.recording`) to a
  machine whose state keeps an invariant under the effects the program performs.
* `Prog.Only` says which effects a program can still perform, and follows the program as well
  (`Prog.Only.bind`, `Prog.Only.tryCatch`).
-/

/-- The effects of a program and their answers. -/
structure Signature where
  Eff : Type
  Ans : Eff → Type

/-- A program over the effects of `S`: it throws an `ε` or returns an `α`. -/
inductive Prog (S : Signature) (ε α : Type) where
  | ret (a : α)
  | throw (err : ε)
  | op (e : S.Eff) (k : S.Ans e → Prog S ε α)

namespace Prog

variable {S : Signature} {ε α β σ : Type}

/-- Run `p`, then `f` on what it returns. -/
def bind : Prog S ε α → (α → Prog S ε β) → Prog S ε β
  | .ret a, f => f a
  | .throw err, _ => .throw err
  | .op e k, f => .op e fun x => bind (k x) f

instance : Monad (Prog S ε) where
  pure := .ret
  bind := bind

/-- Perform one effect. -/
def perform (e : S.Eff) : Prog S ε (S.Ans e) := .op e .ret

/-- Run `p`, and `handler` on what it throws. -/
def tryCatch : Prog S ε α → (ε → Prog S ε α) → Prog S ε α
  | .ret a, _ => .ret a
  | .throw err, handler => handler err
  | .op e k, handler => .op e fun x => tryCatch (k x) handler

/-- The program has nothing left to do. -/
def isOver : Prog S ε α → Bool
  | .op .. => false
  | _ => true

/-- Return or throw what is given. -/
def ofExcept : Except ε α → Prog S ε α
  | .ok a => .ret a
  | .error err => .throw err

end Prog

/-- What the effects of `S` mean over the states `σ`. -/
structure Machine (S : Signature) (σ : Type) where
  /-- The answers an effect can have. -/
  admits : σ → (e : S.Eff) → S.Ans e → Prop
  /-- The state after an effect. -/
  next : σ → (e : S.Eff) → S.Ans e → σ

/-- An effect that was performed, with the state it was performed in and its answer. -/
structure Prog.Event (S : Signature) (σ : Type) where
  pre : σ
  eff : S.Eff
  ans : S.Ans eff

/-- The events of a trace without the states. -/
def Prog.inputs {S : Signature} {σ : Type} (tr : List (Prog.Event S σ)) :
    List (Σ e : S.Eff, S.Ans e) :=
  tr.map fun ev => ⟨ev.eff, ev.ans⟩

namespace Machine

variable {S : Signature} {σ : Type}

/-- The machine that records what happens. An effect has any answer on it. -/
def recording (S : Signature) : Machine S (List (Σ e : S.Eff, S.Ans e)) where
  admits := fun _ _ _ => True
  next := fun h e x => h ++ [⟨e, x⟩]

/-- The machine that keeps a record of what happens next to its state. -/
def logging (M : Machine S σ) : Machine S (σ × List (Σ e : S.Eff, S.Ans e)) where
  admits := fun s e x => M.admits s.1 e x
  next := fun s e x => (M.next s.1 e x, s.2 ++ [⟨e, x⟩])

/-- The machine with fewer answers. -/
def restrict (M : Machine S σ) (ok : Prog.Event S σ → Prop) : Machine S σ where
  admits := fun s e x => M.admits s e x ∧ ok ⟨s, e, x⟩
  next := M.next

end Machine

namespace Prog

variable {S : Signature} {ε α β σ : Type} {M : Machine S σ}

/-! ### Runs -/

/-- A run of a program: its events in order, the state it ends in, and its result. -/
inductive Exec (M : Machine S σ) :
    σ → Prog S ε α → List (Event S σ) → σ → Except ε α → Prop
  | ret (s : σ) (a : α) : Exec M s (.ret a) [] s (.ok a)
  | throw (s : σ) (err : ε) : Exec M s (.throw err) [] s (.error err)
  | op {s s' : σ} {e : S.Eff} {k : S.Ans e → Prog S ε α} {x : S.Ans e} {tr : List (Event S σ)}
      {r : Except ε α} (hx : M.admits s e x) (hk : Exec M (M.next s e x) (k x) tr s' r) :
      Exec M s (.op e k) (⟨s, e, x⟩ :: tr) s' r

namespace Exec

variable {s s' s'' : σ} {tr tr' : List (Event S σ)} {a : α} {err : ε} {r : Except ε β}

/-- One effect. -/
theorem perform {e : S.Eff} {x : S.Ans e} (hx : M.admits s e x) :
    Exec M s (Prog.perform e : Prog S ε (S.Ans e)) [⟨s, e, x⟩] (M.next s e x) (.ok x) :=
  .op hx (.ret _ _)

/-- A run of `p` that returns, followed by a run of `f`. -/
theorem bind {p : Prog S ε α} {f : α → Prog S ε β} (hp : Exec M s p tr s' (.ok a))
    (hf : Exec M s' (f a) tr' s'' r) : Exec M s (p >>= f) (tr ++ tr') s'' r := by
  induction p generalizing s tr with
  | ret b =>
    cases hp
    exact hf
  | throw err => cases hp
  | op e k ih =>
    cases hp with
    | op hx hk => exact .op hx (ih _ hk)

/-- A run of `p` that throws. What follows is not run. -/
theorem bind_error {p : Prog S ε α} (f : α → Prog S ε β) (hp : Exec M s p tr s' (.error err)) :
    Exec M s (p >>= f) tr s' (.error err) := by
  induction p generalizing s tr with
  | ret b => cases hp
  | throw err =>
    cases hp
    exact .throw _ _
  | op e k ih =>
    cases hp with
    | op hx hk => exact .op hx (ih _ hk)

/-- A run that returns is not caught. -/
theorem tryCatch {p : Prog S ε α} (handler : ε → Prog S ε α) (hp : Exec M s p tr s' (.ok a)) :
    Exec M s (p.tryCatch handler) tr s' (.ok a) := by
  induction p generalizing s tr with
  | ret b =>
    cases hp
    exact .ret _ _
  | throw err => cases hp
  | op e k ih =>
    cases hp with
    | op hx hk => exact .op hx (ih _ hk)

/-- A run on a machine is a run on every machine that does the same, and perhaps more. -/
theorem mono {M' : Machine S σ} {p : Prog S ε α} {r : Except ε α} (h : Exec M s p tr s' r)
    (hM : ∀ s e x, M.admits s e x → M'.admits s e x ∧ M'.next s e x = M.next s e x) :
    Exec M' s p tr s' r := by
  induction h with
  | ret s a => exact .ret s a
  | throw s err => exact .throw s err
  | op hx _ ih =>
    obtain ⟨hx', hnext⟩ := hM _ _ _ hx
    exact .op hx' (hnext ▸ ih)

/-- A run whose events are all in `ok` is a run on the machine with these answers only. -/
theorem restrict {ok : Event S σ → Prop} {p : Prog S ε α} {r : Except ε α}
    (h : Exec M s p tr s' r) (hok : ∀ ev ∈ tr, ok ev) : Exec (M.restrict ok) s p tr s' r := by
  induction h with
  | ret s a => exact .ret s a
  | throw s err => exact .throw s err
  | op hx _ ih =>
    have hrest := fun ev hev => hok ev (List.mem_cons_of_mem _ hev)
    exact .op ⟨hx, hok _ (List.mem_cons_self ..)⟩ (ih hrest)

/-- Every run is a run of the logging machine, which ends with a record of it. -/
theorem logged {p : Prog S ε α} {r : Except ε α} (h : Exec M s p tr s' r)
    (record : List (Σ e : S.Eff, S.Ans e)) :
    ∃ tr', Exec M.logging (s, record) p tr' (s', record ++ inputs tr) r := by
  induction h generalizing record with
  | ret s a => exact ⟨[], by rw [inputs, List.map_nil, List.append_nil]; exact .ret (s, record) a⟩
  | throw s err =>
    exact ⟨[], by rw [inputs, List.map_nil, List.append_nil]; exact .throw (s, record) err⟩
  | @op s s' e k x tr r hx _ ih =>
    obtain ⟨tr', htr'⟩ := ih (record ++ [⟨e, x⟩])
    rw [List.append_assoc] at htr'
    exact ⟨_, .op (M := M.logging) (x := x) hx htr'⟩

/-- A run as it is seen on another machine, which follows the first one along `view`. -/
theorem image {Φ : Type} (P : Machine S Φ) (view : σ → Φ)
    (hview : ∀ s e x, M.admits s e x →
      P.admits (view s) e x ∧ view (M.next s e x) = P.next (view s) e x)
    {p : Prog S ε α} {r : Except ε α} (h : Exec M s p tr s' r) :
    ∃ tr', Exec P (view s) p tr' (view s') r := by
  induction h with
  | ret s a => exact ⟨[], .ret _ a⟩
  | throw s err => exact ⟨[], .throw _ err⟩
  | op hx _ ih =>
    obtain ⟨hx', hnext⟩ := hview _ _ _ hx
    obtain ⟨tr', htr'⟩ := ih
    rw [hnext] at htr'
    exact ⟨_, .op hx' htr'⟩

/-- Every run is a run of the recording machine, which ends with a record of it. -/
theorem recorded {p : Prog S ε α} {r : Except ε α} (h : Exec M s p tr s' r)
    (record : List (Σ e : S.Eff, S.Ans e)) :
    ∃ tr', Exec (Machine.recording S) record p tr' (record ++ inputs tr) r := by
  obtain ⟨tr', htr'⟩ := h.logged record
  exact htr'.image (Machine.recording S) Prod.snd fun _ _ _ _ => ⟨trivial, rfl⟩

end Exec

/-- Run a program with the answers that `env` gives. -/
def simulate (M : Machine S σ) (env : σ → (e : S.Eff) → S.Ans e) :
    σ → Prog S ε α → List (Event S σ) × σ × Except ε α
  | s, .ret a => ([], s, .ok a)
  | s, .throw err => ([], s, .error err)
  | s, .op e k =>
    let (tr, s', r) := simulate M env (M.next s e (env s e)) (k (env s e))
    (⟨s, e, env s e⟩ :: tr, s', r)

/-- A simulated run is a run, when the answers are possible ones. -/
theorem exec_simulate {env : σ → (e : S.Eff) → S.Ans e} (henv : ∀ s e, M.admits s e (env s e))
    (s : σ) (p : Prog S ε α) :
    Exec M s p (simulate M env s p).1 (simulate M env s p).2.1 (simulate M env s p).2.2 := by
  induction p generalizing s with
  | ret a => exact .ret s a
  | throw err => exact .throw s err
  | op e k ih => exact .op (henv s e) (ih (env s e) _)

/-- A simulated run is a run, when the answers on its way are possible ones. -/
theorem exec_simulate_of {env : σ → (e : S.Eff) → S.Ans e} {s : σ} {p : Prog S ε α}
    (h : ∀ ev ∈ (simulate M env s p).1, M.admits ev.pre ev.eff ev.ans) :
    Exec M s p (simulate M env s p).1 (simulate M env s p).2.1 (simulate M env s p).2.2 := by
  induction p generalizing s with
  | ret a => exact .ret s a
  | throw err => exact .throw s err
  | op e k ih =>
    obtain ⟨hx, hrest⟩ := List.forall_mem_cons.mp h
    exact .op hx (ih (env s e) hrest)

/-- A simulated run of `p` that returns, followed by one of `f`. -/
theorem simulate_bind_ok {env : σ → (e : S.Eff) → S.Ans e} {p : Prog S ε α} {f : α → Prog S ε β}
    {s s' : σ} {a : α} (h : (simulate M env s p).2 = (s', .ok a)) :
    (simulate M env s (p >>= f)).2 = (simulate M env s' (f a)).2 := by
  induction p generalizing s with
  | ret b =>
    obtain ⟨rfl, hb⟩ := Prod.mk.inj h
    obtain rfl := Except.ok.inj hb
    rfl
  | throw err =>
    obtain ⟨-, herr⟩ := Prod.mk.inj h
    cases herr
  | op e k ih => exact ih (env s e) h

/-- The answers of a simulated run are the ones that `env` gives. -/
theorem ans_of_mem_simulate {env : σ → (e : S.Eff) → S.Ans e} {s : σ} {p : Prog S ε α}
    {ev : Event S σ} (h : ev ∈ (simulate M env s p).1) : ev.ans = env ev.pre ev.eff := by
  induction p generalizing s with
  | ret a => cases h
  | throw err => cases h
  | op e k ih =>
    rcases List.mem_cons.mp h with rfl | h
    · rfl
    · exact ih _ h

/-- Run a program with the answers that `env` gives, up to the first effect that is not `own`. -/
def advance (M : Machine S σ) (env : σ → (e : S.Eff) → S.Ans e) (own : S.Eff → Bool) :
    σ → Prog S ε α → σ × Prog S ε α
  | s, .ret a => (s, .ret a)
  | s, .throw err => (s, .throw err)
  | s, .op e k =>
    if own e then advance M env own (M.next s e (env s e)) (k (env s e)) else (s, .op e k)

/-- What the own effects keep holds where the program has advanced to. -/
theorem advance_induction {env : σ → (e : S.Eff) → S.Ans e} {own : S.Eff → Bool}
    {I : σ → Prog S ε α → Prop}
    (hstep : ∀ s e k, own e = true → I s (.op e k) → I (M.next s e (env s e)) (k (env s e)))
    {s : σ} {p : Prog S ε α} (h : I s p) :
    I (advance M env own s p).1 (advance M env own s p).2 := by
  induction p generalizing s with
  | ret a => exact h
  | throw err => exact h
  | op e k ih =>
    unfold advance
    split
    case isTrue hown => exact ih _ (hstep s e k hown h)
    case isFalse => exact h

/-- Some run of `p` from `s` ends in `s'` with the result `r`. -/
def CanEnd (M : Machine S σ) (s : σ) (p : Prog S ε α) (s' : σ) (r : Except ε α) : Prop :=
  ∃ tr, Exec M s p tr s' r

namespace CanEnd

variable {s s' s'' : σ} {a : α} {r : Except ε β}

theorem pure (s : σ) (a : α) : CanEnd M s (pure a : Prog S ε α) s (.ok a) := ⟨[], .ret s a⟩

theorem bind {p : Prog S ε α} {f : α → Prog S ε β} (hp : CanEnd M s p s' (.ok a))
    (hf : CanEnd M s' (f a) s'' r) : CanEnd M s (p >>= f) s'' r := by
  obtain ⟨tr, hp⟩ := hp
  obtain ⟨tr', hf⟩ := hf
  exact ⟨tr ++ tr', hp.bind hf⟩

theorem bind_error {p : Prog S ε α} {err : ε} (f : α → Prog S ε β)
    (hp : CanEnd M s p s' (.error err)) : CanEnd M s (p >>= f) s' (.error err) := by
  obtain ⟨tr, hp⟩ := hp
  exact ⟨tr, hp.bind_error f⟩

theorem tryCatch {p : Prog S ε α} (handler : ε → Prog S ε α) (hp : CanEnd M s p s' (.ok a)) :
    CanEnd M s (p.tryCatch handler) s' (.ok a) := by
  obtain ⟨tr, hp⟩ := hp
  exact ⟨tr, hp.tryCatch handler⟩

/-- The end of a simulated run. -/
theorem simulate {env : σ → (e : S.Eff) → S.Ans e} (henv : ∀ s e, M.admits s e (env s e))
    {p : Prog S ε α} (h : (simulate M env s p).2.2 = .ok a) :
    CanEnd M s p (Prog.simulate M env s p).2.1 (.ok a) :=
  ⟨_, h ▸ exec_simulate henv s p⟩

end CanEnd

/-! ### The predicate transformer -/

/-- From the state every run of the program performs an effect only where `D` allows it, and ends
in `Q`. -/
def wp (M : Machine S σ) (D : σ → S.Eff → Prop) :
    Prog S ε α → (Except ε α → σ → Prop) → σ → Prop
  | .ret a, Q, s => Q (.ok a) s
  | .throw err, Q, s => Q (.error err) s
  | .op e k, Q, s => D s e ∧ ∀ x, M.admits s e x → wp M D (k x) Q (M.next s e x)

/-- What must hold after the first part of a program: the second part may run if there is a value
to run it on. -/
def Then (M : Machine S σ) (D : σ → S.Eff → Prop) (f : α → Prog S ε β)
    (Q : Except ε β → σ → Prop) : Except ε α → σ → Prop
  | .ok a, s => wp M D (f a) Q s
  | .error err, s => Q (.error err) s

/-- What must hold after a program whose exceptions are caught. -/
def Catching (M : Machine S σ) (D : σ → S.Eff → Prop) (handler : ε → Prog S ε α)
    (Q : Except ε α → σ → Prop) : Except ε α → σ → Prop
  | .ok a, s => Q (.ok a) s
  | .error err, s => wp M D (handler err) Q s

section Rules

variable {D : σ → S.Eff → Prop} {Q Q' : Except ε α → σ → Prop} {s : σ}

@[simp] theorem then_ok {f : α → Prog S ε β} {R : Except ε β → σ → Prop} (a : α) :
    Then M D f R (.ok a) s ↔ wp M D (f a) R s := Iff.rfl

theorem wp_bind {p : Prog S ε α} {f : α → Prog S ε β} {R : Except ε β → σ → Prop} :
    wp M D (p >>= f) R s ↔ wp M D p (Then M D f R) s := by
  induction p generalizing s with
  | ret a => exact Iff.rfl
  | throw err => exact Iff.rfl
  | op e k ih => exact and_congr_right fun _ => forall₂_congr fun x _ => ih x

/-- One effect, then the rest of the program. -/
theorem wp_perform_bind {e : S.Eff} {f : S.Ans e → Prog S ε β} {R : Except ε β → σ → Prop} :
    wp M D (perform e >>= f) R s ↔
      D s e ∧ ∀ x, M.admits s e x → wp M D (f x) R (M.next s e x) := Iff.rfl

@[simp] theorem wp_ofExcept {x : Except ε α} : wp M D (ofExcept x) Q s ↔ Q x s := by
  cases x with
  | ok a => exact Iff.rfl
  | error err => exact Iff.rfl

theorem wp_tryCatch {p : Prog S ε α} {handler : ε → Prog S ε α} :
    wp M D (p.tryCatch handler) Q s ↔ wp M D p (Catching M D handler Q) s := by
  induction p generalizing s with
  | ret a => exact Iff.rfl
  | throw err => exact Iff.rfl
  | op e k ih => exact and_congr_right fun _ => forall₂_congr fun x _ => ih x

/-- Nothing is demanded and nothing is claimed. -/
theorem wp_trivial (p : Prog S ε α) : wp M (fun _ _ => True) p (fun _ _ => True) s := by
  induction p generalizing s with
  | ret a => trivial
  | throw err => trivial
  | op e k ih => exact ⟨trivial, fun x _ => ih x⟩

/-- What holds of the end of every run may be weakened. -/
theorem wp_mono {p : Prog S ε α} (h : wp M D p Q s) (hQ : ∀ r s, Q r s → Q' r s) :
    wp M D p Q' s := by
  induction p generalizing s with
  | ret a => exact hQ _ _ h
  | throw err => exact hQ _ _ h
  | op e k ih => exact ⟨h.1, fun x hx => ih x (h.2 x hx)⟩

/-- The first part of a program, then the rest. -/
theorem wp_bind_of {p : Prog S ε α} {f : α → Prog S ε β} {R : Except ε β → σ → Prop}
    (hp : wp M D p Q s) (hok : ∀ a s, Q (.ok a) s → wp M D (f a) R s)
    (herror : ∀ err s, Q (.error err) s → R (.error err) s) : wp M D (p >>= f) R s := by
  rw [wp_bind]
  refine wp_mono hp fun r s' hr => ?_
  cases r with
  | ok a => exact hok a s' hr
  | error err => exact herror err s' hr

/-- A run of a verified program ends as it should, and performs effects only where it may. -/
theorem Exec.of_wp {p : Prog S ε α} {s' : σ} {tr : List (Event S σ)} {r : Except ε α}
    (h : Exec M s p tr s' r) (hwp : wp M D p Q s) : Q r s' ∧ ∀ ev ∈ tr, D ev.pre ev.eff := by
  induction h with
  | ret s a => exact ⟨hwp, fun _ hev => absurd hev List.not_mem_nil⟩
  | throw s err => exact ⟨hwp, fun _ hev => absurd hev List.not_mem_nil⟩
  | op hx _ ih =>
    obtain ⟨hQ, htr⟩ := ih (hwp.2 _ hx)
    refine ⟨hQ, fun ev hev => ?_⟩
    rcases List.mem_cons.mp hev with rfl | hev
    · exact hwp.1
    · exact htr ev hev

/-- Where a verified program can end. -/
theorem CanEnd.of_wp {p : Prog S ε α} {s' : σ} {r : Except ε α} (h : CanEnd M s p s' r)
    (hwp : wp M D p Q s) : Q r s' := by
  obtain ⟨tr, hrun⟩ := h
  exact (hrun.of_wp hwp).1

/-- A program that was verified on a machine which only looks on keeps the demands in every run:
they hold of the state this machine is in after the events so far. -/
theorem Exec.seen {Φ : Type} {P : Machine S Φ} {D : Φ → S.Eff → Prop} {Q : Except ε α → Φ → Prop}
    {φ : Φ} {p : Prog S ε α} {s' : σ} {tr : List (Event S σ)} {r : Except ε α}
    (h : Exec M s p tr s' r) (hP : ∀ φ e x, P.admits φ e x) (hwp : wp P D p Q φ)
    {pre post : List (Event S σ)} {ev : Event S σ} (htr : tr = pre ++ ev :: post) :
    D (pre.foldl (fun φ ev => P.next φ ev.eff ev.ans) φ) ev.eff := by
  induction h generalizing φ pre with
  | ret s a => exact absurd htr (by simp)
  | throw s err => exact absurd htr (by simp)
  | op hx _ ih =>
    cases pre with
    -- the event is the first one
    | nil =>
      obtain ⟨rfl, -⟩ := List.cons.inj htr
      exact hwp.1
    -- or one behind it
    | cons ev₀ pre =>
      obtain ⟨rfl, hrest⟩ := List.cons.inj htr
      exact ih (hwp.2 _ (hP _ _ _)) hrest

/-- What a program does on the recording machine it does on this one, and an invariant that its
effects keep still holds afterwards. -/
theorem wp_frame {p : Prog S ε α} {A : S.Eff → Prop} {P : Except ε α → Prop} {I : σ → Prop}
    {record : List (Σ e : S.Eff, S.Ans e)}
    (h : wp (Machine.recording S) (fun _ => A) p (fun r _ => P r) record)
    (hA : ∀ e, A e → ∀ s x, M.admits s e x → I s → I (M.next s e x)) (hI : I s) :
    wp M (fun s e => A e ∧ I s) p (fun r s' => P r ∧ I s') s := by
  induction p generalizing s record with
  | ret a => exact ⟨h, hI⟩
  | throw err => exact ⟨h, hI⟩
  | op e k ih =>
    refine ⟨⟨h.1, hI⟩, fun x hx => ?_⟩
    exact ih x (h.2 x trivial) (hA e h.1 s x hx hI)

/-- Demands that follow from the ones that were verified. -/
theorem wp_demands {p : Prog S ε α} {D' : σ → S.Eff → Prop} (h : wp M D p Q s)
    (hD : ∀ s e, D s e → D' s e) : wp M D' p Q s := by
  induction p generalizing s with
  | ret a => exact h
  | throw err => exact h
  | op e k ih => exact ⟨hD s e h.1, fun x hx => ih x (h.2 x hx)⟩

end Rules

/-! ### What a program can still do -/

/-- Whatever the answers are, the program performs only effects of this kind. -/
def Only (A : S.Eff → Prop) : Prog S ε α → Prop
  | .op e k => A e ∧ ∀ x, Only A (k x)
  | _ => True

section Only

variable {A B : S.Eff → Prop}

@[simp] theorem only_pure (a : α) : (pure a : Prog S ε α).Only A := trivial

@[simp] theorem only_throw (err : ε) : (throw err : Prog S ε α).Only A := trivial

@[simp] theorem only_ofExcept (x : Except ε α) : (ofExcept x).Only A := by
  cases x <;> trivial

theorem Only.bind {p : Prog S ε α} {f : α → Prog S ε β} (hp : p.Only A) (hf : ∀ a, (f a).Only A) :
    (p >>= f).Only A := by
  induction p with
  | ret a => exact hf a
  | throw err => trivial
  | op e k ih => exact ⟨hp.1, fun x => ih x (hp.2 x)⟩

theorem Only.tryCatch {p : Prog S ε α} {handler : ε → Prog S ε α} (hp : p.Only A)
    (hhandler : ∀ err, (handler err).Only A) : (p.tryCatch handler).Only A := by
  induction p with
  | ret a => trivial
  | throw err => exact hhandler err
  | op e k ih => exact ⟨hp.1, fun x => ih x (hp.2 x)⟩

/-- A larger kind of effects. -/
theorem Only.mono {p : Prog S ε α} (h : p.Only A) (hAB : ∀ e, A e → B e) : p.Only B := by
  induction p with
  | ret a => trivial
  | throw err => trivial
  | op e k ih => exact ⟨hAB e h.1, fun x => ih x (h.2 x)⟩

/-- Effects of two kinds at once. -/
theorem Only.and {p : Prog S ε α} (hA : p.Only A) (hB : p.Only B) : p.Only fun e => A e ∧ B e := by
  induction p with
  | ret a => trivial
  | throw err => trivial
  | op e k ih => exact ⟨⟨hA.1, hB.1⟩, fun x => ih x (hA.2 x) (hB.2 x)⟩

/-- What a program performs on the recording machine is all it can perform. -/
theorem Only.of_wp {p : Prog S ε α} {Q : Except ε α → List (Σ e : S.Eff, S.Ans e) → Prop}
    (record : List (Σ e : S.Eff, S.Ans e))
    (h : wp (Machine.recording S) (fun _ => A) p Q record) : p.Only A := by
  induction p generalizing record with
  | ret a => trivial
  | throw err => trivial
  | op e k ih => exact ⟨h.1, fun x => ih x _ (h.2 x trivial)⟩

/-- A program whose effects all keep an invariant, and may be performed where it holds, keeps it. -/
theorem Only.wp {D : σ → S.Eff → Prop} {I : σ → Prop} {p : Prog S ε α} {s : σ} (h : p.Only A)
    (hA : ∀ e, A e → ∀ s, I s → D s e ∧ ∀ x, M.admits s e x → I (M.next s e x)) (hI : I s) :
    Prog.wp M D p (fun _ s' => I s') s := by
  induction p generalizing s with
  | ret a => exact hI
  | throw err => exact hI
  | op e k ih =>
    obtain ⟨hD, hnext⟩ := hA e h.1 s hI
    exact ⟨hD, fun x hx => ih x (h.2 x) (hnext x hx)⟩

/-- What a verified program demands, it demands of the effects it can perform. -/
theorem Only.wp_demands {D D' : σ → S.Eff → Prop} {Q : Except ε α → σ → Prop} {p : Prog S ε α}
    {s : σ} (h : p.Only A) (hwp : Prog.wp M D p Q s) (hD : ∀ s e, A e → D s e → D' s e) :
    Prog.wp M D' p Q s := by
  induction p generalizing s with
  | ret a => exact hwp
  | throw err => exact hwp
  | op e k ih => exact ⟨hD s e h.1 hwp.1, fun x hx => ih x (h.2 x) (hwp.2 x hx)⟩

end Only

end Prog
