import Mathlib.Data.List.Infix

/-!
# Escape sequences that are erased in several passes

A control sequence begins with an escape character and ends with a final character that says which
pass erases it (`Escapes.step`); a control string begins with the escape character and a bracket,
ends with the first bell behind it, and is erased by the last pass. Every pass goes once over what
the pass before has left (`Escapes.passes`), so a sequence may come together around one that is
erased, and it stays when its own pass is over.

`Escapes.scan` finds this out on the text itself, in one go: it keeps the sequences that are open at
a position, each with the last pass that has erased something inside it. A sequence that is
completed goes if its own pass is a later one, and stays otherwise. `scan_passes` says that
something is left behind by the passes exactly when `scan` finds something that stays. It is proved
one pass at a time: what `scan` finds when the first `k` passes are over, it finds on the text
behind the next pass when one more is over (`scan_erase`).
-/

/-- Erase the matches of a pattern from left to right, each search starting behind the last match.
`matchLength l` is the length of a match at the very start of `l`; the first argument counts the
elements of a match that are still to be dropped. -/
def eraseAll {α : Type} (matchLength : List α → Option Nat) : Nat → List α → List α
  | _, [] => []
  | n + 1, _ :: l => eraseAll matchLength n l
  | 0, a :: l =>
    match matchLength (a :: l) with
    | some n => eraseAll matchLength (n - 1) l
    | none => a :: eraseAll matchLength 0 l

theorem eraseAll_eq_drop {α : Type} {f : List α → Option Nat} (n : Nat) (l : List α) :
    eraseAll f n l = eraseAll f 0 (l.drop n) := by
  induction n generalizing l with
  | zero => rfl
  | succ n ih =>
    cases l with
    | nil => rfl
    | cons a l => exact ih l

/-- What a character does to a sequence that is open. -/
inductive SequenceStep (Q : Type) where
  | next (q : Q)
  | done (pass : Nat)
  | dead

/-- The shape of control sequences. -/
structure Escapes (α Q : Type) where
  esc : α
  bell : α
  bracket : α
  /-- behind the escape character -/
  start : Q
  step : Q → α → SequenceStep Q
  /-- the pass that erases the strings -/
  strings : Nat
  strings_pos : 0 < strings
  esc_ne_bell : esc ≠ bell
  bracket_ne_bell : bracket ≠ bell
  bracket_ne_esc : bracket ≠ esc
  step_bell : ∀ q, step q bell = .dead
  step_bracket : step start bracket = .dead
  next_ne_start : ∀ q c, step q c ≠ .next start
  done_spec : ∀ {q c pass}, step q c = .done pass → 0 < pass ∧ pass < strings

namespace Escapes

variable {α Q : Type} {pass k m n : Nat} {stack : List (Q × Nat)}

/-! ### Open sequences

They are listed from the innermost one on, each with the last pass that has erased something inside
it. -/

/-- Something is erased inside the innermost open sequence. -/
def raise (pass : Nat) : List (Q × Nat) → List (Q × Nat)
  | [] => []
  | (q, m) :: outer => (q, max m pass) :: outer

/-- Is the innermost sequence out of reach of the first `k + 1` passes? -/
def Raised (k : Nat) (stack : List (Q × Nat)) : Prop :=
  ∀ q m, stack.head? = some (q, m) → k < m

theorem raised_nil : Raised k ([] : List (Q × Nat)) := nofun

theorem raised_raise (h : k < pass) : Raised k (raise pass stack) := by
  cases stack with
  | nil => exact raised_nil
  | cons top outer =>
    intro q m htop
    obtain ⟨rfl, rfl⟩ := Prod.mk.inj (Option.some.inj htop)
    exact Nat.lt_of_lt_of_le h (Nat.le_max_right ..)

/-- What the first `k + 1` passes have erased is not there when they are over. -/
def lower (k : Nat) (stack : List (Q × Nat)) : List (Q × Nat) :=
  stack.map fun (q, m) => (q, if m ≤ k + 1 then 0 else m)

theorem lower_raise_self : lower k (raise (k + 1) stack) = lower k stack := by
  cases stack with
  | nil => rfl
  | cons top outer =>
    refine congrArg (· :: lower k outer) (Prod.ext rfl ?_)
    change (if max top.2 (k + 1) ≤ k + 1 then 0 else max top.2 (k + 1)) =
      if top.2 ≤ k + 1 then 0 else top.2
    split <;> split <;> omega

theorem lower_raise (h : k + 1 < pass) :
    lower k (raise pass stack) = raise pass (lower k stack) := by
  cases stack with
  | nil => rfl
  | cons top outer =>
    refine congrArg (· :: lower k outer) (Prod.ext rfl ?_)
    change (if max top.2 pass ≤ k + 1 then 0 else max top.2 pass) =
      max (if top.2 ≤ k + 1 then 0 else top.2) pass
    split <;> split <;> omega

theorem lowered_lt_iff (h : k + 1 < pass) : (if m ≤ k + 1 then 0 else m) < pass ↔ m < pass := by
  split <;> omega

variable [DecidableEq α] (E : Escapes α Q)

/-! ### The passes -/

/-- The length of what completes a sequence of this pass from here on. -/
def sequenceLength (pass : Nat) : Q → List α → Option Nat
  | _, [] => none
  | q, c :: rest =>
    if c = E.esc then none
    else match E.step q c with
      | .next q' => (sequenceLength pass q' rest).map (· + 1)
      | .done pass' => if pass' = pass then some 1 else none
      | .dead => none

/-- The length of a string behind its escape character. -/
def stringLength : List α → Option Nat
  | [] => none
  | c :: rest =>
    if c = E.bracket ∧ E.bell ∈ rest then some (2 + (rest.takeWhile (· ≠ E.bell)).length) else none

variable {E} {q : Q} {c : α} {l rest : List α}

theorem sequenceLength_cons (hc : c ≠ E.esc) :
    E.sequenceLength pass q (c :: rest) =
      match E.step q c with
      | .next q' => (E.sequenceLength pass q' rest).map (· + 1)
      | .done pass' => if pass' = pass then some 1 else none
      | .dead => none := by
  rw [sequenceLength, if_neg hc]

/-- What completes a sequence has no bell. -/
theorem bell_notMem_take (h : E.sequenceLength pass q l = some n) : E.bell ∉ l.take n := by
  induction l generalizing q n with
  | nil => cases h
  | cons c rest ih =>
    rw [sequenceLength] at h
    split at h
    · cases h
    -- no sequence passes a bell
    · have hbell : E.bell ≠ c ∨ E.step q c = .dead := by
        by_cases hc : E.bell = c
        · exact .inr (hc ▸ E.step_bell q)
        · exact .inl hc
      split at h
      · next q' hq' =>
        obtain ⟨n', hn', rfl⟩ := Option.map_eq_some_iff.mp h
        rw [hq'] at hbell
        rw [List.take_succ_cons, List.mem_cons, not_or]
        exact ⟨hbell.resolve_right nofun, ih hn'⟩
      -- the last unit of the sequence is no bell either
      · next pass' hdone =>
        rw [hdone] at hbell
        split at h
        · cases h
          rw [List.take_succ_cons, List.take_zero, List.mem_singleton]
          exact hbell.resolve_right nofun
        · cases h
      · cases h

/-- Where no sequence of this pass can end, none is completed. -/
theorem sequenceLength_eq_none_of_closed {R : Q → Prop}
    (hclosed : ∀ q c, R q → match E.step q c with
      | .next q' => R q'
      | .done pass' => pass' ≠ pass
      | .dead => True) (hq : R q) (l : List α) : E.sequenceLength pass q l = none := by
  induction l generalizing q with
  | nil => rfl
  | cons c rest ih =>
    -- no state of the set ends in this pass, and none leaves the set
    have hstep := hclosed q c hq
    rw [sequenceLength]
    split
    · rfl
    · split
      · next q' hnext =>
        rw [hnext] at hstep
        rw [ih hstep, Option.map_none]
      · next pass' hdone =>
        rw [hdone] at hstep
        exact if_neg hstep
      · rfl

variable [DecidableEq Q] (E)

/-- The length of what completes a match of this pass from here on. -/
def restLength (pass : Nat) (q : Q) (l : List α) : Option Nat :=
  if pass = E.strings then if q = E.start then E.stringLength l else none
  else E.sequenceLength pass q l

/-- The length of a match of a pass. -/
def matchLength (pass : Nat) : List α → Option Nat
  | [] => none
  | c :: rest => if c = E.esc then (E.restLength pass E.start rest).map (· + 1) else none

/-- One pass. -/
def erase (pass : Nat) (l : List α) : List α := eraseAll (E.matchLength pass) 0 l

/-- The first `k` passes. -/
def passes : Nat → List α → List α
  | 0, l => l
  | k + 1, l => E.erase (k + 1) (passes k l)

/-- Nothing in the text is a sequence or a string. -/
def Clean (l : List α) : Prop :=
  ∀ t, t <:+ l → ∀ pass, 0 < pass → pass ≤ E.strings → E.matchLength pass t = none

/-! ### The scan -/

/-- Does something stay, when the first `k` passes are over? `skipping` is inside a string that is
erased, and `unclosed` behind the beginning of one that is not. -/
def scan (k : Nat) : (skipping unclosed : Bool) → List (Q × Nat) → List α → Bool
  | _, _, _, [] => false
  | true, unclosed, stack, c :: rest => scan k (c ≠ E.bell) unclosed stack rest
  | false, unclosed, stack, c :: rest =>
    if c = E.esc then scan k false unclosed ((E.start, 0) :: stack) rest
    else if c = E.bell then unclosed || scan k false unclosed [] rest
    else match stack with
      | [] => scan k false unclosed [] rest
      | (q, m) :: outer =>
        if q = E.start ∧ c = E.bracket then
          if m < E.strings ∧ k < E.strings ∧ E.bell ∈ rest then
            scan k true unclosed (raise E.strings outer) rest
          else scan k false true [] rest
        else match E.step q c with
          | .next q' => scan k false unclosed ((q', m) :: outer) rest
          | .done pass => if m < pass ∧ k < pass then scan k false unclosed (raise pass outer) rest
              else true
          | .dead => scan k false unclosed [] rest

/-! ### One pass over a text -/

variable {E} {stack : List (Q × Nat)} {skipping unclosed : Bool}

theorem erase_of_match (h : E.restLength pass E.start rest = some n) :
    E.erase pass (E.esc :: rest) = E.erase pass (rest.drop n) := by
  have hmatch : E.matchLength pass (E.esc :: rest) = some (n + 1) := by
    rw [matchLength, if_pos rfl, h]
    rfl
  rw [erase, eraseAll, hmatch]
  exact eraseAll_eq_drop n rest

theorem erase_of_no_match (h : c = E.esc → E.restLength pass E.start rest = none) :
    E.erase pass (c :: rest) = c :: E.erase pass rest := by
  have hmatch : E.matchLength pass (c :: rest) = none := by
    rw [matchLength]
    split
    · next hesc => rw [h hesc]; rfl
    · rfl
  rw [erase, eraseAll, hmatch]
  rfl

/-- The passes over the sequences keep the bells. -/
theorem bell_mem_erase_iff (hpass : pass ≠ E.strings) : E.bell ∈ E.erase pass l ↔ E.bell ∈ l := by
  -- what is left behind an erased sequence is shorter by more than one unit
  induction hlen : l.length using Nat.strong_induction_on generalizing l with
  | _ length ih =>
    subst hlen
    cases l with
    | nil => rfl
    | cons c rest =>
      by_cases hmatch : c = E.esc → E.restLength pass E.start rest = none
      · rw [erase_of_no_match hmatch, List.mem_cons, List.mem_cons,
          ih rest.length (Nat.lt_succ_self _) rfl]
      · obtain ⟨rfl, hsome⟩ := Classical.not_imp.mp hmatch
        obtain ⟨n, hn⟩ := Option.ne_none_iff_exists'.mp hsome
        -- strings are not what this pass erases, so the match is a sequence
        have hseq : E.sequenceLength pass E.start rest = some n := by
          rwa [restLength, if_neg hpass] at hn
        have hlt : (rest.drop n).length < rest.length + 1 := by
          rw [List.length_drop]
          omega
        rw [erase_of_match hn, ih _ hlt rfl, List.mem_cons]
        -- and an erased sequence holds no bell
        have hsplit : E.bell ∈ rest ↔ E.bell ∈ rest.take n ∨ E.bell ∈ rest.drop n := by
          rw [← List.mem_append, List.take_append_drop]
        rw [hsplit]
        exact ⟨fun h => .inr (.inr h), fun h => (h.resolve_left fun he =>
          E.esc_ne_bell he.symm).resolve_left (bell_notMem_take hseq)⟩

theorem erase_sublist : (E.erase pass l).Sublist l := by
  induction hlen : l.length using Nat.strong_induction_on generalizing l with
  | _ length ih =>
    subst hlen
    cases l with
    | nil => exact List.Sublist.refl _
    | cons c rest =>
      by_cases hmatch : c = E.esc → E.restLength pass E.start rest = none
      · rw [erase_of_no_match hmatch]
        exact (ih rest.length (Nat.lt_succ_self _) rfl).cons_cons c
      · obtain ⟨rfl, hsome⟩ := Classical.not_imp.mp hmatch
        obtain ⟨n, hn⟩ := Option.ne_none_iff_exists'.mp hsome
        have hlt : (rest.drop n).length < rest.length + 1 := by
          rw [List.length_drop]
          omega
        rw [erase_of_match hn]
        exact (ih _ hlt rfl).trans ((List.drop_sublist n rest).cons E.esc)

theorem passes_sublist : (E.passes k l).Sublist l := by
  induction k with
  | zero => exact List.Sublist.refl _
  | succ k ih => exact erase_sublist.trans ih

theorem erase_of_esc_notMem (h : E.esc ∉ l) : E.erase pass l = l := by
  induction l with
  | nil => rfl
  | cons c rest ih =>
    rw [List.mem_cons, not_or] at h
    rw [erase_of_no_match fun hc => absurd hc.symm h.1, ih h.2]

theorem passes_of_esc_notMem (h : E.esc ∉ l) : E.passes k l = l := by
  induction k with
  | zero => rfl
  | succ k ih =>
    rw [passes, ih]
    exact erase_of_esc_notMem h

/-! ### The scan, character by character -/

theorem scan_skip : E.scan k true unclosed stack (c :: rest) =
    E.scan k (c ≠ E.bell) unclosed stack rest := by
  cases stack <;> rfl

theorem scan_esc : E.scan k false unclosed stack (E.esc :: rest) =
    E.scan k false unclosed ((E.start, 0) :: stack) rest := by
  cases stack <;> exact if_pos rfl

theorem scan_bell : E.scan k false unclosed stack (E.bell :: rest) =
    (unclosed || E.scan k false unclosed [] rest) := by
  cases stack <;> rw [scan, if_neg E.esc_ne_bell.symm, if_pos rfl]

theorem scan_outside (hesc : c ≠ E.esc) (hbell : c ≠ E.bell) :
    E.scan k false unclosed [] (c :: rest) = E.scan k false unclosed [] rest := by
  rw [scan, if_neg hesc, if_neg hbell]

theorem scan_inside {outer : List (Q × Nat)} (hesc : c ≠ E.esc) (hbell : c ≠ E.bell) :
    E.scan k false unclosed ((q, m) :: outer) (c :: rest) =
      if q = E.start ∧ c = E.bracket then
        if m < E.strings ∧ k < E.strings ∧ E.bell ∈ rest then
          E.scan k true unclosed (raise E.strings outer) rest
        else E.scan k false true [] rest
      else match E.step q c with
        | .next q' => E.scan k false unclosed ((q', m) :: outer) rest
        | .done pass =>
          if m < pass ∧ k < pass then E.scan k false unclosed (raise pass outer) rest else true
        | .dead => E.scan k false unclosed [] rest := by
  rw [scan, if_neg hesc, if_neg hbell]

/-! ### The scan over a match -/

/-- The scan over what completes a sequence of a later pass. -/
theorem scan_sequence {outer : List (Q × Nat)} (hk : k < pass) (hm : m < pass)
    (h : E.sequenceLength pass q l = some n) :
    E.scan k false unclosed ((q, m) :: outer) l =
      E.scan k false unclosed (raise pass outer) (l.drop n) := by
  induction l generalizing q n with
  | nil => cases h
  | cons c rest ih =>
    by_cases hc : c = E.esc
    · rw [sequenceLength, if_pos hc] at h
      cases h
    rw [sequenceLength_cons hc] at h
    -- the sequence is in one of its states at every unit
    have hstep : E.step q c ≠ .dead := fun hdead => by
      rw [hdead] at h
      cases h
    have hbell : c ≠ E.bell := fun hbell => hstep (hbell ▸ E.step_bell q)
    have hbracket : ¬ (q = E.start ∧ c = E.bracket) := fun ⟨hq, hb⟩ =>
      hstep (hq ▸ hb ▸ E.step_bracket)
    -- the scan takes the same step, until the pass of this sequence is reached
    rw [scan_inside hc hbell, if_neg hbracket]
    split at h
    · next q' hq' =>
      obtain ⟨n', hn', rfl⟩ := Option.map_eq_some_iff.mp h
      rw [List.drop_succ_cons]
      exact ih hn'
    · next pass' hdone =>
      split at h
      · next heq =>
        cases h
        rw [heq]
        exact if_pos ⟨hm, hk⟩
      · cases h
    · cases h

/-- Inside a string that is erased the scan goes over everything but the bell. -/
theorem scan_skipping (h : E.bell ∉ l.take n) :
    E.scan k true unclosed stack l = E.scan k true unclosed stack (l.drop n) := by
  induction l generalizing n with
  | nil => rw [List.drop_nil]
  | cons c rest ih =>
    cases n with
    | zero => rfl
    | succ n =>
      rw [List.take_succ_cons, List.mem_cons, not_or] at h
      rw [List.drop_succ_cons, scan_skip, decide_eq_true (Ne.symm h.1)]
      exact ih h.2

/-- The scan over a string that is erased, from behind its bracket. -/
theorem scan_to_bell (h : E.bell ∈ l) :
    E.scan k true unclosed stack l =
      E.scan k false unclosed stack (l.drop ((l.takeWhile (· ≠ E.bell)).length + 1)) := by
  induction l with
  | nil => cases h
  | cons c rest ih =>
    rw [scan_skip]
    by_cases hc : c = E.bell
    · rw [List.takeWhile_cons_of_neg (by simpa using hc), decide_eq_false (not_not_intro hc)]
      rfl
    · rw [List.takeWhile_cons_of_pos (by simpa using hc), decide_eq_true hc]
      exact ih ((List.mem_cons.mp h).resolve_left (Ne.symm hc))

theorem scan_string {outer : List (Q × Nat)} (hk : k < E.strings) (hm : m < E.strings)
    (h : E.stringLength l = some n) :
    E.scan k false unclosed ((E.start, m) :: outer) l =
      E.scan k false unclosed (raise E.strings outer) (l.drop n) := by
  cases l with
  | nil => cases h
  | cons c rest =>
    rw [stringLength] at h
    split at h
    · next hstart =>
      obtain ⟨rfl, hmem⟩ := hstart
      obtain rfl := Option.some.inj h
      rw [scan_inside E.bracket_ne_esc E.bracket_ne_bell, if_pos ⟨rfl, rfl⟩,
        if_pos ⟨hm, hk, hmem⟩, scan_to_bell hmem, Nat.add_comm 2]
      rfl
    · cases h

/-- The scan over a match of a later pass. -/
theorem scan_rest {outer : List (Q × Nat)} (hk : k < pass) (hm : m < pass)
    (h : E.restLength pass q l = some n) :
    E.scan k false unclosed ((q, m) :: outer) l =
      E.scan k false unclosed (raise pass outer) (l.drop n) := by
  rw [restLength] at h
  split at h
  · next hpass =>
    subst hpass
    split at h
    · next hq => exact hq ▸ scan_string hk hm h
    · cases h
  · exact scan_sequence hk hm h

/-! ### One pass less -/

/-- The innermost sequence is not completed by the next pass from here on: something that is erased
later lies inside it, or what follows does not complete it. -/
def Pending (k : Nat) (stack : List (Q × Nat)) (l : List α) : Prop :=
  ∀ q m, stack.head? = some (q, m) → m ≤ k → E.restLength (k + 1) q l = none

theorem pending_of_raised (h : Raised k stack) : E.Pending k stack l :=
  fun q m htop hm => absurd hm (Nat.not_le.mpr (h q m htop))

theorem restLength_of_next {q' : Q} (hc : c ≠ E.esc) (hnext : E.step q c = .next q') :
    E.restLength pass q (c :: rest) = (E.restLength pass q' rest).map (· + 1) := by
  have hstart : q' ≠ E.start := fun heq => E.next_ne_start q c (heq ▸ hnext)
  rw [restLength, restLength]
  by_cases hpass : pass = E.strings
  · rw [if_pos hpass, if_pos hpass, if_neg hstart]
    split
    · next hq =>
      -- the bracket does not begin a sequence
      have hbracket : c ≠ E.bracket := fun heq => by
        rw [hq, heq, E.step_bracket] at hnext
        cases hnext
      rw [stringLength, if_neg fun h => hbracket h.1]
      rfl
    · rfl
  · rw [if_neg hpass, if_neg hpass, sequenceLength_cons hc, hnext]

theorem restLength_ne_none_of_done (hc : c ≠ E.esc) (hdone : E.step q c = .done pass) :
    E.restLength pass q (c :: rest) ≠ none := by
  have hpass : pass ≠ E.strings := (E.done_spec hdone).2.ne
  rw [restLength, if_neg hpass, sequenceLength_cons hc, hdone]
  dsimp only
  rw [if_pos rfl]
  exact Option.some_ne_none 1

theorem restLength_strings_start (hmem : E.bell ∈ rest) :
    E.restLength E.strings E.start (E.bracket :: rest) ≠ none := by
  rw [restLength, if_pos rfl, if_pos rfl, stringLength, if_pos ⟨rfl, hmem⟩]
  exact Option.some_ne_none _

/-- The character step of `scan_erase`, in front of a text where the claim holds. -/
theorem scan_cons_erase (hk : k < E.strings) (hesc : c ≠ E.esc)
    (hpend : E.Pending k stack (c :: rest))
    (ih : ∀ {skipping unclosed stack}, (skipping = true → k + 1 ≠ E.strings ∧ Raised k stack) →
      (skipping = false → E.Pending k stack rest) →
      E.scan k skipping unclosed stack rest =
        E.scan (k + 1) skipping unclosed (lower k stack) (E.erase (k + 1) rest)) :
    E.scan k false unclosed stack (c :: rest) =
      E.scan (k + 1) false unclosed (lower k stack) (c :: E.erase (k + 1) rest) := by
  have ihnil : ∀ {unclosed}, E.scan k false unclosed [] rest =
      E.scan (k + 1) false unclosed [] (E.erase (k + 1) rest) :=
    ih nofun fun _ => pending_of_raised raised_nil
  -- a bell closes whatever is open, before and after the pass
  by_cases hbell : c = E.bell
  · rw [hbell, scan_bell, scan_bell, ihnil]
  cases stack with
  | nil =>
    rw [scan_outside hesc hbell, ihnil]
    exact (scan_outside hesc hbell).symm
  | cons top outer =>
    obtain ⟨q, m⟩ := top
    -- this pass would have erased here, had the innermost sequence matched
    have hnone : m ≤ k → E.restLength (k + 1) q (c :: rest) = none := hpend q m rfl
    have hlower : lower k ((q, m) :: outer) =
      (q, if m ≤ k + 1 then 0 else m) :: lower k outer := rfl
    rw [scan_inside hesc hbell, hlower, scan_inside hesc hbell]
    split
    · next hstart =>
      obtain ⟨rfl, rfl⟩ := hstart
      rcases Nat.lt_or_eq_of_le (Nat.succ_le_of_lt hk) with hlt | heq
      · -- the strings come later
        have hcond : (m < E.strings ∧ k < E.strings ∧ E.bell ∈ rest) ↔
            ((if m ≤ k + 1 then 0 else m) < E.strings ∧ k + 1 < E.strings ∧
              E.bell ∈ E.erase (k + 1) rest) :=
          and_congr (lowered_lt_iff hlt).symm
            (and_congr (iff_of_true hk hlt) (bell_mem_erase_iff hlt.ne).symm)
        refine if_congr hcond ?_ ihnil
        rw [← lower_raise hlt]
        exact ih (fun _ => ⟨hlt.ne, raised_raise hk⟩) nofun
      · -- this is the pass of the strings, and erases none here
        have hleft : ¬ (m < E.strings ∧ k < E.strings ∧ E.bell ∈ rest) := fun ⟨hm, _, hmem⟩ =>
          restLength_strings_start hmem (heq ▸ hnone (by omega))
        have hright : ¬ ((if m ≤ k + 1 then 0 else m) < E.strings ∧ k + 1 < E.strings ∧
            E.bell ∈ E.erase (k + 1) rest) := fun h => h.2.1.ne heq
        rw [if_neg hleft, if_neg hright]
        exact ihnil
    · split
      -- the innermost sequence goes on
      · next q' hnext =>
        have hpend' : E.Pending k ((q', m) :: outer) rest := by
          intro q'' m' htop hm
          obtain ⟨rfl, rfl⟩ := Prod.mk.inj (Option.some.inj htop)
          have h := hnone hm
          rw [restLength_of_next hesc hnext] at h
          exact Option.map_eq_none_iff.mp h
        exact ih nofun fun _ => hpend'
      · next pass hdone =>
        rcases Nat.lt_trichotomy pass (k + 1) with hlt | heq | hgt
        · -- too late for both
          rw [if_neg fun h => by omega, if_neg fun h => by omega]
        · -- a pass that would have erased it, but for what it erased inside
          have hm : k < m := Nat.lt_of_not_le fun hm =>
            restLength_ne_none_of_done hesc hdone (heq ▸ hnone hm)
          rw [if_neg fun h => by omega, if_neg fun h => by omega]
        · have hlt : k < pass := Nat.lt_of_succ_lt hgt
          refine if_congr (and_congr (lowered_lt_iff hgt).symm (iff_of_true hlt hgt)) ?_ rfl
          rw [← lower_raise hgt]
          exact ih nofun fun _ => pending_of_raised (raised_raise hlt)
      · exact ihnil

/-- **What stays when the first `k` passes are over, stays when one more is over.** -/
theorem scan_erase (hk : k < E.strings)
    (hskip : skipping = true → k + 1 ≠ E.strings ∧ Raised k stack)
    (hpend : skipping = false → E.Pending k stack l) :
    E.scan k skipping unclosed stack l =
      E.scan (k + 1) skipping unclosed (lower k stack) (E.erase (k + 1) l) := by
  induction hlen : l.length using Nat.strong_induction_on
    generalizing l skipping unclosed stack with
  | _ length ih =>
    subst hlen
    cases l with
    | nil => cases skipping <;> rfl
    | cons c rest =>
      have ihrest {skipping unclosed : Bool} {stack : List (Q × Nat)}
          (hskip : skipping = true → k + 1 ≠ E.strings ∧ Raised k stack)
          (hpend : skipping = false → E.Pending k stack rest) :
          E.scan k skipping unclosed stack rest =
            E.scan (k + 1) skipping unclosed (lower k stack) (E.erase (k + 1) rest) :=
        ih rest.length (Nat.lt_succ_self _) hskip hpend rfl
      by_cases hmatch : c = E.esc → E.restLength (k + 1) E.start rest = none
      · rw [erase_of_no_match hmatch]
        cases skipping with
        | true =>
          obtain ⟨hlast, hraised⟩ := hskip rfl
          rw [scan_skip, scan_skip]
          exact ihrest (fun _ => ⟨hlast, hraised⟩) fun _ => pending_of_raised hraised
        | false =>
          by_cases hesc : c = E.esc
          · -- a sequence opens that this pass does not erase
            rw [hesc, scan_esc, scan_esc]
            have hpend' : E.Pending k ((E.start, 0) :: stack) rest := by
              intro q m htop _
              obtain ⟨rfl, rfl⟩ := Prod.mk.inj (Option.some.inj htop)
              exact hmatch hesc
            exact ihrest nofun fun _ => hpend'
          · exact scan_cons_erase hk hesc (hpend rfl) ihrest
      · -- the pass erases a match here
        obtain ⟨rfl, hsome⟩ := Classical.not_imp.mp hmatch
        obtain ⟨n, hn⟩ := Option.ne_none_iff_exists'.mp hsome
        have hlt : (rest.drop n).length < rest.length + 1 := by
          rw [List.length_drop]
          omega
        rw [erase_of_match hn]
        cases skipping with
        | true =>
          obtain ⟨hlast, hraised⟩ := hskip rfl
          have hseq : E.sequenceLength (k + 1) E.start rest = some n := by
            rwa [restLength, if_neg hlast] at hn
          rw [scan_skip, decide_eq_true E.esc_ne_bell, scan_skipping (bell_notMem_take hseq)]
          exact ih _ hlt (fun _ => ⟨hlast, hraised⟩) nofun rfl
        | false =>
          rw [scan_esc, scan_rest (Nat.lt_succ_self k) (Nat.succ_pos k) hn, ← lower_raise_self]
          exact ih _ hlt nofun
            (fun _ => pending_of_raised (raised_raise (Nat.lt_succ_self k))) rfl

/-! ### What stays -/

/-- Is a match of some pass completed from here on? -/
def Completes (q : Q) (l : List α) : Prop :=
  ∃ pass, 0 < pass ∧ pass ≤ E.strings ∧ E.restLength pass q l ≠ none

theorem clean_nil : E.Clean [] := by
  intro t ht pass _ _
  rw [List.suffix_nil.mp ht]
  rfl

theorem clean_cons :
    E.Clean (c :: rest) ↔ ¬ (c = E.esc ∧ E.Completes E.start rest) ∧ E.Clean rest := by
  have hhead : (∀ pass, 0 < pass → pass ≤ E.strings → E.matchLength pass (c :: rest) = none) ↔
      ¬ (c = E.esc ∧ E.Completes E.start rest) := by
    constructor
    · rintro hnone ⟨hesc, pass, hpos, hle, hne⟩
      have h := hnone pass hpos hle
      rw [matchLength, if_pos hesc] at h
      exact hne (Option.map_eq_none_iff.mp h)
    · intro h pass hpos hle
      rw [matchLength]
      split
      · next hesc =>
        refine Option.map_eq_none_iff.mpr (Classical.byContradiction fun hne => ?_)
        exact h ⟨hesc, pass, hpos, hle, hne⟩
      · rfl
  rw [← hhead]
  exact ⟨fun h => ⟨h _ List.suffix_rfl, fun t ht => h t (ht.trans (List.suffix_cons c rest))⟩,
    fun h t ht => (List.suffix_cons_iff.mp ht).elim (fun heq => heq ▸ h.1) (h.2 t)⟩

theorem not_completes_nil : ¬ E.Completes q [] := by
  rintro ⟨pass, -, -, hne⟩
  refine hne ?_
  rw [restLength]
  split
  · split <;> rfl
  · rfl

theorem not_completes_esc : ¬ E.Completes q (E.esc :: rest) := by
  rintro ⟨pass, -, -, hne⟩
  refine hne ?_
  rw [restLength]
  split
  · split
    · rw [stringLength, if_neg fun h => E.bracket_ne_esc h.1.symm]
    · rfl
  · rw [sequenceLength, if_pos rfl]

/-- What completes a match goes on behind a character inside. -/
theorem completes_cons_iff (hesc : c ≠ E.esc) :
    E.Completes q (c :: rest) ↔
      if q = E.start ∧ c = E.bracket then E.bell ∈ rest
      else match E.step q c with
        | .next q' => E.Completes q' rest
        | .done _ => True
        | .dead => False := by
  by_cases hstart : q = E.start ∧ c = E.bracket
  · obtain ⟨rfl, rfl⟩ := hstart
    rw [if_pos ⟨rfl, rfl⟩]
    -- the strings and the sequences begin alike, but only the strings have this one
    constructor
    · rintro ⟨pass, -, -, hne⟩
      rw [restLength] at hne
      split at hne
      · rw [if_pos rfl, stringLength] at hne
        exact Classical.byContradiction fun hmem => hne (if_neg fun h => hmem h.2)
      · rw [sequenceLength_cons hesc, E.step_bracket] at hne
        exact absurd rfl hne
    · intro hmem
      exact ⟨E.strings, E.strings_pos, Nat.le_refl _, restLength_strings_start hmem⟩
  · rw [if_neg hstart]
    split
    -- the state of the sequence decides
    · next q' hnext =>
      simp only [Completes, restLength_of_next hesc hnext, Ne, Option.map_eq_none_iff]
    · next pass hdone =>
      obtain ⟨hpos, hlt⟩ := E.done_spec hdone
      exact iff_true_intro ⟨pass, hpos, hlt.le, restLength_ne_none_of_done hesc hdone⟩
    · next hdead =>
      rw [iff_false]
      rintro ⟨pass, -, -, hne⟩
      refine hne ?_
      rw [restLength]
      split
      · split
        · next hq => rw [stringLength, if_neg fun h => hstart ⟨hq, h.1⟩]
        · rfl
      · rw [sequenceLength_cons hesc, hdead]

theorem not_completes_bell : ¬ E.Completes q (E.bell :: rest) := by
  rw [completes_cons_iff E.esc_ne_bell.symm, if_neg fun h => E.bracket_ne_bell h.2.symm,
    E.step_bell]
  exact id

/-- Is a match completed that goes on in the innermost open sequence? -/
def CompletesInner : List (Q × Nat) → List α → Prop
  | [], _ => False
  | (q, _) :: _, l => E.Completes q l

theorem not_completesInner (h : ∀ q, ¬ E.Completes q l) : ¬ E.CompletesInner stack l := by
  cases stack with
  | nil => exact id
  | cons top outer => exact h top.1

/-- When all passes are over, the scan finds the matches that are left in the text. -/
theorem scan_strings_iff : E.scan E.strings false unclosed stack l = true ↔
    (unclosed = true ∧ E.bell ∈ l) ∨ E.CompletesInner stack l ∨ ¬ E.Clean l := by
  induction l generalizing unclosed stack with
  | nil =>
    have hleft : E.scan E.strings false unclosed stack [] = false := by cases stack <;> rfl
    rw [hleft]
    refine iff_of_false Bool.false_ne_true ?_
    rintro (⟨-, hmem⟩ | hcompletes | hdirty)
    · cases hmem
    · exact not_completesInner (fun q => not_completes_nil) hcompletes
    · exact hdirty clean_nil
  | cons c rest ih =>
    -- nothing is open
    have ihnil {unclosed : Bool} : E.scan E.strings false unclosed [] rest = true ↔
        (unclosed = true ∧ E.bell ∈ rest) ∨ ¬ E.Clean rest :=
      ih.trans (or_congr_right (false_or _ ▸ Iff.rfl))
    -- a new sequence opens; the ones around it can no longer end
    by_cases hesc : c = E.esc
    · subst hesc
      have hinner : ¬ E.CompletesInner stack (E.esc :: rest) :=
        not_completesInner fun q => not_completes_esc
      have hmem : E.bell ∈ E.esc :: rest ↔ E.bell ∈ rest :=
        List.mem_cons.trans (or_iff_right E.esc_ne_bell.symm)
      have hclean : ¬ E.Clean (E.esc :: rest) ↔ E.Completes E.start rest ∨ ¬ E.Clean rest := by
        rw [clean_cons, not_and_or, not_not, and_iff_right rfl]
      rw [scan_esc, ih, hmem, hclean, or_iff_right hinner]
      exact Iff.rfl
    have hclean : E.Clean (c :: rest) ↔ E.Clean rest := by
      rw [clean_cons]
      exact and_iff_right fun h => hesc h.1
    -- a bell ends the string, if there is one
    by_cases hbell : c = E.bell
    · subst hbell
      have hinner : ¬ E.CompletesInner stack (E.bell :: rest) :=
        not_completesInner fun q => not_completes_bell
      rw [scan_bell, Bool.or_eq_true, ihnil, hclean, or_iff_right hinner, ← or_assoc]
      refine or_congr_left ⟨?_, fun h => .inl h.1⟩
      exact fun h => ⟨h.elim id And.left, List.mem_cons_self⟩
    have hmem : E.bell ∈ c :: rest ↔ E.bell ∈ rest :=
      List.mem_cons.trans (or_iff_right (Ne.symm hbell))
    rw [hclean, hmem]
    cases stack with
    | nil =>
      rw [scan_outside hesc hbell, ih]
      exact Iff.rfl
    | cons top outer =>
      obtain ⟨q, m⟩ := top
      change _ ↔ _ ∨ E.Completes q (c :: rest) ∨ _
      rw [scan_inside hesc hbell, completes_cons_iff hesc]
      split
      · -- a string begins, and stays if it ends
        rw [if_neg fun h => h.2.1.ne rfl, ihnil, and_iff_right rfl, ← or_assoc,
          or_iff_right_of_imp And.right]
      · split
        · exact ih
        · next pass hdone =>
          rw [if_neg fun h => (E.done_spec hdone).2.asymm h.2]
          exact iff_of_true rfl (.inr (.inl trivial))
        · rw [ihnil, false_or]

/-- **Something stays behind exactly if the scan of the text finds it.** -/
theorem scan_passes : E.scan 0 false false [] l = true ↔ ¬ E.Clean (E.passes E.strings l) := by
  have hpasses (k : Nat) (hk : k ≤ E.strings) :
      E.scan 0 false false [] l = E.scan k false false [] (E.passes k l) := by
    induction k with
    | zero => rfl
    | succ k ih =>
      rw [ih (Nat.le_of_succ_le hk)]
      exact scan_erase hk nofun fun _ => pending_of_raised raised_nil
  rw [hpasses _ (Nat.le_refl _), scan_strings_iff, or_iff_right fun h => Bool.false_ne_true h.1]
  exact or_iff_right id

end Escapes
