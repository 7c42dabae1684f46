import Aestival.Library.Escapes
import Aestival.Library.Uri

/-!
# Texts for the browser

`safeUtf8` cleans the texts of a conversation before they are shown: it erases the NULs, the
surrogates and three kinds of escape sequences, each with one regular expression over the whole
text, one after the other (`conversations.ts`).

The expression for the surrogates is written for the lone ones, but without the flag `u` it also
erases those that have their partner, so no character outside the BMP is left (`mem_safeUtf8`). What
is left of the escape sequences is that of the passes of `terminal` (`safeUtf8_eq_passes`), which
`Escapes.scan` reads off the text.
-/

namespace Aestival

open Escapes

/-! ### The expressions -/

/-- A part of a regular expression: one character of a class, perhaps one, or any number. -/
inductive RegExpPart where
  | one (cls : UInt16 → Bool)
  | optional (cls : UInt16 → Bool)
  | many (cls : UInt16 → Bool)

/-- The length of the match at the start of a text. Every part takes as much as it can: this is the
match that is tried first, and in the expressions below no other one goes further. -/
def regExpMatch : List RegExpPart → JsString → Option Nat
  | [], _ => some 0
  | .one cls :: parts, s =>
    match s with
    | c :: rest => if cls c then (regExpMatch parts rest).map (· + 1) else none
    | [] => none
  | .optional cls :: parts, s =>
    match s with
    | c :: rest =>
      -- the character is taken if it is there
      if cls c then (regExpMatch parts rest).map (· + 1) else regExpMatch parts (c :: rest)
    | [] => regExpMatch parts []
  | .many cls :: parts, s =>
    (regExpMatch parts (s.dropWhile cls)).map (· + (s.takeWhile cls).length)

/-- `s.replace(re, '')` for an expression with the flag `g`. -/
def eraseMatches (re : List RegExpPart) (s : JsString) : JsString :=
  eraseAll (regExpMatch re) 0 s

/-- Does the expression match somewhere? -/
def Matches (re : List RegExpPart) (s : JsString) : Prop :=
  ∃ t, t <:+ s ∧ regExpMatch re t ≠ none

/-- A character of an expression. -/
def unit (c : Char) : UInt16 := .ofNat c.toNat

def isDecimal (c : UInt16) : Bool := 0x30 ≤ c && c ≤ 0x39

/-- `[0-9;]` -/
def isParameter (c : UInt16) : Bool := isDecimal c || c = unit ';'

def isSurrogate (c : UInt16) : Bool := 0xD800 ≤ c && c ≤ 0xDFFF

/-- `[A-HJKSTf]` -/
def isMovement (c : UInt16) : Bool :=
  (unit 'A' ≤ c && c ≤ unit 'H') || c = unit 'J' || c = unit 'K' || c = unit 'S' || c = unit 'T' ||
    c = unit 'f'

/-- `/\0/g` -/
def nulRe : List RegExpPart := [.one (· = 0)]

/-- `/[\uD800-\uDFFF]/g` -/
def surrogateRe : List RegExpPart := [.one isSurrogate]

/-- `/\x1b\[[0-9;]*m/g` -/
def sgrRe : List RegExpPart :=
  [.one (· = 0x1B), .one (· = unit '['), .many isParameter, .one (· = unit 'm')]

/-- `/\x1b\[\??[0-9]*[hl]/g` -/
def cursorRe : List RegExpPart :=
  [.one (· = 0x1B), .one (· = unit '['), .optional (· = unit '?'), .many isDecimal,
    .one fun c => c = unit 'h' || c = unit 'l']

/-- `/\x1b\[[0-9]*[A-HJKSTf]/g` -/
def movementRe : List RegExpPart :=
  [.one (· = 0x1B), .one (· = unit '['), .many isDecimal, .one isMovement]

/-- `/\x1b\][0-9;]*[^\x07]*\x07/g` -/
def oscRe : List RegExpPart :=
  [.one (· = 0x1B), .one (· = unit ']'), .many isParameter, .many (· ≠ 0x07), .one (· = 0x07)]

/-- `safeUtf8`. -/
def safeUtf8 (s : JsString) : JsString :=
  eraseMatches oscRe <| eraseMatches movementRe <| eraseMatches cursorRe <| eraseMatches sgrRe <|
    eraseMatches surrogateRe <| eraseMatches nulRe s

/-! ### The sequences of a terminal -/

/-- What has been read of a sequence. -/
inductive SequenceState where
  | escape
  | bracket
  | digits
  | parameters
  | question
  deriving DecidableEq

/-- The end of a sequence without parameters but one. -/
def SequenceState.final (c : UInt16) : SequenceStep SequenceState :=
  if isDecimal c then .next .digits
  else if c = unit ';' then .next .parameters
  else if c = unit 'm' then .done 1
  else if c = unit 'h' || c = unit 'l' then .done 2
  else if isMovement c then .done 3
  else .dead

def SequenceState.step : SequenceState → UInt16 → SequenceStep SequenceState
  | .escape, c => if c = unit '[' then .next .bracket else .dead
  | .bracket, c => if c = unit '?' then .next .question else final c
  | .digits, c => final c
  | .parameters, c =>
    if isParameter c then .next .parameters else if c = unit 'm' then .done 1 else .dead
  | .question, c =>
    if isDecimal c then .next .question
    else if c = unit 'h' || c = unit 'l' then .done 2 else .dead

theorem SequenceState.final_ne_escape (c : UInt16) : final c ≠ .next .escape := by
  rw [final]
  split_ifs <;> exact nofun

theorem SequenceState.final_spec {c : UInt16} {pass : Nat} (h : final c = .done pass) :
    0 < pass ∧ pass < 4 := by
  rw [final] at h
  split_ifs at h <;> cases h <;> decide

/-- The sequences that `safeUtf8` erases in its last four passes. -/
def terminal : Escapes UInt16 SequenceState where
  esc := 0x1B
  bell := 0x07
  bracket := unit ']'
  start := .escape
  step := SequenceState.step
  strings := 4
  strings_pos := by decide
  esc_ne_bell := by decide
  bracket_ne_bell := by decide
  bracket_ne_esc := by decide
  step_bell q := by cases q <;> rfl
  step_bracket := rfl
  next_ne_start q c := by
    cases q with
    | escape | parameters | question =>
      simp only [SequenceState.step]
      split_ifs <;> exact nofun
    | bracket =>
      rw [SequenceState.step]
      split
      · exact nofun
      · exact SequenceState.final_ne_escape c
    | digits => exact SequenceState.final_ne_escape c
  done_spec {q c pass} h := by
    cases q with
    | escape | parameters | question =>
      simp only [SequenceState.step] at h
      split_ifs at h <;> cases h <;> decide
    | bracket =>
      rw [SequenceState.step] at h
      split at h
      · cases h
      · exact SequenceState.final_spec h
    | digits => exact SequenceState.final_spec h

/-! ### The expressions are the passes -/

variable {s rest : JsString} {c : UInt16} {pass : Nat} {q : SequenceState}
  {cls fin : UInt16 → Bool} {parts : List RegExpPart}

theorem regExpMatch_one_cons (d : UInt16) : regExpMatch (.one (· = d) :: parts) (c :: rest) =
    if c = d then (regExpMatch parts rest).map (· + 1) else none := by
  simp only [regExpMatch, decide_eq_true_eq]

theorem regExpMatch_many_nil :
    regExpMatch (.many cls :: parts) [] = regExpMatch parts [] :=
  Option.map_id'

theorem regExpMatch_many_cons : regExpMatch (.many cls :: parts) (c :: rest) =
    if cls c then (regExpMatch (.many cls :: parts) rest).map (· + 1)
    else regExpMatch parts (c :: rest) := by
  rw [regExpMatch, List.dropWhile_cons, List.takeWhile_cons]
  split
  · rw [regExpMatch, Option.map_map]
    rfl
  · exact Option.map_id'

/-- What goes on with any number of characters of a class and ends with one of another. -/
theorem sequenceLength_many {R : SequenceState → Prop} (hesc : cls 0x1B = false ∧ fin 0x1B = false)
    (hgo : ∀ q c, R q → cls c = true → ∃ q', R q' ∧ terminal.step q c = .next q')
    (hend : ∀ q c, R q → cls c = false → fin c = true →
      terminal.step q c = .done pass)
    (helse : ∀ q c, R q → cls c = false → fin c = false →
      ∀ rest, terminal.sequenceLength pass q (c :: rest) = none) (hq : R q) (s : JsString) :
    terminal.sequenceLength pass q s = regExpMatch [.many cls, .one fin] s := by
  induction s generalizing q with
  | nil => rfl
  | cons c rest ih =>
    rw [regExpMatch_many_cons]
    -- the automaton stops at an escape, and neither class has it
    by_cases hc : c = 0x1B
    · rw [hc, hesc.1, regExpMatch, hesc.2]
      rfl
    cases hcls : cls c with
    -- the unit may be one more of the class
    | true =>
      obtain ⟨q', hq', hstep⟩ := hgo q c hq hcls
      rw [sequenceLength_cons hc, if_pos rfl, ← ih hq', hstep]
    -- or it is the final one
    | false =>
      rw [if_neg Bool.false_ne_true, regExpMatch]
      cases hfin : fin c with
      | true =>
        rw [sequenceLength_cons hc, hend q c hq hcls hfin]
        exact if_pos rfl
      | false => exact helse q c hq hcls hfin rest

theorem sequenceLength_cons_eq_none
    (h : match terminal.step q c with
      | .next q' => ∀ rest, terminal.sequenceLength pass q' rest = none
      | .done pass' => pass' ≠ pass
      | .dead => True) (rest : JsString) : terminal.sequenceLength pass q (c :: rest) = none := by
  rw [sequenceLength]
  split
  · rfl
  · split
    · next q' hnext =>
      rw [hnext] at h
      rw [h rest, Option.map_none]
    · next pass' hdone =>
      rw [hdone] at h
      exact if_neg h
    · rfl

/-- Behind a semicolon there are only the sequences that end with `m`. -/
theorem sequenceLength_parameters (h : pass ≠ 1) (s : JsString) :
    terminal.sequenceLength pass .parameters s = none := by
  refine sequenceLength_eq_none_of_closed (R := (· = .parameters)) ?_ rfl s
  rintro q c rfl
  simp only [terminal, SequenceState.step]
  split_ifs
  · rfl
  · exact h.symm
  · trivial

/-- Behind a question mark there are only the sequences of the cursor. -/
theorem sequenceLength_question (h : pass ≠ 2) (s : JsString) :
    terminal.sequenceLength pass .question s = none := by
  refine sequenceLength_eq_none_of_closed (R := (· = .question)) ?_ rfl s
  rintro q c rfl
  simp only [terminal, SequenceState.step]
  split_ifs
  · rfl
  · exact h.symm
  · trivial

/-- What the last character of a sequence does not end. -/
theorem final_else (pass : Nat) (hdecimal : isDecimal c = false)
    (hparameter : c = unit ';' → pass ≠ 1) (hsgr : c = unit 'm' → pass ≠ 1)
    (hcursor : c = unit 'h' ∨ c = unit 'l' → pass ≠ 2)
    (hmovement : isMovement c = true → pass ≠ 3) :
    match SequenceState.final c with
      | .next q' => ∀ rest, terminal.sequenceLength pass q' rest = none
      | .done pass' => pass' ≠ pass
      | .dead => True := by
  rw [SequenceState.final, hdecimal, if_neg Bool.false_ne_true]
  split_ifs with hsemicolon hm hhl hmove
  · exact sequenceLength_parameters (hparameter hsemicolon)
  · exact (hsgr hm).symm
  · exact (hcursor (by simpa using hhl)).symm
  · exact (hmovement hmove).symm
  · trivial

theorem step_bracket_of_ne (h : c ≠ unit '?') :
    terminal.step .bracket c = SequenceState.final c := if_neg h

theorem final_of_decimal (h : isDecimal c = true) : SequenceState.final c = .next .digits :=
  if_pos h

theorem ne_question_of_decimal (h : isDecimal c = true) : c ≠ unit '?' := by
  rintro rfl
  exact absurd h (by decide)

theorem final_of_movement (hdecimal : isDecimal c = false) (h : isMovement c = true) :
    SequenceState.final c = .done 3 := by
  have hne (d : Char) (hd : isMovement (unit d) = false) : c ≠ unit d := by
    rintro rfl
    exact absurd (hd.symm.trans h) Bool.false_ne_true
  have hcursor : (decide (c = unit 'h') || decide (c = unit 'l')) = false := by
    rw [decide_eq_false (hne 'h' rfl), decide_eq_false (hne 'l' rfl), Bool.or_false]
  rw [SequenceState.final, hdecimal, hcursor, h, if_neg Bool.false_ne_true, if_neg (hne ';' rfl),
    if_neg (hne 'm' rfl), if_neg Bool.false_ne_true, if_pos rfl]

theorem sequenceLength_sgr (hq : q ≠ .escape ∧ q ≠ .question) (s : JsString) :
    terminal.sequenceLength 1 q s = regExpMatch [.many isParameter, .one (· = unit 'm')] s := by
  refine sequenceLength_many (R := fun q => q ≠ .escape ∧ q ≠ .question) (by decide) ?_ ?_ ?_ hq s
  · -- a parameter goes on
    intro q c hq hc
    have hfinal : ∃ q', (q' ≠ .escape ∧ q' ≠ .question) ∧ SequenceState.final c = .next q' := by
      by_cases hdecimal : isDecimal c = true
      · exact ⟨.digits, by decide, final_of_decimal hdecimal⟩
      · rw [isParameter, Bool.or_eq_true] at hc
        obtain rfl := of_decide_eq_true (hc.resolve_left hdecimal)
        exact ⟨.parameters, by decide, rfl⟩
    cases q with
    | escape => exact absurd rfl hq.1
    | question => exact absurd rfl hq.2
    | bracket =>
      have hne : c ≠ unit '?' := by
        rintro rfl
        exact absurd hc (by decide)
      exact step_bracket_of_ne hne ▸ hfinal
    | digits => exact hfinal
    | parameters => exact ⟨.parameters, by decide, if_pos hc⟩
  · intro q c hq hc hm
    -- the letter m ends it in every state
    obtain rfl := of_decide_eq_true hm
    cases q with
    | escape => exact absurd rfl hq.1
    | question => exact absurd rfl hq.2
    | bracket | digits | parameters => rfl
  · intro q c hq hc hm
    -- any other unit leads to another sequence or to none
    refine sequenceLength_cons_eq_none ?_
    obtain ⟨hdecimal, hsemicolon⟩ := Bool.or_eq_false_iff.mp hc
    have hfinal := final_else 1 hdecimal (fun h => absurd h (of_decide_eq_false hsemicolon))
      (fun h => absurd h (of_decide_eq_false hm)) (fun _ => by decide) (fun _ => by decide)
    cases q with
    | escape => exact absurd rfl hq.1
    | question => exact absurd rfl hq.2
    | bracket =>
      by_cases hquestion : c = unit '?'
      · subst hquestion
        exact sequenceLength_question (by decide)
      · rw [step_bracket_of_ne hquestion]
        exact hfinal
    | digits => exact hfinal
    | parameters =>
      have hdead : terminal.step .parameters c = .dead := by
        change (if isParameter c then _ else if c = unit 'm' then _ else _) = _
        rw [hc, if_neg Bool.false_ne_true, if_neg (of_decide_eq_false hm)]
      rw [hdead]
      trivial

theorem sequenceLength_cursor (hq : q = .digits ∨ q = .question) (s : JsString) :
    terminal.sequenceLength 2 q s =
      regExpMatch [.many isDecimal, .one fun c => c = unit 'h' || c = unit 'l'] s := by
  refine sequenceLength_many (R := fun q => q = .digits ∨ q = .question) (by decide) ?_ ?_ ?_ hq s
  -- a digit goes on
  · rintro q c (rfl | rfl) hc
    · exact ⟨.digits, .inl rfl, final_of_decimal hc⟩
    · exact ⟨.question, .inr rfl, if_pos hc⟩
  -- the letters h and l end it
  · intro q c hq hc hhl
    obtain rfl | rfl : c = unit 'h' ∨ c = unit 'l' := by simpa using hhl
    all_goals obtain rfl | rfl := hq <;> rfl
  · intro q c hq hc hhl
    -- any other unit is none of this sequence
    have hne : ¬ (c = unit 'h' ∨ c = unit 'l') := by simpa using hhl
    refine sequenceLength_cons_eq_none ?_
    obtain rfl | rfl := hq
    · exact final_else 2 hc (fun _ => by decide) (fun _ => by decide) (fun h => absurd h hne)
        (fun _ => by decide)
    · have hdead : terminal.step .question c = .dead := by
        change (if isDecimal c then _ else if c = unit 'h' || c = unit 'l' then _ else _) = _
        rw [hc, hhl, if_neg Bool.false_ne_true, if_neg Bool.false_ne_true]
      rw [hdead]
      trivial

theorem sequenceLength_movement (hq : q = .bracket ∨ q = .digits) (s : JsString) :
    terminal.sequenceLength 3 q s = regExpMatch [.many isDecimal, .one isMovement] s := by
  refine sequenceLength_many (R := fun q => q = .bracket ∨ q = .digits) (by decide) ?_ ?_ ?_ hq s
  -- a digit goes on
  · rintro q c (rfl | rfl) hc
    · exact ⟨.digits, .inr rfl, (step_bracket_of_ne (ne_question_of_decimal hc)).trans
        (final_of_decimal hc)⟩
    · exact ⟨.digits, .inr rfl, final_of_decimal hc⟩
  -- a letter of a movement ends it
  · intro q c hq hc hmovement
    have hquestion : c ≠ unit '?' := by
      rintro rfl
      exact absurd hmovement (by decide)
    obtain rfl | rfl := hq
    · exact (step_bracket_of_ne hquestion).trans (final_of_movement hc hmovement)
    · exact final_of_movement hc hmovement
  · intro q c hq hc hmovement
    -- any other unit is none of this sequence, the question mark included
    refine sequenceLength_cons_eq_none ?_
    have hfinal := final_else 3 hc (fun _ => by decide) (fun _ => by decide)
      (fun _ => by decide) (fun h => absurd (hmovement.symm.trans h) Bool.false_ne_true)
    obtain rfl | rfl := hq
    · by_cases hquestion : c = unit '?'
      · subst hquestion
        exact sequenceLength_question (by decide)
      · rw [step_bracket_of_ne hquestion]
        exact hfinal
    · exact hfinal

/-- Behind the bracket a question mark may come first. -/
theorem sequenceLength_bracket_cursor (s : JsString) :
    terminal.sequenceLength 2 .bracket s =
      regExpMatch [.optional (· = unit '?'), .many isDecimal,
        .one fun c => c = unit 'h' || c = unit 'l'] s := by
  cases s with
  | nil => rfl
  | cons c rest =>
    rw [regExpMatch]
    -- the question mark may be missing
    by_cases hquestion : c = unit '?'
    · subst hquestion
      rw [sequenceLength_cons (by decide), if_pos (decide_eq_true rfl),
        ← sequenceLength_cursor (.inr rfl)]
      rfl
    · rw [if_neg (by simpa using hquestion), ← sequenceLength_cursor (.inl rfl), sequenceLength,
        sequenceLength, step_bracket_of_ne hquestion]
      rfl

theorem sequenceLength_escape (s : JsString) : terminal.sequenceLength pass .escape s =
    match s with
    | [] => none
    | c :: rest =>
      if c = unit '[' then (terminal.sequenceLength pass .bracket rest).map (· + 1) else none := by
  cases s with
  | nil => rfl
  | cons c rest =>
    dsimp only
    split
    · next hc =>
      subst hc
      rw [sequenceLength_cons (by decide)]
      rfl
    · next hc =>
      refine sequenceLength_cons_eq_none ?_ rest
      have hdead : terminal.step .escape c = .dead := if_neg hc
      rw [hdead]
      trivial

/-- The expressions of the sequences. -/
theorem regExpMatch_sequence (hpass : pass ≠ terminal.strings)
    (h : ∀ rest, terminal.sequenceLength pass .bracket rest = regExpMatch parts rest)
    (s : JsString) :
    regExpMatch (.one (· = 0x1B) :: .one (· = unit '[') :: parts) s =
      terminal.matchLength pass s := by
  cases s with
  | nil => rfl
  | cons c rest =>
    rw [regExpMatch_one_cons, matchLength, restLength, if_neg hpass]
    -- both ask for the escape and the bracket first
    refine if_congr Iff.rfl (congrArg _ ?_) rfl
    change _ = terminal.sequenceLength pass .escape rest
    rw [sequenceLength_escape]
    cases rest with
    | nil => rfl
    | cons d rest => rw [regExpMatch_one_cons, ← h]

/-- Characters that any number of the following class may be need no class in front. -/
theorem regExpMatch_many_many {cls' : UInt16 → Bool} (h : ∀ c, cls c = true → cls' c = true)
    (s : JsString) : regExpMatch (.many cls :: .many cls' :: parts) s =
      regExpMatch (.many cls' :: parts) s := by
  induction s with
  | nil => exact regExpMatch_many_nil
  | cons c rest ih =>
    rw [regExpMatch_many_cons]
    split
    · next hc => rw [ih, regExpMatch_many_cons, if_pos (h c hc)]
    · rfl

theorem regExpMatch_to_bell (s : JsString) :
    regExpMatch [.many (· ≠ 0x07), .one (· = 0x07)] s =
      if 0x07 ∈ s then some ((s.takeWhile (· ≠ 0x07)).length + 1) else none := by
  induction s with
  | nil => rfl
  | cons c rest ih =>
    rw [regExpMatch_many_cons]
    -- the first bell is the one that matches, as the class has all other units
    by_cases hc : c = 0x07
    · subst hc
      rfl
    · have hne : decide (c ≠ 0x07) = true := decide_eq_true hc
      have hmem : 0x07 ∈ c :: rest ↔ 0x07 ∈ rest :=
        List.mem_cons.trans (or_iff_right (Ne.symm hc))
      rw [if_pos hne, ih, List.takeWhile_cons, if_pos hne]
      -- the length is counted from the bell of the rest
      split
      · next hrest =>
        rw [if_pos (hmem.mpr hrest)]
        rfl
      · next hrest =>
        rw [if_neg (hrest ∘ hmem.mp)]
        rfl

/-- The expression of the strings. -/
theorem regExpMatch_osc (s : JsString) : regExpMatch oscRe s = terminal.matchLength 4 s := by
  -- the digits and the text behind them may be read by one class
  have hclass (c : UInt16) (h : isParameter c = true) : decide (c ≠ 0x07) = true := by
    refine decide_eq_true ?_
    rintro rfl
    exact absurd h (by decide)
  cases s with
  | nil => rfl
  | cons c rest =>
    rw [oscRe, regExpMatch_one_cons, matchLength]
    -- both begin with the escape
    refine if_congr Iff.rfl (congrArg _ ?_) rfl
    change _ = terminal.stringLength rest
    cases rest with
    | nil => rfl
    | cons d rest =>
      rw [regExpMatch_one_cons, regExpMatch_many_many hclass, regExpMatch_to_bell]
      change _ = if d = unit ']' ∧ 0x07 ∈ rest then
        some (2 + (rest.takeWhile (· ≠ 0x07)).length) else none
      -- then with the bracket
      by_cases hd : d = unit ']'
      · rw [if_pos hd]
        split
        · next hmem =>
          rw [if_pos ⟨hd, hmem⟩, Nat.add_comm 2]
          rfl
        · next hmem =>
          rw [if_neg fun h => hmem h.2]
          rfl
      · rw [if_neg hd, if_neg fun h => hd h.1]

theorem regExpMatch_sgr (s : JsString) : regExpMatch sgrRe s = terminal.matchLength 1 s :=
  regExpMatch_sequence (by decide) (sequenceLength_sgr (by decide)) s

theorem regExpMatch_cursor (s : JsString) : regExpMatch cursorRe s = terminal.matchLength 2 s :=
  regExpMatch_sequence (by decide) sequenceLength_bracket_cursor s

theorem regExpMatch_movement (s : JsString) :
    regExpMatch movementRe s = terminal.matchLength 3 s :=
  regExpMatch_sequence (by decide) (sequenceLength_movement (.inl rfl)) s

theorem eraseMatches_eq_erase {re : List RegExpPart}
    (h : ∀ s, regExpMatch re s = terminal.matchLength pass s) (s : JsString) :
    eraseMatches re s = terminal.erase pass s := by
  rw [eraseMatches, erase, funext h]

/-- One character at a time: those that are left. -/
theorem eraseMatches_one (s : JsString) : eraseMatches [.one cls] s = s.filter (!cls ·) := by
  rw [eraseMatches]
  induction s with
  | nil => rfl
  | cons c rest ih =>
    rw [eraseAll, regExpMatch, List.filter_cons, regExpMatch]
    cases cls c with
    | true => exact ih
    | false => exact congrArg (c :: ·) ih

/-- The code units that `safeUtf8` erases wherever they stand. -/
def plain (s : JsString) : JsString := s.filter fun c => c ≠ 0 && !isSurrogate c

theorem safeUtf8_eq_passes (s : JsString) : safeUtf8 s = terminal.passes 4 (plain s) := by
  have hplain : eraseMatches surrogateRe (eraseMatches nulRe s) = plain s := by
    rw [surrogateRe, nulRe, eraseMatches_one, eraseMatches_one, List.filter_filter, plain]
    refine List.filter_congr fun c _ => ?_
    rw [Bool.and_comm, decide_not]
  rw [safeUtf8, hplain, eraseMatches_eq_erase regExpMatch_osc,
    eraseMatches_eq_erase regExpMatch_movement, eraseMatches_eq_erase regExpMatch_cursor,
    eraseMatches_eq_erase regExpMatch_sgr]
  rfl

/-! ### What the browser gets -/

/-- What a code unit of the result has not been. -/
theorem mem_safeUtf8 (h : c ∈ safeUtf8 s) : c ≠ 0 ∧ isSurrogate c = false := by
  rw [safeUtf8_eq_passes] at h
  have hplain := (List.mem_filter.mp (passes_sublist.subset h)).2
  simpa using hplain

/-- Every surrogate has its partner. -/
def WellFormed (s : JsString) : Prop := (JsString.codePoints s).isSome = true

theorem wellFormed_of_no_surrogate (h : ∀ c ∈ s, isSurrogate c = false) : WellFormed s := by
  rw [WellFormed]
  induction s with
  | nil => rfl
  | cons c rest ih =>
    have hc := h c List.mem_cons_self
    rw [isSurrogate, Bool.and_eq_false_iff, decide_eq_false_iff_not, decide_eq_false_iff_not] at hc
    -- the unit is neither half of a pair
    have hhigh : ¬ (0xD800 ≤ c ∧ c ≤ 0xDBFF) := fun ⟨hle, hge⟩ =>
      hc.elim (· hle) (· (UInt16.le_trans hge (by decide)))
    have hlow : ¬ (0xDC00 ≤ c ∧ c ≤ 0xDFFF) := fun ⟨hle, hge⟩ =>
      hc.elim (· (UInt16.le_trans (by decide) hle)) (· hge)
    rw [JsString.codePoints.eq_def]
    dsimp only
    rw [if_neg hhigh, if_neg hlow, Option.isSome_map]
    exact ih fun d hd => h d (List.mem_cons_of_mem c hd)

/-- What is wanted of `safeUtf8`: no NUL, no lone surrogate and none of the sequences are in the
result, and a text without NUL and escape character is kept. -/
structure ErasesOnlyUnsafe (s : JsString) : Prop where
  no_nul : 0 ∉ safeUtf8 s
  no_lone_surrogate : WellFormed (safeUtf8 s)
  no_sequence : ∀ re ∈ [sgrRe, cursorRe, movementRe, oscRe], ¬ Matches re (safeUtf8 s)
  keeps : WellFormed s → 0 ∉ s → 0x1B ∉ s → safeUtf8 s = s

theorem not_matches_iff {re : List RegExpPart}
    (h : ∀ s, regExpMatch re s = terminal.matchLength pass s) :
    ¬ Matches re s ↔ ∀ t, t <:+ s → terminal.matchLength pass t = none := by
  simp only [Matches, h, not_exists, not_and, not_not]

theorem no_sequence_iff (s : JsString) :
    (∀ re ∈ [sgrRe, cursorRe, movementRe, oscRe], ¬ Matches re s) ↔ terminal.Clean s := by
  simp only [List.forall_mem_cons, List.not_mem_nil, false_implies, implies_true, and_true,
    not_matches_iff regExpMatch_sgr, not_matches_iff regExpMatch_cursor,
    not_matches_iff regExpMatch_movement, not_matches_iff regExpMatch_osc]
  constructor
  -- one expression for each pass
  · rintro ⟨hsgr, hcursor, hmovement, hosc⟩ t ht pass hpos (hle : pass ≤ 4)
    obtain rfl | rfl | rfl | rfl : pass = 1 ∨ pass = 2 ∨ pass = 3 ∨ pass = 4 := by omega
    · exact hsgr t ht
    · exact hcursor t ht
    · exact hmovement t ht
    · exact hosc t ht
  · intro h
    refine ⟨fun t ht => h t ht 1 ?_ ?_, fun t ht => h t ht 2 ?_ ?_, fun t ht => h t ht 3 ?_ ?_,
      fun t ht => h t ht 4 ?_ ?_⟩
    all_goals decide

/-- Without an escape character the surrogates go, and nothing else. -/
theorem safeUtf8_eq_self_iff (hnul : 0 ∉ s) (hesc : 0x1B ∉ s) :
    safeUtf8 s = s ↔ ∀ c ∈ s, isSurrogate c = false := by
  have hplain : terminal.esc ∉ plain s := fun h => hesc (List.mem_filter.mp h).1
  rw [safeUtf8_eq_passes, passes_of_esc_notMem hplain, plain, List.filter_eq_self]
  refine forall₂_congr fun c hc => ?_
  have hne : c ≠ 0 := fun heq => hnul (heq ▸ hc)
  rw [decide_eq_true hne, Bool.true_and, Bool.not_eq_true']

/-- **`safeUtf8` does what it should** exactly if nothing stays of the sequences, and a well-formed
text without NUL and escape character has no character outside the BMP. -/
theorem erasesOnlyUnsafe_iff (s : JsString) : ErasesOnlyUnsafe s ↔
    terminal.scan 0 false false [] (plain s) = false ∧
      (WellFormed s → 0 ∉ s → 0x1B ∉ s → ∀ c ∈ s, isSurrogate c = false) := by
  -- the scan finds what the passes would leave
  have hclean : terminal.scan 0 false false [] (plain s) = false ↔
      terminal.Clean (safeUtf8 s) := by
    rw [safeUtf8_eq_passes, ← Bool.not_eq_true, scan_passes, not_not]
    rfl
  rw [hclean, ← no_sequence_iff]
  constructor
  · intro h
    exact ⟨h.no_sequence, fun hwf hnul hesc => (safeUtf8_eq_self_iff hnul hesc).mp
      (h.keeps hwf hnul hesc)⟩
  · rintro ⟨hnone, hkeeps⟩
    -- the rest holds for every text
    exact {
      no_nul := fun h => (mem_safeUtf8 h).1 rfl
      no_lone_surrogate := wellFormed_of_no_surrogate fun c h => (mem_safeUtf8 h).2
      no_sequence := hnone
      keeps := fun hwf hnul hesc =>
        (safeUtf8_eq_self_iff hnul hesc).mpr (hkeeps hwf hnul hesc) }

/-- A sequence that comes together when another one is erased stays. -/
example : terminal.scan 0 false false [] (js "\x1b[\x1b[mm") = true := by decide

/-- **A character outside the BMP is erased.** -/
theorem emoji_erased : ¬ ∀ s, ErasesOnlyUnsafe s := by
  intro h
  have hkeeps := (h (js "😀")).keeps rfl (by decide) (by decide)
  exact absurd hkeeps (by decide)

end Aestival
