import Mathlib.Data.List.Basic
import Mathlib.Data.List.Infix
import Mathlib.Data.List.TakeWhile

/-!
# Byte strings

A C++ `std::string` is a sequence of bytes with no promise about its encoding, so strings are
lists of octets here (`Bytes`), and a literal of the source is the UTF-8 encoding of a Lean string
(`utf8`).

Two views of a byte string matter to a program that hands its strings to C interfaces:

* `cStr`, the text a NUL-terminated interface sees: everything before the first NUL;
* `validUtf8`, the strings an encoder accepts. It is the automaton of RFC 3629: `Utf8State.step`
  reads one octet, and a string is valid when the automaton ends between characters.

`skipInvalid` is the lenient decoder: it copies well-formed characters and drops the octets of an
ill-formed one, the octet that broke the character included.
-/

/-- A string of octets. -/
abbrev Bytes := List UInt8

instance Bytes.instLawfulBEq : LawfulBEq Bytes := inferInstance

/-- A literal of the source, as octets. -/
def utf8 (s : String) : Bytes := s.toList.flatMap String.utf8EncodeChar

namespace Bytes

/-! ### NUL-terminated views -/

/-- What a NUL-terminated interface reads of `s`: everything before its first NUL. -/
def cStr (s : Bytes) : Bytes := s.takeWhile (· ≠ 0)

/-- A string without NUL is seen whole. -/
theorem cStr_eq_self {s : Bytes} (h : (0 : UInt8) ∉ s) : cStr s = s := by
  unfold cStr
  rw [List.takeWhile_eq_self_iff]
  intro c hc
  simp only [ne_eq, decide_not, Bool.not_eq_eq_eq_not, Bool.not_true, decide_eq_false_iff_not]
  rintro rfl
  exact h hc

/-- Behind a NUL nothing is seen. -/
theorem cStr_append_of_mem {s : Bytes} (h : (0 : UInt8) ∈ s) (t : Bytes) :
    cStr (s ++ t) = cStr s := by
  induction s with
  | nil => exact absurd h List.not_mem_nil
  | cons b s ih =>
    by_cases hb : b = 0
    · rw [hb]
      rfl
    · have hs : (0 : UInt8) ∈ s := (List.mem_cons.mp h).resolve_left fun h0 => hb h0.symm
      have hpos : decide (b ≠ 0) = true := decide_eq_true hb
      simp only [cStr, List.cons_append, List.takeWhile_cons, hpos, if_true]
      exact congrArg (b :: ·) (ih hs)

/-- A string without NUL is seen whole, and what follows it as far as it is seen. -/
theorem cStr_append_of_notMem {s : Bytes} (h : (0 : UInt8) ∉ s) (t : Bytes) :
    cStr (s ++ t) = s ++ cStr t := by
  refine List.takeWhile_append_of_pos fun b hb => decide_eq_true ?_
  rintro rfl
  exact h hb

/-! ### Separators -/

/-- The text before the first `c` is determined by the whole. -/
theorem takeWhile_separator {c : UInt8} {s : Bytes} (h : c ∉ s) (t : Bytes) :
    (s ++ c :: t).takeWhile (· ≠ c) = s := by
  rw [List.takeWhile_append_of_pos fun b hb => decide_eq_true (ne_of_mem_of_not_mem hb h),
    List.takeWhile_cons_of_neg (by simp), List.append_nil]

theorem dropWhile_separator {c : UInt8} {s : Bytes} (h : c ∉ s) (t : Bytes) :
    (s ++ c :: t).dropWhile (· ≠ c) = c :: t := by
  rw [List.dropWhile_append_of_pos fun b hb => decide_eq_true (ne_of_mem_of_not_mem hb h),
    List.dropWhile_cons_of_neg (by simp)]

theorem dropWhile_of_notMem {c : UInt8} {s : Bytes} (h : c ∉ s) : s.dropWhile (· ≠ c) = [] := by
  rw [List.dropWhile_eq_nil_iff]
  exact fun b hb => decide_eq_true (ne_of_mem_of_not_mem hb h)

/-- A text is cut at its first `c` in one way. -/
theorem separator_inj {c : UInt8} {s s' t t' : Bytes} (h : c ∉ s) (h' : c ∉ s')
    (heq : s ++ c :: t = s' ++ c :: t') : s = s' ∧ t = t' := by
  have hss : s = s' := by
    rw [← takeWhile_separator h t, heq, takeWhile_separator h' t']
  subst hss
  exact ⟨rfl, (List.cons.inj (List.append_cancel_left heq)).2⟩

end Bytes

/-! ### UTF-8 -/

/-- Where the UTF-8 automaton stands: between two characters, or inside one with `more` octets to
come after the next, which must lie between `lo` and `hi`. -/
inductive Utf8State where
  | start
  | tail (more : Nat) (lo hi : UInt8)
  deriving DecidableEq, Repr

namespace Utf8State

/-- The state after the first octet of a character. -/
def first (b : UInt8) : Option Utf8State :=
  if b < 0x80 then some .start
  else if b < 0xC2 then none
  else if b < 0xE0 then some (.tail 0 0x80 0xBF)
  else if b = 0xE0 then some (.tail 1 0xA0 0xBF)
  else if b = 0xED then some (.tail 1 0x80 0x9F)
  else if b < 0xF0 then some (.tail 1 0x80 0xBF)
  else if b = 0xF0 then some (.tail 2 0x90 0xBF)
  else if b < 0xF4 then some (.tail 2 0x80 0xBF)
  else if b = 0xF4 then some (.tail 2 0x80 0x8F)
  else none

/-- The state after one octet, or `none` where no UTF-8 text can hold it. -/
def step : Utf8State → UInt8 → Option Utf8State
  | .start, b => first b
  | .tail more lo hi, b =>
    if lo ≤ b ∧ b ≤ hi then
      match more with
      | 0 => some .start
      | n + 1 => some (.tail n 0x80 0xBF)
    else none

/-- The state after a string of octets. -/
def run : Utf8State → Bytes → Option Utf8State
  | q, [] => some q
  | q, b :: s =>
    match step q b with
    | some q' => run q' s
    | none => none

/-- Running over two strings is running over the first and then the second. -/
theorem run_append (q : Utf8State) (s t : Bytes) :
    run q (s ++ t) = (run q s).bind (fun q' => run q' t) := by
  induction s generalizing q with
  | nil => rfl
  | cons b s ih =>
    simp only [List.cons_append, run]
    cases step q b with
    | none => rfl
    | some q' => exact ih q'

end Utf8State

namespace Bytes

/-- `s` is a UTF-8 text. -/
def validUtf8 (s : Bytes) : Bool := Utf8State.run .start s = some .start

/-! ### The lenient decoder -/

/-- The number of octets that follow the first octet `b` of a character. -/
def trailLength (b : UInt8) : Option Nat :=
  if b < 128 then some 0
  else if b < 194 then none
  else if b < 224 then some 1
  else if b < 240 then some 2
  else if b ≤ 244 then some 3
  else none

/-- Read `n` continuation octets. The octets read, the one that is not a continuation octet
included, and whether all of them were there. -/
def takeTrail : Nat → Bytes → Bytes × Bool
  | 0, _ => ([], true)
  | _ + 1, [] => ([], false)
  | n + 1, b :: s =>
    if 0x80 ≤ b ∧ b ≤ 0xBF then
      let (t, ok) := takeTrail n s
      (b :: t, ok)
    else ([b], false)

/-- Copy the well-formed characters of `s` and drop the rest. The first argument bounds the number
of characters read; the length of `s` is enough. -/
def skipInvalid : Nat → Bytes → Bytes
  | 0, _ => []
  | _ + 1, [] => []
  | n + 1, b :: s =>
    match trailLength b with
    | none => skipInvalid n s
    | some k =>
      let (t, ok) := takeTrail k s
      let rest := s.drop t.length
      if ok && validUtf8 (b :: t) then b :: t ++ skipInvalid n rest else skipInvalid n rest

example : skipInvalid 5 [0x61, 0xE7, 0xBB, 0x62, 0x63] = [0x61, 0x63] := by decide

/-! ### Searching -/

/-- `s` contains `pat`. -/
def contains (s pat : Bytes) : Bool := decide (pat <:+: s)

/-- The position of the first occurrence of `pat` in `s`. -/
def find? (s pat : Bytes) : Option Nat :=
  (List.range (s.length + 1)).find? fun i => pat.isPrefixOf (s.drop i)

/-- The pieces occur in a text, one behind the other. -/
inductive OccurInOrder : List Bytes → Bytes → Prop
  | nil (t : Bytes) : OccurInOrder [] t
  | cons {p t : Bytes} {ps : List Bytes} (front : Bytes) (h : OccurInOrder ps t) :
    OccurInOrder (p :: ps) (front ++ (p ++ t))

namespace OccurInOrder

variable {t : Bytes} {ps : List Bytes}

/-- A text may grow at its front. -/
theorem append_left (h : OccurInOrder ps t) (s : Bytes) : OccurInOrder ps (s ++ t) := by
  cases h with
  | nil => exact .nil _
  | cons front h =>
    rw [← List.append_assoc]
    exact .cons (s ++ front) h

/-- Each piece occurs. -/
theorem infix_of_mem (h : OccurInOrder ps t) {p : Bytes} (hp : p ∈ ps) : p <:+: t := by
  induction h with
  | nil => exact absurd hp List.not_mem_nil
  | @cons q t ps front h ih =>
    rcases List.mem_cons.mp hp with rfl | hp
    · exact (List.prefix_append p t).isInfix.trans (List.suffix_append front _).isInfix
    · exact (ih hp).trans ((List.suffix_append q t).trans (List.suffix_append front _)).isInfix

/-- What a text lists, each piece between a head and a tail of its own, occurs in it in order. -/
theorem flatMap {α : Type} (head piece tail : α → Bytes) (l : List α) :
    OccurInOrder (l.map piece) (l.flatMap fun a => head a ++ piece a ++ tail a) := by
  induction l with
  | nil => exact .nil _
  | cons a l ih =>
    rw [List.flatMap_cons, List.append_assoc, List.append_assoc]
    exact .cons (head a) (ih.append_left (tail a))

end OccurInOrder

/-! ### Erasing matches -/

/-- Erase the matches of a pattern from left to right, each search starting behind the last match.
`matchLength s` is the length of a match at the very start of `s`; the first argument counts the
octets of a match that are still to be dropped. -/
def eraseMatches (matchLength : Bytes → Option Nat) : Nat → Bytes → Bytes
  | _, [] => []
  | n + 1, _ :: s => eraseMatches matchLength n s
  | 0, b :: s =>
    match matchLength (b :: s) with
    | some n => eraseMatches matchLength (n - 1) s
    | none => b :: eraseMatches matchLength 0 s

/-- An octet at which nothing matches stays. -/
theorem eraseMatches_cons {matchLength : Bytes → Option Nat} {b : UInt8} {s : Bytes}
    (h : matchLength (b :: s) = none) :
    eraseMatches matchLength 0 (b :: s) = b :: eraseMatches matchLength 0 s := by
  rw [eraseMatches, h]

/-- A match is erased as a whole. -/
theorem eraseMatches_match {matchLength : Bytes → Option Nat} {m s : Bytes} (hm : m ≠ [])
    (h : matchLength (m ++ s) = some m.length) :
    eraseMatches matchLength 0 (m ++ s) = eraseMatches matchLength 0 s := by
  -- as many octets are passed over as the match has
  have hdrop : ∀ t : Bytes,
      eraseMatches matchLength t.length (t ++ s) = eraseMatches matchLength 0 s := by
    intro t
    induction t with
    | nil => rfl
    | cons b t ih => exact ih
  cases m with
  | nil => exact absurd rfl hm
  | cons b t =>
    rw [List.cons_append] at h
    rw [List.cons_append, eraseMatches, h]
    exact hdrop t

/-- The cases of the pass: the end of the text, a match, an octet that stays. -/
@[elab_as_elim]
theorem eraseMatches_induction {matchLength : Bytes → Option Nat} {P : Bytes → Prop}
    (hmatch : ∀ {s n}, matchLength s = some n → 0 < n ∧ n ≤ s.length) (nil : P [])
    (found : ∀ m s, matchLength (m ++ s) = some m.length → m ≠ [] → P s → P (m ++ s))
    (octet : ∀ b s, matchLength (b :: s) = none → P s → P (b :: s)) (s : Bytes) : P s := by
  induction hn : s.length using Nat.strong_induction_on generalizing s with
  | _ n ih =>
    subst hn
    cases s with
    | nil => exact nil
    | cons b s =>
      cases hlen : matchLength (b :: s) with
      -- nothing matches here
      | none => exact octet b s hlen (ih s.length (Nat.lt_succ_self _) s rfl)
      -- a match is not empty, so that the rest is shorter
      | some k =>
        obtain ⟨hpos, hle⟩ := hmatch hlen
        have htake : ((b :: s).take k).length = k := List.length_take_of_le hle
        have hrest := ih ((b :: s).drop k).length (by rw [List.length_drop]; omega) _ rfl
        rw [← List.take_append_drop k (b :: s)] at hlen ⊢
        rw [← htake] at hlen
        refine found _ _ (by rwa [htake] at hlen ⊢) (fun hnil => ?_) hrest
        rw [hnil, List.length_nil] at htake
        omega

/-- Nothing is erased where nothing matches. -/
theorem eraseMatches_eq_self {matchLength : Bytes → Option Nat} {s : Bytes}
    (h : ∀ t, t <:+ s → matchLength t = none) : eraseMatches matchLength 0 s = s := by
  induction s with
  | nil => rfl
  | cons b s ih =>
    unfold eraseMatches
    rw [h (b :: s) (List.suffix_refl _)]
    have hrest := ih fun t ht => h t (ht.trans (List.suffix_cons b s))
    exact congrArg (b :: ·) hrest

end Bytes
