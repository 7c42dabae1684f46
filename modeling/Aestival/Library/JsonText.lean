import Aestival.Library.Json
import Aestival.Library.Utf8
import Mathlib.Tactic.IntervalCases

/-!
# JSON texts

The concrete syntax of JSON: `print` writes a value as a text without blanks, and `parse` reads a
text, with blanks and all escapes. Objects are maps: the fields are written in the order of their
names, and where a text has a field twice the later one counts.

Numbers that are not 64-bit integers are written and read by functions that are left open
(`FloatText`). A value is `Canonical` if its strings are UTF-8, its integers have 64 bits, the names
of its fields ascend, and its other numbers are read as they were written. `parse_print` says that
such a value is read back from its text, whatever the fuel of the readers, which `parse` takes from
the length of the text.
-/

namespace Json

open Bytes

/-- How numbers that are not integers are written and read. -/
structure FloatText where
  write : Rat → Bytes
  read : Bytes → Option Rat

/-! ### Writing -/

/-- One octet of a string. -/
def printByte (b : UInt8) : Bytes :=
  if b = 0x08 then utf8 "\\b"
  else if b = 0x09 then utf8 "\\t"
  else if b = 0x0A then utf8 "\\n"
  else if b = 0x0C then utf8 "\\f"
  else if b = 0x0D then utf8 "\\r"
  else if b = 0x22 then utf8 "\\\""
  else if b = 0x5C then utf8 "\\\\"
  else if b ≤ 0x1F then
    utf8 "\\u00" ++ [48 + b / 16, if b % 16 < 10 then 48 + b % 16 else 87 + b % 16]
  else [b]

def printString (s : Bytes) : Bytes := utf8 "\"" ++ s.flatMap printByte ++ utf8 "\""

def printInt (n : Int) : Bytes :=
  if n < 0 then 45 :: utf8 (toString n.natAbs) else utf8 (toString n.natAbs)

section Print

variable (fmt : FloatText)

mutual

/-- The text of a value. -/
def print : Json → Bytes
  | .null => utf8 "null"
  | .bool b => if b then utf8 "true" else utf8 "false"
  | .int n => printInt n
  | .float x => fmt.write x
  | .str s => printString s
  | .arr [] => [91, 93]
  | .arr (j :: l) => 91 :: (print j ++ printTail l)
  | .obj [] => [123, 125]
  | .obj ((k, j) :: l) => 123 :: (printString k ++ 58 :: (print j ++ printFieldTail l))

/-- The text of the elements behind the first one, with the end of the array. -/
def printTail : List Json → Bytes
  | [] => [93]
  | j :: l => 44 :: (print j ++ printTail l)

/-- The text of the fields behind the first one, with the end of the object. -/
def printFieldTail : List (Bytes × Json) → Bytes
  | [] => [125]
  | (k, j) :: l => 44 :: (printString k ++ 58 :: (print j ++ printFieldTail l))

end

end Print

theorem printTail_eq (fmt : FloatText) (l : List Json) :
    printTail fmt l = l.flatMap (fun j => 44 :: print fmt j) ++ [93] := by
  induction l with
  | nil => simp only [printTail, List.flatMap_nil, List.nil_append]
  | cons j l ih =>
    simp only [printTail, ih, List.flatMap_cons, List.cons_append, List.append_assoc]

/-! ### Reading -/

def isBlank (b : UInt8) : Bool := b = 0x20 || b = 0x09 || b = 0x0A || b = 0x0D

/-- Read the octet `b`, behind blanks. -/
def expect (b : UInt8) (s : Bytes) : Option Bytes :=
  match s.dropWhile isBlank with
  | [] => none
  | c :: rest => if c = b then some rest else none

/-! #### Strings -/

def hexValue (b : UInt8) : Option Nat :=
  if 48 ≤ b ∧ b ≤ 57 then some (b.toNat - 48)
  else if 97 ≤ b ∧ b ≤ 102 then some (b.toNat - 87)
  else if 65 ≤ b ∧ b ≤ 70 then some (b.toNat - 55)
  else none

/-- Four hexadecimal digits. -/
def readHex : Bytes → Option (Nat × Bytes)
  | a :: b :: c :: d :: s => do
    let a ← hexValue a
    let b ← hexValue b
    let c ← hexValue c
    let d ← hexValue d
    some (((a * 16 + b) * 16 + c) * 16 + d, s)
  | _ => none

/-- What stands behind `\u`. A high surrogate needs a low one behind it. -/
def readUnicode (s : Bytes) : Option (Bytes × Bytes) := do
  let (n, s) ← readHex s
  if n < 0xD800 ∨ 0xDFFF < n then some (String.utf8EncodeChar (Char.ofNat n), s)
  else if 0xDC00 ≤ n then none
  else if utf8 "\\u" <+: s then do
    let (m, s) ← readHex (s.drop 2)
    if 0xDC00 ≤ m ∧ m ≤ 0xDFFF then
      some (String.utf8EncodeChar (Char.ofNat (0x10000 + (n - 0xD800) * 0x400 + (m - 0xDC00))), s)
    else none
  else none

/-- The octet an escape of one letter stands for. -/
def unescape (b : UInt8) : Option UInt8 :=
  if b = 0x22 ∨ b = 0x5C ∨ b = 0x2F then some b
  else if b = 98 then some 0x08
  else if b = 102 then some 0x0C
  else if b = 110 then some 0x0A
  else if b = 114 then some 0x0D
  else if b = 116 then some 0x09
  else none

/-- An octet of a string, or an escape that begins with it. -/
def readChar (b : UInt8) (s : Bytes) : Option (Bytes × Bytes) :=
  if b = 0x5C then
    match s with
    | [] => none
    | e :: s => if e = 117 then readUnicode s else (unescape e).map fun c => ([c], s)
  else if b ≤ 0x1F then none
  else some ([b], s)

/-- A string up to its closing quote. -/
def readChars : Nat → Bytes → Option (Bytes × Bytes)
  | 0, _ => none
  | _ + 1, [] => none
  | fuel + 1, b :: s =>
    if b = 0x22 then some ([], s)
    else do
      let (c, s) ← readChar b s
      let (t, s) ← readChars fuel s
      some (c ++ t, s)

/-- A string behind its opening quote. -/
def readString (fuel : Nat) (s : Bytes) : Option (Bytes × Bytes) := do
  let (t, s) ← readChars fuel s
  if t.validUtf8 then some (t, s) else none

/-! #### Numbers -/

def isDigit (b : UInt8) : Bool := 48 ≤ b && b ≤ 57

/-- The number some digits stand for. -/
def decimal (digits : Bytes) : Nat := digits.foldl (fun n b => 10 * n + (b.toNat - 48)) 0

/-- The digits in front of the point. Only a single one may be a zero in front. -/
def integerPart : Bytes → Option Bytes
  | [] => none
  | b :: s =>
    if b = 48 then some [48] else if isDigit b then some (b :: s.takeWhile isDigit) else none

/-- The point and the digits behind it, if there is a point. -/
def fraction : Bytes → Option Bytes
  | [] => some []
  | b :: s =>
    if b = 46 then if s.takeWhile isDigit = [] then none else some (46 :: s.takeWhile isDigit)
    else some []

/-- A sign, if there is one. -/
def exponentSign : Bytes → Bytes
  | [] => []
  | b :: _ => if b = 43 ∨ b = 45 then [b] else []

/-- The exponent, if there is one. -/
def exponent : Bytes → Option Bytes
  | [] => some []
  | b :: s =>
    if b = 101 ∨ b = 69 then
      let sign := exponentSign s
      let digits := (s.drop sign.length).takeWhile isDigit
      if digits = [] then none else some (b :: (sign ++ digits))
    else some []

/-- A number. An integer that has no 64 bits is read as another number. -/
def readNumber (fmt : FloatText) (s : Bytes) : Option (Json × Bytes) := do
  let sign : Bytes := if [45] <+: s then [45] else []
  let int ← integerPart (s.drop sign.length)
  let frac ← fraction (s.drop (sign ++ int).length)
  let exp ← exponent (s.drop (sign ++ int ++ frac).length)
  let rest := s.drop (sign ++ int ++ frac ++ exp).length
  let n : Int := if sign = [] then decimal int else -decimal int
  if frac = [] ∧ exp = [] ∧ -2 ^ 63 ≤ n ∧ n < 2 ^ 64 then some (.int n, rest)
  else (fmt.read (sign ++ int ++ frac ++ exp)).map fun x => (.float x, rest)

/-- A name of a value. -/
def readLiteral (s : Bytes) : Option (Json × Bytes) :=
  if utf8 "null" <+: s then some (.null, s.drop 4)
  else if utf8 "true" <+: s then some (.bool true, s.drop 4)
  else if utf8 "false" <+: s then some (.bool false, s.drop 5)
  else none

/-! #### Values -/

/-- A field of an object. A field that is there already is replaced. -/
def insertField (k : Bytes) (j : Json) : List (Bytes × Json) → List (Bytes × Json)
  | [] => [(k, j)]
  | p :: l =>
    if k = p.1 then (k, j) :: l
    else if k < p.1 then (k, j) :: p :: l
    else p :: insertField k j l

/-- The fields of an object whose text has these. -/
def collectFields (fields : List (Bytes × Json)) : List (Bytes × Json) :=
  fields.foldl (fun l p => insertField p.1 p.2 l) []

section Read

variable (fmt : FloatText)

mutual

/-- A value, and what stands behind it. -/
def readValue : Nat → Bytes → Option (Json × Bytes)
  | 0, _ => none
  | fuel + 1, s =>
    match s.dropWhile isBlank with
    | [] => none
    | b :: s =>
      -- a string
      if b = 0x22 then (readString fuel s).map fun (t, s) => (.str t, s)
      -- an array, empty or not
      else if b = 91 then
        match expect 93 s with
        | some s => some (.arr [], s)
        | none => do
          let (j, s) ← readValue fuel s
          let (l, s) ← readTail fuel s
          some (.arr (j :: l), s)
      -- an object; of members with one key the last counts
      else if b = 123 then
        match expect 125 s with
        | some s => some (.obj [], s)
        | none => do
          let (p, s) ← readField fuel s
          let (l, s) ← readFieldTail fuel s
          some (.obj (collectFields (p :: l)), s)
      else
        match readLiteral (b :: s) with
        | some r => some r
        | none => readNumber fmt (b :: s)

/-- The elements behind the first one, up to the end of the array. -/
def readTail : Nat → Bytes → Option (List Json × Bytes)
  | 0, _ => none
  | fuel + 1, s =>
    match expect 44 s with
    | some s => do
      let (j, s) ← readValue fuel s
      let (l, s) ← readTail fuel s
      some (j :: l, s)
    | none => (expect 93 s).map fun s => ([], s)

/-- One field. -/
def readField : Nat → Bytes → Option ((Bytes × Json) × Bytes)
  | 0, _ => none
  | fuel + 1, s => do
    let s ← expect 0x22 s
    let (k, s) ← readString fuel s
    let s ← expect 58 s
    let (j, s) ← readValue fuel s
    some ((k, j), s)

/-- The fields behind the first one, up to the end of the object. -/
def readFieldTail : Nat → Bytes → Option (List (Bytes × Json) × Bytes)
  | 0, _ => none
  | fuel + 1, s =>
    match expect 44 s with
    | some s => do
      let (p, s) ← readField fuel s
      let (l, s) ← readFieldTail fuel s
      some (p :: l, s)
    | none => (expect 125 s).map fun s => ([], s)

end

/-- The value a text stands for. A zero octet ends a text. -/
def parse (text : Bytes) : Option Json := do
  let s := if [0xEF, 0xBB, 0xBF] <+: text then text.drop 3 else text
  let (j, rest) ← readValue fmt (text.length + 1) s
  match rest.dropWhile isBlank with
  | [] => some j
  | b :: _ => if b = 0 then some j else none

end Read

/-! ### What is written is read -/

/-- No number goes on here. -/
def Stops (rest : Bytes) : Prop :=
  ∀ b ∈ rest.head?, isDigit b = false ∧ b ≠ 46 ∧ b ≠ 101 ∧ b ≠ 69

/-- The text is that of a number, and read as the value `j`. -/
structure FloatText.Reads (fmt : FloatText) (text : Bytes) (j : Json) : Prop where
  first : ∃ b t, text = b :: t ∧ b ∈ utf8 "-0123456789"
  noNul : (0 : UInt8) ∉ text
  number : ∀ rest, Stops rest → readNumber fmt (text ++ rest) = some (j, rest)

/-- A number that is read as it was written. -/
def FloatText.Keeps (fmt : FloatText) (x : Rat) : Prop := fmt.Reads (fmt.write x) (.float x)

section Canonical

variable (fmt : FloatText)

mutual

/-- A value that is read as it was written. -/
def Canonical : Json → Prop
  | .int n => -2 ^ 63 ≤ n ∧ n < 2 ^ 64
  | .float x => fmt.Keeps x
  | .str s => s.validUtf8 = true
  | .arr l => CanonicalElems l
  | .obj l => CanonicalFields l ∧ (l.map Prod.fst).Pairwise (· < ·)
  | _ => True

def CanonicalElems : List Json → Prop
  | [] => True
  | j :: l => Canonical j ∧ CanonicalElems l

def CanonicalFields : List (Bytes × Json) → Prop
  | [] => True
  | (k, j) :: l => k.validUtf8 = true ∧ Canonical j ∧ CanonicalFields l

end

end Canonical

/-! #### Octets and strings -/

theorem expect_self {b : UInt8} (hb : isBlank b = false) (rest : Bytes) :
    expect b (b :: rest) = some rest := by
  rw [expect, List.dropWhile_cons_of_neg (by simp [hb])]
  exact if_pos rfl

theorem expect_of_ne {b c : UInt8} (hc : isBlank c = false) (hne : c ≠ b) (rest : Bytes) :
    expect b (c :: rest) = none := by
  rw [expect, List.dropWhile_cons_of_neg (by simp [hc])]
  exact if_neg hne

/-- The escape of a control octet. -/
theorem readChar_printByte_of_le {b : UInt8} (hb : b ≤ 0x1F) (rest : Bytes) :
    ∃ t, printByte b = 0x5C :: t ∧ readChar 0x5C (t ++ rest) = some ([b], rest) := by
  obtain ⟨n, hn, rfl⟩ : ∃ n < 32, b = UInt8.ofNat n :=
    ⟨b.toNat, Nat.lt_succ_of_le (UInt8.le_iff_toNat_le.mp hb), (UInt8.ofNat_toNat).symm⟩
  interval_cases n <;> exact ⟨_, rfl, rfl⟩

/-- An octet is read from what is written for it, and is not taken for the end of the string. -/
theorem readChar_printByte (b : UInt8) (rest : Bytes) :
    ∃ c t, printByte b = c :: t ∧ c ≠ 0x22 ∧ readChar c (t ++ rest) = some ([b], rest) := by
  by_cases hcontrol : b ≤ 0x1F
  · obtain ⟨t, hprint, hread⟩ := readChar_printByte_of_le hcontrol rest
    exact ⟨0x5C, t, hprint, by decide, hread⟩
  by_cases hquote : b = 0x22
  · subst hquote
    exact ⟨0x5C, [0x22], rfl, by decide, rfl⟩
  by_cases hbackslash : b = 0x5C
  · subst hbackslash
    exact ⟨0x5C, [0x5C], rfl, by decide, rfl⟩
  -- all other octets stand for themselves
  have hne : ∀ c : UInt8, c ≤ 0x1F → b ≠ c := fun c hc h => hcontrol (h ▸ hc)
  refine ⟨b, [], ?_, hquote, ?_⟩
  · rw [printByte, if_neg (hne _ (by decide)), if_neg (hne _ (by decide)),
      if_neg (hne _ (by decide)), if_neg (hne _ (by decide)), if_neg (hne _ (by decide)),
      if_neg hquote, if_neg hbackslash, if_neg hcontrol]
  · unfold readChar
    rw [if_neg hbackslash, if_neg hcontrol]
    rfl

theorem readChars_print {fuel : Nat} {s : Bytes} (h : s.length < fuel) (rest : Bytes) :
    readChars fuel (s.flatMap printByte ++ 0x22 :: rest) = some (s, rest) := by
  induction s generalizing fuel with
  | nil =>
    obtain ⟨fuel, rfl⟩ : ∃ n, fuel = n + 1 := ⟨fuel - 1, by omega⟩
    exact if_pos rfl
  | cons b s ih =>
    obtain ⟨fuel, rfl⟩ : ∃ n, fuel = n + 1 := ⟨fuel - 1, by omega⟩
    -- no escape begins with a quote, so the text ends at the closing one
    obtain ⟨c, t, hprint, hc, hread⟩ :=
      readChar_printByte b (s.flatMap printByte ++ 0x22 :: rest)
    have htail : readChars fuel (s.flatMap printByte ++ 0x22 :: rest) = some (s, rest) :=
      ih (by simpa using h)
    rw [List.flatMap_cons, hprint, List.cons_append, List.cons_append, List.append_assoc, readChars,
      if_neg hc, hread]
    simp only [Option.bind_eq_bind, Option.bind_some, htail]
    rfl

/-- A string takes at least as many octets as it has. -/
theorem length_le_flatMap_printByte (s : Bytes) : s.length ≤ (s.flatMap printByte).length := by
  induction s with
  | nil => exact Nat.le_refl 0
  | cons b s ih =>
    obtain ⟨c, t, hprint, -, -⟩ := readChar_printByte b []
    rw [List.flatMap_cons, hprint, List.length_append, List.length_cons, List.length_cons]
    omega

theorem printString_eq (s : Bytes) : printString s = 0x22 :: (s.flatMap printByte ++ [0x22]) := rfl

/-- A string is read from its text behind the opening quote. -/
theorem readString_print {fuel : Nat} {s : Bytes} (hs : s.validUtf8 = true)
    (h : (printString s).length ≤ fuel + 1) (rest : Bytes) :
    readString fuel (s.flatMap printByte ++ 0x22 :: rest) = some (s, rest) := by
  have hlength := length_le_flatMap_printByte s
  rw [printString_eq, List.length_cons, List.length_append, List.length_singleton] at h
  rw [readString, readChars_print (by omega)]
  simp only [Option.bind_eq_bind, Option.bind_some, if_pos hs]

/-! #### Integers -/

/-- The digits of a number, from the front. -/
theorem digits_eq (n : Nat) : utf8 (toString n) =
    if n < 10 then [48 + n.toUInt8] else utf8 (toString (n / 10)) ++ [48 + (n % 10).toUInt8] := by
  have hdigit : ∀ d < 10, String.utf8EncodeChar d.digitChar = [48 + d.toUInt8] := by decide
  have hdigits : ∀ m, utf8 (toString m) = (Nat.toDigits 10 m).flatMap String.utf8EncodeChar := by
    intro m
    rw [utf8, Nat.toString_eq_ofList_toDigits, String.toList_ofList]
  rw [hdigits, hdigits, Nat.toDigits_eq_if (by decide)]
  split
  · next hn => rw [List.flatMap_singleton, hdigit n hn]
  · rw [List.flatMap_append, List.flatMap_singleton, hdigit _ (Nat.mod_lt _ (by decide))]

/-- What the digits of a number are. -/
structure DigitsOf (n : Nat) (digits : Bytes) : Prop where
  all : ∀ b ∈ digits, b ∈ utf8 "0123456789"
  value : decimal digits = n
  ne_nil : digits ≠ []
  first : n ≠ 0 → digits.head? ≠ some 48
  zero : n = 0 → digits = [48]

theorem digitsOf_toString (n : Nat) : DigitsOf n (utf8 (toString n)) := by
  -- the characters of the ten digits
  have hdigit : ∀ d < 10, 48 + d.toUInt8 ∈ utf8 "0123456789" ∧
      (48 + d.toUInt8).toNat - 48 = d := by decide
  induction n using Nat.strong_induction_on with
  | _ n ih =>
    rw [digits_eq]
    split
    · next hn =>
      obtain ⟨hall, hvalue⟩ := hdigit n hn
      refine ⟨?_, ?_, List.cons_ne_nil _ _, ?_, ?_⟩
      · intro b hb
        rw [List.mem_singleton.mp hb]
        exact hall
      · show 10 * 0 + ((48 + n.toUInt8).toNat - 48) = n
        omega
      -- one digit is 0 for zero only
      · have hfirst : ∀ d < 10, d ≠ 0 → (48 : UInt8) + d.toUInt8 ≠ 48 := by decide
        intro hne hhead
        exact hfirst n hn hne (Option.some.inj hhead)
      · rintro rfl
        rfl
    · next hn =>
      -- the digits of the quotient, then the last one
      have hquot := ih (n / 10) (Nat.div_lt_self (by omega) (by decide))
      obtain ⟨hall, hvalue⟩ := hdigit (n % 10) (Nat.mod_lt _ (by decide))
      refine ⟨?_, ?_, List.append_ne_nil_of_right_ne_nil _ (List.cons_ne_nil _ _), ?_, ?_⟩
      · intro b hb
        rcases List.mem_append.mp hb with hb | hb
        · exact hquot.all b hb
        · rw [List.mem_singleton.mp hb]
          exact hall
      · have hprefix : decimal (utf8 (toString (n / 10))) = n / 10 := hquot.value
        rw [decimal] at hprefix ⊢
        rw [List.foldl_append, hprefix]
        show 10 * (n / 10) + ((48 + (n % 10).toUInt8).toNat - 48) = n
        rw [hvalue]
        omega
      · intro _
        rw [List.head?_append_of_ne_nil _ hquot.ne_nil]
        exact hquot.first (by omega)
      · intro hzero
        omega

theorem DigitsOf.isDigit {n : Nat} {digits : Bytes} (h : DigitsOf n digits) :
    ∀ b ∈ digits, isDigit b = true := by
  have hdigit : ∀ b ∈ utf8 "0123456789", Json.isDigit b = true := by decide +kernel
  exact fun b hb => hdigit b (h.all b hb)

/-- Digits end where no number goes on. -/
theorem takeWhile_isDigit_append {digits rest : Bytes} (h : ∀ b ∈ digits, isDigit b = true)
    (hrest : Stops rest) : (digits ++ rest).takeWhile isDigit = digits := by
  rw [List.takeWhile_append_of_pos h]
  cases rest with
  | nil => exact List.append_nil _
  | cons b rest =>
    have hb : isDigit b = false := (hrest b rfl).1
    rw [List.takeWhile_cons_of_neg (by simp [hb]), List.append_nil]

theorem DigitsOf.integerPart {n : Nat} {digits rest : Bytes} (h : DigitsOf n digits)
    (hrest : Stops rest) : integerPart (digits ++ rest) = some digits := by
  by_cases hn : n = 0
  · rw [h.zero hn]
    rfl
  obtain ⟨b, t, rfl⟩ := List.exists_cons_of_ne_nil h.ne_nil
  have hb : b ≠ 48 := fun heq => h.first hn (congrArg some heq)
  have ht : ∀ c ∈ t, Json.isDigit c = true := fun c hc => h.isDigit c (List.mem_cons_of_mem _ hc)
  show (if b = 48 then some [48] else if Json.isDigit b = true then
    some (b :: (t ++ rest).takeWhile Json.isDigit) else none) = _
  rw [if_neg hb, if_pos (h.isDigit b (List.mem_cons_self ..)), takeWhile_isDigit_append ht hrest]

theorem fraction_of_stops {rest : Bytes} (h : Stops rest) : fraction rest = some [] := by
  cases rest with
  | nil => rfl
  | cons b rest => exact if_neg (h b rfl).2.1

theorem exponent_of_stops {rest : Bytes} (h : Stops rest) : exponent rest = some [] := by
  cases rest with
  | nil => rfl
  | cons b rest => exact if_neg (not_or.mpr (h b rfl).2.2)

/-- Digits behind a sign, or without one. -/
theorem readNumber_digits {fmt : FloatText} {sign digits rest : Bytes} {m : Nat} {n : Int}
    (hsign : (if [45] <+: sign ++ (digits ++ rest) then [45] else []) = sign)
    (hdigits : DigitsOf m digits) (hrest : Stops rest)
    (hn : (if sign = [] then (m : Int) else -(m : Int)) = n) (hlow : -2 ^ 63 ≤ n)
    (hhigh : n < 2 ^ 64) : readNumber fmt (sign ++ (digits ++ rest)) = some (.int n, rest) := by
  have hdrop : (sign ++ (digits ++ rest)).drop (sign ++ digits).length = rest := by
    rw [← List.append_assoc]
    exact List.drop_left
  unfold readNumber
  simp only [hsign, List.drop_left, hdigits.integerPart hrest, Option.bind_eq_bind,
    Option.bind_some, hdrop, fraction_of_stops hrest, List.append_nil, exponent_of_stops hrest,
    hdigits.value, hn, hlow, hhigh, and_self, if_true]

/-- **An integer of 64 bits** is read as it was written. -/
theorem reads_printInt (fmt : FloatText) {n : Int} (hlow : -2 ^ 63 ≤ n) (hhigh : n < 2 ^ 64) :
    fmt.Reads (printInt n) (.int n) := by
  have hdigits := digitsOf_toString n.natAbs
  obtain ⟨b, t, htext⟩ := List.exists_cons_of_ne_nil hdigits.ne_nil
  have hb : b ∈ utf8 "0123456789" := hdigits.all b (htext ▸ List.mem_cons_self ..)
  have hnoNul : (0 : UInt8) ∉ utf8 (toString n.natAbs) := fun h =>
    absurd (hdigits.all 0 h) (by decide +kernel)
  -- a negative number has a minus sign in front of its digits
  by_cases hneg : n < 0
  · have hprint : printInt n = [45] ++ utf8 (toString n.natAbs) := if_pos hneg
    rw [hprint]
    have hnoNul' : (0 : UInt8) ∉ [45] ++ utf8 (toString n.natAbs) := fun h =>
      (List.mem_append.mp h).elim (by decide) hnoNul
    refine ⟨⟨45, _, rfl, by decide⟩, hnoNul', fun rest hrest => ?_⟩
    rw [List.append_assoc]
    refine readNumber_digits (if_pos (List.prefix_append _ _)) hdigits hrest ?_ hlow hhigh
    rw [if_neg (List.cons_ne_nil _ _)]
    omega
  -- others have none, and begin with a digit
  · have hprint : printInt n = [] ++ utf8 (toString n.natAbs) := if_neg hneg
    rw [hprint]
    refine ⟨⟨b, t, htext, List.mem_cons_of_mem _ hb⟩, hnoNul, fun rest hrest => ?_⟩
    rw [List.append_assoc]
    refine readNumber_digits (if_neg ?_) hdigits hrest ?_ hlow hhigh
    · rintro ⟨u, hu⟩
      rw [htext] at hu
      obtain ⟨rfl, -⟩ := List.cons.inj hu
      exact absurd hb (by decide)
    · rw [if_pos rfl]
      omega

/-! #### Fields in order -/

theorem insertField_of_lt {k : Bytes} {j : Json} {l : List (Bytes × Json)}
    (h : ∀ p ∈ l, p.1 < k) : insertField k j l = l ++ [(k, j)] := by
  induction l with
  | nil => rfl
  | cons p l ih =>
    have hp := h p (List.mem_cons_self ..)
    have hne : k ≠ p.1 := by
      rintro rfl
      exact List.lt_irrefl _ hp
    rw [insertField, if_neg hne, if_neg (List.lt_asymm hp),
      ih fun q hq => h q (List.mem_cons_of_mem _ hq)]
    rfl

/-- Fields whose names ascend stay as they are. -/
theorem collectFields_of_ascending {l : List (Bytes × Json)}
    (h : (l.map Prod.fst).Pairwise (· < ·)) : collectFields l = l := by
  induction l using List.reverseRecOn with
  | nil => rfl
  | append_singleton l p ih =>
    rw [List.map_append, List.pairwise_append] at h
    have hlast : ∀ q ∈ l, q.1 < p.1 := fun q hq =>
      h.2.2 _ (List.mem_map_of_mem hq) _ (List.mem_singleton_self _)
    have hl := ih h.1
    rw [collectFields] at hl ⊢
    rw [List.foldl_append, hl]
    exact insertField_of_lt hlast

/-! #### Values -/

section RoundTrip

variable {fmt : FloatText}

variable (fmt) in
theorem stops_printTail (l : List Json) (rest : Bytes) : Stops (printTail fmt l ++ rest) := by
  cases l with
  | nil =>
    intro b hb
    obtain rfl := Option.some.inj hb
    decide
  | cons j l =>
    intro b hb
    obtain rfl := Option.some.inj hb
    decide

variable (fmt) in
theorem stops_printFieldTail (l : List (Bytes × Json)) (rest : Bytes) :
    Stops (printFieldTail fmt l ++ rest) := by
  cases l with
  | nil =>
    intro b hb
    obtain rfl := Option.some.inj hb
    decide
  | cons p l =>
    intro b hb
    obtain rfl := Option.some.inj hb
    decide

/-- A number begins as nothing else does. -/
theorem first_of_number {b : UInt8} (h : b ∈ utf8 "-0123456789") :
    isBlank b = false ∧ b ≠ 0x22 ∧ b ≠ 91 ∧ b ≠ 93 ∧ b ≠ 123 ∧ b ≠ 110 ∧ b ≠ 116 ∧ b ≠ 102 ∧
      b ≠ 0xEF := by
  revert b
  decide +kernel

theorem FloatText.Reads.readValue {text : Bytes} {j : Json} (h : fmt.Reads text j) {fuel : Nat}
    (hfuel : text.length ≤ fuel) {rest : Bytes} (hrest : Stops rest) :
    readValue fmt fuel (text ++ rest) = some (j, rest) := by
  obtain ⟨b, t, rfl, hb⟩ := h.first
  obtain ⟨hblank, hquote, harr, -, hobj, hn, ht, hf, -⟩ := first_of_number hb
  obtain ⟨fuel, rfl⟩ : ∃ n, fuel = n + 1 := ⟨fuel - 1, by simp at hfuel; omega⟩
  have hname : ∀ {c : UInt8} {name s : Bytes}, b ≠ c → ¬ c :: name <+: b :: s :=
    fun hne hprefix => hne (List.cons_prefix_cons.mp hprefix).1.symm
  -- a number begins like no other value
  have hliteral : readLiteral (b :: (t ++ rest)) = none := by
    have hnull : ¬ utf8 "null" <+: b :: (t ++ rest) := hname hn
    have htrue : ¬ utf8 "true" <+: b :: (t ++ rest) := hname ht
    have hfalse : ¬ utf8 "false" <+: b :: (t ++ rest) := hname hf
    rw [readLiteral, if_neg hnull, if_neg htrue, if_neg hfalse]
  have hread := h.number rest hrest
  rw [List.cons_append] at hread ⊢
  unfold Json.readValue
  rw [List.dropWhile_cons_of_neg (by simp [hblank])]
  simp only [hquote, harr, hobj, if_false, hliteral, hread]

/-- The first octet of a value is no blank, no end of an array and no mark of the octet order. -/
theorem print_first {j : Json} (h : Canonical fmt j) :
    ∃ b t, print fmt j = b :: t ∧ isBlank b = false ∧ b ≠ 93 ∧ b ≠ 0xEF := by
  -- the other values begin with a quote, a bracket, a brace or a letter
  have hnumber : ∀ {text : Bytes} {j : Json}, fmt.Reads text j →
      ∃ b t, text = b :: t ∧ isBlank b = false ∧ b ≠ 93 ∧ b ≠ 0xEF := by
    intro text j h
    obtain ⟨b, t, htext, hb⟩ := h.first
    obtain ⟨hblank, -, -, hend, -, -, -, -, hmark⟩ := first_of_number hb
    exact ⟨b, t, htext, hblank, hend, hmark⟩
  match j, h with
  | .null, _ => exact ⟨_, _, rfl, by decide, by decide, by decide⟩
  | .bool true, _ => exact ⟨_, _, rfl, by decide, by decide, by decide⟩
  | .bool false, _ => exact ⟨_, _, rfl, by decide, by decide, by decide⟩
  | .int n, h => exact hnumber (reads_printInt fmt h.1 h.2)
  | .float x, h => exact hnumber h
  | .str s, _ => exact ⟨_, _, rfl, by decide, by decide, by decide⟩
  | .arr [], _ => exact ⟨_, _, rfl, by decide, by decide, by decide⟩
  | .arr (j :: l), _ => exact ⟨_, _, rfl, by decide, by decide, by decide⟩
  | .obj [], _ => exact ⟨_, _, rfl, by decide, by decide, by decide⟩
  | .obj (p :: l), _ => exact ⟨_, _, rfl, by decide, by decide, by decide⟩

/-- There is fuel for a text that is not empty. -/
theorem exists_fuel {j : Json} (h : Canonical fmt j) {fuel : Nat}
    (hfuel : (print fmt j).length ≤ fuel) : ∃ n, fuel = n + 1 := by
  obtain ⟨b, t, hprint, -⟩ := print_first h
  rw [hprint, List.length_cons] at hfuel
  exact ⟨fuel - 1, by omega⟩

/-- A string as a value. -/
theorem readValue_printString {s : Bytes} (hs : s.validUtf8 = true) {fuel : Nat}
    (hfuel : (printString s).length ≤ fuel) (rest : Bytes) :
    readValue fmt fuel (printString s ++ rest) = some (.str s, rest) := by
  obtain ⟨fuel, rfl⟩ : ∃ n, fuel = n + 1 := ⟨fuel - 1, by simp [printString_eq] at hfuel; omega⟩
  have hread := readString_print hs hfuel rest
  rw [printString_eq, List.cons_append, List.append_assoc, List.singleton_append]
  unfold readValue
  rw [List.dropWhile_cons_of_neg (by decide)]
  show (readString fuel (s.flatMap printByte ++ 0x22 :: rest)).map _ = _
  rw [hread]
  rfl

/-- A field, if its value is read. -/
theorem readField_print {k : Bytes} {j : Json} (hk : k.validUtf8 = true)
    (hj : ∀ {fuel : Nat} {rest : Bytes}, (print fmt j).length ≤ fuel → Stops rest →
      readValue fmt fuel (print fmt j ++ rest) = some (j, rest))
    {fuel : Nat} {rest : Bytes} (hfuel : (printString k).length + (print fmt j).length ≤ fuel)
    (hrest : Stops rest) :
    readField fmt fuel (printString k ++ 58 :: (print fmt j ++ rest)) = some ((k, j), rest) := by
  have htwo : 2 ≤ (printString k).length := by
    rw [printString_eq, List.length_cons, List.length_append, List.length_singleton]
    omega
  obtain ⟨fuel, rfl⟩ : ∃ n, fuel = n + 1 := ⟨fuel - 1, by omega⟩
  have hfuelk : (printString k).length ≤ fuel + 1 := by omega
  have hfuelj : (print fmt j).length ≤ fuel := by omega
  -- the name, the colon, then the value
  have hname := readString_print hk hfuelk (58 :: (print fmt j ++ rest))
  rw [printString_eq, List.cons_append, List.append_assoc, List.singleton_append]
  unfold readField
  simp only [expect_self (b := 0x22) (by decide), hname, expect_self (b := 58) (by decide),
    hj hfuelj hrest, Option.bind_eq_bind, Option.bind_some]

mutual

theorem readValue_print : (j : Json) → Canonical fmt j → ∀ {fuel : Nat} {rest : Bytes},
    (print fmt j).length ≤ fuel → Stops rest →
    readValue fmt fuel (print fmt j ++ rest) = some (j, rest)
  | .null, h, fuel, rest, hfuel, _ => by
    obtain ⟨fuel, rfl⟩ := exists_fuel h hfuel
    rfl
  | .bool true, h, fuel, rest, hfuel, _ => by
    obtain ⟨fuel, rfl⟩ := exists_fuel h hfuel
    rfl
  | .bool false, h, fuel, rest, hfuel, _ => by
    obtain ⟨fuel, rfl⟩ := exists_fuel h hfuel
    rfl
  | .int n, h, fuel, rest, hfuel, hrest => (reads_printInt fmt h.1 h.2).readValue hfuel hrest
  | .float x, h, fuel, rest, hfuel, hrest => FloatText.Reads.readValue h hfuel hrest
  | .str s, h, fuel, rest, hfuel, _ => readValue_printString h hfuel rest
  | .arr [], h, fuel, rest, hfuel, _ => by
    obtain ⟨fuel, rfl⟩ := exists_fuel h hfuel
    rfl
  | .arr (j :: l), ⟨hj, hl⟩, fuel, rest, hfuel, _ => by
    simp only [print, List.length_cons, List.length_append] at hfuel
    obtain ⟨fuel, rfl⟩ : ∃ n, fuel = n + 1 := ⟨fuel - 1, by omega⟩
    have hfuelj : (print fmt j).length ≤ fuel := by omega
    -- the first element, then the rest up to the bracket
    have hfirst := readValue_print j hj hfuelj (stops_printTail fmt l rest)
    have htail : readTail fmt fuel (printTail fmt l ++ rest) = some (l, rest) :=
      readTail_print l hl (by omega)
    obtain ⟨b, t, hprint, hblank, hend, -⟩ := print_first hj
    -- the element does not begin with the bracket that ends the array
    have hnone : expect 93 (print fmt j ++ (printTail fmt l ++ rest)) = none := by
      rw [hprint]
      exact expect_of_ne hblank hend _
    rw [print, List.cons_append, List.append_assoc]
    unfold readValue
    rw [List.dropWhile_cons_of_neg (by decide)]
    simp only [hnone, hfirst, htail, Option.bind_eq_bind, Option.bind_some]
    rfl
  | .obj [], h, fuel, rest, hfuel, _ => by
    obtain ⟨fuel, rfl⟩ := exists_fuel h hfuel
    rfl
  | .obj ((k, j) :: l), ⟨⟨hk, hj, hl⟩, hascending⟩, fuel, rest, hfuel, _ => by
    simp only [print, List.length_cons, List.length_append] at hfuel
    obtain ⟨fuel, rfl⟩ : ∃ n, fuel = n + 1 := ⟨fuel - 1, by omega⟩
    have hfuelj : (printString k).length + (print fmt j).length ≤ fuel := by omega
    -- the first member, then the rest up to the brace
    have hfirst := readField_print hk (fun hfuel hrest => readValue_print j hj hfuel hrest)
      hfuelj (stops_printFieldTail fmt l rest)
    have htail : readFieldTail fmt fuel (printFieldTail fmt l ++ rest) = some (l, rest) :=
      readFieldTail_print l hl (by omega)
    have hnone : ∀ s, expect 125 (printString k ++ s) = none := fun s =>
      expect_of_ne (by decide) (by decide) _
    rw [print, List.cons_append, List.append_assoc]
    unfold readValue
    rw [List.dropWhile_cons_of_neg (by decide)]
    simp only [List.append_assoc, List.cons_append] at hfirst ⊢
    -- the keys ascend, so no member replaces another
    simp only [hnone, hfirst, htail, Option.bind_eq_bind, Option.bind_some,
      collectFields_of_ascending hascending]
    rfl

theorem readTail_print : (l : List Json) → CanonicalElems fmt l → ∀ {fuel : Nat} {rest : Bytes},
    (printTail fmt l).length ≤ fuel → readTail fmt fuel (printTail fmt l ++ rest) = some (l, rest)
  | [], _, fuel, rest, hfuel => by
    obtain ⟨fuel, rfl⟩ : ∃ n, fuel = n + 1 := ⟨fuel - 1, by simp [printTail] at hfuel; omega⟩
    rfl
  | j :: l, ⟨hj, hl⟩, fuel, rest, hfuel => by
    simp only [printTail, List.length_cons, List.length_append] at hfuel
    obtain ⟨fuel, rfl⟩ : ∃ n, fuel = n + 1 := ⟨fuel - 1, by omega⟩
    have hfuelj : (print fmt j).length ≤ fuel := by omega
    -- a comma, an element, and the rest
    have hfirst := readValue_print j hj hfuelj (stops_printTail fmt l rest)
    have htail : readTail fmt fuel (printTail fmt l ++ rest) = some (l, rest) :=
      readTail_print l hl (by omega)
    rw [printTail, List.cons_append, List.append_assoc]
    unfold readTail
    simp only [expect_self (b := 44) (by decide), hfirst, htail, Option.bind_eq_bind,
      Option.bind_some]

theorem readFieldTail_print : (l : List (Bytes × Json)) → CanonicalFields fmt l →
    ∀ {fuel : Nat} {rest : Bytes}, (printFieldTail fmt l).length ≤ fuel →
    readFieldTail fmt fuel (printFieldTail fmt l ++ rest) = some (l, rest)
  | [], _, fuel, rest, hfuel => by
    obtain ⟨fuel, rfl⟩ : ∃ n, fuel = n + 1 := ⟨fuel - 1, by simp [printFieldTail] at hfuel; omega⟩
    rfl
  | (k, j) :: l, ⟨hk, hj, hl⟩, fuel, rest, hfuel => by
    simp only [printFieldTail, List.length_cons, List.length_append] at hfuel
    obtain ⟨fuel, rfl⟩ : ∃ n, fuel = n + 1 := ⟨fuel - 1, by omega⟩
    have hfuelj : (printString k).length + (print fmt j).length ≤ fuel := by omega
    -- a comma, a member, and the rest
    have hfirst := readField_print hk (fun hfuel hrest => readValue_print j hj hfuel hrest)
      hfuelj (stops_printFieldTail fmt l rest)
    have htail : readFieldTail fmt fuel (printFieldTail fmt l ++ rest) = some (l, rest) :=
      readFieldTail_print l hl (by omega)
    rw [printFieldTail, List.cons_append, List.append_assoc, List.cons_append, List.append_assoc]
    unfold readFieldTail
    simp only [expect_self (b := 44) (by decide), hfirst, htail, Option.bind_eq_bind,
      Option.bind_some]

end

/-- **A value is read back from its text.** -/
theorem parse_print {j : Json} (h : Canonical fmt j) : parse fmt (print fmt j) = some j := by
  have hstops : Stops [] := fun b hb => nomatch hb
  have hread := readValue_print j h (Nat.le_succ (print fmt j).length) hstops
  obtain ⟨b, t, hprint, -, -, hb⟩ := print_first h
  have hmark : ¬ [0xEF, 0xBB, 0xBF] <+: print fmt j := by
    rw [hprint]
    exact fun hprefix => hb (List.cons_prefix_cons.mp hprefix).1.symm
  rw [List.append_nil] at hread
  rw [parse, if_neg hmark]
  show (readValue fmt ((print fmt j).length + 1) (print fmt j)).bind _ = _
  rw [hread]
  rfl

/-! #### Texts without a zero octet -/

theorem noNul_printByte (b : UInt8) : (0 : UInt8) ∉ printByte b := by
  have hall : ∀ n : Fin 256, (0 : UInt8) ∉ printByte (UInt8.ofNat n) := by decide +kernel
  have hb := hall ⟨b.toNat, b.toNat_lt⟩
  rwa [UInt8.ofNat_toNat] at hb

theorem noNul_printString (s : Bytes) : (0 : UInt8) ∉ printString s := by
  rw [printString_eq, List.mem_cons, List.mem_append, List.mem_flatMap]
  rintro (h | ⟨b, -, h⟩ | h)
  · exact absurd h (by decide)
  · exact noNul_printByte b h
  · exact absurd h (by decide)

mutual

/-- A text that is written holds no zero octet. -/
theorem noNul_print : (j : Json) → Canonical fmt j → (0 : UInt8) ∉ print fmt j
  | .null, _ => by
    rw [print]
    decide +kernel
  | .bool true, _ => by
    rw [print]
    decide +kernel
  | .bool false, _ => by
    rw [print]
    decide +kernel
  | .int n, h => (reads_printInt fmt h.1 h.2).noNul
  | .float x, h => FloatText.Reads.noNul h
  | .str s, _ => noNul_printString s
  | .arr [], _ => by
    rw [print]
    decide
  -- neither the brackets nor the elements have one
  | .arr (j :: l), ⟨hj, hl⟩ => by
    rw [print, List.mem_cons, List.mem_append]
    rintro (h | h | h)
    · exact absurd h (by decide)
    · exact noNul_print j hj h
    · exact noNul_printTail l hl h
  | .obj [], _ => by
    rw [print]
    decide
  | .obj ((k, j) :: l), ⟨⟨_, hj, hl⟩, _⟩ => by
    rw [print, List.mem_cons, List.mem_append, List.mem_cons, List.mem_append]
    rintro (h | h | h | h | h)
    · exact absurd h (by decide)
    · exact noNul_printString k h
    · exact absurd h (by decide)
    · exact noNul_print j hj h
    · exact noNul_printFieldTail l hl h

theorem noNul_printTail : (l : List Json) → CanonicalElems fmt l → (0 : UInt8) ∉ printTail fmt l
  | [], _ => by
    rw [printTail]
    decide
  | j :: l, ⟨hj, hl⟩ => by
    rw [printTail, List.mem_cons, List.mem_append]
    rintro (h | h | h)
    · exact absurd h (by decide)
    · exact noNul_print j hj h
    · exact noNul_printTail l hl h

theorem noNul_printFieldTail : (l : List (Bytes × Json)) → CanonicalFields fmt l →
    (0 : UInt8) ∉ printFieldTail fmt l
  | [], _ => by
    rw [printFieldTail]
    decide
  | (k, j) :: l, ⟨_, hj, hl⟩ => by
    rw [printFieldTail, List.mem_cons, List.mem_append, List.mem_cons, List.mem_append]
    rintro (h | h | h | h | h)
    · exact absurd h (by decide)
    · exact noNul_printString k h
    · exact absurd h (by decide)
    · exact noNul_print j hj h
    · exact noNul_printFieldTail l hl h

end

end RoundTrip

end Json
