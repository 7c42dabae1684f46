import Mathlib.Data.List.Basic
import Mathlib.Data.List.DropRight
import Mathlib.Data.List.Infix

/-!
# JavaScript strings

A string of JavaScript is a sequence of 16-bit code units with no promise about its encoding
(`JsString`), and `js` gives the code units of a literal of the source. `length` of the source is
`List.length`, and a string is falsy when it is empty.
-/

/-- A string of code units. -/
abbrev JsString := List UInt16

instance : LawfulBEq JsString := inferInstanceAs (LawfulBEq (List UInt16))

/-- The code units of a character. -/
def utf16EncodeChar (c : Char) : JsString :=
  if c.toNat < 0x10000 then [.ofNat c.toNat]
  else [.ofNat (0xD800 + (c.toNat - 0x10000) / 0x400),
    .ofNat (0xDC00 + (c.toNat - 0x10000) % 0x400)]

/-- A literal of the source, as code units. -/
def js (s : String) : JsString := s.toList.flatMap utf16EncodeChar

namespace JsString

/-- The white space and line terminators that `trim` removes. -/
def isSpace (c : UInt16) : Bool :=
  (9 ≤ c && c ≤ 13) || c = 32 || c = 0xA0 || c = 0x1680 || (0x2000 ≤ c && c ≤ 0x200A) ||
    c = 0x2028 || c = 0x2029 || c = 0x202F || c = 0x205F || c = 0x3000 || c = 0xFEFF

/-- `trim`. -/
def trim (s : JsString) : JsString := (s.dropWhile isSpace).rdropWhile isSpace

/-- `includes`. -/
def includes (s pat : JsString) : Bool := decide (pat <:+: s)

/-- `s || fallback`. -/
def orElse (s fallback : JsString) : JsString := if s = [] then fallback else s

/-- Lexicographic order of the code units, as `ORDER BY` compares texts of ASCII characters. -/
def le : JsString → JsString → Bool
  | [], _ => true
  | _ :: _, [] => false
  | a :: s, b :: t => if a = b then le s t else a < b

/-- A natural number in decimal, as a template literal writes it. -/
def ofNat (n : Nat) : JsString := (Nat.toDigits 10 n).flatMap utf16EncodeChar

/-- The digits can be read off. -/
theorem map_ofNat (n : Nat) : (ofNat n).map (fun u => Char.ofNat u.toNat) = Nat.toDigits 10 n := by
  rw [ofNat, List.map_flatMap]
  refine (List.flatMap_congr fun c hc => ?_).trans (List.flatMap_singleton' _)
  have hdigit := Nat.isDigit_of_mem_toDigits (by decide) (by decide) hc
  have hsmall : c.toNat < 0x10000 :=
    Nat.lt_of_le_of_lt (Char.isDigit_iff_toNat.mp hdigit).2 (by decide)
  rw [utf16EncodeChar, if_pos hsmall, List.map_singleton, UInt16.toNat_ofNat_of_lt' hsmall,
    Char.ofNat_toNat]

theorem ofNat_injective : Function.Injective ofNat := by
  intro m n h
  have hdigits : Nat.toDigits 10 m = Nat.toDigits 10 n := by rw [← map_ofNat, h, map_ofNat]
  rw [← Nat.ofDigitChars_toDigits (n := m) (by decide) (Nat.le_refl 10), hdigits,
    Nat.ofDigitChars_toDigits (by decide) (Nat.le_refl 10)]

end JsString
