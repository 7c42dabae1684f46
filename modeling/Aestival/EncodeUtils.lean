import Aestival.Library.Utf8
import Mathlib.Data.List.DropRight

/-!
# Text helpers

The helpers of `encode_utils.h` that the modelled functions call.
-/

namespace Aestival

open Bytes

/-- `sanitize_utf8`: the string itself when it is UTF-8, else its well-formed characters. -/
def sanitizeUtf8 (s : Bytes) : Bytes :=
  if validUtf8 s then s else skipInvalid s.length s

theorem sanitizeUtf8_of_valid {s : Bytes} (h : validUtf8 s = true) : sanitizeUtf8 s = s :=
  if_pos h

theorem validUtf8_sanitizeUtf8 (s : Bytes) : validUtf8 (sanitizeUtf8 s) = true := by
  rw [sanitizeUtf8]
  split
  · next h => exact h
  · exact validUtf8_skipInvalid s.length s

/-- Octets are dropped, and none is added. -/
theorem sanitizeUtf8_sublist (s : Bytes) : (sanitizeUtf8 s).Sublist s := by
  rw [sanitizeUtf8]
  split
  · exact List.Sublist.refl s
  · exact skipInvalid_sublist s.length s

/-- A text that was cut loses the part of a character at its end. -/
theorem sanitizeUtf8_append {p r : Bytes} (hp : validUtf8 p = true) (hr : r = [] ∨ IsPartial r) :
    sanitizeUtf8 (p ++ r) = p := by
  rw [sanitizeUtf8, validUtf8_append hp]
  split
  · next hvalid =>
    rw [hr.resolve_right fun hcut => not_validUtf8_of_isPartial hcut hvalid]
    exact List.append_nil p
  · exact skipInvalid_append hp hr (by rw [List.length_append]; exact Nat.le_add_right _ _)

/-- `std::isspace`. -/
def isSpace (c : UInt8) : Bool := (9 ≤ c && c ≤ 13) || c = 32

/-- `trim`. -/
def trim (s : Bytes) : Bytes := (s.dropWhile isSpace).rdropWhile isSpace

/-- `to_ascii_lower`. -/
def toAsciiLower (s : Bytes) : Bytes := s.map fun c => if 65 ≤ c ∧ c ≤ 90 then c + 32 else c

end Aestival
