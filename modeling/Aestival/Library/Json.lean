import Aestival.Library.Bytes
import Mathlib.Algebra.Ring.Int.Defs
import Mathlib.Data.Rat.Init

/-!
# JSON values

The values a JSON parser builds, and the typed accessors programs read them with. An accessor fails
in two ways: the value is not an object where a field is asked for, or it has another type than the
one asked for. Numbers convert as in C++: an integer that does not fit wraps around, and of a
floating-point number the fraction is cut off. C++ leaves open what becomes of one that does not
fit; here it is the smallest number, as on x86.

Strings are octets, and only a value whose strings are UTF-8 can be written as a text. So the text
of a file or a request is either a `Document`, a value together with the proof that it can be
written, or not JSON at all; `dump` is the writer. Writing a document and parsing it again gives
the value back, which is the one fact about the concrete syntax that is used here.
-/

/-! ### Accesses one after the other -/

namespace Except

variable {ε α β : Type} {x : Except ε α} {f : α → Except ε β}

theorem bind_eq_ok_iff {b : β} : x >>= f = .ok b ↔ ∃ a, x = .ok a ∧ f a = .ok b := by
  cases x with
  | error e => exact ⟨nofun, fun ⟨_, h, _⟩ => nomatch h⟩
  | ok a => exact ⟨fun h => ⟨a, rfl, h⟩, fun ⟨_, h, hf⟩ => Except.ok.inj h ▸ hf⟩

theorem bind_eq_error_iff {e : ε} :
    x >>= f = .error e ↔ x = .error e ∨ ∃ a, x = .ok a ∧ f a = .error e := by
  cases x with
  | error e' =>
    constructor
    · exact fun h => .inl (congrArg Except.error (Except.error.inj h))
    · rintro (h | ⟨_, h, _⟩)
      · exact congrArg Except.error (Except.error.inj h)
      · exact nomatch h
  | ok a =>
    constructor
    · exact fun h => .inr ⟨a, rfl, h⟩
    · rintro (h | ⟨_, h, hf⟩)
      · exact nomatch h
      · exact Except.ok.inj h ▸ hf

end Except

/-- A JSON value. Fields are listed in the order they are visited; the first one of a name
counts. -/
inductive Json where
  | null
  | bool (b : Bool)
  | int (n : Int)
  | float (x : Rat)
  | str (s : Bytes)
  | arr (elems : List Json)
  | obj (fields : List (Bytes × Json))
  deriving Repr

namespace Json

/-! ### Access -/

/-- Why an access fails. -/
inductive AccessError where
  | notAnObject
  | wrongType
  deriving DecidableEq, Repr

def isObject : Json → Bool
  | .obj _ => true
  | _ => false

def isNumber : Json → Bool
  | .int _ => true
  | .float _ => true
  | _ => false

/-- The field `key` of an object; a value that is no object has no fields. -/
def find? : Json → Bytes → Option Json
  | .obj fields, key => fields.lookup key
  | _, _ => none

def getStr : Json → Except AccessError Bytes
  | .str s => .ok s
  | _ => .error .wrongType

def getBool : Json → Except AccessError Bool
  | .bool b => .ok b
  | _ => .error .wrongType

/-- `static_cast<int>` of a floating-point number. -/
def toInt32 (x : Rat) : Int32 :=
  let n := x.num.tdiv x.den
  if -2 ^ 31 ≤ n ∧ n < 2 ^ 31 then .ofInt n else .minValue

/-- `static_cast<int64_t>` of a floating-point number. -/
def toInt64 (x : Rat) : Int64 :=
  let n := x.num.tdiv x.den
  if -2 ^ 63 ≤ n ∧ n < 2 ^ 63 then .ofInt n else .minValue

theorem toInt32_of_fits {x : Rat} (hlow : -2 ^ 31 ≤ x.num.tdiv x.den)
    (hhigh : x.num.tdiv x.den < 2 ^ 31) : toInt32 x = .ofInt (x.num.tdiv x.den) :=
  if_pos ⟨hlow, hhigh⟩

theorem toInt64_of_fits {x : Rat} (hlow : -2 ^ 63 ≤ x.num.tdiv x.den)
    (hhigh : x.num.tdiv x.den < 2 ^ 63) : toInt64 x = .ofInt (x.num.tdiv x.den) :=
  if_pos ⟨hlow, hhigh⟩

/-- A 32-bit integer. A truth value counts as one. -/
def getInt32 : Json → Except AccessError Int32
  | .int n => .ok (.ofInt n)
  | .float x => .ok (toInt32 x)
  | .bool b => .ok (if b then 1 else 0)
  | _ => .error .wrongType

/-- A 64-bit integer. A truth value does not count as one. -/
def getInt64 : Json → Except AccessError Int64
  | .int n => .ok (.ofInt n)
  | .float x => .ok (toInt64 x)
  | _ => .error .wrongType

/-- The field `key` of an object, read with `get`, or `default` where there is none. -/
def value {α : Type} (j : Json) (get : Json → Except AccessError α) (key : Bytes) (default : α) :
    Except AccessError α :=
  match j with
  | .obj fields =>
    match fields.lookup key with
    | some v => get v
    | none => .ok default
  | _ => .error .notAnObject

/-- What is no object has no fields to read. -/
theorem value_of_not_object {α : Type} {j : Json} (h : j.isObject = false)
    (get : Json → Except AccessError α) (key : Bytes) (default : α) :
    j.value get key default = .error .notAnObject := by
  cases j with
  | obj fields => cases h
  | _ => rfl

/-- What has a field is an object. -/
theorem isObject_of_find? {j v : Json} {key : Bytes} (h : j.find? key = some v) :
    j.isObject = true := by
  cases j with
  | obj => rfl
  | _ => exact nomatch h

/-- A field that is there is what is read. -/
theorem value_of_find? {α : Type} {j v : Json} {get : Json → Except AccessError α} {key : Bytes}
    {default : α} (h : j.find? key = some v) : j.value get key default = get v := by
  cases j with
  | obj fields =>
    have hlookup : fields.lookup key = some v := h
    simp only [value, hlookup]
  | _ => exact nomatch h

/-- For a field that is not there, the default is read. -/
theorem value_of_find?_none {α : Type} {j : Json} {get : Json → Except AccessError α} {key : Bytes}
    {default : α} (hobj : j.isObject = true) (h : j.find? key = none) :
    j.value get key default = .ok default := by
  cases j with
  | obj fields =>
    have hlookup : fields.lookup key = none := h
    simp only [value, hlookup]
  | _ => exact nomatch hobj

/-! ### Strings that can be written -/

mutual

/-- Every string of the value is UTF-8. -/
def validUtf8 : Json → Bool
  | .str s => s.validUtf8
  | .arr elems => validElems elems
  | .obj fields => validFields fields
  | _ => true

def validElems : List Json → Bool
  | [] => true
  | j :: l => validUtf8 j && validElems l

def validFields : List (Bytes × Json) → Bool
  | [] => true
  | (k, j) :: l => k.validUtf8 && validUtf8 j && validFields l

end

theorem validElems_iff {l : List Json} : validElems l = true ↔ ∀ j ∈ l, validUtf8 j = true := by
  induction l with
  | nil => simp [validElems]
  | cons j l ih => simp [validElems, ih]

theorem validFields_iff {l : List (Bytes × Json)} :
    validFields l = true ↔ ∀ p ∈ l, p.1.validUtf8 = true ∧ validUtf8 p.2 = true := by
  induction l with
  | nil => simp [validFields]
  | cons p l ih =>
    obtain ⟨k, j⟩ := p
    simp only [validFields, Bool.and_eq_true, ih, List.forall_mem_cons]

theorem validFields_append {k l : List (Bytes × Json)} :
    validFields (k ++ l) = (validFields k && validFields l) := by
  induction k with
  | nil => rfl
  | cons p k ih =>
    obtain ⟨key, j⟩ := p
    rw [List.cons_append, validFields, validFields, ih, Bool.and_assoc, Bool.and_assoc,
      Bool.and_assoc]

/-- The fields of a value that can be written can be written. -/
theorem validUtf8_of_find? {j v : Json} {key : Bytes} (hj : validUtf8 j = true)
    (h : j.find? key = some v) : validUtf8 v = true := by
  cases j with
  | obj fields =>
    obtain ⟨k, l, hfields, -⟩ := List.lookup_eq_some_iff.mp h
    have hmem : (key, v) ∈ fields := hfields ▸ List.mem_append_right _ (List.mem_cons_self ..)
    exact (validFields_iff.mp hj _ hmem).2
  | _ => exact nomatch h

/-- So can a string read from a field, if the default can. -/
theorem validUtf8_of_value {j : Json} {key default s : Bytes} (hj : validUtf8 j = true)
    (hdefault : default.validUtf8 = true) (h : j.value getStr key default = .ok s) :
    s.validUtf8 = true := by
  cases j with
  | obj fields =>
    simp only [value] at h
    cases hlookup : fields.lookup key with
    | none =>
      rw [hlookup] at h
      rwa [← Except.ok.inj h]
    | some v =>
      rw [hlookup] at h
      have hv : validUtf8 v = true := validUtf8_of_find? hj hlookup
      cases v with
      | str t =>
        rw [← Except.ok.inj h]
        exact hv
      | _ => exact nomatch h
  | _ => exact nomatch h

/-! ### Texts -/

/-- A value that can be written as a text. -/
structure Document where
  json : Json
  utf8 : json.validUtf8 = true

/-- The text of a file or a request: a document, or something that is not JSON. -/
inductive Text where
  | document (d : Document)
  | malformed

/-- Write a value. The writer refuses a value with a string that is not UTF-8. -/
def dump (j : Json) : Option Document :=
  if h : j.validUtf8 = true then some ⟨j, h⟩ else none

theorem dump_of_valid {j : Json} (h : j.validUtf8 = true) : j.dump = some ⟨j, h⟩ := dif_pos h

theorem dump_of_not_valid {j : Json} (h : ¬ j.validUtf8 = true) : j.dump = none := dif_neg h

/-- The text of a value. -/
theorem json_of_dump {j : Json} {d : Document} (h : j.dump = some d) : d.json = j := by
  by_cases hj : j.validUtf8 = true
  · rw [dump_of_valid hj] at h
    rw [← Option.some.inj h]
  · rw [dump_of_not_valid hj] at h
    cases h

end Json
