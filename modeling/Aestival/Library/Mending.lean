import Aestival.Library.JsonText

/-!
# Writing what is not UTF-8

A writer of JSON that does not fail mends the strings of a value first (`dumpReplace`). The octets
of a string are read by the automaton of UTF-8: a character that has been read stays as it is, and
one that breaks off becomes U+FFFD, as does an octet that cannot begin any.

What has been mended is UTF-8 (`validUtf8_mend`), and what was UTF-8 is not changed
(`mend_eq_self`, `mend_of_canonical`).
-/

namespace Bytes

open Utf8State

/-- The octets of U+FFFD. -/
def replacementOctets : Bytes := [0xEF, 0xBF, 0xBD]

/-- What becomes of a character that breaks off. -/
def mendBroken (q : Utf8State) : Bytes := if q = .start then [] else replacementOctets

/-- The octets of the character that is being read, with one more. -/
def withOctet : Utf8State → Bytes → UInt8 → Bytes
  | .start, _, b => [b]
  | .tail .., seen, b => seen ++ [b]

/-- The octets of a character that has been read. -/
def keptOctets : Utf8State → Bytes → Bytes
  | .start, seen => seen
  | .tail .., _ => []

/-- Mend a string from the state `q` on, with the octets of a character that were seen. -/
def mendFrom : Utf8State → Bytes → Bytes → Bytes
  | q, _, [] => mendBroken q
  | q, seen, b :: s =>
    match q.step b with
    | some q' => keptOctets q' (withOctet q seen b) ++ mendFrom q' (withOctet q seen b) s
    | none =>
      -- the octet is not part of the character that was begun, and is looked at again
      mendBroken q ++
        match first b with
        | some q' => keptOctets q' [b] ++ mendFrom q' [b] s
        | none => replacementOctets ++ mendFrom .start [] s

/-- The string with U+FFFD in the place of what is not UTF-8. -/
def mend (s : Bytes) : Bytes := mendFrom .start [] s

example : mend [0x61, 0xE4, 0xBD, 0x62] = [0x61, 0xEF, 0xBF, 0xBD, 0x62] := by decide

/-- A character that is being read is finished with the octets kept of it. -/
theorem validUtf8_keptOctets {q : Utf8State} {seen : Bytes} (h : run .start seen = some q) :
    validUtf8 (keptOctets q seen) = true := by
  cases q with
  | start => exact validUtf8_iff.mpr h
  | tail => rfl

theorem validUtf8_mendBroken (q : Utf8State) : validUtf8 (mendBroken q) = true := by
  unfold mendBroken
  split <;> rfl

/-- The automaton has read the octets that were seen. -/
theorem run_withOctet {q q' : Utf8State} {seen : Bytes} {b : UInt8} (h : run .start seen = some q)
    (hstep : q.step b = some q') : run .start (withOctet q seen b) = some q' := by
  cases q with
  | start => exact run_cons.mpr ⟨q', hstep, rfl⟩
  | tail =>
    rw [withOctet, run_append, h]
    exact run_cons.mpr ⟨q', hstep, rfl⟩

theorem validUtf8_mendFrom {q : Utf8State} {seen : Bytes} (h : run .start seen = some q)
    (s : Bytes) : validUtf8 (mendFrom q seen s) = true := by
  induction s generalizing q seen with
  | nil => exact validUtf8_mendBroken q
  | cons b s ih =>
    unfold mendFrom
    split
    · next q' hstep =>
      have hseen := run_withOctet h hstep
      rw [validUtf8_append (validUtf8_keptOctets hseen)]
      exact ih hseen
    · rw [validUtf8_append (validUtf8_mendBroken q)]
      split
      · next q' hfirst =>
        have hseen : run .start [b] = some q' := run_cons.mpr ⟨q', hfirst, rfl⟩
        rw [validUtf8_append (validUtf8_keptOctets hseen)]
        exact ih hseen
      · rw [validUtf8_append (by decide)]
        exact ih rfl

/-- **What has been mended is UTF-8.** -/
theorem validUtf8_mend (s : Bytes) : validUtf8 (mend s) = true := validUtf8_mendFrom rfl s

/-- The octets that are still to be written of those that were seen. -/
def heldOctets : Utf8State → Bytes → Bytes
  | .start, _ => []
  | .tail .., seen => seen

/-- Up to the end of a text, what was seen and what follows is kept. -/
theorem mendFrom_of_run {q : Utf8State} {s : Bytes} (h : run q s = some .start) (seen : Bytes) :
    mendFrom q seen s = heldOctets q seen ++ s := by
  induction s generalizing q seen with
  | nil =>
    obtain rfl := Option.some.inj h
    rfl
  | cons b s ih =>
    obtain ⟨q', hstep, hrun⟩ := run_cons.mp h
    have hseen : withOctet q seen b = heldOctets q seen ++ [b] := by
      cases q <;> rfl
    -- what has been read is written at the end of a character, or later
    have hwritten : ∀ t, keptOctets q' t ++ heldOctets q' t = t := by
      intro t
      cases q' with
      | start => exact List.append_nil t
      | tail => rfl
    rw [mendFrom, hstep]
    show keptOctets q' _ ++ mendFrom q' _ s = _
    rw [ih hrun, ← List.append_assoc, hwritten, hseen, List.append_assoc]
    rfl

/-- **What is UTF-8 is not changed.** -/
theorem mend_eq_self {s : Bytes} (h : validUtf8 s = true) : mend s = s :=
  mendFrom_of_run (validUtf8_iff.mp h) []

end Bytes

namespace Json

open Bytes

mutual

/-- The value with its strings mended, the names of its fields too. -/
def mend : Json → Json
  | .str s => .str s.mend
  | .arr l => .arr (mendElems l)
  | .obj l => .obj (mendFields l)
  | j => j

def mendElems : List Json → List Json
  | [] => []
  | j :: l => mend j :: mendElems l

def mendFields : List (Bytes × Json) → List (Bytes × Json)
  | [] => []
  | (k, j) :: l => (k.mend, mend j) :: mendFields l

end

/-- `dump(-1, ' ', false, error_handler_t::replace)`. -/
def dumpReplace (fmt : FloatText) (j : Json) : Bytes := print fmt j.mend

@[simp] theorem mend_str (s : Bytes) : mend (.str s) = .str s.mend := by rw [mend]

@[simp] theorem mend_arr (l : List Json) : mend (.arr l) = .arr (l.map mend) := by
  have helems : mendElems l = l.map mend := by
    induction l with
    | nil => rfl
    | cons j l ih => rw [mendElems, ih, List.map_cons]
  rw [mend, helems]

@[simp] theorem mend_obj (l : List (Bytes × Json)) : mend (.obj l) = .obj (mendFields l) := by
  rw [mend]

/-- A field whose name is UTF-8. -/
theorem mendFields_cons {k : Bytes} (hk : k.validUtf8 = true) (j : Json)
    (l : List (Bytes × Json)) : mendFields ((k, j) :: l) = (k, j.mend) :: mendFields l := by
  rw [mendFields, mend_eq_self hk]

theorem canonicalElems_iff {fmt : FloatText} {l : List Json} :
    CanonicalElems fmt l ↔ ∀ j ∈ l, Canonical fmt j := by
  induction l with
  | nil => simp [CanonicalElems]
  | cons j l ih => rw [CanonicalElems, ih, List.forall_mem_cons]

mutual

/-- A canonical value is not changed. -/
theorem mend_of_canonical {fmt : FloatText} : (j : Json) → Canonical fmt j → j.mend = j
  | .null, _ => rfl
  | .bool _, _ => rfl
  | .int _, _ => rfl
  | .float _, _ => rfl
  | .str s, h => by rw [mend, mend_eq_self h]
  | .arr l, h => by rw [mend, mendElems_of_canonical l h]
  | .obj l, h => by rw [mend, mendFields_of_canonical l h.1]

theorem mendElems_of_canonical {fmt : FloatText} :
    (l : List Json) → CanonicalElems fmt l → mendElems l = l
  | [], _ => rfl
  | j :: l, h => by rw [mendElems, mend_of_canonical j h.1, mendElems_of_canonical l h.2]

theorem mendFields_of_canonical {fmt : FloatText} :
    (l : List (Bytes × Json)) → CanonicalFields fmt l → mendFields l = l
  | [], _ => rfl
  | (k, j) :: l, h => by
    rw [mendFields, mend_eq_self h.1, mend_of_canonical j h.2.1, mendFields_of_canonical l h.2.2]

end

/-- What is written of a value that is canonical but for its strings is read as the mended value. -/
theorem parse_dumpReplace {fmt : FloatText} {j : Json} (h : Canonical fmt j.mend) :
    parse fmt (dumpReplace fmt j) = some j.mend := parse_print h

end Json
