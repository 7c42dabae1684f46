import Aestival.Library.Bytes
import Mathlib.Data.List.DropRight

/-!
# Base64

The encoding of octets in groups of four digits of six bits (`encode`), a last group that is not
full being filled up with `=`, and a decoder that gives three octets for every group, with zero bits
for each `=` (`decodeBlock`). So an encoded text comes back with as many zero octets as it was
filled up with (`decodeBlock_encode`).

The alphabet for URLs has `-` and `_` for `+` and `/` and leaves the `=` away (`encodeUrl`);
`pad_encodeUrl` gives the encoded text back.
-/

namespace Base64

/-! ### Digits -/

/-- The digit of a value below 64. -/
def digit (n : Nat) : UInt8 :=
  if n < 26 then .ofNat (n + 65)
  else if n < 52 then .ofNat (n + 71)
  else if n < 62 then .ofNat (n - 4)
  else if n = 62 then 43
  else 47

/-- The value of a digit, and zero for `=`. -/
def value (c : UInt8) : Option Nat :=
  if 65 ≤ c ∧ c ≤ 90 then some (c.toNat - 65)
  else if 97 ≤ c ∧ c ≤ 122 then some (c.toNat - 71)
  else if 48 ≤ c ∧ c ≤ 57 then some (c.toNat + 4)
  else if c = 43 then some 62
  else if c = 47 then some 63
  else if c = 61 then some 0
  else none

/-- The character of the alphabet for URLs. -/
def toUrl (c : UInt8) : UInt8 := if c = 43 then 45 else if c = 47 then 95 else c

/-- And the other way. -/
def fromUrl (c : UInt8) : UInt8 := if c = 45 then 43 else if c = 95 then 47 else c

theorem value_digit : ∀ {n : Nat}, n < 64 → value (digit n) = some n := by
  decide

@[simp] theorem value_padding : value 61 = some 0 := by decide

/-- What no digit is, and what no digit becomes. -/
theorem digit_spec : ∀ {n : Nat}, n < 64 →
    digit n ≠ 61 ∧ toUrl (digit n) ≠ 46 ∧ fromUrl (toUrl (digit n)) = digit n := by
  decide

/-! ### Encoding and decoding -/

/-- Base64, with padding. -/
def encode : Bytes → Bytes
  | a :: b :: c :: s =>
    digit (a.toNat / 4) :: digit (a.toNat % 4 * 16 + b.toNat / 16) ::
      digit (b.toNat % 16 * 4 + c.toNat / 64) :: digit (c.toNat % 64) :: encode s
  | [a, b] =>
    [digit (a.toNat / 4), digit (a.toNat % 4 * 16 + b.toNat / 16), digit (b.toNat % 16 * 4), 61]
  | [a] => [digit (a.toNat / 4), digit (a.toNat % 4 * 16), 61, 61]
  | [] => []

/-- The three octets of four digits. -/
def octets (v w x y : Nat) : Bytes :=
  [.ofNat (v * 4 + w / 16), .ofNat (w % 16 * 16 + x / 4), .ofNat (x % 4 * 64 + y)]

/-- The octets of whole groups. -/
def decodeBlock : Bytes → Option Bytes
  | a :: b :: c :: d :: s => do
    let v ← value a
    let w ← value b
    let x ← value c
    let y ← value d
    let rest ← decodeBlock s
    return octets v w x y ++ rest
  | [] => some []
  | _ => none

/-- By how much the last group is filled up. -/
def padding (s : Bytes) : Nat := (3 - s.length % 3) % 3

/-- The digits of an octet and of its neighbours hold it. -/
theorem octets_split (a b c : UInt8) :
    octets (a.toNat / 4) (a.toNat % 4 * 16 + b.toNat / 16) (b.toNat % 16 * 4 + c.toNat / 64)
      (c.toNat % 64) = [a, b, c] := by
  have ha : a.toNat / 4 * 4 + (a.toNat % 4 * 16 + b.toNat / 16) / 16 = a.toNat := by
    have hb := b.toNat_lt
    omega
  have hb : (a.toNat % 4 * 16 + b.toNat / 16) % 16 * 16 + (b.toNat % 16 * 4 + c.toNat / 64) / 4 =
      b.toNat := by
    have hb := b.toNat_lt
    have hc := c.toNat_lt
    omega
  have hc : (b.toNat % 16 * 4 + c.toNat / 64) % 4 * 64 + c.toNat % 64 = c.toNat := by
    have hc := c.toNat_lt
    omega
  rw [octets, ha, hb, hc, UInt8.ofNat_toNat, UInt8.ofNat_toNat, UInt8.ofNat_toNat]

/-- An encoded text is decoded with the zeros it was filled up with. -/
theorem decodeBlock_encode (s : Bytes) :
    decodeBlock (encode s) = some (s ++ List.replicate (padding s) 0) := by
  fun_induction encode s with
  | case1 a b c s ih =>
    have ha := a.toNat_lt
    have hb := b.toNat_lt
    have hc := c.toNat_lt
    have hpad : padding (a :: b :: c :: s) = padding s := by
      simp only [padding, List.length_cons]
      omega
    rw [decodeBlock, value_digit (by omega), value_digit (by omega), value_digit (by omega),
      value_digit (by omega), ih, hpad]
    simp [octets_split]
  | case2 a b =>
    have ha := a.toNat_lt
    have hb := b.toNat_lt
    -- the missing octet counts as zero
    have hsplit := octets_split a b 0
    simp only [UInt8.toNat_zero, Nat.zero_div, Nat.add_zero, Nat.zero_mod] at hsplit
    rw [decodeBlock, value_digit (by omega), value_digit (by omega), value_digit (by omega)]
    simpa [decodeBlock, padding] using hsplit
  | case3 a =>
    have ha := a.toNat_lt
    -- the two missing octets count as zeros
    have hsplit := octets_split a 0 0
    simp only [UInt8.toNat_zero, Nat.zero_div, Nat.add_zero, Nat.zero_mod, Nat.zero_mul] at hsplit
    rw [decodeBlock, value_digit (by omega), value_digit (by omega)]
    simpa [decodeBlock, padding] using hsplit
  | case4 => rfl

/-- Groups of four for groups of three. -/
theorem length_encode (s : Bytes) : (encode s).length = (s.length + 2) / 3 * 4 := by
  fun_induction encode s with
  | case1 a b c s ih =>
    simp only [List.length_cons, ih]
    omega
  | case2 a b => simp
  | case3 a => simp
  | case4 => rfl

/-! ### The alphabet for URLs -/

/-- Without the `=` at the end. -/
def unpad (s : Bytes) : Bytes := s.rdropWhile (· = 61)

/-- Base64 for URLs. -/
def encodeUrl (s : Bytes) : Bytes := (unpad (encode s)).map toUrl

/-- Filled up to whole groups. -/
def pad (s : Bytes) : Bytes := s ++ List.replicate ((4 - s.length % 4) % 4) 61

/-- An encoded text is digits, and then the `=` it is filled up with. -/
theorem encode_eq_digits (s : Bytes) : ∃ vs : List Nat, (∀ n ∈ vs, n < 64) ∧
    encode s = vs.map digit ++ List.replicate (padding s) 61 := by
  fun_induction encode s with
  -- three octets give four digits and no padding
  | case1 a b c s ih =>
    obtain ⟨vs, hvs, henc⟩ := ih
    have ha := a.toNat_lt
    have hb := b.toNat_lt
    have hc := c.toNat_lt
    have hpad : padding (a :: b :: c :: s) = padding s := by
      simp only [padding, List.length_cons]
      omega
    refine ⟨a.toNat / 4 :: (a.toNat % 4 * 16 + b.toNat / 16) :: (b.toNat % 16 * 4 + c.toNat / 64) ::
      c.toNat % 64 :: vs, ?_, ?_⟩
    · simp only [List.forall_mem_cons]
      exact ⟨by omega, by omega, by omega, by omega, hvs⟩
    · rw [henc, hpad]
      rfl
  -- two octets at the end give three
  | case2 a b =>
    have ha := a.toNat_lt
    have hb := b.toNat_lt
    refine ⟨[a.toNat / 4, a.toNat % 4 * 16 + b.toNat / 16, b.toNat % 16 * 4], ?_, rfl⟩
    simp only [List.forall_mem_cons]
    exact ⟨by omega, by omega, by omega, fun n hn => absurd hn List.not_mem_nil⟩
  -- and one gives two
  | case3 a =>
    have ha := a.toNat_lt
    refine ⟨[a.toNat / 4, a.toNat % 4 * 16], ?_, rfl⟩
    simp only [List.forall_mem_cons]
    exact ⟨by omega, by omega, fun n hn => absurd hn List.not_mem_nil⟩
  | case4 => exact ⟨[], fun n hn => absurd hn List.not_mem_nil, rfl⟩

theorem rdropWhile_replicate {c : UInt8} {s : Bytes} (h : c ∉ s) (k : Nat) :
    (s ++ List.replicate k c).rdropWhile (· = c) = s := by
  rw [List.rdropWhile, List.reverse_append, List.reverse_replicate,
    List.dropWhile_append_of_pos fun b hb => decide_eq_true (List.eq_of_mem_replicate hb)]
  -- the last octet of `s` is none of those that are dropped
  have hrev : s.reverse.dropWhile (· = c) = s.reverse := by
    rw [List.dropWhile_eq_self_iff]
    intro hlen
    refine fun heq => h ?_
    have hmem : s.reverse[0] ∈ s.reverse := List.getElem_mem hlen
    rw [← of_decide_eq_true heq]
    exact List.mem_reverse.mp hmem
  -- so nothing of `s` is dropped
  rw [hrev, List.reverse_reverse]

/-- Without padding only digits are left. -/
theorem unpad_encode (s : Bytes) : ∃ vs : List Nat, (∀ n ∈ vs, n < 64) ∧
    unpad (encode s) = vs.map digit ∧ encode s = vs.map digit ++ List.replicate (padding s) 61 := by
  obtain ⟨vs, hvs, henc⟩ := encode_eq_digits s
  have hnot : (61 : UInt8) ∉ vs.map digit := by
    intro h
    obtain ⟨n, hn, heq⟩ := List.mem_map.mp h
    exact (digit_spec (hvs n hn)).1 heq
  refine ⟨vs, hvs, ?_, henc⟩
  rw [henc, unpad, rdropWhile_replicate hnot]

/-- In the alphabet for URLs and back. -/
theorem pad_encodeUrl (s : Bytes) : pad ((encodeUrl s).map fromUrl) = encode s := by
  obtain ⟨vs, hvs, hdigits, henc⟩ := unpad_encode s
  have hback : ((vs.map digit).map toUrl).map fromUrl = vs.map digit := by
    simp only [List.map_map]
    exact List.map_congr_left fun n hn => (digit_spec (hvs n hn)).2.2
  have hlen := length_encode s
  rw [henc, List.length_append, List.length_map, List.length_replicate] at hlen
  -- the number of digits tells how many were left away
  have hfill : (4 - vs.length % 4) % 4 = padding s := by
    simp only [padding] at hlen ⊢
    omega
  calc pad ((encodeUrl s).map fromUrl)
    _ = pad (vs.map digit) := by rw [encodeUrl, hdigits, hback]
    _ = vs.map digit ++ List.replicate (padding s) 61 := by rw [pad, List.length_map, hfill]
    _ = encode s := henc.symm

/-- No dot is in a text in the alphabet for URLs. -/
theorem dot_notMem_encodeUrl (s : Bytes) : (46 : UInt8) ∉ encodeUrl s := by
  obtain ⟨vs, hvs, hdigits, -⟩ := unpad_encode s
  rw [encodeUrl, hdigits]
  intro h
  simp only [List.map_map, List.mem_map, Function.comp_apply] at h
  obtain ⟨n, hn, heq⟩ := h
  exact (digit_spec (hvs n hn)).2.1 heq

/-- Whole groups are not filled up. -/
theorem padding_eq_zero_iff {s : Bytes} : padding s = 0 ↔ 3 ∣ s.length := by
  unfold padding
  omega

end Base64
