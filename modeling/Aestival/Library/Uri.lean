import Aestival.Library.Bytes
import Aestival.Library.JsString

/-!
# Percent encoding

`encodeURIComponent` and `decodeURIComponent` of JavaScript. Both throw on some texts, which is
`none` here: a surrogate without its partner cannot be encoded, and what is decoded must be the
UTF-8 of a text.
-/

namespace JsString

/-- The value of a hexadecimal digit. -/
def hexValue (c : UInt16) : Option Nat :=
  if 0x30 ≤ c ∧ c ≤ 0x39 then some (c.toNat - 0x30)
  else if 0x41 ≤ c ∧ c ≤ 0x46 then some (c.toNat - 0x41 + 10)
  else if 0x61 ≤ c ∧ c ≤ 0x66 then some (c.toNat - 0x61 + 10)
  else none

/-- A hexadecimal digit, in upper case. -/
def hexDigit (n : Nat) : UInt16 := .ofNat (if n < 10 then 0x30 + n else 0x41 + (n - 10))

/-- The code units of a code point. -/
def utf16Encode (n : Nat) : JsString :=
  if n < 0x10000 then [.ofNat n]
  else [.ofNat (0xD800 + (n - 0x10000) / 0x400), .ofNat (0xDC00 + (n - 0x10000) % 0x400)]

/-! ### Decoding -/

/-- The text with its escapes read: code units that stand for themselves, and octets. -/
def unescape : JsString → Option (List (UInt16 ⊕ UInt8))
  | [] => some []
  | c :: rest =>
    if c = 0x25 then
      match rest with
      | a :: b :: rest =>
        match hexValue a, hexValue b, unescape rest with
        | some high, some low, some units => some (.inr (.ofNat (16 * high + low)) :: units)
        | _, _, _ => none
      | _ => none
    else (unescape rest).map (.inl c :: ·)

/-- How many octets follow the first one. -/
def octetsBehind (b : UInt8) : Option Nat :=
  if b < 0x80 then some 0
  else if b < 0xC0 then none
  else if b < 0xE0 then some 1
  else if b < 0xF0 then some 2
  else if b < 0xF8 then some 3
  else none

/-- The code point of well-formed octets. -/
def codePointOf : Bytes → Nat
  | [] => 0
  | b :: rest =>
    let lead := match rest.length with
      | 0 => b.toNat
      | 1 => b.toNat % 32
      | 2 => b.toNat % 16
      | _ => b.toNat % 8
    rest.foldl (fun n b => 64 * n + b.toNat % 64) lead

/-- The units, with the octets put together. `behind` octets of a character are still missing, those
before them are `octets`. -/
def assemble (octets : Bytes) (behind : Nat) : List (UInt16 ⊕ UInt8) → Option JsString
  | [] => if behind = 0 then some [] else none
  -- a plain character may not stand within a sequence
  | .inl c :: rest => if behind = 0 then (assemble [] 0 rest).map (c :: ·) else none
  | .inr b :: rest =>
    match behind with
    | 0 =>
      match octetsBehind b with
      | none => none
      -- an octet of its own
      | some 0 => (assemble [] 0 rest).map (utf16Encode b.toNat ++ ·)
      | some behind => assemble [b] behind rest
    -- the last octet of a sequence, which must be valid as a whole
    | 1 =>
      let octets := octets ++ [b]
      if Bytes.validUtf8 octets then
        (assemble [] 0 rest).map (utf16Encode (codePointOf octets) ++ ·)
      else none
    | behind + 1 => assemble (octets ++ [b]) behind rest

/-- `decodeURIComponent`. -/
def decodeURIComponent (s : JsString) : Option JsString := (unescape s).bind (assemble [] 0)

/-! ### Encoding -/

/-- The characters that are not escaped. -/
def isUnreserved (c : UInt16) : Bool :=
  (0x30 ≤ c && c ≤ 0x39) || (0x41 ≤ c && c ≤ 0x5A) || (0x61 ≤ c && c ≤ 0x7A) || c ∈ js "-_.!~*'()"

/-- The code points of a text, if every surrogate has its partner. -/
def codePoints : JsString → Option (List Nat)
  | [] => some []
  | c :: rest =>
    if 0xD800 ≤ c ∧ c ≤ 0xDBFF then
      match rest with
      | d :: rest =>
        if 0xDC00 ≤ d ∧ d ≤ 0xDFFF then
          (codePoints rest).map
            ((0x10000 + (c.toNat - 0xD800) * 0x400 + (d.toNat - 0xDC00)) :: ·)
        else none
      | [] => none
    -- a lone surrogate throws
    else if 0xDC00 ≤ c ∧ c ≤ 0xDFFF then none
    else (codePoints rest).map (c.toNat :: ·)

/-- The octets of a code point. -/
def utf8Octets (n : Nat) : List Nat :=
  if n < 0x80 then [n]
  else if n < 0x800 then [0xC0 + n / 64, 0x80 + n % 64]
  else if n < 0x10000 then [0xE0 + n / 4096, 0x80 + n / 64 % 64, 0x80 + n % 64]
  else [0xF0 + n / 262144, 0x80 + n / 4096 % 64, 0x80 + n / 64 % 64, 0x80 + n % 64]

/-- A code point, escaped where it must be. -/
def encodeCodePoint (n : Nat) : JsString :=
  if n < 0x80 ∧ isUnreserved (.ofNat n) then [.ofNat n]
  else (utf8Octets n).flatMap fun b => [0x25, hexDigit (b / 16), hexDigit (b % 16)]

/-- `encodeURIComponent`. -/
def encodeURIComponent (s : JsString) : Option JsString :=
  (codePoints s).map (·.flatMap encodeCodePoint)

/-- The text in UTF-8. -/
def toUtf8 (s : JsString) : Option Bytes :=
  (codePoints s).map fun points => (points.flatMap utf8Octets).map .ofNat

/-! ### Paths of a URL -/

/-- The parts of a path without `.` and `..`; those before are in `before`, the last one first. -/
def resolveDots (before : List JsString) : List JsString → List JsString
  | [] => before.reverse
  | segment :: rest =>
    let last := if rest = [] then [[]] else []
    if segment = js "." then resolveDots (last ++ before) rest
    else if segment = js ".." then resolveDots (last ++ before.tail) rest
    else resolveDots (segment :: before) rest

/-- The path that is requested for a URL with this path. -/
def requestedPath (path : JsString) : JsString :=
  0x2F :: [0x2F].intercalate (resolveDots [] (path.splitOn 0x2F).tail)

/-! ### Texts of ASCII characters -/

/-- The octets of a text of ASCII characters. -/
def ascii (s : JsString) : Bytes := s.map fun c => .ofNat c.toNat

theorem codePoints_of_ascii {s : JsString} (h : ∀ c ∈ s, c.toNat < 0x80) :
    codePoints s = some (s.map (·.toNat)) := by
  induction s with
  | nil => rfl
  | cons c s ih =>
    have hc : c.toNat < 0x80 := h c List.mem_cons_self
    -- an ASCII character is no half of a pair
    have hhigh : ¬ (0xD800 ≤ c ∧ c ≤ 0xDBFF) := by
      rintro ⟨hle, -⟩
      have hle : 0xD800 ≤ c.toNat := UInt16.le_iff_toNat_le.mp hle
      omega
    have hlow : ¬ (0xDC00 ≤ c ∧ c ≤ 0xDFFF) := by
      rintro ⟨hle, -⟩
      have hle : 0xDC00 ≤ c.toNat := UInt16.le_iff_toNat_le.mp hle
      omega
    rw [codePoints.eq_def]
    dsimp only
    rw [if_neg hhigh, if_neg hlow, ih fun d hd => h d (List.mem_cons_of_mem c hd)]
    rfl

theorem toUtf8_of_ascii {s : JsString} (h : ∀ c ∈ s, c.toNat < 0x80) :
    toUtf8 s = some (ascii s) := by
  have hone : ∀ c ∈ s, utf8Octets c.toNat = [c.toNat] := fun c hc => if_pos (h c hc)
  have hoctets : (s.map (·.toNat)).flatMap utf8Octets = s.map (·.toNat) := by
    calc (s.map (·.toNat)).flatMap utf8Octets
      _ = s.flatMap fun c => utf8Octets c.toNat := List.flatMap_map ..
      _ = s.flatMap fun c => [c.toNat] := List.flatMap_congr hone
      _ = s.map (·.toNat) := List.map_eq_flatMap.symm
  rw [toUtf8, codePoints_of_ascii h, Option.map_some, hoctets, List.map_map]
  rfl

/-- A literal is looked through character by character. -/
theorem forall_of_all {s : JsString} {P : UInt16 → Prop} [DecidablePred P]
    (h : (s.all fun c => decide (P c)) = true) : ∀ c ∈ s, P c := fun c hc =>
  of_decide_eq_true (List.all_eq_true.mp h c hc)

/-! ### What is escaped -/

theorem isUnreserved_spec {c : UInt16} (h : isUnreserved c = true) :
    c.toNat < 0x80 ∧ c ≠ 0x2F ∧ c ≠ 0x25 := by
  have hmarks : ∀ d ∈ js "-_.!~*'()", d.toNat < 0x80 ∧ d ≠ 0x2F ∧ d ≠ 0x25 :=
    forall_of_all (by decide)
  simp only [isUnreserved, Bool.or_eq_true, Bool.and_eq_true, decide_eq_true_eq,
    UInt16.le_iff_toNat_le] at h
  -- the three ranges lie between the digits and the end of ASCII; the slash and the percent sign
  -- lie before them
  have hrange : ∀ lo hi : Nat, lo ≤ c.toNat → c.toNat ≤ hi → hi < 0x80 → 0x30 ≤ lo →
      c.toNat < 0x80 ∧ c ≠ 0x2F ∧ c ≠ 0x25 := by
    intro lo hi hlo hhi h80 h30
    refine ⟨by omega, ?_, ?_⟩
    · rintro rfl
      exact absurd (Nat.le_trans h30 hlo) (by decide)
    · rintro rfl
      exact absurd (Nat.le_trans h30 hlo) (by decide)
  rcases h with ((h | h) | h) | h
  · exact hrange _ _ h.1 h.2 (by decide) (by decide)
  · exact hrange _ _ h.1 h.2 (by decide) (by decide)
  · exact hrange _ _ h.1 h.2 (by decide) (by decide)
  · exact hmarks c h

/-- A text without characters to escape stays as it is. -/
theorem encodeURIComponent_of_unreserved {s : JsString} (h : ∀ c ∈ s, isUnreserved c = true) :
    encodeURIComponent s = some s := by
  have hascii : ∀ c ∈ s, c.toNat < 0x80 := fun c hc => (isUnreserved_spec (h c hc)).1
  have hone : ∀ c ∈ s, encodeCodePoint c.toNat = [c] := by
    intro c hc
    have hback : UInt16.ofNat c.toNat = c := UInt16.ofNat_toNat
    rw [encodeCodePoint, hback, if_pos ⟨hascii c hc, h c hc⟩]
  have hsame : (s.map (·.toNat)).flatMap encodeCodePoint = s := by
    calc (s.map (·.toNat)).flatMap encodeCodePoint
      _ = s.flatMap fun c => encodeCodePoint c.toNat := List.flatMap_map ..
      _ = s.flatMap fun c => [c] := List.flatMap_congr hone
      _ = s := List.flatMap_singleton' s
  rw [encodeURIComponent, codePoints_of_ascii hascii, Option.map_some, hsame]

/-- A text that has code points: a pair of surrogates or a single code unit at a time. -/
theorem codePoints_induction {P : JsString → List Nat → Prop} (nil : P [] [])
    (pair : ∀ c d rest points, 0xD800 ≤ c ∧ c ≤ 0xDBFF → 0xDC00 ≤ d ∧ d ≤ 0xDFFF → P rest points →
      P (c :: d :: rest)
        ((0x10000 + (c.toNat - 0xD800) * 0x400 + (d.toNat - 0xDC00)) :: points))
    (unit : ∀ c rest points, P rest points → P (c :: rest) (c.toNat :: points))
    {s : JsString} {points : List Nat} (h : codePoints s = some points) : P s points := by
  -- the cases of `codePoints`; those that throw have no code points
  induction s using codePoints.induct generalizing points with
  | case1 =>
    cases h
    exact nil
  | case2 c hc d rest hd ih =>
    rw [codePoints.eq_def] at h
    dsimp only at h
    rw [if_pos hc, if_pos hd, Option.map_eq_some_iff] at h
    obtain ⟨points, hpoints, rfl⟩ := h
    exact pair c d rest points hc hd (ih hpoints)
  | case3 c hc d rest hd =>
    rw [codePoints.eq_def] at h
    dsimp only at h
    rw [if_pos hc, if_neg hd] at h
    cases h
  | case4 c hc =>
    rw [codePoints.eq_def] at h
    dsimp only at h
    rw [if_pos hc] at h
    cases h
  | case5 c rest hc hc' =>
    rw [codePoints.eq_def] at h
    dsimp only at h
    rw [if_neg hc, if_pos hc'] at h
    cases h
  | case6 c rest hc hc' ih =>
    rw [codePoints.eq_def] at h
    dsimp only at h
    rw [if_neg hc, if_neg hc', Option.map_eq_some_iff] at h
    obtain ⟨points, hpoints, rfl⟩ := h
    exact unit c rest points (ih hpoints)

/-- The code points of a text are those of Unicode. -/
theorem codePoints_lt {s : JsString} {points : List Nat} (h : codePoints s = some points) :
    ∀ p ∈ points, p < 0x110000 := by
  refine codePoints_induction (P := fun _ points => ∀ p ∈ points, p < 0x110000) ?_ ?_ ?_ h
  · exact fun p hp => absurd hp List.not_mem_nil
  -- a pair reaches to the end of the code points
  · intro c d rest points hc hd ih p hp
    rcases List.mem_cons.mp hp with hp | hp
    · have hhigh : c.toNat ≤ 0xDBFF := UInt16.le_iff_toNat_le.mp hc.2
      have hlow : d.toNat ≤ 0xDFFF := UInt16.le_iff_toNat_le.mp hd.2
      omega
    · exact ih p hp
  · intro c rest points ih p hp
    rcases List.mem_cons.mp hp with hp | hp
    -- a unit of its own is smaller
    · have hlt := c.toNat_lt
      omega
    · exact ih p hp

/-- A text whose code points need no escape has no character that does. -/
theorem unreserved_of_codePoints {s : JsString} {points : List Nat} (h : codePoints s = some points)
    (hall : ∀ p ∈ points, p < 0x80 ∧ isUnreserved (.ofNat p) = true) :
    ∀ c ∈ s, isUnreserved c = true := by
  revert hall
  refine codePoints_induction (P := fun s points =>
    (∀ p ∈ points, p < 0x80 ∧ isUnreserved (.ofNat p) = true) → ∀ c ∈ s, isUnreserved c = true)
    ?_ ?_ ?_ h
  · exact fun _ c hc => absurd hc List.not_mem_nil
  · intro c d rest points hc hd ih hall
    -- a pair stands for a code point above ASCII, which is escaped
    have hlarge := (hall _ List.mem_cons_self).1
    omega
  · intro c rest points ih hall b hb
    rcases List.mem_cons.mp hb with rfl | hb
    · have hback : UInt16.ofNat b.toNat = b := UInt16.ofNat_toNat
      rw [← hback]
      exact (hall _ List.mem_cons_self).2
    · exact ih (fun p hp => hall p (List.mem_cons_of_mem _ hp)) b hb

theorem utf8Octets_lt {p : Nat} (hp : p < 0x110000) : ∀ b ∈ utf8Octets p, b < 0x100 := by
  intro b hb
  unfold utf8Octets at hb
  split at hb
  next => simp only [List.mem_singleton] at hb; omega
  split at hb
  next => simp only [List.mem_cons, List.not_mem_nil, or_false] at hb; omega
  split at hb
  next => simp only [List.mem_cons, List.not_mem_nil, or_false] at hb; omega
  next => simp only [List.mem_cons, List.not_mem_nil, or_false] at hb; omega

theorem utf8Octets_ne_nil (p : Nat) : utf8Octets p ≠ [] := by
  unfold utf8Octets
  split
  · exact List.cons_ne_nil _ _
  split
  · exact List.cons_ne_nil _ _
  split
  · exact List.cons_ne_nil _ _
  · exact List.cons_ne_nil _ _

/-- What stands for an escaped code point: three characters for each octet. -/
theorem encodeCodePoint_of_escaped {p : Nat} (h : ¬ (p < 0x80 ∧ isUnreserved (.ofNat p) = true)) :
    0x25 ∈ encodeCodePoint p ∧ (encodeCodePoint p).length = 3 * (utf8Octets p).length := by
  rw [encodeCodePoint, if_neg h]
  constructor
  · obtain ⟨b, hb⟩ := List.exists_mem_of_ne_nil _ (utf8Octets_ne_nil p)
    exact List.mem_flatMap.mpr ⟨b, hb, List.mem_cons_self⟩
  · rw [List.length_flatMap]
    show ((utf8Octets p).map fun _ => 3).sum = 3 * (utf8Octets p).length
    rw [List.map_const', List.sum_replicate_nat, Nat.mul_comm]

/-- An escaped text is one of ASCII characters, without a slash. -/
theorem encodeCodePoint_ascii {p : Nat} (hp : p < 0x110000) :
    ∀ c ∈ encodeCodePoint p, c.toNat < 0x80 ∧ c ≠ 0x2F := by
  have hdigit : ∀ n < 16, (hexDigit n).toNat < 0x80 ∧ hexDigit n ≠ 0x2F := by decide
  intro c hc
  unfold encodeCodePoint at hc
  split at hc
  next h =>
    -- a character that is not escaped
    obtain rfl := List.mem_singleton.mp hc
    exact ⟨(isUnreserved_spec h.2).1, (isUnreserved_spec h.2).2.1⟩
  next h =>
    obtain ⟨b, hb, hc⟩ := List.mem_flatMap.mp hc
    -- a percent sign and two digits
    have hlt := utf8Octets_lt hp b hb
    simp only [List.mem_cons, List.not_mem_nil, or_false] at hc
    rcases hc with rfl | rfl | rfl
    · decide
    · exact hdigit _ (by omega)
    · exact hdigit _ (by omega)

/-- A text with a character to escape becomes longer than its octets, and holds a percent sign. -/
theorem encodeURIComponent_of_escaped {s e : JsString} {octets : Bytes}
    (hs : ¬ ∀ c ∈ s, isUnreserved c = true) (he : encodeURIComponent s = some e)
    (hoctets : toUtf8 s = some octets) : octets.length < e.length ∧ 0x25 ∈ e := by
  obtain ⟨points, hpoints, rfl⟩ := Option.map_eq_some_iff.mp he
  rw [toUtf8, hpoints, Option.map_some, Option.some.injEq] at hoctets
  subst hoctets
  have hescaped : ∃ p ∈ points, ¬ (p < 0x80 ∧ isUnreserved (.ofNat p) = true) := by
    by_contra hnone
    push Not at hnone
    exact hs (unreserved_of_codePoints hpoints hnone)
  clear hs he hpoints
  -- no code point becomes shorter
  have hle : ∀ p, (utf8Octets p).length ≤ (encodeCodePoint p).length := by
    intro p
    by_cases h : p < 0x80 ∧ isUnreserved (.ofNat p) = true
    · rw [encodeCodePoint, if_pos h, utf8Octets, if_pos h.1]
      exact Nat.le_refl 1
    · have hlen := (encodeCodePoint_of_escaped h).2
      omega
  obtain ⟨p, hp, hescaped⟩ := hescaped
  obtain ⟨hpercent, hlen⟩ := encodeCodePoint_of_escaped hescaped
  refine ⟨?_, List.mem_flatMap.mpr ⟨p, hp, hpercent⟩⟩
  have hpos := List.length_pos_iff.mpr (utf8Octets_ne_nil p)
  have hmono : ∀ l : List Nat,
      (l.flatMap utf8Octets).length ≤ (l.flatMap encodeCodePoint).length := by
    intro l
    induction l with
    | nil => exact Nat.le_refl 0
    | cons q l ih =>
      have hq := hle q
      simp only [List.flatMap_cons, List.length_append]
      omega
  -- the escaped code point makes the difference
  obtain ⟨l, r, rfl⟩ := List.append_of_mem hp
  have hl := hmono l
  have hr := hmono r
  simp only [List.length_map, List.flatMap_append, List.flatMap_cons, List.length_append]
  omega

theorem encodeURIComponent_ascii {s e : JsString} (he : encodeURIComponent s = some e) :
    ∀ c ∈ e, c.toNat < 0x80 ∧ c ≠ 0x2F := by
  obtain ⟨points, hpoints, rfl⟩ := Option.map_eq_some_iff.mp he
  intro c hc
  obtain ⟨p, hp, hc⟩ := List.mem_flatMap.mp hc
  exact encodeCodePoint_ascii (codePoints_lt hpoints p hp) c hc

/-! ### Texts that are ASCII in UTF-8 -/

/-- A code point above ASCII has an octet above ASCII. -/
theorem exists_large_octet {p : Nat} (hp : 0x80 ≤ p) (hlt : p < 0x110000) :
    ∃ b ∈ utf8Octets p, 0x80 ≤ b ∧ b < 0x100 := by
  unfold utf8Octets
  rw [if_neg (Nat.not_lt.mpr hp)]
  -- the first octet, which is at least `0xC0`
  split
  · exact ⟨_, List.mem_cons_self, by omega, by omega⟩
  split
  · exact ⟨_, List.mem_cons_self, by omega, by omega⟩
  · exact ⟨_, List.mem_cons_self, by omega, by omega⟩

/-- A text whose octets are ASCII consists of ASCII characters. -/
theorem ascii_of_toUtf8 {s : JsString} {text : Bytes} (h : toUtf8 s = some text)
    (htext : ∀ b ∈ text, b.toNat < 0x80) : ∀ c ∈ s, c.toNat < 0x80 := by
  obtain ⟨points, hpoints, rfl⟩ := Option.map_eq_some_iff.mp h
  have hsmall : ∀ p ∈ points, p < 0x80 := by
    intro p hp
    by_contra hlarge
    obtain ⟨b, hb, hb80, hb256⟩ :=
      exists_large_octet (Nat.not_lt.mp hlarge) (codePoints_lt hpoints p hp)
    have hoctet := htext (.ofNat b) (List.mem_map_of_mem (List.mem_flatMap.mpr ⟨p, hp, hb⟩))
    rw [UInt8.toNat_ofNat'] at hoctet
    omega
  clear htext h
  revert hsmall
  refine codePoints_induction (P := fun s points =>
    (∀ p ∈ points, p < 0x80) → ∀ c ∈ s, c.toNat < 0x80) ?_ ?_ ?_ hpoints
  · exact fun _ c hc => absurd hc List.not_mem_nil
  · intro c d rest points _ _ _ hsmall
    -- a pair stands for a code point above ASCII
    have hpair := hsmall _ List.mem_cons_self
    omega
  · intro c rest points ih hsmall b hb
    rcases List.mem_cons.mp hb with rfl | hb
    · exact hsmall _ List.mem_cons_self
    · exact ih (fun p hp => hsmall p (List.mem_cons_of_mem _ hp)) b hb

/-! ### Paths without dots -/

theorem resolveDots_of_no_dot {segments : List JsString} (h : ∀ seg ∈ segments, 0x2E ∉ seg)
    (before : List JsString) : resolveDots before segments = before.reverse ++ segments := by
  induction segments generalizing before with
  | nil => exact (List.append_nil _).symm
  | cons seg segments ih =>
    obtain ⟨hseg, hsegments⟩ := List.forall_mem_cons.mp h
    have hdot : seg ≠ js "." := fun heq => hseg (heq ▸ (by decide))
    have hdotdot : seg ≠ js ".." := fun heq => hseg (heq ▸ (by decide))
    rw [resolveDots, if_neg hdot, if_neg hdotdot, ih hsegments, List.reverse_cons,
      List.append_assoc]
    rfl

theorem mem_of_mem_splitOn {s seg : JsString} {sep c : UInt16} (hseg : seg ∈ s.splitOn sep)
    (hc : c ∈ seg) : c ∈ s := by
  -- the segments, joined again, are the text
  have hjoined : [sep].intercalate (s.splitOn sep) = s := List.intercalate_splitOn sep
  rw [← hjoined]
  generalize s.splitOn sep = segments at hseg
  induction segments with
  | nil => exact absurd hseg List.not_mem_nil
  | cons seg' segments ih =>
    cases segments with
    | nil =>
      obtain rfl := List.mem_singleton.mp hseg
      simpa [List.intercalate] using hc
    | cons seg'' segments =>
      rw [List.intercalate_cons_cons]
      rcases List.mem_cons.mp hseg with rfl | hseg
      · exact List.mem_append_left _ (List.mem_append_left _ hc)
      · exact List.mem_append_right _ (ih hseg)

/-- A path without dots is requested as it is. -/
theorem requestedPath_of_no_dot {rest : JsString} (h : 0x2E ∉ rest) :
    requestedPath (0x2F :: rest) = 0x2F :: rest := by
  have hsplit : (0x2F :: rest : JsString).splitOn 0x2F = [] :: rest.splitOn 0x2F :=
    List.splitOn_append_cons_self [] rest
  rw [requestedPath, hsplit, List.tail_cons,
    resolveDots_of_no_dot fun seg hseg hdot => h (mem_of_mem_splitOn hseg hdot),
    List.reverse_nil, List.nil_append, List.intercalate_splitOn]

end JsString
