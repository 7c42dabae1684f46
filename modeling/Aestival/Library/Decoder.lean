import Aestival.Library.JsString
import Aestival.Library.Utf8
import Mathlib.Algebra.GroupWithZero.Nat

/-!
# Decoding UTF-8

A decoder of octets into code units (`decode`) that never fails: what is not UTF-8 becomes
replacement characters, one for each octet that cannot begin a character and one for each character
that breaks off (`flush`).

A text is decoded character by character (`decode_append`), and a line feed ends whatever was begun
(`decode_lineFeed`). So lines can be decoded one by one (`splitOn_decode`), but a text must not be
cut inside a character: both parts of it are replaced (`decode_continues`, `decode_partial`).
-/

namespace Bytes

open Utf8State

/-! ### Code units -/

/-- The bits of the first octet of a character. -/
def payload (b : UInt8) : Nat :=
  if b < 0x80 then b.toNat else if b < 0xE0 then b.toNat - 0xC0
  else if b < 0xF0 then b.toNat - 0xE0 else b.toNat - 0xF0

/-- The code point of a character, or what its first octets say of it. -/
def scalar : Bytes → Nat
  | [] => 0
  | b :: t => t.foldl (fun n x => n * 64 + (x.toNat - 0x80)) (payload b)

/-- The code units of a code point. -/
def codeUnits (n : Nat) : JsString :=
  if n < 0x10000 then [.ofNat n]
  else [.ofNat (0xD800 + (n - 0x10000) / 0x400), .ofNat (0xDC00 + (n - 0x10000) % 0x400)]

/-- U+FFFD. -/
def replacement : UInt16 := 0xFFFD

/-- Only the line feed is decoded to a line feed. -/
theorem lineFeed_notMem_codeUnits {n : Nat} (hn : n ≤ 2097152) (hne : n ≠ 10) :
    10 ∉ codeUnits n := by
  have hofNat : ∀ m, m < 65536 → m ≠ 10 → (10 : UInt16) ≠ .ofNat m := by
    intro m hm hm10 heq
    have htoNat := congrArg UInt16.toNat heq
    rw [UInt16.toNat_ofNat_of_lt' hm] at htoNat
    exact hm10 htoNat.symm
  unfold codeUnits
  split
  · next hsmall => simpa using hofNat n hsmall hne
  · have hhigh := hofNat (0xD800 + (n - 0x10000) / 0x400) (by omega) (by omega)
    have hlow := hofNat (0xDC00 + (n - 0x10000) % 0x400) (by omega) (by omega)
    intro hmem
    rcases List.mem_cons.mp hmem with heq | heq
    · exact hhigh heq
    · exact hlow (List.mem_singleton.mp heq)

/-- A code point is at most one replacement character. -/
theorem count_replacement_codeUnits {n : Nat} (hn : n ≤ 2097152) :
    (codeUnits n).count replacement ≤ 1 := by
  have hofNat : ∀ m, m < 65533 → UInt16.ofNat m ≠ replacement := by
    intro m hm heq
    have htoNat := congrArg UInt16.toNat heq
    rw [UInt16.toNat_ofNat_of_lt' (Nat.lt_of_lt_of_le hm (by decide))] at htoNat
    exact absurd hm (by rw [htoNat]; decide)
  unfold codeUnits
  split
  · exact List.count_le_length
  · have hhigh := hofNat (0xD800 + (n - 0x10000) / 0x400) (by omega)
    have hlow := hofNat (0xDC00 + (n - 0x10000) % 0x400) (by omega)
    -- neither half of a pair is the replacement character
    rw [List.count_eq_zero_of_not_mem]
    · exact Nat.zero_le 1
    · intro hmem
      rcases List.mem_cons.mp hmem with heq | heq
      · exact hhigh heq.symm
      · exact hlow (List.mem_singleton.mp heq).symm

/-! ### The decoder -/

/-- What becomes of a character that breaks off. -/
def flush (q : Utf8State) : JsString := if q = .start then [] else [replacement]

/-- The octets of the character that is being read. -/
def gather : Utf8State → Bytes → UInt8 → Bytes
  | .start, _, b => [b]
  | .tail .., seen, b => seen ++ [b]

/-- The code units of a character that has been read. -/
def emit : Utf8State → Bytes → JsString
  | .start, seen => codeUnits (scalar seen)
  | .tail .., _ => []

/-- The decoder in the state `q`, with the octets of a character that it has seen. -/
def decodeFrom : Utf8State → Bytes → Bytes → JsString
  | q, _, [] => flush q
  | q, seen, b :: s =>
    match q.step b with
    | some q' => emit q' (gather q seen b) ++ decodeFrom q' (gather q seen b) s
    | none =>
      -- the octet is not part of the character that was begun, and may begin another
      flush q ++
        match first b with
        | some q' => emit q' [b] ++ decodeFrom q' [b] s
        | none => replacement :: decodeFrom .start [] s

/-- The code units of a text. -/
def decode (s : Bytes) : JsString := decodeFrom .start [] s

example : decode [0x61, 0xE4, 0xBD, 0xA0] = [0x61, 0x4F60] := by decide
example : decode [0x61, 0xE4, 0xBD] = [0x61, 0xFFFD] := by decide
example : decode [0xA0, 0x61] = [0xFFFD, 0x61] := by decide

/-- Between characters nothing was seen. -/
theorem decodeFrom_start (seen s : Bytes) : decodeFrom .start seen s = decode s := by
  cases s <;> rfl

theorem decodeFrom_of_step {q q' : Utf8State} {b : UInt8} (h : q.step b = some q')
    (seen s : Bytes) : decodeFrom q seen (b :: s) =
      emit q' (gather q seen b) ++ decodeFrom q' (gather q seen b) s := by
  rw [decodeFrom, h]

theorem decodeFrom_of_not_step {q : Utf8State} {b : UInt8} (h : q.step b = none)
    (seen s : Bytes) : decodeFrom q seen (b :: s) = flush q ++
      match first b with
      | some q' => emit q' [b] ++ decodeFrom q' [b] s
      | none => replacement :: decode s := by
  rw [decodeFrom, h]
  rfl

/-- Inside a character nothing is emitted. -/
theorem emit_of_ne {q : Utf8State} (h : q ≠ .start) (seen : Bytes) : emit q seen = [] := by
  cases q with
  | start => exact absurd rfl h
  | tail => rfl

/-! ### Characters -/

/-- The rest of a character ends it. -/
theorem decodeFrom_tail {q : Utf8State} {t : Bytes} (hne : t ≠ [])
    (hlength : q.missing = t.length) (hrun : run q t = some .start) (seen s : Bytes) :
    decodeFrom q seen (t ++ s) = codeUnits (scalar (seen ++ t)) ++ decode s := by
  induction t generalizing q seen with
  | nil => exact absurd rfl hne
  | cons x t ih =>
    cases q with
    | start => exact nomatch hlength
    | tail more lo hi =>
      obtain ⟨q', hstep, hrun⟩ := run_cons.mp hrun
      -- as many octets are left as the state asks for
      have hmore : q'.missing = t.length := (step_tail hstep).2.2.trans (Nat.succ.inj hlength)
      rw [List.cons_append, decodeFrom_of_step hstep]
      cases t with
      -- the last octet gives the code point
      | nil =>
        obtain rfl : q' = .start := missing_eq_zero.mp hmore
        rw [decodeFrom_start]
        rfl
      -- before it nothing is written
      | cons y t =>
        have hq' : q' ≠ .start :=
          ne_start_of_lt_missing (Nat.lt_of_lt_of_eq (Nat.succ_pos t.length) hmore.symm)
        have hrest := ih (List.cons_ne_nil y t) hmore hrun (seen ++ [x])
        rw [emit_of_ne hq', List.nil_append]
        rw [List.append_assoc] at hrest
        exact hrest

/-- **A character is decoded by itself.** -/
theorem decode_char {c : Bytes} (hc : IsChar c) (s : Bytes) :
    decode (c ++ s) = codeUnits (scalar c) ++ decode s := by
  obtain ⟨b, t, rfl, htrail, -, hvalid⟩ := hc
  obtain ⟨q, hstep, hrun⟩ := run_cons.mp (validUtf8_iff.mp hvalid)
  have hmissing := missing_of_first hstep htrail
  rw [decode, List.cons_append, decodeFrom_of_step hstep]
  cases t with
  | nil =>
    obtain rfl := missing_eq_zero.mp hmissing
    rw [decodeFrom_start]
    rfl
  | cons y t =>
    have hq : q ≠ .start :=
      ne_start_of_lt_missing (Nat.lt_of_lt_of_eq (Nat.succ_pos t.length) hmissing.symm)
    rw [emit_of_ne hq]
    exact decodeFrom_tail (List.cons_ne_nil y t) hmissing hrun [b] s

/-- **A text is decoded by itself.** -/
theorem decode_append {p : Bytes} (hp : validUtf8 p = true) (s : Bytes) :
    decode (p ++ s) = decode p ++ decode s := by
  induction p, hp using validUtf8_induction with
  | nil => rfl
  | append c rest hc hrest ih =>
    rw [List.append_assoc, decode_char hc, decode_char hc, ih, List.append_assoc]

/-- An octet from the inside of a character is replaced. -/
theorem decode_continues {x : UInt8} (hx : Continues x) (s : Bytes) :
    decode (x :: s) = replacement :: decode s := by
  have hfirst : first x = none := by
    have hascii : ¬ x < 0x80 := UInt8.not_lt.mpr hx.1
    have hlow : x < 0xC2 := UInt8.lt_of_le_of_lt hx.2 (by decide)
    rw [first, if_neg hascii, if_pos hlow]
  have hstep : step .start x = none := hfirst
  rw [decode, decodeFrom_of_not_step hstep, hfirst]
  rfl

/-- What was read of a character that breaks off is replaced. -/
theorem decodeFrom_inside {q q' : Utf8State} {s : Bytes} (hrun : run q s = some q')
    (hshort : s.length < q.missing) (seen : Bytes) : decodeFrom q seen s = [replacement] := by
  induction s generalizing q seen with
  | nil => exact if_neg (ne_start_of_lt_missing hshort)
  | cons x s ih =>
    obtain ⟨q₁, hstep, hrest⟩ := run_cons.mp hrun
    cases q with
    | start => exact absurd rfl (ne_start_of_lt_missing hshort)
    | tail more lo hi =>
      have hlt : s.length < q₁.missing := by
        rw [(step_tail hstep).2.2]
        exact Nat.lt_of_succ_lt_succ hshort
      rw [decodeFrom_of_step hstep, emit_of_ne (ne_start_of_lt_missing hlt)]
      exact ih hrest hlt _

/-- **A part of a character is replaced.** -/
theorem decode_partial {r : Bytes} {q : Utf8State} (hr : IsPartial r)
    (hrun : run .start r = some q) : decode r = [replacement] := by
  obtain ⟨b, t, k, rfl, htrail, hshort, -⟩ := hr
  obtain ⟨q₁, hstep, hrun⟩ := run_cons.mp hrun
  rw [← missing_of_first hstep htrail] at hshort
  rw [decode, decodeFrom_of_step hstep, emit_of_ne (ne_start_of_lt_missing hshort)]
  exact decodeFrom_inside hrun hshort _

/-! ### Code points -/

/-- The code point of one more octet. -/
theorem scalar_concat {seen : Bytes} (h : seen ≠ []) (x : UInt8) :
    scalar (seen ++ [x]) = scalar seen * 64 + (x.toNat - 0x80) := by
  cases seen with
  | nil => exact absurd rfl h
  | cons b t => simp [scalar, List.foldl_append]

/-- What is known of a character that was begun: bounds for its code point. -/
def Begun : Utf8State → Bytes → Prop
  | .start, _ => True
  | .tail more lo hi, seen =>
    seen ≠ [] ∧ (0x80 ≤ lo ∧ hi ≤ 0xBF) ∧ (scalar seen + 1) * 64 ^ (more + 1) ≤ 2097152 ∧
      2 ≤ scalar seen * 64 + (lo.toNat - 0x80) ∧ (more = 0 → 2 ≤ scalar seen)

theorem begun_first {b : UInt8} {q : Utf8State} (h : first b = some q) : Begun q [b] := by
  have htail : ∀ more lo hi, 0x80 ≤ lo → hi ≤ 0xBF →
      (payload b + 1) * 64 ^ (more + 1) ≤ 2097152 → 2 ≤ payload b * 64 + (lo.toNat - 0x80) →
      (more = 0 → 2 ≤ payload b) → some (tail more lo hi) = some q → Begun q [b] := by
    intro more lo hi hlow hhigh hle hge hlast heq
    obtain rfl := Option.some.inj heq
    exact ⟨List.cons_ne_nil b [], ⟨hlow, hhigh⟩, hle, hge, hlast⟩
  have hlo : (0xA0 : UInt8).toNat = 160 ∧ (0x90 : UInt8).toNat = 144 := ⟨rfl, rfl⟩
  unfold first at h
  unfold payload at htail
  simp only [UInt8.lt_iff_toNat_lt, ← UInt8.toNat_inj] at h htail
  simp only [UInt8.reduceToNat] at h htail
  split at h
  · cases h
    trivial
  split at h
  · cases h
  -- the first octets of two, three and four octets
  iterate 7
    split at h
    · refine htail _ _ _ (by decide) (by decide) ?_ ?_ ?_ h <;> repeat' split
      all_goals omega
  exact nomatch h

theorem begun_step {more : Nat} {lo hi x : UInt8} {q' : Utf8State} {seen : Bytes}
    (hseen : Begun (tail more lo hi) seen) (h : step (tail more lo hi) x = some q') :
    Begun q' (seen ++ [x]) ∧
      (q' = .start → 128 ≤ scalar (seen ++ [x]) ∧ scalar (seen ++ [x]) ≤ 2097152) := by
  obtain ⟨hne, ⟨hlow, hhigh⟩, hle, hge, hlast⟩ := hseen
  obtain ⟨⟨hlo, hhi⟩, -, -⟩ := step_tail h
  -- a continuation adds six bits
  have hx : lo.toNat ≤ x.toNat ∧ x.toNat ≤ 191 :=
    ⟨UInt8.le_iff_toNat_le.mp hlo, UInt8.le_iff_toNat_le.mp (UInt8.le_trans hhi hhigh)⟩
  have hscalar := scalar_concat hne x
  cases more with
  -- the sequence ends with it
  | zero =>
    rw [step, if_pos ⟨hlo, hhi⟩] at h
    obtain rfl := Option.some.inj h
    have htwo := hlast rfl
    exact ⟨trivial, fun _ => by omega⟩
  | succ n =>
    rw [step, if_pos ⟨hlo, hhi⟩] at h
    obtain rfl := Option.some.inj h
    refine ⟨⟨List.concat_ne_nil x seen, ⟨by decide, by decide⟩, ?_, ?_, fun _ => ?_⟩, nofun⟩
    -- the bound is as many places higher
    · calc (scalar (seen ++ [x]) + 1) * 64 ^ (n + 1)
          ≤ ((scalar seen + 1) * 64) * 64 ^ (n + 1) := Nat.mul_le_mul_right _ (by omega)
        _ = (scalar seen + 1) * 64 ^ (n + 1 + 1) := by rw [Nat.mul_assoc, ← Nat.pow_succ']
        _ ≤ 2097152 := hle
    · omega
    · omega

/-- The rest of a character keeps its code point small. -/
theorem scalar_le_of_begun {q : Utf8State} {seen t : Bytes} (hseen : Begun q seen)
    (hne : q ≠ .start) (hrun : run q t = some .start) (hlength : q.missing = t.length) :
    scalar (seen ++ t) ≤ 2097152 := by
  induction t generalizing q seen with
  | nil => exact absurd (missing_eq_zero.mp hlength) hne
  | cons x t ih =>
    cases q with
    | start => exact absurd rfl hne
    | tail more lo hi =>
      obtain ⟨q', hstep, hrun⟩ := run_cons.mp hrun
      -- every octet keeps the bound
      obtain ⟨hbegun, hends⟩ := begun_step hseen hstep
      have hmissing : q'.missing = t.length := (step_tail hstep).2.2.trans (Nat.succ.inj hlength)
      rw [List.append_cons]
      by_cases hq' : q' = .start
      -- none is left when the sequence has ended
      · have hnil : t = [] := by
          rw [missing_eq_zero.mpr hq'] at hmissing
          exact List.eq_nil_of_length_eq_zero hmissing.symm
        rw [hnil, List.append_nil]
        exact (hends hq').2
      · exact ih hbegun hq' hrun hmissing

theorem scalar_le_of_isChar {c : Bytes} (hc : IsChar c) : scalar c ≤ 2097152 := by
  obtain ⟨b, t, rfl, htrail, -, hvalid⟩ := hc
  obtain ⟨q, hstep, hrun⟩ := run_cons.mp (validUtf8_iff.mp hvalid)
  have hmissing := missing_of_first hstep htrail
  by_cases hq : q = .start
  · have hnil : t = [] := by
      rw [missing_eq_zero.mpr hq] at hmissing
      exact List.eq_nil_of_length_eq_zero hmissing.symm
    have hpayload : payload b ≤ b.toNat := by
      unfold payload
      repeat' split
      all_goals omega
    rw [hnil]
    exact hpayload.trans (Nat.le_trans b.toNat_lt.le (by decide))
  · exact scalar_le_of_begun (begun_first hstep) hq hrun hmissing

/-! ### Line feeds -/

/-- What is emitted is no line feed. -/
theorem lineFeed_notMem_emit {q q' : Utf8State} {seen : Bytes} {b : UInt8} (hseen : Begun q seen)
    (h : step q b = some q') (hb : b ≠ 10) :
    Begun q' (gather q seen b) ∧ 10 ∉ emit q' (gather q seen b) := by
  cases q with
  | start =>
    refine ⟨begun_first h, ?_⟩
    cases q' with
    | start =>
      -- a character of one octet is its own code point
      have hascii : b < 0x80 := by
        by_contra hnot
        have htrail := (narrow_first h).2
        unfold trailLength at htrail
        rw [if_neg hnot] at htrail
        repeat' split at htrail
        all_goals exact nomatch htrail
      have hpayload : scalar [b] = b.toNat := if_pos hascii
      rw [emit, gather, hpayload]
      have hlt := b.toNat_lt
      refine lineFeed_notMem_codeUnits (by omega) fun heq => hb ?_
      exact UInt8.toNat_inj.mp heq
    | tail => exact List.not_mem_nil
  | tail more lo hi =>
    obtain ⟨hbegun, hends⟩ := begun_step hseen h
    refine ⟨hbegun, ?_⟩
    cases q' with
    | start =>
      obtain ⟨hge, hle⟩ := hends rfl
      change 10 ∉ codeUnits (scalar (seen ++ [b]))
      exact lineFeed_notMem_codeUnits hle (by omega)
    | tail => exact List.not_mem_nil

theorem lineFeed_notMem_flush (q : Utf8State) : 10 ∉ flush q := by
  rw [flush]
  split
  · exact List.not_mem_nil
  · decide

/-- A line feed is decoded only from a line feed. -/
theorem lineFeed_notMem_decodeFrom {q : Utf8State} {seen s : Bytes} (hseen : Begun q seen)
    (hs : 10 ∉ s) : 10 ∉ decodeFrom q seen s := by
  induction s generalizing q seen with
  | nil => exact lineFeed_notMem_flush q
  | cons b s ih =>
    obtain ⟨hb, hrest⟩ := not_or.mp (List.mem_cons.not.mp hs)
    cases hstep : step q b with
    -- the octet goes on with the sequence
    | some q' =>
      obtain ⟨hbegun, hemit⟩ := lineFeed_notMem_emit hseen hstep (Ne.symm hb)
      rw [decodeFrom_of_step hstep, List.mem_append, not_or]
      exact ⟨hemit, ih hbegun hrest⟩
    -- it does not: a replacement character, and the octet is read again from the start
    | none =>
      rw [decodeFrom_of_not_step hstep, List.mem_append, not_or]
      refine ⟨lineFeed_notMem_flush q, ?_⟩
      -- where it may still be ill-formed
      cases hfirst : first b with
      | some q' =>
        have hstart : Begun .start [] := trivial
        obtain ⟨hbegun, hemit⟩ := lineFeed_notMem_emit hstart hfirst (Ne.symm hb)
        dsimp only
        rw [List.mem_append, not_or]
        exact ⟨hemit, ih hbegun hrest⟩
      | none =>
        dsimp only
        rw [List.mem_cons, not_or]
        exact ⟨by decide, ih trivial hrest⟩

theorem lineFeed_notMem_decode {s : Bytes} (hs : 10 ∉ s) : 10 ∉ decode s :=
  lineFeed_notMem_decodeFrom trivial hs

/-- A line feed ends what was begun. -/
theorem decodeFrom_lineFeed {q : Utf8State} (hq : q.Narrow) (seen u v : Bytes) :
    decodeFrom q seen (u ++ 10 :: v) = decodeFrom q seen u ++ 10 :: decode v := by
  induction u generalizing q seen with
  | nil =>
    have hfirst : first 10 = some .start := rfl
    cases q with
    | start =>
      have hstep : step .start 10 = some .start := hfirst
      rw [List.nil_append, decodeFrom_of_step hstep, decodeFrom_start]
      rfl
    | tail more lo hi =>
      -- the character that was begun breaks off
      have hstep : step (tail more lo hi) 10 = none := by
        refine if_neg fun h => ?_
        exact absurd (UInt8.le_trans hq.1 h.1) (by decide)
      rw [List.nil_append, decodeFrom_of_not_step hstep, hfirst]
      dsimp only
      rw [decodeFrom_start]
      rfl
  | cons b u ih =>
    rw [List.cons_append]
    cases hstep : step q b with
    | some q' =>
      rw [decodeFrom_of_step hstep, decodeFrom_of_step hstep, ih (narrow_step hstep),
        List.append_assoc]
    | none =>
      rw [decodeFrom_of_not_step hstep, decodeFrom_of_not_step hstep, List.append_assoc]
      cases hfirst : first b with
      | some q' =>
        dsimp only
        rw [ih (narrow_first hfirst).1, List.append_assoc]
      | none =>
        have hstart : (start : Utf8State).Narrow := trivial
        dsimp only
        rw [decode, ih hstart]
        rfl

/-- **Lines are decoded one by one.** -/
theorem decode_lineFeed (u v : Bytes) : decode (u ++ 10 :: v) = decode u ++ 10 :: decode v :=
  decodeFrom_lineFeed (q := .start) trivial [] u v

/-- The cases of a text of lines: the last line, a line and the lines behind it. -/
@[elab_as_elim]
theorem lines_induction {P : Bytes → Prop} (last : ∀ u, 10 ∉ u → P u)
    (line : ∀ u v, 10 ∉ u → P v → P (u ++ 10 :: v)) (s : Bytes) : P s := by
  induction hn : s.length using Nat.strong_induction_on generalizing s with
  | _ n ih =>
    -- cut at the first line feed
    by_cases hs : 10 ∈ s
    · obtain ⟨u, v, rfl, hu⟩ := List.eq_append_cons_of_mem hs
      refine line u v hu (ih v.length ?_ v rfl)
      rw [← hn, List.length_append, List.length_cons]
      omega
    · exact last s hs

theorem splitOn_decode (s : Bytes) : (decode s).splitOn 10 = (s.splitOn 10).map decode := by
  induction s using lines_induction with
  | last u hu =>
    rw [List.splitOn_eq_singleton hu, List.splitOn_eq_singleton (lineFeed_notMem_decode hu)]
    rfl
  | line u v hu ih =>
    rw [decode_lineFeed, List.splitOn_append_cons_self_of_not_mem hu,
      List.splitOn_append_cons_self_of_not_mem (lineFeed_notMem_decode hu), ih]
    rfl

end Bytes
