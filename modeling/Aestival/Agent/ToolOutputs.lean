import Aestival.Agent.McpClient
import Aestival.Library.Utf8

/-!
# Where the output of a tool is cut

`truncate_utf8` should cut an output between two characters. At the end of a line it does. Elsewhere
it walks back over the octets that continue a character, and stops behind the first octet it finds
that does not: if this is the first octet of a longer character, the output ends with it alone, even
when the whole character was within the limit. So the cut is good only where it falls behind an
octet of ASCII (`truncated_iff`).
-/

namespace Aestival

open Bytes McpClient

/-- What should hold of the text `t` that an output is shown as: it is the output, or a shorter text
that the output begins with, within the limit, with dots. -/
def Truncated (s : Bytes) (maxLen : Nat) (t : Bytes) : Prop :=
  if s.length ≤ maxLen then t = s
  else ∃ p, p <+: s ∧ p ≠ s ∧ validUtf8 p = true ∧ p.length ≤ maxLen ∧
    (t = p ++ utf8 "..." ∨ t = p ++ utf8 "\n...")

/-! ### The two cuts -/

/-- There is a line end in the second half of what may stay. -/
def LineEndInSecondHalf (s : Bytes) (maxLen : Nat) : Prop :=
  ∃ pos, maxLen / 2 < pos ∧ pos < maxLen ∧ s[pos]? = some 10

/-- A list up to its last element without a property. -/
theorem exists_of_dropWhile_reverse {α : Type} {p : α → Bool} {l : List α} {a : α} {t : List α}
    (h : l.reverse.dropWhile p = a :: t) :
    ∃ back, l = t.reverse ++ a :: back ∧ p a = false ∧ ∀ b ∈ back, p b = true := by
  refine ⟨(l.reverse.takeWhile p).reverse, ?_, ?_, fun b hb => ?_⟩
  · have hl := congrArg List.reverse (List.takeWhile_append_dropWhile (p := p) (l := l.reverse))
    rw [h, List.reverse_append, List.reverse_cons, List.reverse_reverse, List.append_assoc] at hl
    exact hl.symm
  · have hhead := List.head?_dropWhile_not p l.reverse
    rw [h] at hhead
    simpa using hhead
  · exact List.mem_takeWhile_imp (List.mem_reverse.mp hb)

/-- The text before the last line end of what may stay, read backwards. -/
def beforeLastLine (s : Bytes) (maxLen : Nat) : Bytes :=
  ((s.take maxLen).reverse.dropWhile (· ≠ 10)).drop 1

/-- What may stay, without the octets at its end that continue a character, read backwards. -/
def untilFirstOctet (s : Bytes) (maxLen : Nat) : Bytes :=
  (s.take maxLen).reverse.dropWhile fun c => 0x80 ≤ c && c < 0xC0

theorem truncateUtf8_eq {s : Bytes} {maxLen : Nat} (h : ¬ s.length ≤ maxLen) :
    truncateUtf8 s maxLen =
      if (beforeLastLine s maxLen).length > maxLen / 2 then
        (beforeLastLine s maxLen).reverse ++ utf8 "\n..."
      else (untilFirstOctet s maxLen).reverse ++ utf8 "..." :=
  if_neg h

section Cuts

variable {s : Bytes} {maxLen : Nat}

/-- There is no line end in what may stay, or the text before the last one is followed by it. -/
theorem beforeLastLine_cases (s : Bytes) (maxLen : Nat) :
    (beforeLastLine s maxLen = [] ∧ (10 : UInt8) ∉ s.take maxLen) ∨
      ∃ back, s.take maxLen = (beforeLastLine s maxLen).reverse ++ 10 :: back ∧
        ∀ b ∈ back, b ≠ 10 := by
  unfold beforeLastLine
  cases hrev : (s.take maxLen).reverse.dropWhile (· ≠ 10) with
  | nil =>
    rw [List.dropWhile_eq_nil_iff] at hrev
    exact .inl ⟨rfl, fun hmem => of_decide_eq_true (hrev 10 (List.mem_reverse.mpr hmem)) rfl⟩
  | cons a t =>
    obtain ⟨back, heq, ha, hback⟩ := exists_of_dropWhile_reverse hrev
    obtain rfl : a = 10 := by simpa using ha
    exact .inr ⟨back, heq, fun b hb => of_decide_eq_true (hback b hb)⟩

theorem lineEndInSecondHalf_iff :
    maxLen / 2 < (beforeLastLine s maxLen).length ↔ LineEndInSecondHalf s maxLen := by
  rcases beforeLastLine_cases s maxLen with ⟨hnil, hnone⟩ | ⟨back, heq, hback⟩
  · rw [hnil]
    refine iff_of_false (Nat.not_lt_zero _) ?_
    rintro ⟨pos, -, hlt, hpos⟩
    rw [← List.getElem?_take_of_lt hlt] at hpos
    exact hnone (List.mem_of_getElem? hpos)
  · have hlength := congrArg List.length heq
    rw [List.length_append, List.length_cons, List.length_reverse] at hlength
    have hle := List.length_take_le maxLen s
    constructor
    · intro hhalf
      refine ⟨(beforeLastLine s maxLen).length, hhalf, by omega, ?_⟩
      rw [← List.getElem?_take_of_lt (show (beforeLastLine s maxLen).length < maxLen by omega), heq,
        List.getElem?_append_right (by simp)]
      simp
    · rintro ⟨pos, hhalf, hlt, hpos⟩
      -- no line end comes behind the last one
      refine hhalf.trans_le (Nat.le_of_not_lt fun hbehind => ?_)
      rw [← List.getElem?_take_of_lt hlt, heq, List.getElem?_append_right (by simp; omega)] at hpos
      have hoff : pos - (beforeLastLine s maxLen).reverse.length ≠ 0 := by
        rw [List.length_reverse]
        omega
      obtain ⟨k, hk⟩ := Nat.exists_eq_succ_of_ne_zero hoff
      rw [hk, List.getElem?_cons_succ] at hpos
      exact hback 10 (List.mem_of_getElem? hpos) rfl

/-- The text before a line end is a text. -/
theorem truncated_of_lineEnd (hvalid : validUtf8 s = true) (hlong : ¬ s.length ≤ maxLen)
    (h : maxLen / 2 < (beforeLastLine s maxLen).length) :
    Truncated s maxLen (truncateUtf8 s maxLen) := by
  rw [Truncated, if_neg hlong, truncateUtf8_eq hlong, if_pos h]
  rcases beforeLastLine_cases s maxLen with ⟨hnil, -⟩ | ⟨back, heq, -⟩
  · rw [hnil] at h
    exact absurd h (Nat.not_lt_zero _)
  have hs : s = (beforeLastLine s maxLen).reverse ++ 10 :: (back ++ s.drop maxLen) := by
    calc s = s.take maxLen ++ s.drop maxLen := (List.take_append_drop maxLen s).symm
      _ = (beforeLastLine s maxLen).reverse ++ 10 :: (back ++ s.drop maxLen) := by
        rw [heq, List.append_assoc, List.cons_append]
  have hlength := congrArg List.length heq
  rw [List.length_append, List.length_cons] at hlength
  have hle := List.length_take_le maxLen s
  have hfits : (beforeLastLine s maxLen).reverse.length ≤ maxLen := by omega
  refine ⟨_, ⟨_, hs.symm⟩, fun hall => hlong (hall ▸ hfits), ?_, hfits, .inr rfl⟩
  exact (validUtf8_of_append_ascii (hs ▸ hvalid) (by decide)).1

/-! ### The cut behind an octet -/

/-- The last octet of what may stay is ASCII. -/
def EndsInAscii (s : Bytes) (maxLen : Nat) : Prop := ∃ b, s[maxLen - 1]? = some b ∧ b < 0x80

theorem truncated_of_endsInAscii (hvalid : validUtf8 s = true) (hpos : 1 ≤ maxLen)
    (hlong : ¬ s.length ≤ maxLen) (hshort : ¬ maxLen / 2 < (beforeLastLine s maxLen).length)
    (h : EndsInAscii s maxLen) : Truncated s maxLen (truncateUtf8 s maxLen) := by
  obtain ⟨b, hb, hascii⟩ := h
  obtain ⟨n, rfl⟩ := Nat.exists_eq_add_of_le' hpos
  have htake : s.take (n + 1) = s.take n ++ [b] := by
    rw [List.take_add_one]
    exact congrArg (s.take n ++ Option.toList ·) hb
  have hs : s = s.take n ++ b :: s.drop (n + 1) := by
    calc s = s.take (n + 1) ++ s.drop (n + 1) := (List.take_append_drop (n + 1) s).symm
      _ = s.take n ++ b :: s.drop (n + 1) := by rw [htake, List.append_assoc]; rfl
  -- nothing is walked over
  have hcut : (untilFirstOctet s (n + 1)).reverse = s.take (n + 1) := by
    have hstay : ¬ (0x80 ≤ b && b < 0xC0) = true := by
      rw [Bool.and_eq_true, decide_eq_true_eq]
      exact fun hcont => absurd hcont.1 (UInt8.not_le.mpr hascii)
    rw [untilFirstOctet, htake, List.reverse_append, List.reverse_singleton, List.singleton_append,
      List.dropWhile_cons, if_neg hstay, List.reverse_cons, List.reverse_reverse]
  have hfits : (s.take (n + 1)).length ≤ n + 1 := List.length_take_le _ _
  rw [Truncated, if_neg hlong, truncateUtf8_eq hlong, if_neg hshort, hcut]
  refine ⟨_, List.take_prefix _ _, fun hall => hlong (hall ▸ hfits), ?_, hfits, .inl rfl⟩
  rw [htake]
  exact (validUtf8_of_append_ascii (hs ▸ hvalid) hascii).2

/-- No character begins with an octet that continues one. -/
theorem first_eq_none {b : UInt8} (h : 0x80 ≤ b) (h' : b < 0xC0) : Utf8State.first b = none := by
  rw [Utf8State.first, if_neg (UInt8.not_lt.mpr h),
    if_pos (UInt8.lt_trans h' (by decide))]

/-- Behind whole characters comes no octet that continues one. -/
theorem not_continues_of_valid {p t : Bytes} {b : UInt8} (hp : validUtf8 p = true)
    (h : validUtf8 (p ++ b :: t) = true) : ¬ (0x80 ≤ b ∧ b < 0xC0) := by
  rintro ⟨hlo, hhi⟩
  rw [validUtf8_append hp] at h
  obtain ⟨q, q', -, hrun, hstep, -⟩ := exists_step_of_validUtf8 (p := []) h
  obtain rfl := Option.some.inj hrun
  rw [Utf8State.step, first_eq_none hlo hhi] at hstep
  exact nomatch hstep

/-- What stands in front of the dots. -/
theorem eq_or_eq_of_dots {x p : Bytes}
    (h : x ++ utf8 "..." = p ++ utf8 "..." ∨ x ++ utf8 "..." = p ++ utf8 "\n...") :
    x = p ∨ x = p ++ [10] := by
  refine h.imp (fun heq => List.append_cancel_right heq) fun heq => ?_
  have hdots : utf8 "\n..." = [10] ++ utf8 "..." := by decide
  rw [hdots, ← List.append_assoc] at heq
  exact List.append_cancel_right heq

/-- What is shown of an output is a text with dots, only if the last octet is ASCII. -/
theorem endsInAscii_of_truncated (hvalid : validUtf8 s = true) (hpos : 1 ≤ maxLen)
    (hlong : ¬ s.length ≤ maxLen) (hshort : ¬ maxLen / 2 < (beforeLastLine s maxLen).length)
    (h : Truncated s maxLen (truncateUtf8 s maxLen)) : EndsInAscii s maxLen := by
  rw [Truncated, if_neg hlong, truncateUtf8_eq hlong, if_neg hshort] at h
  obtain ⟨p, -, -, hp, -, htext⟩ := h
  -- the text in front of the dots is a text, up to a line end
  have htext' := eq_or_eq_of_dots htext
  have hsplit : s = s.take maxLen ++ s.drop maxLen := (List.take_append_drop maxLen s).symm
  unfold untilFirstOctet at htext'
  cases hrev : (s.take maxLen).reverse.dropWhile fun c => 0x80 ≤ c && c < 0xC0 with
  | nil =>
    -- the first octet of the output continues no character
    cases s with
    | nil => exact absurd (Nat.zero_le maxLen) hlong
    | cons b s =>
      rw [List.dropWhile_eq_nil_iff] at hrev
      obtain ⟨n, rfl⟩ := Nat.exists_eq_add_of_le' hpos
      have hb := hrev b (by simp)
      rw [Bool.and_eq_true, decide_eq_true_eq, decide_eq_true_eq] at hb
      exact absurd hb (not_continues_of_valid (p := []) rfl hvalid)
  | cons a t =>
    obtain ⟨back, heq, ha, hback⟩ := exists_of_dropWhile_reverse hrev
    rw [hrev, List.reverse_cons] at htext'
    rw [heq, List.append_assoc, List.cons_append] at hsplit
    rw [hsplit] at hvalid
    by_cases hascii : a < 0x80
    · -- then nothing was walked over
      have hfront := (validUtf8_of_append_ascii hvalid hascii).2
      cases back with
      | nil =>
        have hlength := congrArg List.length heq
        rw [List.length_take, List.length_append, List.length_singleton] at hlength
        refine ⟨a, ?_, hascii⟩
        rw [← List.getElem?_take_of_lt (show maxLen - 1 < maxLen by omega), heq,
          show maxLen - 1 = t.reverse.length by omega, List.getElem?_concat_length]
      | cons x back =>
        have hx := hback x List.mem_cons_self
        rw [Bool.and_eq_true, decide_eq_true_eq, decide_eq_true_eq] at hx
        refine absurd hx (not_continues_of_valid (t := back ++ s.drop maxLen) hfront ?_)
        rwa [List.append_assoc]
    · have hlead : 0xC0 ≤ a := by
        rw [Bool.and_eq_false_iff, decide_eq_false_iff_not, decide_eq_false_iff_not] at ha
        exact UInt8.not_lt.mp (ha.resolve_left fun hlt => hlt (UInt8.not_lt.mp hascii))
      rcases htext' with rfl | heq'
      · exact absurd hp (not_validUtf8_append_lead hvalid hlead)
      · -- a line end is no first octet
        obtain ⟨-, ha10⟩ := List.append_inj' heq' rfl
        obtain rfl := (List.cons.inj ha10).1
        exact absurd hlead (by decide)

/-- **An output is cut between characters exactly when it is short, or has a line end in the second
half of what may stay, or the last octet that may stay is ASCII.** -/
theorem truncated_iff (hvalid : validUtf8 s = true) (hpos : 1 ≤ maxLen) :
    Truncated s maxLen (truncateUtf8 s maxLen) ↔
      s.length ≤ maxLen ∨ LineEndInSecondHalf s maxLen ∨ EndsInAscii s maxLen := by
  by_cases hlong : s.length ≤ maxLen
  · refine iff_of_true ?_ (.inl hlong)
    rw [Truncated, if_pos hlong, truncateUtf8, if_pos hlong]
  · rw [← lineEndInSecondHalf_iff, or_iff_right hlong]
    by_cases hline : maxLen / 2 < (beforeLastLine s maxLen).length
    · exact iff_of_true (truncated_of_lineEnd hvalid hlong hline) (.inl hline)
    · rw [or_iff_right hline]
      exact ⟨endsInAscii_of_truncated hvalid hpos hlong hline,
        truncated_of_endsInAscii hvalid hpos hlong hline⟩

theorem truncated_ascii : Truncated (utf8 "hello") 3 (truncateUtf8 (utf8 "hello") 3) :=
  (truncated_iff (by decide) (by decide)).mpr (.inr (.inr ⟨108, rfl, by decide⟩))

/-- **A character is cut in two** although all of it may stay. -/
theorem whole_character_cut :
    ¬ ∀ (s : Bytes) (maxLen : Nat), validUtf8 s = true → 1 ≤ maxLen →
      Truncated s maxLen (truncateUtf8 s maxLen) := by
  intro hall
  -- two characters of three octets, of which the first may stay
  have h := hall (utf8 "你好") 3 (by decide) (by decide)
  have hcut : truncateUtf8 (utf8 "你好") 3 = [0xE4] ++ utf8 "..." := by decide
  rw [Truncated, if_neg (by decide), hcut] at h
  obtain ⟨p, -, -, hp, -, htext⟩ := h
  rcases eq_or_eq_of_dots htext with rfl | heq
  · exact absurd hp (by decide)
  · have hlast := congrArg List.getLast? heq
    rw [List.getLast?_concat] at hlast
    exact absurd hlast (by decide)

end Cuts

end Aestival
