import Aestival.Library.Bytes

/-!
# Characters of UTF-8 texts

A UTF-8 text is a sequence of characters (`Bytes.IsChar`), and a prefix of one is a sequence of
characters with, perhaps, the first octets of a further one behind them (`Bytes.IsPartial`). So a
text that was cut anywhere is repaired by dropping these octets, and that is what `skipInvalid`
does with it (`skipInvalid_append`).

Octets of ASCII are characters of their own (`validUtf8_of_append_ascii`), and an octet from `0xC0`
on is the first of several (`not_validUtf8_append_lead`).
-/

namespace Utf8State

open Bytes

/-! ### States -/

/-- The octets a state waits for are neither ASCII nor first octets. -/
def Narrow : Utf8State → Prop
  | start => True
  | tail _ lo hi => 0x80 ≤ lo ∧ hi ≤ 0xBF

/-- The octets that are missing. -/
def missing : Utf8State → Nat
  | start => 0
  | tail more _ _ => more + 1

theorem missing_eq_zero {q : Utf8State} : q.missing = 0 ↔ q = start := by
  cases q <;> simp [missing]

theorem ne_start_of_lt_missing {q : Utf8State} {n : Nat} (h : n < q.missing) : q ≠ start :=
  fun hq => absurd (missing_eq_zero.mpr hq) (Nat.ne_of_gt (Nat.zero_lt_of_lt h))

theorem narrow_first {b : UInt8} {q : Utf8State} (h : first b = some q) :
    q.Narrow ∧ trailLength b = some q.missing := by
  unfold first at h
  split at h
  · next hb =>
    cases h
    exact ⟨trivial, if_pos hb⟩
  · next hascii =>
    have htail : ∀ more lo hi, (tail more lo hi).Narrow → trailLength b = some (more + 1) →
        some (tail more lo hi) = some q → q.Narrow ∧ trailLength b = some q.missing := by
      rintro more lo hi hnarrow htrail heq
      obtain rfl := Option.some.inj heq
      exact ⟨hnarrow, htrail⟩
    unfold trailLength at htail ⊢
    rw [if_neg hascii] at htail ⊢
    -- the first octets of two, three and four octets
    split at h
    · cases h
    next hcont =>
    rw [if_neg hcont] at htail ⊢
    split at h
    · next htwo => exact htail _ _ _ ⟨by decide, by decide⟩ (if_pos htwo) h
    next htwo =>
    rw [if_neg htwo] at htail ⊢
    split at h
    · next hb => exact htail _ _ _ ⟨by decide, by decide⟩ (by rw [hb]; rfl) h
    split at h
    · next hb => exact htail _ _ _ ⟨by decide, by decide⟩ (by rw [hb]; rfl) h
    split at h
    · next hthree => exact htail _ _ _ ⟨by decide, by decide⟩ (if_pos hthree) h
    next hthree =>
    rw [if_neg hthree] at htail ⊢
    split at h
    · next hb => exact htail _ _ _ ⟨by decide, by decide⟩ (by rw [hb]; rfl) h
    split at h
    · next hlt => exact htail _ _ _ ⟨by decide, by decide⟩ (if_pos (UInt8.le_of_lt hlt)) h
    split at h
    · next hb => exact htail _ _ _ ⟨by decide, by decide⟩ (by rw [hb]; rfl) h
    · cases h

theorem step_tail {more : Nat} {lo hi b : UInt8} {q : Utf8State}
    (h : step (tail more lo hi) b = some q) :
    (lo ≤ b ∧ b ≤ hi) ∧ q.Narrow ∧ q.missing = more := by
  change (if lo ≤ b ∧ b ≤ hi then _ else none) = some q at h
  split at h
  · next hb =>
    cases more with
    | zero =>
      obtain rfl := Option.some.inj h
      exact ⟨hb, trivial, rfl⟩
    | succ n =>
      obtain rfl := Option.some.inj h
      exact ⟨hb, ⟨by decide, by decide⟩, rfl⟩
  · cases h

theorem narrow_step {q q' : Utf8State} {b : UInt8} (h : step q b = some q') : q'.Narrow := by
  cases q with
  | start => exact (narrow_first h).1
  | tail => exact (step_tail h).2.1

/-- The first octet of a run, and the run behind it. -/
theorem run_cons {q q' : Utf8State} {b : UInt8} {s : Bytes} :
    run q (b :: s) = some q' ↔ ∃ q₁, step q b = some q₁ ∧ run q₁ s = some q' := by
  rw [run]
  cases step q b with
  | none => simp
  | some q₁ => simp

theorem missing_of_first {b : UInt8} {q : Utf8State} {k : Nat} (h : step .start b = some q)
    (hk : Bytes.trailLength b = some k) : q.missing = k :=
  Option.some.inj ((narrow_first h).2.symm.trans hk)

theorem narrow_run {q q' : Utf8State} {s : Bytes} (hq : q.Narrow) (h : run q s = some q') :
    q'.Narrow := by
  induction s generalizing q with
  | nil =>
    obtain rfl := Option.some.inj h
    exact hq
  | cons b s ih =>
    obtain ⟨q₁, hstep, hrun⟩ := run_cons.mp h
    exact ih (narrow_step hstep) hrun

/-- An octet of ASCII comes between characters, and is one. -/
theorem step_ascii {q q' : Utf8State} {b : UInt8} (hq : q.Narrow) (hb : b < 0x80)
    (h : step q b = some q') : q = start ∧ q' = start := by
  cases q with
  | start =>
    have hfirst : first b = some start := if_pos hb
    exact ⟨rfl, (Option.some.inj (hfirst.symm.trans h)).symm⟩
  | tail more lo hi =>
    have hlo := (step_tail h).1.1
    exact absurd (UInt8.le_trans hq.1 hlo) (UInt8.not_le.mpr hb)

/-- An octet from `0xC0` on begins a character that goes on. -/
theorem step_lead {q q' : Utf8State} {b : UInt8} (hq : q.Narrow) (hb : 0xC0 ≤ b)
    (h : step q b = some q') : q' ≠ start := by
  cases q with
  | start =>
    intro hq'
    have htrail := (narrow_first h).2
    rw [missing_eq_zero.mpr hq'] at htrail
    unfold trailLength at htrail
    -- a lead octet has continuations behind it
    have hascii : ¬ b < 128 := fun hlt => absurd (UInt8.lt_of_le_of_lt hb hlt) (by decide)
    rw [if_neg hascii] at htrail
    repeat' split at htrail
    all_goals simp at htrail
  -- within a sequence only continuations are read
  | tail more lo hi =>
    have hle : (0xC0 : UInt8) ≤ 0xBF :=
      UInt8.le_trans hb (UInt8.le_trans (step_tail h).1.2 hq.2)
    exact absurd hle (by decide)

end Utf8State

namespace Bytes

open Utf8State

theorem validUtf8_iff {s : Bytes} : validUtf8 s = true ↔ run .start s = some .start :=
  decide_eq_true_iff

/-- The states before and behind an octet of a text. -/
theorem exists_step_of_validUtf8 {p t : Bytes} {b : UInt8} (h : validUtf8 (p ++ b :: t) = true) :
    ∃ q q', q.Narrow ∧ run .start p = some q ∧ step q b = some q' ∧
      run .start (p ++ [b]) = some q' := by
  rw [validUtf8_iff, run_append] at h
  obtain ⟨q, hp, hrest⟩ := Option.bind_eq_some_iff.mp h
  obtain ⟨q', hstep, -⟩ := run_cons.mp hrest
  have hstart : (start : Utf8State).Narrow := trivial
  refine ⟨q, q', narrow_run hstart hp, hp, hstep, ?_⟩
  rw [run_append, hp]
  exact run_cons.mpr ⟨q', hstep, rfl⟩

/-- **A text can be cut before and behind an octet of ASCII.** -/
theorem validUtf8_of_append_ascii {p t : Bytes} {b : UInt8} (h : validUtf8 (p ++ b :: t) = true)
    (hb : b < 0x80) : validUtf8 p = true ∧ validUtf8 (p ++ [b]) = true := by
  obtain ⟨q, q', hnarrow, hp, hstep, hpb⟩ := exists_step_of_validUtf8 h
  obtain ⟨rfl, rfl⟩ := step_ascii hnarrow hb hstep
  exact ⟨validUtf8_iff.mpr hp, validUtf8_iff.mpr hpb⟩

/-- **A text cannot be cut behind an octet that begins a character of several.** -/
theorem not_validUtf8_append_lead {p t : Bytes} {b : UInt8} (h : validUtf8 (p ++ b :: t) = true)
    (hb : 0xC0 ≤ b) : validUtf8 (p ++ [b]) ≠ true := by
  obtain ⟨q, q', hnarrow, -, hstep, hpb⟩ := exists_step_of_validUtf8 h
  rw [ne_eq, validUtf8_iff, hpb, Option.some.injEq]
  exact step_lead hnarrow hb hstep

/-! ### Characters -/

/-- An octet that continues a character. -/
def Continues (b : UInt8) : Prop := 0x80 ≤ b ∧ b ≤ 0xBF

/-- One character. -/
def IsChar (c : Bytes) : Prop :=
  ∃ b t, c = b :: t ∧ trailLength b = some t.length ∧ (∀ x ∈ t, Continues x) ∧ validUtf8 c = true

/-- The first octets of a character, but not all of them. -/
def IsPartial (r : Bytes) : Prop :=
  ∃ b t k, r = b :: t ∧ trailLength b = some k ∧ t.length < k ∧ ∀ x ∈ t, Continues x

/-- Inside a character, the text ends too early, or the rest of the character comes next. -/
theorem run_inside {q q' : Utf8State} {s : Bytes} (hq : q.Narrow) (h : run q s = some q') :
    (s.length < q.missing ∧ (∀ x ∈ s, Continues x) ∧ q' ≠ .start) ∨
      ∃ t rest, s = t ++ rest ∧ t.length = q.missing ∧ (∀ x ∈ t, Continues x) ∧
        run q t = some .start ∧ run .start rest = some q' := by
  -- the continuations end the sequence before anything else may begin
  induction s generalizing q with
  | nil =>
    cases q with
    | start =>
      exact .inr ⟨[], [], rfl, rfl, fun x hx => absurd hx List.not_mem_nil, rfl, h⟩
    | tail more lo hi =>
      obtain rfl := Option.some.inj h
      exact .inl ⟨Nat.succ_pos more, fun x hx => absurd hx List.not_mem_nil, nofun⟩
  | cons b s ih =>
    cases q with
    | start =>
      exact .inr ⟨[], b :: s, rfl, rfl, fun x hx => absurd hx List.not_mem_nil, rfl, h⟩
    | tail more lo hi =>
      obtain ⟨q₁, hstep, h⟩ := run_cons.mp h
      -- every state within a sequence accepts continuations only
      obtain ⟨⟨hlo, hhi⟩, hnarrow, hmissing⟩ := step_tail hstep
      have hb : Continues b := ⟨UInt8.le_trans hq.1 hlo, UInt8.le_trans hhi hq.2⟩
      rcases ih hnarrow h with ⟨hshort, hs, hne⟩ | ⟨t, rest, rfl, hlength, ht, hrun, hrest⟩
      -- the text ends within the sequence
      · rw [hmissing] at hshort
        exact .inl ⟨Nat.succ_lt_succ hshort, List.forall_mem_cons.mpr ⟨hb, hs⟩, hne⟩
      · refine .inr ⟨b :: t, rest, rfl, ?_, List.forall_mem_cons.mpr ⟨hb, ht⟩,
          run_cons.mpr ⟨q₁, hstep, hrun⟩, hrest⟩
        rw [List.length_cons, hlength, hmissing]
        rfl

/-- A text begins with a character, unless it is empty or ends inside its first one. -/
theorem run_start_cases {s : Bytes} {q : Utf8State} (h : run .start s = some q) :
    s = [] ∨ (IsPartial s ∧ q ≠ .start) ∨
      ∃ c rest, s = c ++ rest ∧ IsChar c ∧ run .start rest = some q := by
  cases s with
  | nil => exact .inl rfl
  | cons b s =>
    obtain ⟨q₁, hstep, h⟩ := run_cons.mp h
    obtain ⟨hnarrow, htrail⟩ := narrow_first hstep
    rcases run_inside hnarrow h with ⟨hshort, hs, hne⟩ | ⟨t, rest, rfl, hlength, ht, hrun, hrest⟩
    · exact .inr (.inl ⟨⟨b, s, _, rfl, htrail, hshort, hs⟩, hne⟩)
    · refine .inr (.inr ⟨b :: t, rest, rfl, ⟨b, t, rfl, hlength ▸ htrail, ht, ?_⟩, hrest⟩)
      exact validUtf8_iff.mpr (run_cons.mpr ⟨q₁, hstep, hrun⟩)

theorem IsChar.ne_nil {c : Bytes} (h : IsChar c) : c ≠ [] := by
  obtain ⟨b, t, rfl, -⟩ := h
  exact List.cons_ne_nil b t

theorem IsChar.validUtf8 {c : Bytes} (h : IsChar c) : validUtf8 c = true := by
  obtain ⟨-, -, -, -, -, hvalid⟩ := h
  exact hvalid

/-- Texts may be joined. -/
theorem validUtf8_append {s t : Bytes} (hs : validUtf8 s = true) :
    validUtf8 (s ++ t) = validUtf8 t := by
  rw [Bool.eq_iff_iff, validUtf8_iff, validUtf8_iff, run_append, validUtf8_iff.mp hs]
  rfl

/-- Octets of ASCII are a text. -/
theorem validUtf8_of_ascii {s : Bytes} (h : ∀ b ∈ s, b < 0x80) : validUtf8 s = true := by
  induction s with
  | nil => rfl
  | cons b s ih =>
    obtain ⟨hb, hs⟩ := List.forall_mem_cons.mp h
    have hstep : Utf8State.step .start b = some .start := if_pos hb
    exact validUtf8_iff.mpr (run_cons.mpr ⟨.start, hstep, validUtf8_iff.mp (ih hs)⟩)

/-- A character is not cut short. -/
theorem not_validUtf8_of_isPartial {r : Bytes} (h : IsPartial r) : validUtf8 r ≠ true := by
  obtain ⟨b, t, k, rfl, htrail, hshort, -⟩ := h
  intro hvalid
  rcases run_start_cases (validUtf8_iff.mp hvalid) with hnil | ⟨-, hne⟩ |
    ⟨c, rest, heq, ⟨b', t', rfl, htrail', -⟩, -⟩
  · exact List.cons_ne_nil b t hnil
  · exact hne rfl
  · -- the character would be longer than the text
    obtain ⟨rfl, htail⟩ := List.cons.inj heq
    rw [htrail] at htrail'
    have hlength : t.length = t'.length + rest.length := by rw [htail]; exact List.length_append
    rw [Option.some.inj htrail', hlength] at hshort
    exact absurd hshort (Nat.not_lt.mpr (Nat.le_add_right _ _))

/-- What is read of a text are characters, and perhaps a part of one behind them. -/
theorem exists_split_of_run {s : Bytes} {q : Utf8State} (h : run .start s = some q) :
    ∃ p r, s = p ++ r ∧ validUtf8 p = true ∧ (r = [] ∨ IsPartial r) := by
  induction hn : s.length using Nat.strong_induction_on generalizing s with
  | _ n ih =>
    rcases run_start_cases h with rfl | ⟨hcut, -⟩ | ⟨c, rest, rfl, hc, hrest⟩
    · exact ⟨[], [], rfl, rfl, .inl rfl⟩
    · exact ⟨[], s, rfl, rfl, .inr hcut⟩
    · have hlt : rest.length < n := by
        have hpos := List.length_pos_of_ne_nil hc.ne_nil
        rw [← hn, List.length_append]
        omega
      obtain ⟨p, r, rfl, hp, hr⟩ := ih rest.length hlt hrest rfl
      refine ⟨c ++ p, r, (List.append_assoc ..).symm, ?_, hr⟩
      rw [validUtf8_append hc.validUtf8, hp]

/-- A text is a sequence of characters. -/
theorem validUtf8_induction {motive : (s : Bytes) → validUtf8 s = true → Prop}
    (nil : motive [] rfl)
    (append : ∀ (c rest : Bytes) (hc : IsChar c) (hrest : validUtf8 rest = true),
      motive rest hrest → motive (c ++ rest) ((validUtf8_append hc.validUtf8).trans hrest))
    (s : Bytes) (h : validUtf8 s = true) : motive s h := by
  induction hn : s.length using Nat.strong_induction_on generalizing s with
  | _ n ih =>
    -- a text is empty or begins with a character
    rcases run_start_cases (validUtf8_iff.mp h) with rfl | ⟨-, hne⟩ | ⟨c, rest, rfl, hc, hrest⟩
    · exact nil
    · exact absurd rfl hne
    -- which has an octet at least
    · have hlt : rest.length < n := by
        have hpos := List.length_pos_of_ne_nil hc.ne_nil
        rw [← hn, List.length_append]
        omega
      exact append c rest hc (validUtf8_iff.mpr hrest)
        (ih rest.length hlt rest (validUtf8_iff.mpr hrest) rfl)

theorem IsPartial.front {r r' : Bytes} (h : IsPartial r) (hfront : r' <+: r)
    (hne : r' ≠ []) : IsPartial r' := by
  obtain ⟨b, t, k, rfl, htrail, hshort, ht⟩ := h
  cases r' with
  | nil => exact absurd rfl hne
  | cons b' t' =>
    obtain ⟨rfl, htt⟩ := List.cons_prefix_cons.mp hfront
    exact ⟨b', t', k, rfl, htrail, htt.length_le.trans_lt hshort, fun x hx => ht x (htt.subset hx)⟩

/-- `p` is the longest text that `s` begins with and that has at most `n` octets. -/
structure LongestText (n : Nat) (s p : Bytes) : Prop where
  isPrefix : p <+: s
  valid : validUtf8 p = true
  length_le : p.length ≤ n
  longest : ∀ q, q <+: s → validUtf8 q = true → q.length ≤ n → q.length ≤ p.length

/-- Of a text that is cut, the longest text is all but a part of a character at the end. -/
theorem exists_longestText {s : Bytes} (h : validUtf8 s = true) (n : Nat) :
    ∃ p r, s.take n = p ++ r ∧ LongestText n s p ∧ (r = [] ∨ IsPartial r) := by
  rw [validUtf8_iff, ← List.take_append_drop n s, run_append] at h
  obtain ⟨q, htake, -⟩ := Option.bind_eq_some_iff.mp h
  obtain ⟨p, r, heq, hp, hr⟩ := exists_split_of_run htake
  have hfront : p <+: s.take n := ⟨r, heq.symm⟩
  have hlength : p.length ≤ n := hfront.length_le.trans (List.length_take_le n s)
  refine ⟨p, r, heq, ⟨hfront.trans (List.take_prefix n s), hp, hlength,
    fun q hq hvalid hn => ?_⟩, hr⟩
  by_contra hlt
  -- a longer text would end inside the character that was cut
  have hqtake : q <+: p ++ r := heq ▸ List.prefix_take_iff.mpr ⟨hq, hn⟩
  obtain ⟨r', rfl⟩ := List.prefix_of_prefix_length_le ⟨r, rfl⟩ hqtake (Nat.le_of_not_le hlt)
  have hr' : r' <+: r := (List.prefix_append_right_inj p).mp hqtake
  have hne : r' ≠ [] := by
    rintro rfl
    exact hlt (by rw [List.append_nil])
  rw [validUtf8_append hp] at hvalid
  rcases hr with rfl | hr
  · exact hne (List.prefix_nil.mp hr')
  · exact not_validUtf8_of_isPartial (hr.front hr' hne) hvalid

/-- A text without some octet of ASCII is a text. -/
theorem validUtf8_filter_ne {s : Bytes} (h : validUtf8 s = true) {a : UInt8} (ha : a < 0x80) :
    validUtf8 (s.filter (· ≠ a)) = true := by
  induction s, h using validUtf8_induction with
  | nil => rfl
  | append c rest hc hrest ih =>
    rw [List.filter_append]
    obtain ⟨b, t, rfl, htrail, ht, hvalid⟩ := hc
    have htkept : t.filter (· ≠ a) = t := List.filter_eq_self.mpr fun x hx => by
      refine decide_eq_true fun hxa => ?_
      exact absurd (UInt8.lt_of_le_of_lt (ht x hx).1 (hxa ▸ ha)) (UInt8.lt_irrefl _)
    by_cases hb : b = a
    · -- the octet is a character of its own
      have hlength : t = [] := by
        rw [hb, trailLength, if_pos ha] at htrail
        exact List.eq_nil_of_length_eq_zero (Option.some.inj htrail).symm
      rw [hlength, hb, List.filter_cons_of_neg (by simp)]
      exact ih
    · rw [List.filter_cons_of_pos (by simpa using hb), htkept, validUtf8_append hvalid]
      exact ih

/-! ### The lenient decoder -/

theorem takeTrail_append {t : Bytes} (ht : ∀ x ∈ t, Continues x) (rest : Bytes) :
    takeTrail t.length (t ++ rest) = (t, true) := by
  induction t with
  | nil => rfl
  | cons x t ih =>
    obtain ⟨⟨hlo, hhi⟩, ht⟩ := List.forall_mem_cons.mp ht
    rw [List.cons_append, List.length_cons, takeTrail, if_pos ⟨hlo, hhi⟩, ih ht]

theorem takeTrail_of_short {t : Bytes} {k : Nat} (hk : t.length < k)
    (ht : ∀ x ∈ t, Continues x) : takeTrail k t = (t, false) := by
  induction t generalizing k with
  | nil =>
    obtain ⟨k, rfl⟩ := Nat.exists_eq_succ_of_ne_zero (Nat.ne_of_gt hk)
    rfl
  | cons x t ih =>
    obtain ⟨k, rfl⟩ := Nat.exists_eq_succ_of_ne_zero (Nat.ne_of_gt (Nat.zero_lt_of_lt hk))
    obtain ⟨⟨hlo, hhi⟩, ht⟩ := List.forall_mem_cons.mp ht
    rw [takeTrail, if_pos ⟨hlo, hhi⟩, ih (Nat.lt_of_succ_lt_succ hk) ht]

theorem isPrefix_takeTrail (k : Nat) (s : Bytes) : (takeTrail k s).1 <+: s := by
  induction k generalizing s with
  | zero => exact List.nil_prefix
  | succ k ih =>
    cases s with
    | nil => exact List.nil_prefix
    | cons b s =>
      rw [takeTrail]
      split
      · exact List.cons_prefix_cons.mpr ⟨rfl, ih s⟩
      · exact List.cons_prefix_cons.mpr ⟨rfl, List.nil_prefix⟩

theorem skipInvalid_nil (n : Nat) : skipInvalid n [] = [] := by cases n <;> rfl

/-- A character is copied. -/
theorem skipInvalid_append_of_isChar {c : Bytes} (hc : IsChar c) (n : Nat) (rest : Bytes) :
    skipInvalid (n + 1) (c ++ rest) = c ++ skipInvalid n rest := by
  obtain ⟨b, t, rfl, htrail, ht, hvalid⟩ := hc
  rw [List.cons_append, skipInvalid, htrail]
  dsimp only
  rw [takeTrail_append ht, hvalid, List.drop_left]
  rfl

/-- A part of a character is dropped. -/
theorem skipInvalid_of_isPartial {r : Bytes} (hr : IsPartial r) (n : Nat) :
    skipInvalid n r = [] := by
  obtain ⟨b, t, k, rfl, htrail, hshort, ht⟩ := hr
  cases n with
  | zero => rfl
  | succ n =>
    rw [skipInvalid, htrail]
    dsimp only
    rw [takeTrail_of_short hshort ht, Bool.false_and, if_neg Bool.false_ne_true, List.drop_length,
      skipInvalid_nil]

/-- **A text that was cut loses the part of a character at its end.** -/
theorem skipInvalid_append {p r : Bytes} (hp : validUtf8 p = true) (hr : r = [] ∨ IsPartial r)
    {n : Nat} (hn : p.length ≤ n) : skipInvalid n (p ++ r) = p := by
  induction p, hp using validUtf8_induction generalizing n with
  | nil =>
    rcases hr with rfl | hr
    · exact skipInvalid_nil n
    · exact skipInvalid_of_isPartial hr n
  | append c rest hc hrest ih =>
    have hpos := List.length_pos_of_ne_nil hc.ne_nil
    rw [List.length_append] at hn
    obtain ⟨n, rfl⟩ := Nat.exists_eq_succ_of_ne_zero (show n ≠ 0 by omega)
    rw [List.append_assoc, skipInvalid_append_of_isChar hc, ih (by omega)]

/-- What is left is a text. -/
theorem validUtf8_skipInvalid (n : Nat) (s : Bytes) : validUtf8 (skipInvalid n s) = true := by
  induction n generalizing s with
  | zero => rfl
  | succ n ih =>
    cases s with
    | nil => rfl
    | cons b s =>
      rw [skipInvalid]
      split
      · exact ih s
      · dsimp only
        split
        -- what is kept is a character
        · next hok =>
          rw [validUtf8_append (Bool.and_eq_true_iff.mp hok).2]
          exact ih _
        · exact ih _

/-- Octets are dropped, and none is added. -/
theorem skipInvalid_sublist (n : Nat) (s : Bytes) : (skipInvalid n s).Sublist s := by
  induction n generalizing s with
  | zero => exact List.nil_sublist s
  | succ n ih =>
    cases s with
    | nil => exact List.Sublist.refl []
    | cons b s =>
      rw [skipInvalid]
      split
      -- an octet that begins nothing is skipped
      · exact (ih s).trans (List.sublist_cons_self b s)
      · next k htrail =>
        dsimp only
        obtain ⟨rest, hrest⟩ := isPrefix_takeTrail k s
        -- what follows a lead octet is taken or skipped as one
        have hdrop : s.drop (takeTrail k s).1.length = rest := by
          calc s.drop (takeTrail k s).1.length
              = ((takeTrail k s).1 ++ rest).drop (takeTrail k s).1.length := by rw [hrest]
            _ = rest := List.drop_left
        rw [hdrop]
        have hs : ((takeTrail k s).1 ++ skipInvalid n rest).Sublist s := by
          have hjoined := (ih rest).append_left (takeTrail k s).1
          rwa [hrest] at hjoined
        split
        · exact hs.cons_cons b
        · exact ((List.sublist_append_right _ _).trans hs).trans (List.sublist_cons_self b s)

end Bytes
