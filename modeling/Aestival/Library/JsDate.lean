import Aestival.Library.JsString
import Mathlib.Data.List.Forall2
import Mathlib.Data.List.Lex
import Mathlib.Algebra.Order.Group.Int
import Mathlib.Algebra.GroupWithZero.Nat

/-!
# Dates of JavaScript

A `Date` is a time in milliseconds, counted from the beginning of 1970. `toISOString` writes it as
`YYYY-MM-DDTHH:mm:ss.sssZ` in the Gregorian calendar, with a sign and six digits for a year outside
0 to 9999, and throws (`none`) for a time that is more than 10⁸ days away.

Texts of this form are compared with `localeCompare`; `collate` gives what it compares, one weight
for each character. No two times have the same text (`collate_toISOString_inj`), and the texts of
the years 0 to 9999 are in the order of their times (`collate_toISOString_lt`).
-/

namespace JsDate

/-! ### The calendar -/

/-- The day on which a year begins, counted from the beginning of 1970. -/
def dayFromYear (y : Int) : Int :=
  365 * (y - 1970) + (y - 1969) / 4 - (y - 1901) / 100 + (y - 1601) / 400

/-- The year of a day. A mean year has 146097 / 400 days, which gives it or one next to it. -/
def yearOf (day : Int) : Int :=
  let y := 1970 + 400 * day / 146097
  if day < dayFromYear y then y - 1 else if dayFromYear (y + 1) ≤ day then y + 1 else y

/-- One in a leap year. -/
def leapDay (y : Int) : Nat := (dayFromYear (y + 1) - dayFromYear y - 365).toNat

/-- The days on which the months of a year begin. -/
def monthStarts (leapDay : Nat) : List Nat :=
  [0, 31, 59 + leapDay, 90 + leapDay, 120 + leapDay, 151 + leapDay, 181 + leapDay, 212 + leapDay,
    243 + leapDay, 273 + leapDay, 304 + leapDay, 334 + leapDay]

/-- The month of a day of the year: as many as have begun. -/
def monthOf (leapDay dayInYear : Nat) : Nat := (monthStarts leapDay).countP (· ≤ dayInYear)

/-- The day of the month. -/
def dateOf (leapDay dayInYear : Nat) : Nat :=
  dayInYear - (monthStarts leapDay).getD (monthOf leapDay dayInYear - 1) 0 + 1

def dayInYear (day : Int) : Nat := (day - dayFromYear (yearOf day)).toNat

/-- The year of a time. -/
def year (t : Int) : Int := yearOf (t / 86400000)

/-- Year, month, day, hour, minute, second and millisecond of a time. -/
def fields (t : Int) : List Nat :=
  let leap := leapDay (year t)
  let day := dayInYear (t / 86400000)
  let ms := (t % 86400000).toNat
  [(year t).natAbs, monthOf leap day, dateOf leap day, ms / 3600000, ms / 60000 % 60,
    ms / 1000 % 60, ms % 1000]

/-! ### Texts -/

def digit (n : Nat) : UInt16 := .ofNat (0x30 + n)

/-- The last `w` decimal digits of a number. -/
def padded : Nat → Nat → JsString
  | 0, _ => []
  | w + 1, n => padded w (n / 10) ++ [digit (n % 10)]

/-- Numbers of given widths, each with the character behind it. -/
def render : List (Nat × UInt16) → List Nat → JsString
  | (w, sep) :: shape, n :: ns => padded w n ++ sep :: render shape ns
  | _, _ => []

/-- `YYYY-MM-DDTHH:mm:ss.sssZ`, for years of `w` digits. -/
def isoShape (w : Nat) : List (Nat × UInt16) :=
  [(w, 0x2D), (2, 0x2D), (2, 0x54), (2, 0x3A), (2, 0x3A), (2, 0x2E), (3, 0x5A)]

/-- The sign of a year and the number of its digits. -/
def yearForm (y : Int) : JsString × Nat :=
  if y < 0 then ([0x2D], 6) else if 9999 < y then ([0x2B], 6) else ([], 4)

/-- `new Date(t).toISOString()`. -/
def toISOString (t : Int) : Option JsString :=
  if -8640000000000000 ≤ t ∧ t ≤ 8640000000000000 then
    some ((yearForm (year t)).1 ++ render (isoShape (yearForm (year t)).2) (fields t))
  else none

/-- The places of the characters of these texts in the order of the root collation: punctuation,
then digits, then letters. -/
def weight (c : UInt16) : Nat :=
  if c = 0x2D then 1 else if c = 0x3A then 2 else if c = 0x2E then 3 else if c = 0x2B then 4
  else c.toNat

/-- What `localeCompare` compares, one place after the other. -/
def collate (s : JsString) : List Nat := s.map weight

/-! ### The order of the days -/

theorem dayFromYear_mono {y z : Int} (h : y ≤ z) : dayFromYear y ≤ dayFromYear z := by
  unfold dayFromYear
  omega

theorem yearOf_spec (day : Int) :
    dayFromYear (yearOf day) ≤ day ∧ day < dayFromYear (yearOf day + 1) := by
  -- the estimate is off by a year at most
  have hbefore : dayFromYear (1970 + 400 * day / 146097 - 1) ≤ day := by
    unfold dayFromYear
    omega
  have hbehind : day < dayFromYear (1970 + 400 * day / 146097 + 1 + 1) := by
    unfold dayFromYear
    omega
  unfold yearOf
  dsimp only
  split
  · next hlt => exact ⟨hbefore, by rwa [sub_add_cancel]⟩
  · next hle =>
    split
    · next hnext => exact ⟨hnext, hbehind⟩
    · next hnext => exact ⟨Int.not_lt.mp hle, Int.not_le.mp hnext⟩

theorem yearOf_mono {a b : Int} (h : a ≤ b) : yearOf a ≤ yearOf b := by
  by_contra hlt
  have hle : dayFromYear (yearOf b + 1) ≤ dayFromYear (yearOf a) := dayFromYear_mono (by omega)
  have ha := (yearOf_spec a).1
  have hb := (yearOf_spec b).2
  omega

theorem leapDay_lt (y : Int) : leapDay y < 2 := by
  unfold leapDay dayFromYear
  omega

theorem dayInYear_lt (day : Int) : dayInYear day < 365 + leapDay (yearOf day) := by
  have h := yearOf_spec day
  unfold dayInYear leapDay
  omega

theorem dayFromYear_add_dayInYear (day : Int) :
    dayFromYear (yearOf day) + dayInYear day = day := by
  have h := (yearOf_spec day).1
  unfold dayInYear
  omega

/-- Every day of the year is in the month that has begun last, and behind its beginning. -/
theorem month_spec : ∀ leap < 2, ∀ day < 365 + leap,
    1 ≤ monthOf leap day ∧ monthOf leap day ≤ 12 ∧ dateOf leap day ≤ 31 ∧
      (monthStarts leap).getD (monthOf leap day - 1) 0 ≤ day := by
  decide +kernel

theorem monthOf_mono {leap a b : Nat} (h : a ≤ b) : monthOf leap a ≤ monthOf leap b :=
  List.countP_mono_left fun _ _ hle => decide_eq_true ((of_decide_eq_true hle).trans h)

/-! ### The order of the texts -/

theorem lt_append {x y : List Nat} (hlen : x.length = y.length) (h : x < y) (u v : List Nat) :
    x ++ u < y ++ v := by
  induction x generalizing y with
  | nil =>
    obtain rfl := List.length_eq_zero_iff.mp hlen.symm
    exact absurd h (List.not_lt_nil _)
  | cons a x ih =>
    cases y with
    | nil => cases hlen
    | cons b y =>
      rcases List.cons_lt_cons_iff.mp h with hab | ⟨rfl, hxy⟩
      · exact List.cons_lt_cons_iff.mpr (.inl hab)
      · exact List.cons_lt_cons_iff.mpr (.inr ⟨rfl, ih (Nat.succ.inj hlen) hxy⟩)

@[simp] theorem length_collate (s : JsString) : (collate s).length = s.length := List.length_map _

theorem collate_append (s s' : JsString) : collate (s ++ s') = collate s ++ collate s' :=
  List.map_append

@[simp] theorem length_padded (w n : Nat) : (padded w n).length = w := by
  induction w generalizing n with
  | zero => rfl
  | succ w ih => rw [padded, List.length_append, ih, List.length_singleton]

theorem weight_digit : ∀ n < 10, weight (digit n) = 0x30 + n := by decide

theorem collate_padded_lt {w m n : Nat} (hn : n < 10 ^ w) (h : m < n) :
    collate (padded w m) < collate (padded w n) := by
  induction w generalizing m n with
  | zero => omega
  | succ w ih =>
    have hn' : n / 10 < 10 ^ w := by
      rw [Nat.pow_succ] at hn
      omega
    rw [padded, padded, collate_append, collate_append]
    rcases Nat.lt_or_eq_of_le (Nat.div_le_div_right h.le : m / 10 ≤ n / 10) with hlt | heq
    · exact lt_append (by simp) (ih hn' hlt) _ _
    · -- the numbers differ in the last digit
      rw [heq]
      refine List.append_left_lt (List.cons_lt_cons_iff.mpr (.inl ?_))
      rw [weight_digit _ (by omega), weight_digit _ (by omega)]
      omega

/-- The numbers fit into the widths. -/
def Fits (shape : List (Nat × UInt16)) (ns : List Nat) : Prop :=
  List.Forall₂ (fun field n => n < 10 ^ field.1) shape ns

/-- **Texts of one shape are in the order of their numbers.** -/
theorem collate_render_lt {shape : List (Nat × UInt16)} {ms ns : List Nat} (hm : Fits shape ms)
    (hn : Fits shape ns) (h : ms < ns) :
    collate (render shape ms) < collate (render shape ns) := by
  induction hm generalizing ns with
  | nil =>
    obtain rfl := List.forall₂_nil_left_iff.mp hn
    exact absurd h (List.not_lt_nil _)
  | cons hfit _ ih =>
    next field m shape ms =>
    obtain ⟨n, ns, hfit', hn', rfl⟩ := List.forall₂_cons_left_iff.mp hn
    rw [render, render, collate_append, collate_append]
    rcases List.cons_lt_cons_iff.mp h with hlt | ⟨rfl, hlt⟩
    · exact lt_append (by simp) (collate_padded_lt hfit' hlt) _ _
    · exact List.append_left_lt (List.cons_lt_cons_iff.mpr (.inr ⟨rfl, ih hn' hlt⟩))

theorem collate_render_inj {shape : List (Nat × UInt16)} {ms ns : List Nat} (hm : Fits shape ms)
    (hn : Fits shape ns) (h : collate (render shape ms) = collate (render shape ns)) : ms = ns := by
  rcases lt_trichotomy ms ns with hlt | heq | hgt
  · exact absurd h (collate_render_lt hm hn hlt).ne
  · exact heq
  · exact absurd h (collate_render_lt hn hm hgt).ne'

/-! ### The order of the times -/

variable {a b t : Int}

/-- The part of a time behind the day. -/
theorem clock_lt {x y : Nat} (h : x < y) :
    [x / 3600000, x / 60000 % 60, x / 1000 % 60, x % 1000] <
      [y / 3600000, y / 60000 % 60, y / 1000 % 60, y % 1000] := by
  simp only [List.cons_lt_cons_iff, List.not_lt_nil, and_false, or_false]
  omega

/-- In one year the months and their days grow with the day. -/
theorem date_lt {leap x y : Nat} (hleap : leap < 2) (hy : y < 365 + leap) (h : x < y) :
    monthOf leap x < monthOf leap y ∨
      monthOf leap x = monthOf leap y ∧ dateOf leap x < dateOf leap y := by
  refine (Nat.lt_or_eq_of_le (monthOf_mono h.le)).imp_right fun heq => ⟨heq, ?_⟩
  have hbegun := (month_spec leap hleap x (h.trans hy)).2.2.2
  rw [dateOf, dateOf, ← heq]
  omega

/-- Where the years count up, the fields grow with the time. -/
theorem fields_lt (hyear : 0 ≤ year a) (h : a < b) : fields a < fields b := by
  have hdays : a / 86400000 ≤ b / 86400000 := by omega
  -- an earlier year, or the same
  rcases lt_or_eq_of_le (yearOf_mono hdays) with hlt | heq
  · refine List.cons_lt_cons_iff.mpr (.inl ?_)
    unfold year at *
    omega
  · have hsame : year a = year b := heq
    rw [fields, fields, hsame]
    refine List.cons_lt_cons_iff.mpr (.inr ⟨rfl, ?_⟩)
    have ha := dayFromYear_add_dayInYear (a / 86400000)
    have hb := dayFromYear_add_dayInYear (b / 86400000)
    rw [heq] at ha
    have hin : dayInYear (b / 86400000) < 365 + leapDay (year b) := dayInYear_lt _
    -- in one year an earlier day, or the same
    rcases lt_or_eq_of_le hdays with hday | hday
    · have hlt : dayInYear (a / 86400000) < dayInYear (b / 86400000) := by omega
      rcases date_lt (leapDay_lt _) hin hlt with hmonth | ⟨hmonth, hdate⟩
      · exact List.cons_lt_cons_iff.mpr (.inl hmonth)
      · exact List.cons_lt_cons_iff.mpr (.inr ⟨hmonth, List.cons_lt_cons_iff.mpr (.inl hdate)⟩)
    -- on one day an earlier time
    · rw [hday]
      refine List.cons_lt_cons_iff.mpr (.inr ⟨rfl, List.cons_lt_cons_iff.mpr (.inr ⟨rfl, ?_⟩)⟩)
      exact clock_lt (by omega)

/-- The time is what its fields say. -/
theorem eq_of_fields (hyear : year a = year b) (h : fields a = fields b) : a = b := by
  rw [fields, fields, hyear] at h
  injection h with _ h
  injection h with hmonth h
  injection h with hdate hclock
  have hin (t : Int) : dayInYear (t / 86400000) < 365 + leapDay (year t) := dayInYear_lt _
  -- the month and the date tell the day of the year
  have hday : dayInYear (a / 86400000) = dayInYear (b / 86400000) := by
    rcases lt_trichotomy (dayInYear (a / 86400000)) (dayInYear (b / 86400000)) with hlt | heq | hgt
    · rcases date_lt (leapDay_lt _) (hin b) hlt with hne | ⟨_, hne⟩
      · exact absurd hmonth hne.ne
      · exact absurd hdate hne.ne
    · exact heq
    · rcases date_lt (leapDay_lt _) (hyear ▸ hin a) hgt with hne | ⟨_, hne⟩
      · exact absurd hmonth hne.ne'
      · exact absurd hdate hne.ne'
  -- the rest tells the time of the day
  have hms : (a % 86400000).toNat = (b % 86400000).toNat := by
    rcases lt_trichotomy (a % 86400000).toNat (b % 86400000).toNat with hlt | heq | hgt
    · exact absurd hclock (clock_lt hlt).ne
    · exact heq
    · exact absurd hclock (clock_lt hgt).ne'
  have ha := dayFromYear_add_dayInYear (a / 86400000)
  have hb := dayFromYear_add_dayInYear (b / 86400000)
  have hsame : yearOf (a / 86400000) = yearOf (b / 86400000) := hyear
  rw [hsame, hday] at ha
  omega

theorem fits_fields {w : Nat} (h : (year t).natAbs < 10 ^ w) : Fits (isoShape w) (fields t) := by
  obtain ⟨_, hmonth, hdate, _⟩ := month_spec _ (leapDay_lt (year t)) _ (dayInYear_lt _)
  refine .cons h (.cons ?_ (.cons ?_ (.cons ?_ (.cons ?_ (.cons ?_ (.cons ?_ .nil))))))
  all_goals dsimp only; omega

theorem toISOString_eq_some {s : JsString} (h : toISOString t = some s) :
    s = (yearForm (year t)).1 ++ render (isoShape (yearForm (year t)).2) (fields t) ∧
      (year t).natAbs < 10 ^ (yearForm (year t)).2 := by
  rw [toISOString] at h
  split at h
  · next hrange =>
    refine ⟨(Option.some.inj h).symm, ?_⟩
    have hspec := yearOf_spec (t / 86400000)
    unfold year yearForm
    unfold dayFromYear at hspec
    split_ifs <;> dsimp only <;> omega
  · cases h

/-- The first character shows which form the year has. -/
theorem yearForm_of_collate {s : JsString} (h : toISOString t = some s) :
    ∃ k rest, collate s = k :: rest ∧
      (k = 1 ∧ year t < 0 ∨ k = 4 ∧ 9999 < year t ∨ 0x30 ≤ k ∧ 0 ≤ year t ∧ year t ≤ 9999) := by
  obtain ⟨rfl, -⟩ := toISOString_eq_some h
  unfold yearForm
  split_ifs with hneg hlarge
  · exact ⟨1, _, rfl, .inl ⟨rfl, hneg⟩⟩
  · exact ⟨4, _, rfl, .inr (.inl ⟨rfl, hlarge⟩)⟩
  · refine ⟨_, _, rfl, .inr (.inr ⟨?_, Int.not_lt.mp hneg, Int.not_lt.mp hlarge⟩)⟩
    rw [weight_digit _ (Nat.mod_lt _ (by decide))]
    exact Nat.le_add_right _ _

/-- **No two times have the same text.** -/
theorem eq_of_collate_toISOString {s s' : JsString} (ha : toISOString a = some s)
    (hb : toISOString b = some s') (h : collate s = collate s') : a = b := by
  obtain ⟨k, rest, hk, hform⟩ := yearForm_of_collate ha
  obtain ⟨k', rest', hk', hform'⟩ := yearForm_of_collate hb
  -- the form of the year stands first
  obtain ⟨rfl, -⟩ : k = k' ∧ rest = rest' := List.cons.inj (hk.symm.trans (h.trans hk'))
  obtain ⟨rfl, hfit⟩ := toISOString_eq_some ha
  obtain ⟨rfl, hfit'⟩ := toISOString_eq_some hb
  -- so both years have the same sign and width
  have hsame : yearForm (year a) = yearForm (year b) := by
    unfold yearForm
    split_ifs <;> first | rfl | omega
  rw [hsame] at h hfit
  rw [collate_append, collate_append] at h
  have hfields := collate_render_inj (fits_fields hfit) (fits_fields hfit')
    (List.append_cancel_left h)
  have habs : (year a).natAbs = (year b).natAbs := (List.cons.inj hfields).1
  exact eq_of_fields (by omega) hfields

/-- **The texts of the years 0 to 9999 are in the order of their times.** -/
theorem collate_toISOString_lt {s s' : JsString} (ha : toISOString a = some s)
    (hb : toISOString b = some s') (hyear : 0 ≤ year a) (hlast : year b ≤ 9999) (h : a < b) :
    collate s < collate s' := by
  have hmono : year a ≤ year b := yearOf_mono (by omega)
  have hform {y : Int} (hpos : 0 ≤ y) (hle : y ≤ 9999) : yearForm y = ([], 4) := by
    rw [yearForm, if_neg (Int.not_lt.mpr hpos), if_neg (Int.not_lt.mpr hle)]
  obtain ⟨rfl, hfit⟩ := toISOString_eq_some ha
  obtain ⟨rfl, hfit'⟩ := toISOString_eq_some hb
  rw [hform hyear (hmono.trans hlast)] at hfit ⊢
  rw [hform (hyear.trans hmono) hlast] at hfit' ⊢
  exact collate_render_lt (fits_fields hfit) (fits_fields hfit') (fields_lt hyear h)

end JsDate
