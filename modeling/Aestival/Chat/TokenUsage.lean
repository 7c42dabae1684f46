import Aestival.Library.Tally
import Mathlib.Algebra.Group.Prod
import Mathlib.Algebra.Ring.Int.Defs

/-!
# Token statistics of a database

Next to its messages `sqlite_backend` keeps a table `token_usage`, one row for each response whose
usage was recorded. `get_token_stats` groups the rows of the last thirty days by their local date.

`DailyReport` says what a report of days has to be for given rows: every date of the rows once, with
the number of its rows and the sums of their tokens. `getTokenStats_reports` is that the query
answers with such a report.
-/

namespace Aestival

open Bytes

/-! ### The table -/

/-- A row of the table `token_usage`. -/
structure UsageRow where
  createdAt : Int
  model : Bytes
  promptTokens : Int32
  completionTokens : Int32
  deriving DecidableEq, Repr

/-- The table `token_usage`, in the order of insertion. -/
abbrev TokenUsage := List UsageRow

namespace TokenUsage

/-- `record_token_usage`. A statement that fails is not noticed, and nothing is written. The time
is the default of its column. -/
def recordTokenUsage (usage : TokenUsage) (writes : Bool) (createdAt : Int) (model : Bytes)
    (promptTokens completionTokens : Int32) : TokenUsage :=
  if writes then usage ++ [⟨createdAt, cStr model, promptTokens, completionTokens⟩] else usage

end TokenUsage

/-! ### Figures -/

/-- Requests, prompt tokens and completion tokens. -/
abbrev Figures := Int × Int × Int

/-- What a row adds to its day. -/
def UsageRow.figures (r : UsageRow) : Figures :=
  (1, r.promptTokens.toInt, r.completionTokens.toInt)

/-- The seconds of thirty days. -/
def statsWindow : Int := 2592000

/-- The rows of the last thirty days. -/
def TokenUsage.recent (usage : TokenUsage) (now : Int) : TokenUsage :=
  usage.filter fun r => now - statsWindow < r.createdAt

section Stats

/- `date(…, 'unixepoch', 'localtime')`, in the time zone of the process. -/
variable (localDate : Int → TextKey)

/-- The rows, each with its date and what it adds. -/
def dated (rows : List UsageRow) : List (TextKey × Figures) :=
  rows.map fun r => (localDate r.createdAt, r.figures)

/-- `get_token_stats`: the groups of the rows of the last thirty days, the latest date first. -/
def TokenUsage.getTokenStats (usage : TokenUsage) (now : Int) : List (TextKey × Figures) :=
  Tally.groups (dated localDate (usage.recent now))

/-- What a list of days has to be as a report of `rows`. -/
structure DailyReport (rows : List UsageRow) (days : List (TextKey × Figures)) : Prop where
  /-- each date once -/
  nodup : (days.map Prod.fst).Nodup
  /-- the dates are those of the rows -/
  dates : ∀ d, d ∈ days.map Prod.fst ↔ ∃ r ∈ rows, localDate r.createdAt = d
  /-- the requests of a day are counted and their tokens are summed up -/
  figures : ∀ day ∈ days, day.2 =
    ((rows.filter fun r => localDate r.createdAt = day.1).map UsageRow.figures).sum
  /-- all days together are all rows -/
  total : sumAll days = (rows.map UsageRow.figures).sum

variable {localDate}

theorem sumAt_dated (rows : List UsageRow) (d : TextKey) :
    sumAt (dated localDate rows) d =
      ((rows.filter fun r => localDate r.createdAt = d).map UsageRow.figures).sum := by
  rw [sumAt, dated, List.filter_map, List.map_map]
  rfl

theorem sumAll_dated (rows : List UsageRow) :
    sumAll (dated localDate rows) = (rows.map UsageRow.figures).sum := by
  rw [sumAll, dated, List.map_map]
  rfl

/-- The entries of the tally of the rows are a report. -/
theorem dailyReport_ofRows (rows : List UsageRow) :
    DailyReport localDate rows (Tally.ofRows (dated localDate rows)).entries where
  nodup := (Tally.ofRows (dated localDate rows)).nodup_keys
  dates d := by
    have hkeys := Tally.mem_keys_ofRows (dated localDate rows) (k := d)
    rw [dated, List.map_map, List.mem_map] at hkeys
    exact hkeys
  figures day hday := by
    rw [← Tally.sumAt_of_mem hday, Tally.sumAt_ofRows, sumAt_dated]
  total := by rw [Tally.total_ofRows, sumAll_dated]

/-- A report stays one in another order. -/
theorem DailyReport.perm {rows : List UsageRow} {days days' : List (TextKey × Figures)}
    (h : DailyReport localDate rows days) (hperm : days.Perm days') :
    DailyReport localDate rows days' where
  nodup := (hperm.map _).nodup_iff.mp h.nodup
  dates d := by rw [← (hperm.map _).mem_iff, h.dates]
  figures day hday := h.figures day (hperm.mem_iff.mpr hday)
  total := (hperm.map _).sum_eq.symm.trans h.total

/-- **The statistics of a database** are a report of its rows of the last thirty days, the latest
day first. -/
theorem getTokenStats_reports (usage : TokenUsage) (now : Int) :
    DailyReport localDate (usage.recent now) (usage.getTokenStats localDate now) ∧
      ((usage.getTokenStats localDate now).map Prod.fst).Pairwise (· > ·) := by
  rw [TokenUsage.getTokenStats, Tally.groups_eq]
  constructor
  · exact (dailyReport_ofRows _).perm (List.reverse_perm _).symm
  · rw [List.map_reverse, List.pairwise_reverse]
    exact Tally.sorted_keys _

end Stats

end Aestival
