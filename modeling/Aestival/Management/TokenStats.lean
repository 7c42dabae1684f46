import Aestival.Chat.TokenUsage
import Aestival.Library.Json

/-!
# The token statistics of all agents

`handle_token_stats` asks every agent that has a controller for the statistics of its database and
adds the days up in an ordered map. An agent that was stopped has none, and its rows are left out.
What is answered is again a `DailyReport`, of the rows of the other databases together
(`tokenStats_reports`): no request is lost or counted twice on the way through the groups of the
databases and the map, and none of the numbers wraps around below 2^31 rows.
-/

namespace Aestival

open Bytes

/-- What `handle_token_stats` reads of an agent: whether it has a controller, the table of its
database, and the second at which it is queried. Another backend has no rows. -/
structure AgentUsage where
  hasController : Bool
  usage : TokenUsage
  now : Int

section Stats

variable (localDate : Int → TextKey)

/-- `agent_controller::get_token_stats`. -/
def AgentUsage.getTokenStats (agent : AgentUsage) : List (TextKey × Figures) :=
  agent.usage.getTokenStats localDate agent.now

/-- The rows of the last thirty days. -/
def AgentUsage.recent (agent : AgentUsage) : List UsageRow := agent.usage.recent agent.now

/-- The agents that are asked. -/
def askedAgents (agents : List AgentUsage) : List AgentUsage := agents.filter (·.hasController)

/-- The map `daily` of `handle_token_stats`. -/
def dailyStats (agents : List AgentUsage) : Tally TextKey Figures :=
  agents.foldl (fun daily agent =>
    if agent.hasController then daily.addRows (agent.getTokenStats localDate) else daily)
      Tally.empty

/-- One object of the answer. -/
def dayEntry (day : TextKey × Figures) : Json :=
  .obj [(utf8 "completion_tokens", .int day.2.2.2), (utf8 "date", .str day.1.text),
    (utf8 "prompt_tokens", .int day.2.2.1), (utf8 "requests", .int day.2.1)]

/-- Such an object as it is built, of an `int` and two `int64_t`. They wrap around, so it makes no
difference where on the way a sum is cut off. -/
def statsEntry (day : TextKey × Figures) : Json :=
  dayEntry (day.1, (Int32.ofInt day.2.1).toInt, (Int64.ofInt day.2.2.1).toInt,
    (Int64.ofInt day.2.2.2).toInt)

/-- `handle_token_stats`: the body of the answer. -/
def handleTokenStats (agents : List AgentUsage) : Json :=
  .obj [(utf8 "data", .arr ((dailyStats localDate agents).entries.map statsEntry)),
    (utf8 "status", .str (utf8 "ok"))]

variable {localDate}

/-! ### What adds up -/

/-- What an agent answers are the groups of its rows. -/
theorem AgentUsage.getTokenStats_perm (agent : AgentUsage) :
    (agent.getTokenStats localDate).Perm
      (Tally.ofRows (dated localDate agent.recent)).entries := by
  rw [AgentUsage.getTokenStats, AgentUsage.recent, TokenUsage.getTokenStats, Tally.groups_eq]
  exact List.reverse_perm _

/-- Adding the lists of the agents is adding them behind each other. -/
theorem dailyStats_eq (agents : List AgentUsage) :
    dailyStats localDate agents =
      Tally.ofRows ((askedAgents agents).flatMap fun agent => agent.getTokenStats localDate) := by
  unfold dailyStats askedAgents Tally.ofRows Tally.addRows
  rw [List.foldl_flatMap, List.foldl_filter]

/-- The map is the tally of the rows of the agents. -/
theorem dailyStats_eq_ofRows (agents : List AgentUsage) :
    dailyStats localDate agents =
      Tally.ofRows (dated localDate ((askedAgents agents).flatMap AgentUsage.recent)) := by
  have hperm : ((askedAgents agents).flatMap fun agent => agent.getTokenStats localDate).Perm
      ((askedAgents agents).flatMap fun agent =>
        (Tally.ofRows (dated localDate agent.recent)).entries) :=
    List.Perm.flatMap_left _ fun agent _ => agent.getTokenStats_perm
  have hdated : dated localDate ((askedAgents agents).flatMap AgentUsage.recent) =
      (askedAgents agents).flatMap fun agent => dated localDate agent.recent := List.map_flatMap
  rw [dailyStats_eq, Tally.ofRows_perm hperm, Tally.ofRows_merge, hdated]

/-! ### What fits -/

/-- A number whose size is that of at most `n` tokens counts. -/
def WithinRows (n : ℕ) (x : Int) : Prop := -(2 ^ 31 * (n : Int)) ≤ x ∧ x ≤ 2 ^ 31 * n

theorem WithinRows.add_tokens {n : ℕ} {x : Int} (h : WithinRows n x) (tokens : Int32) :
    WithinRows (n + 1) (tokens.toInt + x) := by
  have hlow := tokens.le_toInt
  have hhigh := tokens.toInt_lt
  unfold WithinRows at h ⊢
  omega

/-- The sums of some rows, by their number. -/
theorem figures_bounds (rows : List UsageRow) :
    (rows.map UsageRow.figures).sum.1 = rows.length ∧
      WithinRows rows.length (rows.map UsageRow.figures).sum.2.1 ∧
      WithinRows rows.length (rows.map UsageRow.figures).sum.2.2 := by
  induction rows with
  | nil => exact ⟨rfl, ⟨le_rfl, le_rfl⟩, le_rfl, le_rfl⟩
  | cons r rows ih =>
    obtain ⟨hcount, hprompt, hcompletion⟩ := ih
    rw [List.map_cons, List.sum_cons, List.length_cons]
    refine ⟨?_, hprompt.add_tokens r.promptTokens, hcompletion.add_tokens r.completionTokens⟩
    rw [Prod.fst_add, hcount, UsageRow.figures, Int.add_comm]
    rfl

/-- Below 2^31 rows, the numbers of a day are not cut off. -/
theorem statsEntry_eq {rows : List UsageRow} {days : List (TextKey × Figures)}
    (hreport : DailyReport localDate rows days) (hfew : rows.length < 2 ^ 31)
    {day : TextKey × Figures} (hday : day ∈ days) : statsEntry day = dayEntry day := by
  obtain ⟨hcount, hprompt, hcompletion⟩ :=
    figures_bounds (rows.filter fun r => localDate r.createdAt = day.1)
  have hlength : (rows.filter fun r => localDate r.createdAt = day.1).length ≤ rows.length :=
    List.length_filter_le _ _
  rw [← hreport.figures day hday] at hcount hprompt hcompletion
  unfold WithinRows at hprompt hcompletion
  rw [statsEntry, Int32.toInt_ofInt_of_le (by omega) (by omega),
    Int64.toInt_ofInt_of_le (by omega) (by omega), Int64.toInt_ofInt_of_le (by omega) (by omega)]

/-- **The endpoint reports the rows of the agents that have a controller**: each local date on which
one of them recorded something in the last thirty days stands there once, in ascending order, with
the number of their rows and the sums of their tokens. -/
theorem tokenStats_reports (agents : List AgentUsage)
    (hfew : ((askedAgents agents).flatMap AgentUsage.recent).length < 2 ^ 31) :
    ∃ days, handleTokenStats localDate agents =
        .obj [(utf8 "data", .arr (days.map dayEntry)), (utf8 "status", .str (utf8 "ok"))] ∧
      DailyReport localDate ((askedAgents agents).flatMap AgentUsage.recent) days ∧
      (days.map Prod.fst).Pairwise (· < ·) := by
  have hreport : DailyReport localDate ((askedAgents agents).flatMap AgentUsage.recent)
      (dailyStats localDate agents).entries := by
    rw [dailyStats_eq_ofRows]
    exact dailyReport_ofRows _
  refine ⟨(dailyStats localDate agents).entries, ?_, hreport, Tally.sorted_keys _⟩
  rw [handleTokenStats, List.map_congr_left fun day hday => statsEntry_eq hreport hfew hday]

/-- An agent with two rows of one day, and one that was stopped. -/
def twoAgentUsages : List AgentUsage :=
  [⟨true, [⟨100, utf8 "m", 5, 3⟩, ⟨101, utf8 "m", 2, 2⟩], 200⟩,
    ⟨false, [⟨150, utf8 "m", 9, 9⟩], 200⟩]

/-- The rows of the first are reported. -/
theorem twoAgentUsages_reports : ∃ days,
    handleTokenStats (fun _ => ⟨utf8 "2026-07-01"⟩) twoAgentUsages =
      .obj [(utf8 "data", .arr (days.map dayEntry)), (utf8 "status", .str (utf8 "ok"))] ∧
    DailyReport (fun _ => ⟨utf8 "2026-07-01"⟩) [⟨100, utf8 "m", 5, 3⟩, ⟨101, utf8 "m", 2, 2⟩] days ∧
    (days.map Prod.fst).Pairwise (· < ·) :=
  tokenStats_reports twoAgentUsages (by decide)

example : handleTokenStats (fun _ => ⟨utf8 "2026-07-01"⟩) twoAgentUsages =
    .obj [(utf8 "data", .arr [dayEntry (⟨utf8 "2026-07-01"⟩, (2, 7, 5))]),
      (utf8 "status", .str (utf8 "ok"))] := by
  rfl

end Stats

end Aestival
