import Aestival.Agent.TokenPhases
import Aestival.Library.Pool
import Mathlib.Data.Fintype.Basic

/-!
# The daily token budget

The turns of different conversations run in parallel, so the runs of an agent are the runs of a pool
of turns over one `World`, in any interleaving. No request should be sent when the responses of the
day have already reported as many tokens as the budget has.

The check of the budget is made once a turn, in front of the tool loop. So a request may still
overrun the budget: in a later round of the loop and for a summary, where no check is made; when
another turn owes tokens or adds its own behind a passed check; when the usage of a response is
dropped, or is lost to a reset of the day that is under way. A step at which none of this happens is
a `BudgetStep`. `Turns.Inv` relates the counter to what was reported, `Turns.Inv.step` keeps it over
such steps, and `request_within_budget` derives that every request in their runs stays in the
budget. For turns that follow one another only the missing checks and the dropped usage remain
(`request_within_budget_sequential`).

`second_round_overruns` is a turn that overruns the budget.
-/

namespace Aestival

open Bytes Json Prog

/-! ### Turns side by side -/

/-- Turns of one agent, side by side. -/
abbrev Turns (ι : Type) := Pool TurnSig World TurnPhase Thrown TurnEnd ι

/-- The turns that answer `messages`, none of them begun. -/
def startTurns {ι : Type} (agent : AgentController) (messages : ι → MessageEvent) (w : World) :
    Turns ι where
  state := w
  phase := fun _ => {}
  rest := fun j => processAgentMessage agent (messages j)

/-- What a turn may have learned of the day, when `token_check_day_` is `checkDay`. -/
def DayView.Agrees (today checkDay : Int) : DayView → Prop
  | .unknown => True
  | .saw day => day ≠ today ∧ (checkDay = day ∨ checkDay = today)
  | .settled => checkDay = today
  | .resetting => checkDay = today

namespace Turns

variable {ι : Type} {today : Int} {c : Turns ι} {i : ι}

/-- The counter is of this day, and no reset is under way. -/
def Counted (today : Int) (c : Turns ι) : Prop :=
  c.state.checkDay = today ∧ ∀ j, (c.phase j).day ≠ .resetting

/-- It is, when the day is and neither this turn nor another one resets. -/
theorem counted_of_others (hday : c.state.checkDay = today) (hself : (c.phase i).day ≠ .resetting)
    (hothers : ∀ j, j ≠ i → (c.phase j).day ≠ .resetting) : c.Counted today := by
  refine ⟨hday, fun j => ?_⟩
  by_cases hj : j = i
  · exact hj ▸ hself
  · exact hothers j hj

variable [Fintype ι]

instance : Decidable (c.Counted today) := inferInstanceAs (Decidable (_ ∧ _))

/-- What the counter says of the tokens of this day. -/
def counter (today : Int) (c : Turns ι) : Int :=
  if c.Counted today then c.state.usedToday.toInt else 0

/-- The tokens that were reported and are not added yet. -/
def owed (c : Turns ι) : Int := c.total TurnPhase.owed

end Turns

section Steps

variable {ι : Type} [Fintype ι]

/-- The steps that keep the budget. -/
structure BudgetStep (budget : Int64) (today : Int) (c : Turns ι) (i : ι) (e : TurnEff)
    (x : e.Ans) : Prop where
  /-- It is the same day, and the usage of a response can be recorded. -/
  expected : Expected today e x
  /-- A request without a check of its own finds a counter below the budget. -/
  rechecked : ∀ r, e = .request r → r.isChecked = false → c.Counted today →
    c.state.usedToday < budget
  /-- A request is not sent while another turn owes tokens. -/
  settled : ∀ r, e = .request r → ∀ j, j ≠ i → (c.phase j).owed = 0
  /-- The tokens that use up the budget are not added between the check and the first request of
  another turn. -/
  noneCleared : ∀ n, e = .addUsed n → budget ≤ c.state.usedToday + n →
    ∀ j, j ≠ i → (c.phase j).stage ≠ .cleared
  /-- Tokens are not added while another turn resets the counter. -/
  noneResetting : ∀ n, e = .addUsed n → ∀ j, j ≠ i → (c.phase j).day ≠ .resetting
  /-- The counter does not overflow. -/
  fits : ∀ n, e = .addUsed n →
    (c.state.usedToday + n).toInt = c.state.usedToday.toInt + n.toInt

end Steps

/-! ### The invariant -/

theorem World.budget_next_of_isNeutral {e : TurnEff} (h : e.isNeutral = true) (w : World)
    (x : e.Ans) : (w.next e x).checkDay = w.checkDay ∧ (w.next e x).usedToday = w.usedToday ∧
      (w.next e x).reported = w.reported := by
  cases e with
  | commit c n reply =>
    rw [World.next_commit]
    split <;> exact ⟨rfl, rfl, rfl⟩
  | _ => first | exact ⟨rfl, rfl, rfl⟩ | cases h

namespace Turns

variable {ι : Type} [Fintype ι] {budget : Int64} {today : Int} {c c' : Turns ι} {i : ι}

/-- What holds throughout a run: the responses have reported what the counter says and what is
still owed. -/
structure Inv (budget : Int64) (today : Int) (c : Turns ι) : Prop where
  conforms : c.Conforms (phases budget today) (Demand today) TurnPhase.Idle
  agrees : ∀ j, (c.phase j).day.Agrees today c.state.checkDay
  /-- One turn wins the exchange of the day. -/
  single : ∀ j k, (c.phase j).day = .resetting → (c.phase k).day = .resetting → j = k
  /-- Behind a passed check the counter stays below the budget. -/
  cleared : ∀ j, (c.phase j).stage = .cleared → c.state.usedToday < budget
  balance : c.state.reported = c.counter today + c.owed

/-- The invariant holds of turns that are not begun, when the counter is right. -/
theorem Inv.start {agent : AgentController} {messages : ι → MessageEvent} {w : World}
    (hbudget : 0 < budget) (hpolicy : agent.policy.dailyTokenBudget = budget)
    (hw : w.reported = if w.checkDay = today then w.usedToday.toInt else 0) :
    Inv budget today (startTurns agent messages w) where
  conforms := by
    intro j
    exact wp_processAgentMessage_phases hbudget hpolicy .start
  agrees := fun _ => trivial
  single := fun _ _ h => by cases h
  cleared := fun _ h => by cases h
  balance := by
    have hcounted : (startTurns agent messages w).Counted today ↔ w.checkDay = today :=
      and_iff_left fun _ h => by cases h
    -- no turn has begun, so nothing is owed
    have howed : (startTurns agent messages w).owed = 0 := Pool.total_eq_zero fun _ => rfl
    unfold counter
    simp only [hcounted, howed, Int.add_zero]
    exact hw

section Step

variable [DecidableEq ι] {e : TurnEff} {x : e.Ans} (hinv : Inv budget today c)
  (hstep : Pool.Step World.machine (phases budget today) c i e x c')

include hstep

theorem owed_step : c'.owed = c.owed + ((c'.phase i).owed - (c.phase i).owed) := by
  rw [hstep.phase_self]
  exact hstep.total_eq TurnPhase.owed

include hinv

/-- The invariant after a step, from what the step does to the turn that moves and to the state. Of
the other turns it is enough that what held of them before still fits the state. -/
theorem Inv.mk_step (hexpected : Expected today e x)
    (hagrees : (c'.phase i).day.Agrees today c'.state.checkDay)
    (hagreed : ∀ j, j ≠ i → (c.phase j).day.Agrees today c'.state.checkDay)
    (hsingle : ∀ j k, (c'.phase j).day = .resetting → (c'.phase k).day = .resetting → j = k)
    (hcleared : (c'.phase i).stage = .cleared → c'.state.usedToday < budget)
    (hpassed : ∀ j, j ≠ i → (c.phase j).stage = .cleared → c'.state.usedToday < budget)
    (hbalance : c'.state.reported = c'.counter today + c'.owed) : Inv budget today c' := by
  refine ⟨hstep.conforms hinv.conforms hexpected, fun j => ?_, hsingle, fun j hj => ?_, hbalance⟩
  -- the turn that steps, and the others
  · by_cases hji : j = i
    · exact hji ▸ hagrees
    · rw [hstep.phase_of_ne hji]
      exact hagreed j hji
  · by_cases hji : j = i
    · exact hcleared (hji ▸ hj)
    · rw [hstep.phase_of_ne hji] at hj
      exact hpassed j hji hj

/-- A step that changes neither the day nor the counter and is no part of a reset. -/
theorem Inv.keep (hexpected : Expected today e x)
    (hcheckDay : c'.state.checkDay = c.state.checkDay)
    (hused : c'.state.usedToday = c.state.usedToday)
    (hday : (c.phase i).day ≠ .resetting) (hday' : (c'.phase i).day ≠ .resetting)
    (hagrees : (c'.phase i).day.Agrees today c.state.checkDay)
    (hcleared : (c'.phase i).stage = .cleared → c.state.usedToday < budget)
    (hreported : c'.state.reported + (c.phase i).owed = c.state.reported + (c'.phase i).owed) :
    Inv budget today c' := by
  have hresetting : ∀ j, (c'.phase j).day = .resetting ↔ (c.phase j).day = .resetting := by
    intro j
    by_cases hj : j = i
    · subst hj
      exact ⟨fun h => absurd h hday', fun h => absurd h hday⟩
    · rw [hstep.phase_of_ne hj]
  -- the counter counts the same, since the day and who resets it are the same
  have hcounter : c'.counter today = c.counter today := by
    have hcounted : c'.Counted today ↔ c.Counted today := by
      unfold Counted
      rw [hcheckDay]
      exact and_congr_right fun _ => forall_congr' fun j => not_congr (hresetting j)
    unfold counter
    simp only [hcounted, hused]
  refine hinv.mk_step hstep hexpected ?_ ?_ ?_ ?_ ?_ ?_
  · rw [hcheckDay]
    exact hagrees
  · rw [hcheckDay]
    exact fun j _ => hinv.agrees j
  · intro j k hj hk
    exact hinv.single j k ((hresetting j).mp hj) ((hresetting k).mp hk)
  · rw [hused]
    exact hcleared
  · rw [hused]
    exact fun j _ => hinv.cleared j
  · have hbalance := hinv.balance
    rw [hcounter, owed_step hstep]
    omega

/-- A step of a turn that learns nothing of the day and changes its stage only. -/
theorem Inv.keepStage {stage : CheckStage} (hexpected : Expected today e x)
    (hcheckDay : c'.state.checkDay = c.state.checkDay)
    (hused : c'.state.usedToday = c.state.usedToday)
    (hreported : c'.state.reported = c.state.reported)
    (hphase : c'.phase i = { c.phase i with stage }) (hday : (c.phase i).day ≠ .resetting)
    (hcleared : stage = .cleared → c.state.usedToday < budget) : Inv budget today c' := by
  refine hinv.keep hstep hexpected hcheckDay hused hday ?_ ?_ ?_ (by rw [hreported, hphase])
  · rw [hphase]
    exact hday
  · rw [hphase]
    exact hinv.agrees i
  · rw [hphase]
    exact hcleared

end Step

section Effects

variable [DecidableEq ι] (hinv : Inv budget today c)

include hinv

/-- The exchange of the day. Who wins it resets the counter, and nothing was counted before. -/
theorem Inv.casDay {expected desired : Int} {x : Bool}
    (hstep : Pool.Step World.machine (phases budget today) c i (.casDay expected desired) x c') :
    Inv budget today c' := by
  obtain ⟨hsaw, rfl⟩ : (c.phase i).day = .saw expected ∧ desired = today :=
    hstep.demand hinv.conforms
  have hx : x = decide (c.state.checkDay = expected) := hstep.admits
  have hstate : c'.state = if c.state.checkDay = expected then { c.state with checkDay := desired }
      else c.state := hstep.state_eq
  have hphase : c'.phase i = { c.phase i with day := if x = true then .resetting else .settled } :=
    hstep.phase_self
  have hagrees := hinv.agrees i
  rw [hsaw] at hagrees
  by_cases hwon : c.state.checkDay = expected
  · rw [if_pos hwon] at hstate
    obtain rfl : x = true := hx.trans (decide_eq_true hwon)
    have hold : c.state.checkDay ≠ desired := hwon ▸ hagrees.1
    -- before the exchange no turn can have seen the new day
    have hnone : ∀ j, (c.phase j).day ≠ .resetting := by
      intro j hj
      have hseen := hinv.agrees j
      rw [hj] at hseen
      exact hold hseen
    refine hinv.mk_step hstep trivial ?_ ?_ ?_ ?_ ?_ ?_
    · rw [hstate, hphase]
      rfl
    · intro j _
      rw [hstate]
      have hseen := hinv.agrees j
      cases hday : (c.phase j).day with
      | unknown => trivial
      | saw day =>
        rw [hday] at hseen
        exact ⟨hseen.1, Or.inr rfl⟩
      | settled => rfl
      | resetting => rfl
    · intro j k hj hk
      have hwinner : ∀ l, (c'.phase l).day = .resetting → l = i := by
        intro l hl
        by_contra hli
        rw [hstep.phase_of_ne hli] at hl
        exact hnone l hl
      rw [hwinner j hj, hwinner k hk]
    · rw [hstate, hphase]
      exact hinv.cleared i
    · rw [hstate]
      exact fun j _ => hinv.cleared j
    · have hbefore : c.counter desired = 0 := if_neg fun h => hold h.1
      have hafter : c'.counter desired = 0 := by
        refine if_neg fun h => h.2 i ?_
        rw [hphase]
        rfl
      have hreported : c'.state.reported = c.state.reported := by rw [hstate]
      rw [hreported, hinv.balance, hbefore, hafter, owed_step hstep, hphase, Int.sub_self,
        Int.add_zero]
  -- another turn was first, and the day is settled
  · rw [if_neg hwon] at hstate
    obtain rfl : x = false := hx.trans (decide_eq_false hwon)
    have hday : c.state.checkDay = desired := hagrees.2.resolve_left hwon
    refine hinv.keep hstep trivial (by rw [hstate]) (by rw [hstate]) ?_ ?_ ?_ ?_ ?_
    · rw [hsaw]
      intro h
      cases h
    · rw [hphase]
      intro h
      cases h
    · rw [hphase]
      exact hday
    · rw [hphase]
      exact hinv.cleared i
    · rw [hstate, hphase]

/-- The reset. From here on the counter is of this day. -/
theorem Inv.storeUsed {n : Int64} {x : Unit} (hbudget : 0 < budget)
    (hstep : Pool.Step World.machine (phases budget today) c i (.storeUsed n) x c') :
    Inv budget today c' := by
  obtain ⟨hresetting, rfl⟩ : (c.phase i).day = .resetting ∧ n = 0 := hstep.demand hinv.conforms
  have hstate : c'.state = { c.state with usedToday := 0 } := hstep.state_eq
  have hphase : c'.phase i = { c.phase i with day := .settled } := hstep.phase_self
  -- who resets has won the exchange of the day
  have hday : c.state.checkDay = today := by
    have hagrees := hinv.agrees i
    rwa [hresetting] at hagrees
  -- and is the only one, so that nobody resets any more
  have hnone : ∀ j, (c'.phase j).day ≠ .resetting := by
    intro j hj
    by_cases hji : j = i
    · rw [hji, hphase] at hj
      cases hj
    · rw [hstep.phase_of_ne hji] at hj
      exact hji (hinv.single j i hj hresetting)
  refine hinv.mk_step hstep trivial ?_ ?_ ?_ ?_ ?_ ?_
  · rw [hstate, hphase]
    exact hday
  · rw [hstate]
    exact fun j _ => hinv.agrees j
  · intro j k hj _
    exact absurd hj (hnone j)
  · rw [hstate]
    exact fun _ => hbudget
  · rw [hstate]
    exact fun _ _ _ => hbudget
  -- the counter of today begins at 0
  · have hbefore : c.counter today = 0 := if_neg fun h => h.2 i hresetting
    have hcounted : c'.Counted today := ⟨by rw [hstate]; exact hday, hnone⟩
    have hafter : c'.counter today = 0 := by
      unfold counter
      rw [if_pos hcounted, hstate]
      rfl
    have hreported : c'.state.reported = c.state.reported := by rw [hstate]
    rw [hreported, hinv.balance, hbefore, hafter, owed_step hstep, hphase, Int.sub_self,
      Int.add_zero]

/-- What a turn adds is what it owes. -/
theorem Inv.addUsed {n : Int64} {x : Unit}
    (hstep : Pool.Step World.machine (phases budget today) c i (.addUsed n) x c')
    (hok : BudgetStep budget today c i (.addUsed n) x) : Inv budget today c' := by
  obtain ⟨hsettled, hsending, hn⟩ : (c.phase i).day = .settled ∧ (c.phase i).stage = .sending ∧
    n.toInt = (c.phase i).owed := hstep.demand hinv.conforms
  have hstate : c'.state = { c.state with usedToday := c.state.usedToday + n } := hstep.state_eq
  have hphase : c'.phase i = { c.phase i with owed := (c.phase i).owed - n.toInt } :=
    hstep.phase_self
  have hday : c.state.checkDay = today := by
    have hagrees := hinv.agrees i
    rwa [hsettled] at hagrees
  have hnone : ∀ j, j ≠ i → (c'.phase j).day ≠ .resetting := by
    intro j hj
    rw [hstep.phase_of_ne hj]
    exact hok.noneResetting n rfl j hj
  have hself : (c'.phase i).day ≠ .resetting := by
    rw [hphase, hsettled]
    intro h
    cases h
  -- the day is settled and no other turn resets, so the counter counts before and after
  have hcounted : c.Counted today :=
    counted_of_others hday (fun h => by rw [hsettled] at h; cases h) (hok.noneResetting n rfl)
  have hcounted' : c'.Counted today := counted_of_others (by rw [hstate]; exact hday) hself hnone
  refine hinv.mk_step hstep trivial ?_ ?_ ?_ ?_ ?_ ?_
  · rw [hstate, hphase]
    exact hinv.agrees i
  · rw [hstate]
    exact fun j _ => hinv.agrees j
  · intro j k hj _
    exact absurd hj (hcounted'.2 j)
  · rw [hphase]
    exact fun hcleared => absurd (hcleared.symm.trans hsending) (by decide)
  · intro j hji hj
    rw [hstate]
    by_contra hover
    -- a turn that was cleared cannot be over the budget now
    exact hok.noneCleared n rfl (Int64.not_lt.mp hover) j hji hj
  · have hbefore : c.counter today = c.state.usedToday.toInt := if_pos hcounted
    have hafter : c'.counter today = c.state.usedToday.toInt + n.toInt := by
      unfold counter
      rw [if_pos hcounted', hstate]
      exact hok.fits n rfl
    have hreported : c'.state.reported = c.state.reported := by rw [hstate]
    rw [hreported, hinv.balance, hbefore, hafter, owed_step hstep, hphase]
    show _ = _ + n.toInt + (_ + ((c.phase i).owed - n.toInt - (c.phase i).owed))
    omega

theorem Inv.loadDay {x : Int}
    (hstep : Pool.Step World.machine (phases budget today) c i .loadDay x c') :
    Inv budget today c' := by
  have hday : (c.phase i).day ≠ .resetting := hstep.demand hinv.conforms
  obtain rfl : x = c.state.checkDay := hstep.admits
  have hstate : c'.state = c.state := hstep.state_eq
  have hphase : c'.phase i = { c.phase i with
      day := if c.state.checkDay = today then .settled else .saw c.state.checkDay } :=
    hstep.phase_self
  -- a load changes only what the turn knows of the day
  refine hinv.keep hstep trivial (by rw [hstate]) (by rw [hstate]) hday ?_ ?_ ?_
    (by rw [hstate, hphase])
  · rw [hphase]
    show (if c.state.checkDay = today then DayView.settled else .saw _) ≠ _
    split <;> exact fun h => by cases h
  · rw [hphase]
    show (if c.state.checkDay = today then DayView.settled else .saw _).Agrees _ _
    split
    · next hday => exact hday
    · next hday => exact ⟨hday, Or.inl rfl⟩
  · rw [hphase]
    exact hinv.cleared i

/-- The check. A turn is cleared by the value it has read. -/
theorem Inv.loadUsed {x : Int64}
    (hstep : Pool.Step World.machine (phases budget today) c i .loadUsed x c') :
    Inv budget today c' := by
  obtain ⟨hsettled, -⟩ : (c.phase i).day = .settled ∧ (c.phase i).owed = 0 :=
    hstep.demand hinv.conforms
  obtain rfl : x = c.state.usedToday := hstep.admits
  have hstate : c'.state = c.state := hstep.state_eq
  have hphase : c'.phase i = { c.phase i with
      stage := if c.state.usedToday < budget then .cleared else .unchecked } := hstep.phase_self
  have hday : (c.phase i).day ≠ .resetting := by
    rw [hsettled]
    exact fun h => by cases h
  -- the budget is compared with what is counted at this moment
  refine hinv.keepStage hstep trivial (by rw [hstate]) (by rw [hstate]) (by rw [hstate]) hphase hday
    fun h => ?_
  split at h
  · next hused => exact hused
  · cases h

theorem Inv.rateLimit {n : Int32} {actor : Bytes} {x : RateAnswer}
    (hstep : Pool.Step World.machine (phases budget today) c i (.rateLimit n actor) x c') :
    Inv budget today c' := by
  have hday : (c.phase i).day ≠ .resetting := hstep.demand hinv.conforms
  have hstate : c'.state =
      { c.state with rateLimits := (Aestival.rateLimit n c.state.rateLimits actor x.now).1 } :=
    hstep.state_eq
  have hphase : c'.phase i = { c.phase i with
      stage := if x.allowed then (c.phase i).stage else .unchecked } := hstep.phase_self
  refine hinv.keepStage hstep trivial (by rw [hstate]) (by rw [hstate]) (by rw [hstate]) hphase hday
    fun h => ?_
  split at h
  · exact hinv.cleared i h
  · cases h

/-- A request leaves the state as it is, and behind it no turn is cleared that was not. -/
theorem Inv.request {r : ModelRequest} {x : Unit}
    (hstep : Pool.Step World.machine (phases budget today) c i (.request r) x c') :
    Inv budget today c' := by
  obtain ⟨hday, -⟩ : (c.phase i).day ≠ .resetting ∧ _ := hstep.demand hinv.conforms
  have hstate : c'.state = c.state := hstep.state_eq
  have hkeep : ∀ stage : CheckStage, c'.phase i = { c.phase i with stage } →
      (stage = .cleared → (c.phase i).stage = .cleared) → Inv budget today c' := by
    intro stage hphase hstage
    exact hinv.keepStage hstep trivial (by rw [hstate]) (by rw [hstate]) (by rw [hstate]) hphase
      hday fun h => hinv.cleared i (hstage h)
  cases r with
  | complete prompt => exact hkeep _ hstep.phase_self id
  | completeMessages messages => exact hkeep _ hstep.phase_self fun h => by cases h
  | completeWithTools round messages tools => exact hkeep _ hstep.phase_self fun h => by cases h

/-- What a response reports is owed by the turn that receives it. -/
theorem Inv.response {r : ModelRequest} {x : Except Thrown ModelResponse}
    (hstep : Pool.Step World.machine (phases budget today) c i (.response r) x c')
    (hexpected : Expected today (.response r) x) : Inv budget today c' := by
  -- no turn asks the model while it resets the day
  have hday : (c.phase i).day ≠ .resetting := by
    have hdemand := hstep.demand hinv.conforms
    cases r with
    | complete prompt => exact hdemand
    | completeMessages messages => exact hdemand
    | completeWithTools round messages tools => exact hdemand.1
  cases x with
  | error err =>
    have hstate : c'.state = c.state := hstep.state_eq
    have hphase : c'.phase i = c.phase i := hstep.phase_self
    exact hinv.keep hstep hexpected (by rw [hstate]) (by rw [hstate]) hday (hphase ▸ hday)
      (hphase ▸ hinv.agrees i) (hphase ▸ hinv.cleared i) (by rw [hstate, hphase])
  | ok resp =>
    have hstate : c'.state = { c.state with reported := c.state.reported + resp.tokens } :=
      hstep.state_eq
    have hphase : c'.phase i = { c.phase i with owed := (c.phase i).owed + resp.tokens } :=
      hstep.phase_self
    refine hinv.keep hstep hexpected (by rw [hstate]) (by rw [hstate]) hday ?_ ?_ ?_ ?_
    · rw [hphase]
      exact hday
    · rw [hphase]
      exact hinv.agrees i
    · rw [hphase]
      exact hinv.cleared i
    · rw [hstate, hphase]
      exact (by omega : c.state.reported + resp.tokens + (c.phase i).owed =
        c.state.reported + ((c.phase i).owed + resp.tokens))

theorem Inv.neutral {e : TurnEff} {x : e.Ans} (he : e.isNeutral = true)
    (hstep : Pool.Step World.machine (phases budget today) c i e x c')
    (hexpected : Expected today e x) (hday : (c.phase i).day ≠ .resetting) :
    Inv budget today c' := by
  obtain ⟨hcheckDay, hused, hreported⟩ := World.budget_next_of_isNeutral he c.state x
  have hphase : c'.phase i = c.phase i :=
    hstep.phase_self.trans (TurnPhase.next_of_isNeutral he x)
  exact hinv.keep hstep hexpected (by rw [hstep.state_eq]; exact hcheckDay)
    (by rw [hstep.state_eq]; exact hused) hday (hphase ▸ hday) (hphase ▸ hinv.agrees i)
    (hphase ▸ hinv.cleared i) (by rw [hstep.state_eq, hphase]; exact congrArg (· + _) hreported)

/-- Every step that keeps the budget keeps the invariant. -/
theorem Inv.step {e : TurnEff} {x : e.Ans} (hbudget : 0 < budget)
    (hstep : Pool.Step World.machine (phases budget today) c i e x c')
    (hok : BudgetStep budget today c i e x) : Inv budget today c' := by
  have hdemand : Demand today (c.phase i) e := hstep.demand hinv.conforms
  cases e with
  | loadDay => exact hinv.loadDay hstep
  | casDay expected desired => exact hinv.casDay hstep
  | storeUsed n => exact hinv.storeUsed hbudget hstep
  | loadUsed => exact hinv.loadUsed hstep
  | addUsed n => exact hinv.addUsed hstep hok
  | rateLimit n actor => exact hinv.rateLimit hstep
  | request r => exact hinv.request hstep
  | response r => exact hinv.response hstep hok.expected
  | _ => exact hinv.neutral rfl hstep hok.expected hdemand

/-- In front of a request the budget is not used up. -/
theorem Inv.reported_lt {r : ModelRequest} {x : Unit} (hbudget : 0 < budget)
    (hstep : Pool.Step World.machine (phases budget today) c i (.request r) x c')
    (hok : BudgetStep budget today c i (.request r) x) : c.state.reported < budget.toInt := by
  obtain ⟨-, howed, hcleared⟩ : (c.phase i).day ≠ .resetting ∧ (c.phase i).owed = 0 ∧
    (r.isChecked = true → (c.phase i).stage = .cleared) := hstep.demand hinv.conforms
  -- nobody owes anything, so all that was reported is counted
  have hnone : c.owed = 0 := by
    refine Pool.total_eq_zero fun j => ?_
    by_cases hj : j = i
    · exact hj ▸ howed
    · exact hok.settled r rfl j hj
  rw [hinv.balance, hnone, Int.add_zero]
  unfold counter
  split
  · next hcounted =>
    cases hchecked : r.isChecked with
    | true => exact Int64.lt_iff_toInt_lt.mp (hinv.cleared i (hcleared hchecked))
    | false => exact Int64.lt_iff_toInt_lt.mp (hok.rechecked r rfl hchecked hcounted)
  · exact Int64.lt_iff_toInt_lt.mp hbudget

end Effects

end Turns

/-! ### Runs -/

/-- The world in which the counter is right: at the begin of a day, or later. -/
def World.Counts (today : Int) (w : World) : Prop :=
  w.reported = if w.checkDay = today then w.usedToday.toInt else 0

section Runs

variable {ι : Type} [Fintype ι] [DecidableEq ι] {agent : AgentController}
  {messages : ι → MessageEvent} {w : World} {today : Int} {c c' : Turns ι} {i : ι}
  {r : ModelRequest} {x : Unit}

/-- **The budget is not overrun** by a request of a run whose steps keep the budget. -/
theorem request_within_budget (hbudget : 0 < agent.policy.dailyTokenBudget) (hw : w.Counts today)
    (hrun : Pool.Run World.machine (phases agent.policy.dailyTokenBudget today)
      (BudgetStep agent.policy.dailyTokenBudget today) (startTurns agent messages w) c)
    (hstep : Pool.Step World.machine (phases agent.policy.dailyTokenBudget today) c i (.request r) x
      c')
    (hok : BudgetStep agent.policy.dailyTokenBudget today c i (.request r) x) :
    c.state.reported < agent.policy.dailyTokenBudget.toInt := by
  have hinv : Turns.Inv agent.policy.dailyTokenBudget today c :=
    hrun.invariant (.start hbudget rfl hw) fun hinv hstep hok => hinv.step hbudget hstep hok
  exact hinv.reported_lt hbudget hstep hok

/-- The steps that keep the budget when the turns follow one another: each other turn is not begun
or over. -/
structure SequentialStep (budget : Int64) (today : Int) (c : Turns ι) (i : ι) (e : TurnEff)
    (x : e.Ans) : Prop where
  alone : ∀ j, j ≠ i → c.phase j = {} ∨ (c.rest j).isOver = true
  expected : Expected today e x
  rechecked : ∀ r, e = .request r → r.isChecked = false → c.Counted today →
    c.state.usedToday < budget
  fits : ∀ n, e = .addUsed n →
    (c.state.usedToday + n).toInt = c.state.usedToday.toInt + n.toInt

omit [DecidableEq ι] in
/-- Turns that are not begun or over are in nobody's way. -/
theorem SequentialStep.budgetStep {budget : Int64} {e : TurnEff} {x : e.Ans}
    (h : SequentialStep budget today c i e x) (hinv : Turns.Inv budget today c) :
    BudgetStep budget today c i e x := by
  have hidle : ∀ j, j ≠ i → (c.phase j).Idle := by
    intro j hj
    rcases h.alone j hj with hphase | hover
    · exact hphase ▸ .start
    · exact hinv.conforms.of_isOver hover
  exact ⟨h.expected, h.rechecked, fun _ _ j hj => (hidle j hj).owed,
    fun _ _ _ j hj => (hidle j hj).stage, fun _ _ j hj => (hidle j hj).day, h.fits⟩

/-- Of turns that follow one another only the requests without a check can overrun the budget. -/
theorem request_within_budget_sequential (hbudget : 0 < agent.policy.dailyTokenBudget)
    (hw : w.Counts today)
    (hrun : Pool.Run World.machine (phases agent.policy.dailyTokenBudget today)
      (SequentialStep agent.policy.dailyTokenBudget today) (startTurns agent messages w) c)
    (hstep : Pool.Step World.machine (phases agent.policy.dailyTokenBudget today) c i (.request r) x
      c')
    (hok : SequentialStep agent.policy.dailyTokenBudget today c i (.request r) x) :
    c.state.reported < agent.policy.dailyTokenBudget.toInt := by
  have hinv : Turns.Inv agent.policy.dailyTokenBudget today c :=
    hrun.invariant (.start hbudget rfl hw) fun hinv hstep hok =>
      hinv.step hbudget hstep (hok.budgetStep hinv)
  exact hinv.reported_lt hbudget hstep (hok.budgetStep hinv)

end Runs

/-! ### A turn of two rounds -/

/-- An agent that may use 100 tokens a day. -/
def smallBudget : AgentController := plainAgent { dailyTokenBudget := 100 }

/-- A model that asks for a tool call, reports `tokens`, and answers with a text. -/
def reportingModel (tokens : Int) : ModelRequest → Except Thrown ModelResponse
  | .completeWithTools 0 _ _ => .ok
    { toolCalls := [⟨utf8 "c1", utf8 "t", utf8 "1"⟩]
      usage := .obj [(utf8 "completion_tokens", .int 0), (utf8 "prompt_tokens", .int tokens)] }
  | _ => .ok { content := utf8 "done" }

/-- The surroundings of the second day of the year. -/
def reportingScenario (tokens : Int) : Scenario where
  model := reportingModel tokens
  providers := [[⟨utf8 "t", [], .null⟩]]
  dayOfYear := 1

/-- What happens in a turn with this model. -/
def reportingTurn (tokens : Int) : List (Event TurnSig World) :=
  (simulateTurn (reportingScenario tokens) smallBudget (privateMessage (utf8 "hi")) {}).1

/-- The turn is a run of the pool that consists of it, and its events are steps of this run. -/
theorem step_of_mem_reportingTurn {tokens : Int}
    {ok : Turns Unit → Unit → (e : TurnEff) → e.Ans → Prop}
    (hok : ∀ (c : Turns Unit), ∀ ev ∈ reportingTurn tokens, c.state = ev.pre →
      ok c () ev.eff ev.ans) {ev : Event TurnSig World} (hev : ev ∈ reportingTurn tokens) :
    ∃ c c', Pool.Run World.machine (phases smallBudget.policy.dailyTokenBudget 1) ok
        (startTurns smallBudget (fun _ : Unit => privateMessage (utf8 "hi")) {}) c ∧
      c.state = ev.pre ∧
      Pool.Step World.machine (phases smallBudget.policy.dailyTokenBudget 1) c () ev.eff
        ev.ans c' :=
  Pool.Run.of_exec .start (exec_simulateTurn (reportingScenario tokens) smallBudget
    (privateMessage (utf8 "hi")) {}) rfl rfl hok ev hev

/-- The answers of the turn are those of its surroundings. -/
theorem ans_of_mem_reportingTurn {tokens : Int} {ev : Event TurnSig World}
    (hev : ev ∈ reportingTurn tokens) :
    ev.ans = World.answer (reportingScenario tokens) ev.pre ev.eff :=
  ans_of_mem_simulate hev

/-- What a step of one turn alone has to meet: a request without a check finds the counter below
the budget, and the counter does not overflow. -/
def keepsBudget (budget : Int64) (ev : Event TurnSig World) : Bool :=
  match ev.eff with
  | .request r => r.isChecked || ev.pre.usedToday < budget
  | .addUsed n => (ev.pre.usedToday + n).toInt = ev.pre.usedToday.toInt + n.toInt
  | _ => true

/-- The usage of a small response can be recorded. -/
theorem expected_reporting {tokens : Int} (htokens : 0 ≤ tokens ∧ tokens < 1000) (pre : World)
    (e : TurnEff) : Expected 1 e (World.answer (reportingScenario tokens) pre e) := by
  cases e with
  | today => rfl
  | response r =>
    cases r with
    | complete prompt => rfl
    | completeMessages messages => rfl
    | completeWithTools round messages tools =>
      cases round with
      -- only the first response reports tokens
      | zero =>
        constructor
        · show -2147483648 ≤ tokens ∧ tokens ≤ 2147483647
          omega
        · show (-2147483648 : Int) ≤ 0 ∧ (0 : Int) ≤ 2147483647
          decide
      | succ round => exact ⟨trivial, trivial⟩
  | _ => trivial

/-- The steps of a turn that is alone keep the budget, when each of them does. -/
theorem budgetStep_of_keepsBudget {tokens : Int} (htokens : 0 ≤ tokens ∧ tokens < 1000)
    (h : (reportingTurn tokens).all (keepsBudget smallBudget.policy.dailyTokenBudget) = true)
    (c : Turns Unit) (ev : Event TurnSig World) (hev : ev ∈ reportingTurn tokens)
    (hstate : c.state = ev.pre) :
    BudgetStep smallBudget.policy.dailyTokenBudget 1 c () ev.eff ev.ans := by
  have hkeeps := List.all_eq_true.mp h ev hev
  -- the responses of this run are as the bound expects
  have hexpected : Expected 1 ev.eff ev.ans := by
    rw [ans_of_mem_reportingTurn hev]
    exact expected_reporting htokens ev.pre ev.eff
  unfold keepsBudget at hkeeps
  -- with a single turn there are no others to consider
  refine ⟨hexpected, ?_, fun _ _ j hj => absurd rfl hj, fun _ _ _ j hj => absurd rfl hj,
    fun _ _ j hj => absurd rfl hj, ?_⟩
  · intro r hr hchecked _
    rw [hr] at hkeeps
    rw [hstate]
    simpa [hchecked] using hkeeps
  · intro n hn
    rw [hn] at hkeeps
    rw [hstate]
    exact of_decide_eq_true hkeeps

/-- Whether a request is sent when 100 tokens are reported. -/
def overruns (ev : Event TurnSig World) : Bool :=
  match ev.eff with
  | .request _ => 100 ≤ ev.pre.reported
  | _ => false

/-- With 50 tokens reported by the first response, both requests are within the budget. -/
theorem reportingTurn_within_budget : (reportingTurn 50).any overruns = false := by
  have hsmall : (0 : Int) ≤ 50 ∧ (50 : Int) < 1000 := by decide
  have hok := budgetStep_of_keepsBudget hsmall rfl
  refine List.any_eq_false.mpr fun ev hev hover => ?_
  obtain ⟨c, c', hrun, hstate, hstep⟩ := step_of_mem_reportingTurn hok hev
  have hlast := hok c ev hev hstate
  obtain ⟨pre, e, x⟩ := ev
  cases e with
  | request r =>
    have hwithin := request_within_budget (by decide) (show World.Counts 1 {} from rfl) hrun
      hstep hlast
    rw [hstate] at hwithin
    exact absurd (of_decide_eq_true hover) (Int.not_le.mpr hwithin)
  | _ => cases hover

/-- The steps of one day. -/
def SameDay (today : Int) : (e : TurnEff) → e.Ans → Prop
  | .today, day => day = today
  | _, _ => True

/-- **A second round overruns the budget.** The check is made once, in front of the tool loop, and
the first response of the loop uses the budget up. -/
theorem second_round_overruns :
    ¬ ∀ (ι : Type) [DecidableEq ι] (agent : AgentController) (messages : ι → MessageEvent)
      (w : World) (today : Int) (c c' : Turns ι) (i : ι) (r : ModelRequest) (x : Unit),
      0 < agent.policy.dailyTokenBudget → w.Counts today →
      Pool.Run World.machine (phases agent.policy.dailyTokenBudget today)
        (fun _ _ e x => SameDay today e x) (startTurns agent messages w) c →
      Pool.Step World.machine (phases agent.policy.dailyTokenBudget today) c i (.request r) x c' →
      c.state.reported < agent.policy.dailyTokenBudget.toInt := by
  intro hall
  let sameDay : Turns Unit → Unit → (e : TurnEff) → e.Ans → Prop := fun _ _ e x => SameDay 1 e x
  have hsameDay : ∀ (c : Turns Unit), ∀ ev ∈ reportingTurn 150, c.state = ev.pre →
      sameDay c () ev.eff ev.ans := by
    intro c ev hev _
    show SameDay 1 ev.eff ev.ans
    rw [ans_of_mem_reportingTurn hev]
    cases ev.eff with
    | today => rfl
    | _ => trivial
  have hany : (reportingTurn 150).any overruns = true := rfl
  -- the request of the turn that comes over the budget
  obtain ⟨ev, hev, hover⟩ := List.any_eq_true.mp hany
  obtain ⟨c, c', hrun, hstate, hstep⟩ := step_of_mem_reportingTurn hsameDay hev
  obtain ⟨pre, e, x⟩ := ev
  cases e with
  | request r =>
    have hwithin := hall Unit smallBudget _ {} 1 c c' () r x (by decide) rfl hrun hstep
    rw [hstate] at hwithin
    exact absurd (of_decide_eq_true hover) (Int.not_le.mpr hwithin)
  | _ => cases hover

end Aestival
