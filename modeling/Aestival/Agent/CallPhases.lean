import Aestival.Agent.Controller

/-!
# The phases of a call around midnight

`check_llm_call` and `record_tokens` both reset the counter of the day before they use it:
`atomic_day_reset` reads the clock, loads the day of the counter, exchanges it for the day of the
clock, and stores zero if the exchange was won. Here a call runs on the shared state with a clock
that changes its day at most once (`DayChange.machine`), and its phase says how far it is and which
day it has read.

`CallPhase.Demand` is the order a call keeps to, and `wp_run_calls` proves it of both calls.
-/

namespace Aestival

open Bytes Prog

/-! ### Calls -/

/-- A call of the policy engine that uses the counter of the day. -/
inductive PolicyCall where
  | check (actor : Bytes)
  | record (prompt completion : Int64)

namespace PolicyCall

/-- What the call does. -/
def run (policy : PolicyConfig) : PolicyCall → Turn Unit
  | .check actor => do
    let _ : Option Bytes ← checkLlmCall policy actor
    pure ()
  | .record prompt completion => recordTokens prompt completion

/-- What the call adds to the counter. -/
def amount : PolicyCall → Option Int64
  | .check _ => none
  | .record prompt completion => some (prompt + completion)

/-- The tokens the call records. -/
def tokens : PolicyCall → Int
  | .check _ => 0
  | .record prompt completion => prompt.toInt + completion.toInt

end PolicyCall

/-! ### The clock -/

/-- The day before and the day after the change of the day. -/
structure DayChange where
  before : Int
  after : Int
  differ : before ≠ after

/-- What the calls share, and whether one of them has read the new day. -/
structure Midnight where
  world : World
  changed : Bool := false

namespace DayChange

/-- The new day was read. -/
def isChange (clock : DayChange) : (e : TurnEff) → e.Ans → Bool
  | .today, day => day = clock.after
  | _, _ => false

/-- The clock shows one of the two days, and does not go back. -/
def Admits (clock : DayChange) (s : Midnight) : (e : TurnEff) → e.Ans → Prop
  | .today, day => day = clock.after ∨ day = clock.before ∧ s.changed = false
  | e, x => s.world.Admits e x

/-- The machine of the calls with this clock. -/
def machine (clock : DayChange) : Machine TurnSig Midnight where
  admits := clock.Admits
  next := fun s e x => ⟨s.world.next e x, s.changed || clock.isChange e x⟩

end DayChange

/-! ### Phases -/

/-- How far a call is. From its first step on it knows the day `today` it has read from the clock;
`day` is the other day the counter was of. -/
inductive CallStage where
  | idle
  | asked (today : Int)
  | saw (today day : Int)
  | resetting (today : Int)
  | settled (today : Int)
  | recorded (today : Int)
  deriving DecidableEq, Repr

namespace CallStage

/-- The stage after an effect. -/
def next : CallStage → (e : TurnEff) → e.Ans → CallStage
  | _, .today, day => .asked day
  | .asked today, .loadDay, day => if day = today then .settled today else .saw today day
  | .saw today _, .casDay .., won => if won = true then .resetting today else .settled today
  | .resetting today, .storeUsed _, _ => .settled today
  | .settled today, .addUsed _, _ => .recorded today
  | stage, _, _ => stage

/-- The call has read this day from the clock. -/
def startedOn (date : Int) : CallStage → Bool
  | .idle => false
  | .asked today | .saw today _ | .resetting today | .settled today | .recorded today =>
    today = date

/-- The call has read this day and has added its tokens. -/
def recordedOn (date : Int) : CallStage → Bool
  | .recorded today => today = date
  | _ => false

/-- What a call that has read the day `date` has learned of the day of the counter, `checkDay`. -/
def Agrees (date checkDay : Int) : CallStage → Prop
  | .saw today day => today = date → checkDay = day ∨ checkDay = date
  | .resetting today | .settled today | .recorded today => today = date → checkDay = date
  | _ => True

/-- The call has won the exchange of the day, and has not stored zero yet. -/
def isResetting : CallStage → Bool
  | .resetting _ => true
  | _ => false

theorem startedOn_of_recordedOn {date : Int} {stage : CallStage}
    (h : stage.recordedOn date = true) : stage.startedOn date = true := by
  cases stage with
  | recorded today => exact h
  | _ => cases h

variable {date checkDay : Int} {stage : CallStage}

/-- The day is read from the clock in the first step only. -/
theorem startedOn_next {e : TurnEff} (he : e ≠ .today) (x : e.Ans) :
    (stage.next e x).startedOn date = stage.startedOn date := by
  cases e with
  | today => exact absurd rfl he
  | loadDay =>
    cases stage with
    | asked today =>
      show (if x = today then settled today else saw today x).startedOn date = _
      split <;> rfl
    | _ => rfl
  | casDay expected desired =>
    cases stage with
    | saw today day => cases x <;> rfl
    | _ => rfl
  | storeUsed n => cases stage <;> rfl
  | addUsed n => cases stage <;> rfl
  | _ => cases stage <;> rfl

/-- The counter may change to this day at any time. -/
theorem agrees_date : stage.Agrees date date := by
  cases stage with
  | saw today day => exact fun _ => Or.inr rfl
  | resetting today => exact fun _ => rfl
  | settled today => exact fun _ => rfl
  | recorded today => exact fun _ => rfl
  | _ => trivial

/-- A call that has not read this day has learned nothing. -/
theorem agrees_of_not_startedOn (h : stage.startedOn date = false) :
    stage.Agrees date checkDay := by
  cases stage with
  | saw today day => exact fun hday => absurd hday (of_decide_eq_false h)
  | resetting today => exact fun hday => absurd hday (of_decide_eq_false h)
  | settled today => exact fun hday => absurd hday (of_decide_eq_false h)
  | recorded today => exact fun hday => absurd hday (of_decide_eq_false h)
  | _ => trivial

end CallStage

/-- The phase of a call. -/
structure CallPhase where
  call : PolicyCall
  stage : CallStage := .idle

/-- The machine of the phases. -/
def callPhases : Machine TurnSig CallPhase where
  admits := fun _ _ _ => True
  next := fun φ e x => { φ with stage := φ.stage.next e x }

namespace CallPhase

/-- What a call does in which phase. -/
def Demand (φ : CallPhase) : TurnEff → Prop
  | .today => φ.stage = .idle
  | .loadDay => ∃ today, φ.stage = .asked today
  | .casDay expected desired => φ.stage = .saw desired expected ∧ expected ≠ desired
  | .storeUsed n => (∃ today, φ.stage = .resetting today) ∧ n = 0
  | .loadUsed | .rateLimit .. => ∃ today, φ.stage = .settled today
  | .addUsed n => (∃ today, φ.stage = .settled today) ∧ φ.call.amount = some n
  | _ => False

/-- A call that is over has recorded its tokens. -/
def IsDone (φ : CallPhase) : Prop :=
  φ.call.amount ≠ none → ∃ today, φ.stage = .recorded today

/-- The tokens the call has added on this day. -/
def counted (date : Int) (φ : CallPhase) : Int :=
  if φ.stage.recordedOn date then φ.call.tokens else 0

theorem counted_eq_zero {date : Int} {φ : CallPhase} (h : φ.stage.recordedOn date = false) :
    φ.counted date = 0 := by
  unfold counted
  rw [h]
  rfl

end CallPhase

section Verification

variable {policy : PolicyConfig} {call : PolicyCall}

/-- Behind `atomicDayReset` the day is settled. -/
theorem wp_atomicDayReset_calls :
    wp callPhases CallPhase.Demand atomicDayReset
      (fun r φ => r = .ok () ∧ ∃ today, φ = ⟨call, .settled today⟩) ⟨call, .idle⟩ := by
  unfold atomicDayReset
  rw [wp_act_bind]
  refine ⟨rfl, fun today _ => ?_⟩
  rw [wp_act_bind]
  -- either the counter is of this day already, or the exchange is tried
  refine ⟨⟨today, rfl⟩, fun day _ => ?_⟩
  show wp callPhases _ _ _ ⟨call, if day = today then .settled today else .saw today day⟩
  split
  · exact ⟨rfl, today, rfl⟩
  · next hother =>
    rw [wp_act_bind]
    refine ⟨⟨rfl, hother⟩, fun won _ => ?_⟩
    -- the winner stores zero; the loser goes on as if the day were settled
    cases won with
    | true => exact ⟨⟨⟨today, rfl⟩, rfl⟩, fun _ _ => ⟨rfl, today, rfl⟩⟩
    | false => exact ⟨rfl, today, rfl⟩

/-- The rate limit is asked behind the reset. -/
theorem wp_checkRate_calls {actor : Bytes} {today : Int} :
    wp callPhases CallPhase.Demand (checkRate policy actor)
      (fun _ φ => φ = ⟨call, .settled today⟩) ⟨call, .settled today⟩ := by
  unfold checkRate
  split
  · rw [wp_act_bind]
    refine ⟨⟨today, rfl⟩, fun _ _ => ?_⟩
    rfl
  · rfl

/-- So is the counter. -/
theorem wp_checkLlmCall_calls {actor : Bytes} :
    wp callPhases CallPhase.Demand (checkLlmCall policy actor)
      (fun _ φ => ∃ today, φ = ⟨call, .settled today⟩) ⟨call, .idle⟩ := by
  unfold checkLlmCall
  refine wp_bind_of wp_atomicDayReset_calls ?_ ?_
  · rintro _ _ ⟨-, today, rfl⟩
    -- the rate limit leaves the day as it is settled
    have hrate : wp callPhases CallPhase.Demand (checkRate policy actor)
        (fun _ φ => ∃ today, φ = ⟨call, .settled today⟩) ⟨call, .settled today⟩ :=
      wp_mono wp_checkRate_calls fun _ _ hφ => ⟨today, hφ⟩
    -- the budget is read only if there is one
    split
    · rw [wp_act_bind]
      refine ⟨⟨today, rfl⟩, fun used _ => ?_⟩
      show wp callPhases _ (if policy.dailyTokenBudget ≤ used then _ else _) _
        ⟨call, .settled today⟩
      split
      · exact ⟨today, rfl⟩
      · exact hrate
    · exact hrate
  · rintro _ _ ⟨hr, -⟩
    cases hr

/-- **A call keeps to the order**: it reads the clock first, and adds its tokens at last. -/
theorem wp_run_calls :
    wp callPhases CallPhase.Demand (call.run policy) (fun _ φ => φ.IsDone) ⟨call, .idle⟩ := by
  cases call with
  | check actor =>
    -- a check has nothing to record
    have hdone : ∀ today, CallPhase.IsDone ⟨.check actor, .settled today⟩ :=
      fun _ hrecords => absurd rfl hrecords
    refine wp_bind_of wp_checkLlmCall_calls ?_ ?_
    · rintro _ _ ⟨today, rfl⟩
      exact hdone today
    · rintro _ _ ⟨today, rfl⟩
      exact hdone today
  | record prompt completion =>
    unfold PolicyCall.run recordTokens
    refine wp_bind_of wp_atomicDayReset_calls ?_ ?_
    · rintro _ _ ⟨-, today, rfl⟩
      exact ⟨⟨⟨today, rfl⟩, rfl⟩, fun _ _ _ => ⟨today, rfl⟩⟩
    · rintro _ _ ⟨hr, -⟩
      cases hr

end Verification

end Aestival
