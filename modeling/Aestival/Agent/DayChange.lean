import Aestival.Agent.CallPhases
import Aestival.Library.Pool
import Mathlib.Data.Fintype.Basic

/-!
# Recording tokens while the day changes

The calls of any number of threads form a pool, and a run of the pool is an interleaving of their
atomic operations. When all of them are over, the counter should cover the tokens of the calls that
have started on the new day.

The exchange of the day and the store of zero are two operations. A call that adds its tokens
between the two loses them to the store. They are also lost to a call that has read the clock before
the change and swings the day of the counter back afterwards. A step with which neither happens is a
`CarefulStep`: no exchange is won once a call of the new day has recorded its tokens, and no such
call adds its tokens while a reset is under way. `PolicyCalls.Inv` says that the counter covers the
tokens of the new day, `PolicyCalls.Inv.step` keeps it over careful steps, and `tokens_kept`
concludes it of the calls that are over. Other steps do harm: `counted_lost` says that a reset drops
whatever tokens of the new day were counted. `tokens_kept_forward` asks for less of the exchange:
once the new day was read, the day of the counter is only set to it.

`slipping_call_loses_tokens` is a run of two calls that loses tokens.
-/

namespace Aestival

open Prog

/-! ### Calls side by side -/

/-- Calls of the policy engine, side by side. -/
abbrev PolicyCalls (ι : Type) := Pool TurnSig Midnight CallPhase Thrown Unit ι

/-- The calls, none of them begun. -/
def startCalls {ι : Type} (policy : PolicyConfig) (calls : ι → PolicyCall) (w : World) :
    PolicyCalls ι where
  state := ⟨w, false⟩
  phase := fun j => ⟨calls j, .idle⟩
  rest := fun j => (calls j).run policy

section Steps

variable {ι : Type}

/-- The additions that keep the tokens of the new day. -/
structure CarefulAdd (clock : DayChange) (c : PolicyCalls ι) (i : ι) (e : TurnEff) : Prop where
  /-- Tokens of the new day are not added while a call resets the counter. -/
  noneResetting : ∀ n, e = .addUsed n → (c.phase i).stage.startedOn clock.after = true →
    ∀ j, (c.phase j).stage.isResetting = false
  /-- Tokens of the old day are not negative. -/
  nonneg : ∀ n, e = .addUsed n → (c.phase i).stage.startedOn clock.after = false →
    0 ≤ (c.phase i).call.tokens
  /-- The counter does not overflow. -/
  fits : ∀ n, e = .addUsed n →
    (c.state.world.usedToday + n).toInt = c.state.world.usedToday.toInt + (c.phase i).call.tokens

/-- The steps that keep the tokens of the new day. -/
structure CarefulStep (clock : DayChange) (c : PolicyCalls ι) (i : ι) (e : TurnEff) (_ : e.Ans) :
    Prop extends CarefulAdd clock c i e where
  /-- An exchange is not won once tokens of the new day were added. -/
  exchange : ∀ expected desired, e = .casDay expected desired → c.state.world.checkDay = expected →
    ∀ j, (c.phase j).stage.recordedOn clock.after = false

/-- The steps that are careful when the day of the counter goes forward only. -/
structure ForwardStep (clock : DayChange) (c : PolicyCalls ι) (i : ι) (e : TurnEff) (_ : e.Ans) :
    Prop extends CarefulAdd clock c i e where
  /-- Once the new day was read, the day of the counter is set to nothing else. -/
  exchange : ∀ expected desired, e = .casDay expected desired → c.state.world.checkDay = expected →
    c.state.changed = true → desired = clock.after

end Steps

/-! ### The invariant -/

theorem World.usedToday_next {w : World} {e : TurnEff} (x : e.Ans) (hstore : ∀ n, e ≠ .storeUsed n)
    (hadd : ∀ n, e ≠ .addUsed n) : (w.next e x).usedToday = w.usedToday := by
  cases e with
  | commit c n reply =>
    rw [World.next_commit]
    split <;> rfl
  | response r => cases x <;> rfl
  | casDay expected desired =>
    rw [World.next_casDay]
    split <;> rfl
  | storeUsed n => exact absurd rfl (hstore n)
  | addUsed n => exact absurd rfl (hadd n)
  | _ => rfl

theorem World.checkDay_next {w : World} {e : TurnEff} (x : e.Ans)
    (hcas : ∀ expected desired, e ≠ .casDay expected desired) :
    (w.next e x).checkDay = w.checkDay := by
  cases e with
  | commit c n reply =>
    rw [World.next_commit]
    split <;> rfl
  | response r => cases x <;> rfl
  | casDay expected desired => exact absurd rfl (hcas expected desired)
  | _ => rfl

namespace PolicyCalls

variable {ι : Type} [Fintype ι] {clock : DayChange} {calls : ι → PolicyCall}
  {c c' : PolicyCalls ι} {i : ι}

/-- The tokens of the new day that were added. -/
def counted (clock : DayChange) (c : PolicyCalls ι) : Int := c.total (CallPhase.counted clock.after)

/-- What holds throughout a run: the counter covers the tokens of the new day. -/
structure Inv (clock : DayChange) (calls : ι → PolicyCall) (c : PolicyCalls ι) : Prop where
  conforms : c.Conforms callPhases CallPhase.Demand CallPhase.IsDone
  call : ∀ j, (c.phase j).call = calls j
  covered : c.counted clock ≤ c.state.world.usedToday.toInt
  /-- A reset that is under way loses nothing. -/
  resetting : ∀ j k, (c.phase j).stage.isResetting = true →
    (c.phase k).stage.recordedOn clock.after = false

theorem Inv.start {policy : PolicyConfig} {w : World} (hw : 0 ≤ w.usedToday.toInt) :
    Inv clock calls (startCalls policy calls w) where
  conforms := fun _ => wp_run_calls
  call := fun _ => rfl
  covered := by
    have hnone : (startCalls policy calls w).counted clock = 0 := Pool.total_eq_zero fun _ => rfl
    rw [hnone]
    exact hw
  resetting := fun _ _ h => by cases h

section Step

variable [DecidableEq ι] {e : TurnEff} {x : e.Ans}
  (hstep : Pool.Step clock.machine callPhases c i e x c')

include hstep

theorem counted_step : c'.counted clock =
    c.counted clock + ((c'.phase i).counted clock.after - (c.phase i).counted clock.after) := by
  rw [hstep.phase_self]
  exact hstep.total_eq (CallPhase.counted clock.after)

omit [Fintype ι] in
/-- The call that moves goes on to its next stage. -/
theorem stage_self : (c'.phase i).stage = (c.phase i).stage.next e x := by
  rw [hstep.phase_self]
  rfl

omit [Fintype ι] in
theorem call_step (j : ι) : (c'.phase j).call = (c.phase j).call := by
  by_cases hj : j = i
  · rw [hj, hstep.phase_self]
    rfl
  · rw [hstep.phase_of_ne hj]

omit [Fintype ι] in
/-- When the call that moves does not begin a reset, none begins. -/
theorem isResetting_of_step (hself : (c'.phase i).stage.isResetting = false) {j : ι}
    (hj : (c'.phase j).stage.isResetting = true) : (c.phase j).stage.isResetting = true := by
  by_cases hji : j = i
  · rw [hji, hself] at hj
    cases hj
  · rwa [hstep.phase_of_ne hji] at hj

variable (hinv : Inv clock calls c)

include hinv

/-- A step that leaves the counter as it is, and neither begins a reset nor adds tokens. -/
theorem Inv.keep (hused : c'.state.world.usedToday = c.state.world.usedToday)
    (hresetting : (c'.phase i).stage.isResetting = false)
    (hrecorded : (c'.phase i).stage.recordedOn clock.after =
      (c.phase i).stage.recordedOn clock.after) : Inv clock calls c' := by
  have hstays : ∀ j, (c'.phase j).stage.recordedOn clock.after =
      (c.phase j).stage.recordedOn clock.after := by
    intro j
    by_cases hj : j = i
    · exact hj ▸ hrecorded
    · rw [hstep.phase_of_ne hj]
  -- neither the stage nor the call has changed in what is counted
  have hcounted : (c'.phase i).counted clock.after = (c.phase i).counted clock.after := by
    unfold CallPhase.counted
    rw [hrecorded, call_step hstep i]
  refine ⟨hstep.conforms hinv.conforms trivial, ?_, ?_, ?_⟩
  · intro j
    exact (call_step hstep j).trans (hinv.call j)
  · rw [counted_step hstep, hcounted, hused, Int.sub_self, Int.add_zero]
    exact hinv.covered
  · intro j k hj
    rw [hstays k]
    exact hinv.resetting j k (isResetting_of_step hstep hresetting hj)

end Step

section Effects

variable [DecidableEq ι] (hinv : Inv clock calls c)

include hinv

/-- The exchange of the day. Who wins it resets the counter, and no tokens of the new day are in
it. -/
theorem Inv.casDay {expected desired : Int} {x : Bool}
    (hstep : Pool.Step clock.machine callPhases c i (.casDay expected desired) x c')
    (hok : c.state.world.checkDay = expected →
      ∀ j, (c.phase j).stage.recordedOn clock.after = false) : Inv clock calls c' := by
  obtain ⟨hsaw, -⟩ : (c.phase i).stage = .saw desired expected ∧ expected ≠ desired :=
    hstep.demand hinv.conforms
  have hx : x = decide (c.state.world.checkDay = expected) := hstep.admits
  have hstage := stage_self hstep
  rw [hsaw] at hstage
  have hused : c'.state.world.usedToday = c.state.world.usedToday := by
    rw [hstep.state_eq]
    exact World.usedToday_next (e := .casDay expected desired) x (fun _ h => by cases h)
      fun _ h => by cases h
  by_cases hwon : c.state.world.checkDay = expected
  -- the exchange is won: the reset that begins has nothing of the new day to lose
  · obtain rfl : x = true := hx.trans (decide_eq_true hwon)
    have hnone : ∀ j, (c'.phase j).stage.recordedOn clock.after = false := by
      intro j
      by_cases hj : j = i
      · rw [hj, hstage]
        rfl
      · rw [hstep.phase_of_ne hj]
        exact hok hwon j
    have hbefore : (c.phase i).counted clock.after = 0 := CallPhase.counted_eq_zero (hok hwon i)
    have hafter : (c'.phase i).counted clock.after = 0 := CallPhase.counted_eq_zero (hnone i)
    refine ⟨hstep.conforms hinv.conforms trivial, ?_, ?_, fun _ k _ => hnone k⟩
    · intro j
      exact (call_step hstep j).trans (hinv.call j)
    · rw [counted_step hstep, hbefore, hafter, hused, Int.sub_self, Int.add_zero]
      exact hinv.covered
  -- it is lost: nothing has changed
  · obtain rfl : x = false := hx.trans (decide_eq_false hwon)
    refine hinv.keep hstep hused ?_ ?_
    · rw [hstage]
      rfl
    · rw [hstage, hsaw]
      rfl

/-- The reset. The tokens it drops are none of the new day. -/
theorem Inv.storeUsed {n : Int64} {x : Unit}
    (hstep : Pool.Step clock.machine callPhases c i (.storeUsed n) x c') : Inv clock calls c' := by
  obtain ⟨⟨today, hresetting⟩, rfl⟩ : (∃ today, (c.phase i).stage = .resetting today) ∧ n = 0 :=
    hstep.demand hinv.conforms
  have hstage := stage_self hstep
  rw [hresetting] at hstage
  -- no call has counted anything since the day was exchanged
  have hnone : ∀ j, (c'.phase j).stage.recordedOn clock.after = false := by
    intro j
    by_cases hj : j = i
    · rw [hj, hstage]
      rfl
    · rw [hstep.phase_of_ne hj]
      exact hinv.resetting i j (by rw [hresetting]; rfl)
  -- so the store loses nothing that was counted
  have hzero : c'.counted clock = 0 :=
    Finset.sum_eq_zero fun j _ => CallPhase.counted_eq_zero (hnone j)
  refine ⟨hstep.conforms hinv.conforms trivial, ?_, ?_, fun _ k _ => hnone k⟩
  · intro j
    exact (call_step hstep j).trans (hinv.call j)
  · rw [hzero, hstep.state_eq]
    exact Int.le_refl 0

/-- The addition. The counter grows by what the call records. -/
theorem Inv.addUsed {n : Int64} {x : Unit}
    (hstep : Pool.Step clock.machine callPhases c i (.addUsed n) x c')
    (hok : CarefulAdd clock c i (.addUsed n)) : Inv clock calls c' := by
  obtain ⟨⟨today, hsettled⟩, -⟩ :
    (∃ today, (c.phase i).stage = .settled today) ∧ (c.phase i).call.amount = some n :=
    hstep.demand hinv.conforms
  have hstage := stage_self hstep
  rw [hsettled] at hstage
  have hused : c'.state.world.usedToday = c.state.world.usedToday + n := by
    rw [hstep.state_eq]
    rfl
  have hfits := hok.fits n rfl
  have hbefore : (c.phase i).counted clock.after = 0 := by
    refine CallPhase.counted_eq_zero ?_
    rw [hsettled]
    rfl
  have hcall : ∀ j, (c'.phase j).call = calls j :=
    fun j => (call_step hstep j).trans (hinv.call j)
  have hself : (c'.phase i).stage.isResetting = false := by
    rw [hstage]
    rfl
  -- tokens of the new day are counted, those of the old one only raise the counter
  by_cases hday : today = clock.after
  · have hstarted : (c.phase i).stage.startedOn clock.after = true := by
      rw [hsettled]
      exact decide_eq_true hday
    have hidle := hok.noneResetting n rfl hstarted
    have hafter : (c'.phase i).counted clock.after = (c.phase i).call.tokens := by
      unfold CallPhase.counted
      rw [hstage, call_step hstep i]
      exact if_pos (decide_eq_true hday)
    refine ⟨hstep.conforms hinv.conforms trivial, hcall, ?_, ?_⟩
    · calc c'.counted clock
        _ = c.counted clock + (c.phase i).call.tokens := by
          rw [counted_step hstep, hbefore, hafter, Int.sub_zero]
        _ ≤ c.state.world.usedToday.toInt + (c.phase i).call.tokens :=
          Int.add_le_add_right hinv.covered _
        _ = c'.state.world.usedToday.toInt := by rw [hused, hfits]
    · intro j k hj
      have hbefore := isResetting_of_step hstep hself hj
      rw [hidle j] at hbefore
      cases hbefore
  · have hstarted : (c.phase i).stage.startedOn clock.after = false := by
      rw [hsettled]
      exact decide_eq_false hday
    have hnonneg := hok.nonneg n rfl hstarted
    have hnot : (c'.phase i).stage.recordedOn clock.after = false := by
      rw [hstage]
      exact decide_eq_false hday
    have hafter : (c'.phase i).counted clock.after = 0 := CallPhase.counted_eq_zero hnot
    refine ⟨hstep.conforms hinv.conforms trivial, hcall, ?_, ?_⟩
    · calc c'.counted clock
        _ = c.counted clock := by
          rw [counted_step hstep, hbefore, hafter, Int.sub_self, Int.add_zero]
        _ ≤ c.state.world.usedToday.toInt + 0 := by
          rw [Int.add_zero]
          exact hinv.covered
        _ ≤ c.state.world.usedToday.toInt + (c.phase i).call.tokens :=
          Int.add_le_add_left hnonneg _
        _ = c'.state.world.usedToday.toInt := by rw [hused, hfits]
    · intro j k hj
      by_cases hki : k = i
      · exact hki ▸ hnot
      · rw [hstep.phase_of_ne hki]
        exact hinv.resetting j k (isResetting_of_step hstep hself hj)

/-- Every careful step keeps the invariant. -/
theorem Inv.step {e : TurnEff} {x : e.Ans}
    (hstep : Pool.Step clock.machine callPhases c i e x c') (hok : CarefulStep clock c i e x) :
    Inv clock calls c' := by
  have hdemand : (c.phase i).Demand e := hstep.demand hinv.conforms
  have hstage := stage_self hstep
  -- steps that only look: the stage they lead to has neither begun a reset nor added tokens
  have hlook : (∀ n, e ≠ .storeUsed n) → (∀ n, e ≠ .addUsed n) →
      ((c.phase i).stage.next e x).isResetting = false →
      ((c.phase i).stage.next e x).recordedOn clock.after =
        (c.phase i).stage.recordedOn clock.after → Inv clock calls c' := by
    intro hstore hadd hresetting hrecorded
    refine hinv.keep hstep ?_ (hstage ▸ hresetting) (hstage ▸ hrecorded)
    rw [hstep.state_eq]
    exact World.usedToday_next x hstore hadd
  cases e with
  | today =>
    have hidle : (c.phase i).stage = .idle := hdemand
    refine hlook (fun _ h => by cases h) (fun _ h => by cases h) rfl ?_
    rw [hidle]
    rfl
  | loadDay =>
    obtain ⟨today, hasked⟩ : ∃ today, (c.phase i).stage = .asked today := hdemand
    rw [hasked] at hlook
    refine hlook (fun _ h => by cases h) (fun _ h => by cases h) ?_ ?_
    · show (if x = today then CallStage.settled today else .saw today x).isResetting = false
      split <;> rfl
    · show (if x = today then CallStage.settled today else .saw today x).recordedOn _ = false
      split <;> rfl
  | casDay expected desired => exact hinv.casDay hstep (hok.exchange expected desired rfl)
  | storeUsed n => exact hinv.storeUsed hstep
  | loadUsed =>
    obtain ⟨today, hsettled⟩ : ∃ today, (c.phase i).stage = .settled today := hdemand
    rw [hsettled] at hlook
    exact hlook (fun _ h => by cases h) (fun _ h => by cases h) rfl rfl
  | addUsed n => exact hinv.addUsed hstep hok.toCarefulAdd
  | rateLimit n actor =>
    obtain ⟨today, hsettled⟩ : ∃ today, (c.phase i).stage = .settled today := hdemand
    rw [hsettled] at hlook
    exact hlook (fun _ h => by cases h) (fun _ h => by cases h) rfl rfl
  | _ => exact absurd hdemand id

end Effects

/-- A reset drops what was counted of the new day, so a step that is not careful loses it. -/
theorem counted_lost [DecidableEq ι] {n : Int64} {x : Unit}
    (hconforms : c.Conforms callPhases CallPhase.Demand CallPhase.IsDone)
    (hstep : Pool.Step clock.machine callPhases c i (.storeUsed n) x c')
    (hcounted : 0 < c.counted clock) : c'.state.world.usedToday.toInt < c'.counted clock := by
  obtain ⟨⟨today, hresetting⟩, rfl⟩ : (∃ today, (c.phase i).stage = .resetting today) ∧ n = 0 :=
    hstep.demand hconforms
  have hstage := stage_self hstep
  rw [hresetting] at hstage
  -- the call that stores has counted nothing itself
  have hbefore : (c.phase i).counted clock.after = 0 := by
    refine CallPhase.counted_eq_zero ?_
    rw [hresetting]
    rfl
  have hafter : (c'.phase i).counted clock.after = 0 := by
    refine CallPhase.counted_eq_zero ?_
    rw [hstage]
    rfl
  calc c'.state.world.usedToday.toInt
    _ = 0 := by
      rw [hstep.state_eq]
      rfl
    _ < c.counted clock := hcounted
    _ = c'.counted clock := by
      rw [counted_step hstep, hbefore, hafter, Int.sub_self, Int.add_zero]

/-- What is counted when all calls are over: the tokens of the calls that have read the new day. -/
theorem Inv.counted_eq (hinv : Inv clock calls c) (hover : ∀ j, (c.rest j).isOver = true) :
    c.counted clock =
      ∑ j with (c.phase j).stage.startedOn clock.after = true, (calls j).tokens := by
  rw [Finset.sum_filter]
  refine Finset.sum_congr rfl fun j _ => ?_
  have hdone : (c.phase j).IsDone := hinv.conforms.of_isOver (hover j)
  have hcall := hinv.call j
  unfold CallPhase.IsDone at hdone
  unfold CallPhase.counted
  rw [hcall] at hdone ⊢
  cases hj : calls j with
  | check actor =>
    -- a check records nothing
    simp [PolicyCall.tokens]
  | record prompt completion =>
    rw [hj] at hdone
    obtain ⟨today, hrecorded⟩ := hdone (by simp [PolicyCall.amount])
    rw [hrecorded]
    rfl

/-! ### Days that go forward -/

section Forward

/-- What holds throughout a run in which the day of the counter goes forward only. -/
structure Forward (clock : DayChange) (c : PolicyCalls ι) : Prop where
  changed : ∀ j, (c.phase j).stage.startedOn clock.after = true → c.state.changed = true
  agrees : ∀ j, (c.phase j).stage.Agrees clock.after c.state.world.checkDay

variable [DecidableEq ι] {e : TurnEff} {x : e.Ans}

omit [Fintype ι] in
/-- Such a step is careful: behind the first addition of the new day the counter is of that day, and
nobody exchanges it. -/
theorem careful_of_forward (hforward : c.Forward clock)
    (hconforms : c.Conforms callPhases CallPhase.Demand CallPhase.IsDone)
    (hstep : Pool.Step clock.machine callPhases c i e x c') (hok : ForwardStep clock c i e x) :
    CarefulStep clock c i e x := by
  refine ⟨hok.toCarefulAdd, ?_⟩
  rintro expected desired rfl hwon j
  obtain ⟨-, hother⟩ : (c.phase i).stage = .saw desired expected ∧ expected ≠ desired :=
    hstep.demand hconforms
  -- if tokens of the new day were added, the exchange would be one of the new day for itself
  refine Bool.eq_false_iff.mpr fun hrecorded => hother ?_
  have hchanged := hforward.changed j (CallStage.startedOn_of_recordedOn hrecorded)
  have hday : c.state.world.checkDay = clock.after := by
    have hagrees := hforward.agrees j
    cases hstage : (c.phase j).stage with
    | recorded today =>
      rw [hstage] at hagrees hrecorded
      exact hagrees (of_decide_eq_true hrecorded)
    | _ =>
      rw [hstage] at hrecorded
      cases hrecorded
  calc expected = c.state.world.checkDay := hwon.symm
    _ = clock.after := hday
    _ = desired := (hok.exchange expected desired rfl hwon hchanged).symm

omit [Fintype ι] [DecidableEq ι] in
theorem Forward.start {policy : PolicyConfig} {w : World} :
    (startCalls policy calls w).Forward clock :=
  ⟨fun _ h => (by cases h), fun _ => trivial⟩

omit [Fintype ι] in
/-- Who has read the new day has made it known. -/
theorem Forward.changed_step (hforward : c.Forward clock)
    (hstep : Pool.Step clock.machine callPhases c i e x c') (j : ι)
    (hj : (c'.phase j).stage.startedOn clock.after = true) : c'.state.changed = true := by
  rw [hstep.state_eq]
  show (c.state.changed || clock.isChange e x) = true
  by_cases hji : j = i
  · rw [hji, stage_self hstep] at hj
    -- a step that reads the clock, or one of a call that has read it before
    by_cases htoday : e = .today
    · subst htoday
      rw [show clock.isChange .today x = true from hj, Bool.or_true]
    · rw [CallStage.startedOn_next htoday] at hj
      rw [hforward.changed i hj, Bool.true_or]
  · rw [hstep.phase_of_ne hji] at hj
    rw [hforward.changed j hj, Bool.true_or]

omit [Fintype ι] in
/-- The exchange of the day, won or lost, agrees with what the calls have learned. -/
theorem Forward.agrees_casDay (hforward : c.Forward clock) {expected desired : Int} {x : Bool}
    (hconforms : c.Conforms callPhases CallPhase.Demand CallPhase.IsDone)
    (hstep : Pool.Step clock.machine callPhases c i (.casDay expected desired) x c')
    (hok : ForwardStep clock c i (.casDay expected desired) x) (j : ι) :
    (c'.phase j).stage.Agrees clock.after c'.state.world.checkDay := by
  obtain ⟨hsaw, -⟩ : (c.phase i).stage = .saw desired expected ∧ expected ≠ desired :=
    hstep.demand hconforms
  have hx : x = decide (c.state.world.checkDay = expected) := hstep.admits
  have hworld : c'.state.world = if c.state.world.checkDay = expected then
      { c.state.world with checkDay := desired } else c.state.world := by
    rw [hstep.state_eq]
    rfl
  by_cases hwon : c.state.world.checkDay = expected
  · rw [if_pos hwon] at hworld
    rw [hworld]
    cases hchanged : c.state.changed with
    | true =>
      rw [hok.exchange expected desired rfl hwon hchanged]
      exact CallStage.agrees_date
    | false =>
      -- nobody has read the new day, nor does this step
      refine CallStage.agrees_of_not_startedOn (Bool.eq_false_iff.mpr fun hj => ?_)
      have hchanged' : c'.state.changed = c.state.changed := by
        rw [hstep.state_eq]
        exact Bool.or_false _
      rw [hforward.changed_step hstep j hj, hchanged] at hchanged'
      cases hchanged'
  · rw [if_neg hwon] at hworld
    rw [hworld]
    by_cases hj : j = i
    · rw [hj, stage_self hstep, hsaw, hx.trans (decide_eq_false hwon)]
      have hagrees := hforward.agrees i
      rw [hsaw] at hagrees
      exact fun hday => (hagrees hday).resolve_left hwon
    · rw [hstep.phase_of_ne hj]
      exact hforward.agrees j

omit [Fintype ι] in
theorem Forward.step (hforward : c.Forward clock)
    (hconforms : c.Conforms callPhases CallPhase.Demand CallPhase.IsDone)
    (hstep : Pool.Step clock.machine callPhases c i e x c') (hok : ForwardStep clock c i e x) :
    c'.Forward clock := by
  refine ⟨hforward.changed_step hstep, ?_⟩
  -- only the exchange changes the day
  by_cases hcas : ∃ expected desired, e = .casDay expected desired
  · obtain ⟨expected, desired, rfl⟩ := hcas
    exact hforward.agrees_casDay hconforms hstep hok
  have hcheckDay : c'.state.world.checkDay = c.state.world.checkDay := by
    rw [hstep.state_eq]
    exact World.checkDay_next x fun expected desired he => hcas ⟨expected, desired, he⟩
  intro j
  rw [hcheckDay]
  by_cases hj : j = i
  swap
  · rw [hstep.phase_of_ne hj]
    exact hforward.agrees j
  subst hj
  rw [stage_self hstep]
  have hdemand : (c.phase j).Demand e := hstep.demand hconforms
  have hagrees := hforward.agrees j
  cases e with
  | today => trivial
  | loadDay =>
    obtain ⟨today, hasked⟩ : ∃ today, (c.phase j).stage = .asked today := hdemand
    have hx : x = c.state.world.checkDay := hstep.admits
    rw [hasked, hx]
    show (if c.state.world.checkDay = today then CallStage.settled today
      else .saw today _).Agrees _ _
    split
    -- the day that is read is today, or one that has to be exchanged
    · next hsame => exact fun hday => hsame.trans hday
    · exact fun _ => Or.inl rfl
  | casDay expected desired => exact absurd ⟨expected, desired, rfl⟩ hcas
  | storeUsed n =>
    obtain ⟨⟨today, hresetting⟩, -⟩ := hdemand
    rw [hresetting] at hagrees ⊢
    exact hagrees
  | loadUsed =>
    obtain ⟨today, hsettled⟩ := hdemand
    rw [hsettled] at hagrees ⊢
    exact hagrees
  | addUsed n =>
    obtain ⟨⟨today, hsettled⟩, -⟩ := hdemand
    rw [hsettled] at hagrees ⊢
    exact hagrees
  | rateLimit n actor =>
    obtain ⟨today, hsettled⟩ := hdemand
    rw [hsettled] at hagrees ⊢
    exact hagrees
  | _ => exact absurd hdemand id

end Forward

end PolicyCalls

/-! ### Runs -/

section Runs

variable {ι : Type} [Fintype ι] [DecidableEq ι] {clock : DayChange} {policy : PolicyConfig}
  {calls : ι → PolicyCall} {w : World} {c : PolicyCalls ι}

/-- **The tokens of the new day are kept** in a run of careful steps: when all calls are over, the
counter covers what the calls have recorded that have read the new day. -/
theorem tokens_kept (hw : 0 ≤ w.usedToday.toInt)
    (hrun : Pool.Run clock.machine callPhases (CarefulStep clock) (startCalls policy calls w) c)
    (hover : ∀ j, (c.rest j).isOver = true) :
    ∑ j with (c.phase j).stage.startedOn clock.after = true, (calls j).tokens ≤
      c.state.world.usedToday.toInt := by
  have hinv : PolicyCalls.Inv clock calls c :=
    hrun.invariant (.start hw) fun hinv hstep hok => hinv.step hstep hok
  rw [← hinv.counted_eq hover]
  exact hinv.covered

/-- They are kept when the day of the counter goes forward only. -/
theorem tokens_kept_forward (hw : 0 ≤ w.usedToday.toInt)
    (hrun : Pool.Run clock.machine callPhases (ForwardStep clock) (startCalls policy calls w) c)
    (hover : ∀ j, (c.rest j).isOver = true) :
    ∑ j with (c.phase j).stage.startedOn clock.after = true, (calls j).tokens ≤
      c.state.world.usedToday.toInt := by
  obtain ⟨hinv, -⟩ : PolicyCalls.Inv clock calls c ∧ PolicyCalls.Forward clock c := by
    refine hrun.invariant
      (I := fun c => PolicyCalls.Inv clock calls c ∧ PolicyCalls.Forward clock c)
      ⟨.start hw, .start⟩ ?_
    rintro c c' i e x ⟨hinv, hforward⟩ hstep hok
    have hcareful := PolicyCalls.careful_of_forward hforward hinv.conforms hstep hok
    exact ⟨hinv.step hstep hcareful, hforward.step hinv.conforms hstep hok⟩
  rw [← hinv.counted_eq hover]
  exact hinv.covered

end Runs

/-! ### Two calls at midnight -/

/-- The first day of the year turns to the second. -/
def newYear : DayChange := ⟨0, 1, by decide⟩

/-- One call records 3 tokens, the other one 5. -/
def twoCalls : Bool → PolicyCall
  | true => .record 3 0
  | false => .record 0 5

/-- The calls, before they begin. The counter is of the old day. -/
def beforeMidnight : PolicyCalls Bool := startCalls {} twoCalls {}

section TwoCalls

variable {ok : PolicyCalls Bool → Bool → (e : TurnEff) → e.Ans → Prop}

/-- One more step of a run of the two calls. -/
theorem step_twoCalls {c : PolicyCalls Bool}
    (hrun : Pool.Run newYear.machine callPhases ok beforeMidnight c) (i : Bool) (e : TurnEff)
    (x : e.Ans) {k : e.Ans → Turn Unit} (hrest : c.rest i = .op e k)
    (hx : newYear.Admits c.state e x) (hok : ok c i e x) :
    Pool.Run newYear.machine callPhases ok beforeMidnight
      (c.move newYear.machine callPhases i e x k) :=
  hrun.step (.mk hrest hx) hok

/-- A step that neither exchanges the day nor adds tokens is careful. -/
theorem careful_of_other {c : PolicyCalls Bool} {i : Bool} {e : TurnEff} {x : e.Ans}
    (hcas : ∀ expected desired, e ≠ .casDay expected desired) (hadd : ∀ n, e ≠ .addUsed n) :
    CarefulStep newYear c i e x where
  noneResetting := fun n he => absurd he (hadd n)
  nonneg := fun n he => absurd he (hadd n)
  fits := fun n he => absurd he (hadd n)
  exchange := fun expected desired he => absurd he (hcas expected desired)

/-- Nor is an addition of the new day harmful while no reset is under way. -/
theorem careful_of_addUsed {c : PolicyCalls Bool} {i : Bool} {n : Int64} {x : Unit}
    (hidle : ∀ j, (c.phase j).stage.isResetting = false)
    (hstarted : (c.phase i).stage.startedOn newYear.after = true)
    (hfits : (c.state.world.usedToday + n).toInt =
      c.state.world.usedToday.toInt + (c.phase i).call.tokens) :
    CarefulStep newYear c i (.addUsed n) x where
  noneResetting := fun _ _ _ => hidle
  nonneg := fun _ _ hnot => by
    rw [hstarted] at hnot
    cases hnot
  fits := fun n' he => by
    cases he
    exact hfits
  exchange := fun _ _ he => by cases he

/-- The second call starts when the first one has reset the counter. -/
theorem twoCalls_kept : ∃ c : PolicyCalls Bool,
    (∑ j with (c.phase j).stage.startedOn newYear.after = true, (twoCalls j).tokens) ≤
        c.state.world.usedToday.toInt ∧
      c.state.world.usedToday = 8 ∧ ∀ j, (c.phase j).stage = .recorded 1 := by
  have h₀ : Pool.Run newYear.machine callPhases (CarefulStep newYear) beforeMidnight
    beforeMidnight := .start
  -- the first call sees the new day and exchanges it
  have h₁ := step_twoCalls h₀ true .today (1 : Int) rfl (Or.inl rfl)
    (careful_of_other (fun _ _ h => by cases h) fun _ h => by cases h)
  have h₂ := step_twoCalls h₁ true .loadDay (0 : Int) rfl rfl
    (careful_of_other (fun _ _ h => by cases h) fun _ h => by cases h)
  have h₃ := step_twoCalls h₂ true (.casDay 0 1) true rfl rfl
    { noneResetting := fun n he => by cases he
      nonneg := fun n he => by cases he
      fits := fun n he => by cases he
      exchange := fun _ _ _ _ => Bool.forall_bool.mpr ⟨rfl, rfl⟩ }
  -- the second one begins before the counter is stored
  have h₄ := step_twoCalls h₃ false .today (1 : Int) rfl (Or.inl rfl)
    (careful_of_other (fun _ _ h => by cases h) fun _ h => by cases h)
  have h₅ := step_twoCalls h₄ true (.storeUsed 0) () rfl trivial
    (careful_of_other (fun _ _ h => by cases h) fun _ h => by cases h)
  -- but adds behind the store
  have h₆ := step_twoCalls h₅ false .loadDay (1 : Int) rfl rfl
    (careful_of_other (fun _ _ h => by cases h) fun _ h => by cases h)
  have h₇ := step_twoCalls h₆ false (.addUsed 5) () rfl trivial
    (careful_of_addUsed (Bool.forall_bool.mpr ⟨rfl, rfl⟩) rfl rfl)
  have h₈ := step_twoCalls h₇ true (.addUsed 3) () rfl trivial
    (careful_of_addUsed (Bool.forall_bool.mpr ⟨rfl, rfl⟩) rfl rfl)
  -- so both are counted
  exact ⟨_, tokens_kept (by decide) h₈ (Bool.forall_bool.mpr ⟨rfl, rfl⟩), rfl,
    Bool.forall_bool.mpr ⟨rfl, rfl⟩⟩

/-- **A call that slips between the exchange and the store loses its tokens.** Both calls have read
the new day. The first one wins the exchange, the second one finds the day settled and adds its
tokens, and the first one stores zero. -/
theorem slipping_call_loses_tokens :
    ¬ ∀ (ι : Type) [Fintype ι] [DecidableEq ι] (clock : DayChange) (policy : PolicyConfig)
      (calls : ι → PolicyCall) (w : World) (c : PolicyCalls ι), 0 ≤ w.usedToday.toInt →
      Pool.Run clock.machine callPhases (fun _ _ _ _ => True) (startCalls policy calls w) c →
      (∀ j, (c.rest j).isOver = true) →
      ∑ j with (c.phase j).stage.startedOn clock.after = true, (calls j).tokens ≤
        c.state.world.usedToday.toInt := by
  intro hall
  have h₀ : Pool.Run newYear.machine callPhases (fun _ _ _ _ => True) beforeMidnight
    beforeMidnight := .start
  have h₁ := step_twoCalls h₀ true .today (1 : Int) rfl (Or.inl rfl) trivial
  have h₂ := step_twoCalls h₁ true .loadDay (0 : Int) rfl rfl trivial
  have h₃ := step_twoCalls h₂ true (.casDay 0 1) true rfl rfl trivial
  -- the other call runs from its begin to its end before the store
  have h₄ := step_twoCalls h₃ false .today (1 : Int) rfl (Or.inl rfl) trivial
  have h₅ := step_twoCalls h₄ false .loadDay (1 : Int) rfl rfl trivial
  have h₆ := step_twoCalls h₅ false (.addUsed 5) () rfl trivial trivial
  have h₇ := step_twoCalls h₆ true (.storeUsed 0) () rfl trivial trivial
  have h₈ := step_twoCalls h₇ true (.addUsed 3) () rfl trivial trivial
  have hkept := hall Bool newYear {} twoCalls {} _ (by decide) h₈
    (Bool.forall_bool.mpr ⟨rfl, rfl⟩)
  exact absurd hkept (by decide)

end TwoCalls

end Aestival
