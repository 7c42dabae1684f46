import Aestival.Agent.Controller
import Aestival.Agent.RateWindows

/-!
# The rate limit as independent limiters

A policy engine without a token budget, called again and again: `PolicyConfig.checkCalls` runs
`check_llm_call` on a shared engine. What it is for is said without tables, erasing and machine
integers: each actor has a window of its own, which a call leaves behind once a whole minute is
over, and in which the first calls pass (`independentLimiters`).

Erasing stale entries is never seen. What is seen is the width of the counter: `callNumbers` numbers
the calls of an actor within its windows, and the engine behaves as it should as long as no number
reaches 2^31 (`checkCalls_independent_iff`).
-/

namespace Aestival

open Bytes RateTable

/-! ### Calls of the engine -/

/-- A call of `check_llm_call`: the actor, and what the steady clock and the calendar say. -/
structure CheckCall where
  actor : Bytes
  now : Int
  day : Int := 0

/-- The surroundings of a call. The clocks are all it asks. -/
def CheckCall.around (call : CheckCall) : Scenario where
  model := fun _ => .error .exception
  dayOfYear := call.day
  steadyNanos := call.now

/-- No reason to skip the call was returned. -/
def goesOn : Except Thrown (Option Bytes) → Bool
  | .ok none => true
  | _ => false

/-- A call: what it leaves, and whether the actor may go on. -/
def PolicyConfig.checkCall (policy : PolicyConfig) (w : World) (call : CheckCall) : World × Bool :=
  let (_, w', r) := Prog.simulate World.machine (World.answer call.around) w
    (checkLlmCall policy call.actor)
  (w', goesOn r)

/-- The results of calls that follow one another. -/
def PolicyConfig.checkCalls (policy : PolicyConfig) : World → List CheckCall → List Bool
  | _, [] => []
  | w, call :: calls =>
    (policy.checkCall w call).2 :: policy.checkCalls (policy.checkCall w call).1 calls

/-- The steady clock reads from its epoch on, and never goes back. -/
structure SteadyCalls (calls : List CheckCall) : Prop where
  started : ∀ call ∈ calls, 0 ≤ call.now
  ordered : calls.Pairwise fun a b => a.now ≤ b.now

/-! ### Independent limiters -/

/-- The window of an actor. The first one has begun with the clock. -/
structure FixedWindow where
  start : Int := 0
  count : Nat := 0

namespace FixedWindow

/-- Sixty whole seconds have passed. -/
def IsOver (w : FixedWindow) (now : Int) : Prop := 60 ≤ (now - w.start) / nanosPerSecond

instance (w : FixedWindow) (now : Int) : Decidable (w.IsOver now) :=
  inferInstanceAs (Decidable (_ ≤ _))

/-- The window behind a call. The call is counted in it. -/
def next (w : FixedWindow) (now : Int) : FixedWindow :=
  if w.IsOver now then { start := now, count := 1 } else { w with count := w.count + 1 }

/-- A call opens a new window, or it is refused once the count exceeds the limit. -/
def passes (limit : Int) (w : FixedWindow) (now : Int) : Bool :=
  if w.IsOver now then true else !decide (limit < w.count + 1)

/-- The state that stands for the window in the engine. -/
def toState (w : FixedWindow) : RateState where
  windowStart := w.start
  count := Int32.ofNat w.count

end FixedWindow

/-- The results of one limiter for each actor. -/
def independentLimiters (limit : Int) : (Bytes → FixedWindow) → List CheckCall → List Bool
  | _, [] => []
  | own, call :: calls =>
    (own call.actor).passes limit call.now ::
      independentLimiters limit
        (Function.update own call.actor ((own call.actor).next call.now)) calls

/-- The number each call has in the window of its actor. -/
def callNumbers : (Bytes → FixedWindow) → List CheckCall → List Nat
  | _, [] => []
  | own, call :: calls =>
    let w := (own call.actor).next call.now
    w.count :: callNumbers (Function.update own call.actor w) calls

/-- The results are those of independent limiters: in each window exactly the first `limit` calls
pass. -/
structure Independent (limit : Int) (calls : List CheckCall) (results : List Bool) : Prop where
  eq_limiters : results = independentLimiters limit (fun _ => {}) calls
  first_pass : results =
    (callNumbers (fun _ => {}) calls).map fun k : Nat => decide ((k : Int) ≤ limit)

section Limiters

variable {own : Bytes → FixedWindow} {w : FixedWindow} {limit now : Int}

theorem FixedWindow.passes_eq (hlimit : 0 < limit) :
    w.passes limit now = decide (((w.next now).count : Int) ≤ limit) := by
  unfold passes next
  split
  · exact (decide_eq_true hlimit).symm
  · rw [Bool.eq_iff_iff]
    simp only [Bool.not_eq_true', decide_eq_false_iff_not, decide_eq_true_eq]
    omega

theorem independentLimiters_eq (hlimit : 0 < limit) (calls : List CheckCall) :
    independentLimiters limit own calls =
      (callNumbers own calls).map fun k : Nat => decide ((k : Int) ≤ limit) := by
  induction calls generalizing own with
  | nil => rfl
  | cons call calls ih =>
    rw [independentLimiters, callNumbers, List.map_cons, ih, FixedWindow.passes_eq hlimit]

/-- The numbers of an actor grow one by one, so a large one follows every smaller one. -/
theorem mem_callNumbers_of_le {calls : List CheckCall} {k n : Nat} (hpos : 0 < n)
    (hown : ∀ c, (own c).count < n) (hk : k ∈ callNumbers own calls) (hle : n ≤ k) :
    n ∈ callNumbers own calls := by
  induction calls generalizing own with
  | nil => exact absurd hk List.not_mem_nil
  | cons call calls ih =>
    rw [callNumbers, List.mem_cons] at hk ⊢
    have hnext : ((own call.actor).next call.now).count ≤ n := by
      have hlt := hown call.actor
      unfold FixedWindow.next
      split
      · exact hpos
      · exact hlt
    -- the number of this call, or one of a later call
    by_cases hn : n = ((own call.actor).next call.now).count
    · exact .inl hn
    · refine .inr (ih ?_ (hk.resolve_left fun hk => hn (by omega)))
      intro c
      by_cases hc : c = call.actor
      · subst hc
        rw [Function.update_self]
        omega
      · rw [Function.update_of_ne hc]
        exact hown c

end Limiters

/-! ### The engine -/

section Engine

variable {policy : PolicyConfig} {own : Bytes → FixedWindow} {w : FixedWindow} {now t : Int}
  {world : World}

/-- The reset of the day returns, and leaves the windows alone. -/
theorem simulate_atomicDayReset (around : Scenario) (world : World) :
    ∃ w',
      (Prog.simulate World.machine (World.answer around) world atomicDayReset).2 = (w', .ok ()) ∧
      w'.rateLimits = world.rateLimits := by
  show ∃ w', (Prog.simulate World.machine (World.answer around) world
    (if world.checkDay = around.dayOfYear then pure ()
      else act (.casDay world.checkDay around.dayOfYear) >>= fun won : Bool =>
        if won then act (.storeUsed 0) else pure ())).2 = (w', .ok ()) ∧
      w'.rateLimits = world.rateLimits
  by_cases hday : world.checkDay = around.dayOfYear
  · rw [if_pos hday]
    exact ⟨world, rfl, rfl⟩
  · rw [if_neg hday]
    -- nobody is in between, so the exchange is won
    show ∃ w', (Prog.simulate World.machine (World.answer around)
      (if world.checkDay = world.checkDay then { world with checkDay := around.dayOfYear }
        else world)
      (if decide (world.checkDay = world.checkDay) = true then act (.storeUsed 0) else pure ())).2 =
        (w', .ok ()) ∧ w'.rateLimits = world.rateLimits
    rw [if_pos rfl, decide_eq_true rfl, if_pos rfl]
    exact ⟨_, rfl, rfl⟩

/-- Without a budget a call is the critical section of the rate limit. -/
theorem checkCall_spec (hbudget : ¬ policy.dailyTokenBudget > 0)
    (hmax : policy.maxMessagesPerMinute > 0) (world : World) (call : CheckCall) :
    (policy.checkCall world call).2 =
        (rateLimit policy.maxMessagesPerMinute world.rateLimits call.actor call.now).2 ∧
      (policy.checkCall world call).1.rateLimits =
        (rateLimit policy.maxMessagesPerMinute world.rateLimits call.actor call.now).1 := by
  have hrate : checkRate policy call.actor =
      (act (.rateLimit policy.maxMessagesPerMinute call.actor) >>= fun answer : RateAnswer =>
        pure (if answer.allowed then none else some (utf8 "消息发送过快，请稍后再试"))) :=
    if_pos hmax
  -- without a budget the check is the reset of the day and the rate limit
  have hcheck : checkLlmCall policy call.actor =
      (atomicDayReset >>= fun _ => checkRate policy call.actor) := by
    unfold checkLlmCall
    simp only [hbudget, if_false]
  -- and the reset touches no window
  obtain ⟨w', hreset, hrates⟩ := simulate_atomicDayReset call.around world
  have hrun := Prog.simulate_bind_ok (f := fun _ => checkRate policy call.actor) hreset
  rw [← hcheck, hrate] at hrun
  have hcall : policy.checkCall world call = _ := congrArg (Prod.map id goesOn) hrun
  rw [hcall, ← hrates]
  refine ⟨?_, rfl⟩
  show goesOn (.ok (if (rateLimit policy.maxMessagesPerMinute w'.rateLimits call.actor
    call.now).2 then none else some (utf8 "消息发送过快，请稍后再试"))) = _
  cases (rateLimit policy.maxMessagesPerMinute w'.rateLimits call.actor call.now).2 with
  | true => rfl
  | false => rfl

/-- The check of the state that stands for a window is a call of the window, up to the width of the
counter. -/
theorem check_toState {maxMessagesPerMinute : Int32} (hmax : 0 < maxMessagesPerMinute)
    (hstart : w.start ≤ now) :
    w.toState.check maxMessagesPerMinute now =
      ((w.next now).toState, !decide (maxMessagesPerMinute < Int32.ofNat (w.next now).count)) := by
  -- the clock has not gone back, so truncation and rounding down agree and the time is not negative
  have helapsed : (now - w.start).tdiv nanosPerSecond = (now - w.start) / nanosPerSecond :=
    Int.tdiv_eq_ediv_of_nonneg (by omega)
  have hnonneg : 0 ≤ (now - w.start) / nanosPerSecond :=
    Int.ediv_nonneg (by omega) (by decide)
  have hover : (now - w.toState.windowStart).tdiv nanosPerSecond ≥ kRateWindowSeconds ∨
      (now - w.toState.windowStart).tdiv nanosPerSecond < 0 ↔ w.IsOver now := by
    show (now - w.start).tdiv nanosPerSecond ≥ kRateWindowSeconds ∨
      (now - w.start).tdiv nanosPerSecond < 0 ↔ w.IsOver now
    rw [helapsed]
    exact or_iff_left (Int.not_lt.mpr hnonneg)
  unfold RateState.check FixedWindow.next
  dsimp only
  by_cases h : w.IsOver now
  · rw [if_pos (hover.mpr h), if_pos h]
    -- the first call of a window passes any positive limit
    have hone : ¬ maxMessagesPerMinute < Int32.ofNat 1 := by
      rw [Int32.lt_iff_toInt_lt] at hmax ⊢
      have h0 : (0 : Int32).toInt = 0 := rfl
      have h1 : (Int32.ofNat 1).toInt = 1 := rfl
      omega
    rw [decide_eq_false hone]
    rfl
  · rw [if_neg (mt hover.mp h), if_neg h, decide_not]
    have hadd : Int32.ofNat (w.count + 1) = Int32.ofNat w.count + 1 := Int32.ofNat_add w.count 1
    rw [hadd]
    simp only [FixedWindow.toState, hadd]
    rfl

/-- The results of the engine are told by the numbers of the calls, as its counter holds them. -/
theorem checkCalls_eq {calls : List CheckCall} (hbudget : ¬ policy.dailyTokenBudget > 0)
    (hmax : policy.maxMessagesPerMinute > 0)
    (htracks : world.rateLimits.Tracks t fun c => (own c).toState) (hown : ∀ c, (own c).start ≤ t)
    (hlater : ∀ call ∈ calls, t ≤ call.now) (hclock : SteadyCalls calls) :
    policy.checkCalls world calls = (callNumbers own calls).map fun k : Nat =>
      !decide (policy.maxMessagesPerMinute < Int32.ofNat k) := by
  induction calls generalizing world own t with
  | nil => rfl
  | cons call calls ih =>
    have hnow : 0 ≤ call.now := hclock.started call List.mem_cons_self
    have hle : t ≤ call.now := hlater call List.mem_cons_self
    obtain ⟨hpassed, htable⟩ := checkCall_spec hbudget hmax world call
    obtain ⟨hresult, hnext⟩ :=
      rateLimit_tracks policy.maxMessagesPerMinute call.actor (htracks.mono hle) hnow
    rw [check_toState hmax (Int.le_trans (hown call.actor) hle)] at hresult hnext
    rw [← htable] at hnext
    rw [PolicyConfig.checkCalls, callNumbers, List.map_cons, hpassed, hresult]
    congr 1
    refine ih (t := call.now) ?_ ?_ (List.pairwise_cons.mp hclock.ordered).1 ?_
    -- the limiters behind the call stand for the table behind it
    · convert hnext using 1
      ext c : 1
      by_cases hc : c = call.actor
      · subst hc
        rw [Function.update_self, Function.update_self]
      · rw [Function.update_of_ne hc, Function.update_of_ne hc]
    · intro c
      by_cases hc : c = call.actor
      · subst hc
        rw [Function.update_self]
        unfold FixedWindow.next
        split
        · exact Int.le_refl _
        · exact Int.le_trans (hown _) hle
      · rw [Function.update_of_ne hc]
        exact Int.le_trans (hown c) hle
    · exact ⟨fun c hc => hclock.started c (List.mem_cons_of_mem _ hc),
        (List.pairwise_cons.mp hclock.ordered).2⟩

theorem SteadyCalls.checkCalls_eq {calls : List CheckCall} (hclock : SteadyCalls calls)
    (policy : PolicyConfig) (world : World) (hbudget : ¬ policy.dailyTokenBudget > 0)
    (hmax : policy.maxMessagesPerMinute > 0) (hworld : world.rateLimits = []) :
    policy.checkCalls world calls = (callNumbers (fun _ => {}) calls).map fun k : Nat =>
      !decide (policy.maxMessagesPerMinute < Int32.ofNat k) :=
  Aestival.checkCalls_eq hbudget hmax (hworld ▸ Tracks.nil 0) (fun _ => Int.le_refl 0)
    hclock.started hclock

/-- The counter holds a number that fits. -/
theorem decide_ofNat_eq {m : Int32} {k : Nat} (hk : k < 2147483648) :
    (!decide (m < Int32.ofNat k)) = decide ((k : Int) ≤ m.toInt) := by
  rw [Bool.eq_iff_iff]
  simp only [Bool.not_eq_true', decide_eq_false_iff_not, decide_eq_true_eq]
  rw [Int32.lt_iff_toInt_lt, Int32.toInt_ofNat_of_lt hk, Int.not_lt]

/-- The number 2^31 does not fit: it is below every limit. -/
theorem decide_ofNat_ne (m : Int32) :
    (!decide (m < Int32.ofNat 2147483648)) ≠ decide (((2147483648 : Nat) : Int) ≤ m.toInt) := by
  have hmin : (Int32.ofNat 2147483648).toInt = -2147483648 := by decide
  have hlow := m.le_toInt
  have hhigh := m.toInt_lt
  have hwrapped : ¬ m < Int32.ofNat 2147483648 := by
    rw [Int32.lt_iff_toInt_lt, hmin]
    omega
  have hreal : ¬ ((2147483648 : Nat) : Int) ≤ m.toInt := by omega
  rw [decide_eq_false hwrapped, decide_eq_false hreal]
  decide

/-- **The engine behaves like independent limiters exactly as long as no actor calls 2^31 times in
one window.** -/
theorem checkCalls_independent_iff (policy : PolicyConfig) (world : World) (calls : List CheckCall)
    (hbudget : ¬ policy.dailyTokenBudget > 0) (hmax : policy.maxMessagesPerMinute > 0)
    (hworld : world.rateLimits = []) (hclock : SteadyCalls calls) :
    Independent policy.maxMessagesPerMinute.toInt calls (policy.checkCalls world calls) ↔
      ∀ k ∈ callNumbers (fun _ => {}) calls, k < 2147483648 := by
  have hlimit : 0 < policy.maxMessagesPerMinute.toInt := Int32.lt_iff_toInt_lt.mp hmax
  have hresults := hclock.checkCalls_eq policy world hbudget hmax hworld
  constructor
  · intro h k hk
    by_contra hlarge
    -- then the call with the number 2^31 has been made, and it passes
    have hmem : 2147483648 ∈ callNumbers (fun _ => {}) calls :=
      mem_callNumbers_of_le (by decide) (fun _ => by decide) hk (Nat.le_of_not_lt hlarge)
    have hmaps := hresults.symm.trans h.first_pass
    exact decide_ofNat_ne _ (List.map_inj_left.mp hmaps _ hmem)
  · intro h
    have hfirst : policy.checkCalls world calls = (callNumbers (fun _ => {}) calls).map
        fun k : Nat => decide ((k : Int) ≤ policy.maxMessagesPerMinute.toInt) := by
      rw [hresults]
      exact List.map_congr_left fun k hk => decide_ofNat_eq (h k hk)
    -- every number fits, so the machine integers say what the numbers say
    exact ⟨hfirst.trans (independentLimiters_eq hlimit calls).symm, hfirst⟩

end Engine

/-- An engine that lets one message pass in a window, called by two actors. -/
theorem checkCalls_two_actors :
    Independent 1 [⟨[97], 0, 0⟩, ⟨[98], 1, 0⟩, ⟨[97], 2, 0⟩]
      (PolicyConfig.checkCalls { maxMessagesPerMinute := 1 } {}
        [⟨[97], 0, 0⟩, ⟨[98], 1, 0⟩, ⟨[97], 2, 0⟩]) :=
  (checkCalls_independent_iff { maxMessagesPerMinute := 1 } {} _ (by decide) (by decide) rfl
    ⟨by decide, by decide⟩).mpr (by decide)

/-! ### The counter overflows -/

/-- Calls of one actor at the epoch. -/
def burst (n : Nat) : List CheckCall := List.replicate n { actor := [], now := 0 }

theorem callNumbers_burst {own : Bytes → FixedWindow} (n : Nat) (hstart : (own []).start = 0) :
    callNumbers own (burst n) = List.range' ((own []).count + 1) n := by
  induction n generalizing own with
  | zero => rfl
  | succ n ih =>
    have hnext : (own []).next 0 = { own [] with count := (own []).count + 1 } := by
      refine if_neg ?_
      show ¬ 60 ≤ (0 - (own []).start) / nanosPerSecond
      rw [hstart]
      decide
    rw [burst, List.replicate_succ, callNumbers, List.range'_succ]
    dsimp only
    rw [hnext]
    congr 1
    rw [← burst, ih (by rw [Function.update_self]; exact hstart), Function.update_self]

theorem steadyCalls_burst (n : Nat) : SteadyCalls (burst n) where
  started := by
    intro call hcall
    obtain rfl := List.eq_of_mem_replicate hcall
    exact Int.le_refl 0
  ordered := List.pairwise_replicate.mpr (.inr (Int.le_refl 0))

/-- An actor who calls 2^31 times in one window passes again. -/
theorem burst_not_independent :
    ¬ Independent 1 (burst 2147483648)
      (PolicyConfig.checkCalls { maxMessagesPerMinute := 1 } {} (burst 2147483648)) := by
  intro h
  have hresults := (steadyCalls_burst 2147483648).checkCalls_eq { maxMessagesPerMinute := 1 } {}
    (by decide) (by decide) rfl
  have hmem : 2147483648 ∈ callNumbers (fun _ => {}) (burst 2147483648) := by
    rw [callNumbers_burst 2147483648 rfl, List.mem_range'_1]
    exact ⟨by decide, by decide⟩
  have hmaps := hresults.symm.trans h.first_pass
  exact decide_ofNat_ne _ (List.map_inj_left.mp hmaps _ hmem)

end Aestival
