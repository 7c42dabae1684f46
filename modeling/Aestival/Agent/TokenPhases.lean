import Aestival.Agent.ToolLoop
import Mathlib.Data.Int.Order.Basic

/-!
# The phases of a turn in the token budget

What a turn does with the token budget, told by a phase: whether the policy check has passed and
requests are being sent under it, how far it has come with the reset of the day, and how many
reported tokens it still owes to the counter. `phases` is the machine of these phases. It has the
answers of one day, and of the model only those responses whose usage the code can record
(`Recordable`).

`Demand` is the order a turn keeps to: the counter is read behind the reset of the day, the first
request of the tool loop is sent behind a passed check, and a turn that owes tokens sends nothing
before it has added them. `wp_processAgentMessage_phases` proves it of `processAgentMessage`.
-/

namespace Aestival

open Bytes Json Prog

/-! ### Phases -/

/-- How far a turn is with the policy check: it has not passed, it has passed and no request was
sent since, or requests are sent under it. -/
inductive CheckStage where
  | unchecked
  | cleared
  | sending
  deriving DecidableEq, Repr

/-- What a turn knows of `token_check_day_`: nothing, that it was another day when it was loaded,
that it is the present day, or that this turn has set it and the counter is still to be reset. -/
inductive DayView where
  | unknown
  | saw (day : Int)
  | settled
  | resetting
  deriving DecidableEq, Repr

/-- The first request of a tool loop: the one the policy check is made for. -/
def ModelRequest.isChecked : ModelRequest → Bool
  | .complete _ => false
  | .completeMessages _ => true
  | .completeWithTools round .. => round = 0

/-- The phase of a turn. `owed` are the tokens its responses have reported and it has not added. -/
structure TurnPhase where
  stage : CheckStage := .unchecked
  day : DayView := .unknown
  owed : Int := 0
  deriving DecidableEq, Repr

/-- The figure can be read into an `int`. -/
def FigureFits (usage : Json) (key : Bytes) : Prop :=
  match usage.find? key with
  | none => True
  | some (.int n) => -2147483648 ≤ n ∧ n ≤ 2147483647
  | some (.float x) => -2147483648 ≤ x.num.tdiv x.den ∧ x.num.tdiv x.den ≤ 2147483647
  | some _ => False

/-- The code can record what this response reports. The usage of a summary and of a completion
without tools is dropped, so these must report nothing; the figures of the tool loop must fit. -/
def Recordable : ModelRequest → ModelResponse → Prop
  | .completeWithTools .., resp =>
    FigureFits resp.usage (utf8 "prompt_tokens") ∧ FigureFits resp.usage (utf8 "completion_tokens")
  | _, resp => resp.tokens = 0

/-- The phase after an effect. -/
def TurnPhase.next (budget : Int64) (today : Int) (φ : TurnPhase) :
    (e : TurnEff) → e.Ans → TurnPhase
  | .loadDay, day => { φ with day := if day = today then .settled else .saw day }
  | .casDay .., won => { φ with day := if won = true then .resetting else .settled }
  | .storeUsed _, _ => { φ with day := .settled }
  | .loadUsed, used => { φ with stage := if used < budget then .cleared else .unchecked }
  | .rateLimit .., answer => { φ with stage := if answer.allowed then φ.stage else .unchecked }
  | .addUsed n, _ => { φ with owed := φ.owed - n.toInt }
  | .request (.completeMessages _), _ => { φ with stage := .sending }
  | .request (.completeWithTools ..), _ => { φ with stage := .sending }
  | .response _, .ok resp => { φ with owed := φ.owed + resp.tokens }
  | _, _ => φ

/-- The answers of one day whose usage can be recorded. -/
def Expected (today : Int) : (e : TurnEff) → e.Ans → Prop
  | .today, day => day = today
  | .response r, .ok resp => Recordable r resp
  | _, _ => True

/-- The machine of the phases. -/
def phases (budget : Int64) (today : Int) : Machine TurnSig TurnPhase where
  admits := fun _ e x => Expected today e x
  next := TurnPhase.next budget today

/-- What a turn does in which phase. -/
def Demand (today : Int) (φ : TurnPhase) : TurnEff → Prop
  | .casDay expected desired => φ.day = .saw expected ∧ desired = today
  | .storeUsed n => φ.day = .resetting ∧ n = 0
  | .loadUsed => φ.day = .settled ∧ φ.owed = 0
  | .addUsed n => φ.day = .settled ∧ φ.stage = .sending ∧ n.toInt = φ.owed
  | .request r => φ.day ≠ .resetting ∧ φ.owed = 0 ∧ (r.isChecked = true → φ.stage = .cleared)
  | .response (.completeWithTools ..) => φ.day ≠ .resetting ∧ φ.stage = .sending
  | _ => φ.day ≠ .resetting

/-- The phases in which a turn can stop: nothing is owed, no reset is under way, and the check that
may have passed is used. -/
structure TurnPhase.Idle (φ : TurnPhase) : Prop where
  day : φ.day ≠ .resetting
  owed : φ.owed = 0
  stage : φ.stage ≠ .cleared

theorem TurnPhase.Idle.start : TurnPhase.Idle {} := ⟨by decide, rfl, by decide⟩

/-- Effects that leave every phase as it is. -/
def TurnEff.isNeutral : TurnEff → Bool
  | .loadDay | .casDay .. | .storeUsed _ | .loadUsed | .rateLimit .. | .addUsed _ | .request _
  | .response _ => false
  | _ => true

section Turn

variable {budget : Int64} {today : Int} {φ : TurnPhase} {agent : AgentController}
  {message : MessageEvent} {c : Bytes}

theorem TurnPhase.next_of_isNeutral {e : TurnEff} (h : e.isNeutral = true) (x : e.Ans) :
    φ.next budget today e x = φ := by
  cases e <;> first | rfl | cases h

theorem demand_of_isNeutral {e : TurnEff} (h : e.isNeutral = true) (hday : φ.day ≠ .resetting) :
    Demand today φ e := by
  cases e <;> first | exact hday | cases h

/-- A part of a turn with neutral effects only stays in its phase. -/
theorem wp_neutral {α : Type} {p : Turn α} {P : Except Thrown α → Prop}
    (h : wp recordMachine (fun _ e => TurnEff.isNeutral e = true) p (fun r _ => P r) [])
    (hday : φ.day ≠ .resetting) :
    wp (phases budget today) (Demand today) p (fun r φ' => P r ∧ φ' = φ) φ := by
  refine wp_demands (wp_frame (I := fun φ' => φ' = φ) h ?_ rfl) ?_
  · intro e he φ' x _ hφ
    exact (TurnPhase.next_of_isNeutral he x).trans hφ
  · rintro φ' e ⟨he, rfl⟩
    exact demand_of_isNeutral he hday

/-! ### The policy engine -/

/-- Behind `atomicDayReset` the day is settled. -/
theorem wp_atomicDayReset_phases (hday : φ.day ≠ .resetting) :
    wp (phases budget today) (Demand today) atomicDayReset
      (fun r φ' => r = .ok () ∧ φ' = { φ with day := .settled }) φ := by
  unfold atomicDayReset
  rw [wp_act_bind]
  refine ⟨hday, fun day hanswer => ?_⟩
  obtain rfl : day = today := hanswer
  rw [wp_act_bind]
  refine ⟨hday, fun expected _ => ?_⟩
  show wp _ _ _ _ { φ with day := if expected = day then .settled else .saw expected }
  split
  · exact ⟨rfl, rfl⟩
  · rw [wp_act_bind]
    refine ⟨⟨rfl, rfl⟩, fun won _ => ?_⟩
    -- who wins the exchange resets the counter; for the others the day has been settled
    cases won with
    | true => exact ⟨⟨rfl, rfl⟩, fun _ _ => ⟨rfl, rfl⟩⟩
    | false => exact ⟨rfl, rfl⟩

/-- Behind `checkLlmCall` the turn is cleared, or it is refused and idle. -/
theorem wp_checkLlmCall_phases (hbudget : 0 < budget)
    (hpolicy : agent.policy.dailyTokenBudget = budget)
    (hφ : φ.Idle) :
    wp (phases budget today) (Demand today) (checkLlmCall agent.policy c)
      (fun r φ' => φ'.day ≠ .resetting ∧ φ'.owed = 0 ∧
        if r = .ok none then φ'.stage = .cleared else φ'.stage ≠ .cleared) φ := by
  unfold checkLlmCall
  -- the day is settled before the budget is read
  refine wp_bind_of (wp_atomicDayReset_phases hφ.day) ?_ ?_
  swap
  · rintro _ _ ⟨hr, -⟩
    cases hr
  rintro _ _ ⟨-, rfl⟩
  rw [hpolicy, if_pos hbudget, wp_act_bind]
  refine ⟨⟨rfl, hφ.owed⟩, fun used _ => ?_⟩
  show wp _ _ _ _ { φ with day := .settled, stage := if used < budget then .cleared else
    .unchecked }
  split
  -- below the budget: the rate decides, and is not read if there is none
  · next hused =>
    rw [if_neg (Int64.not_lt.mpr hused)]
    exact ⟨by simp, hφ.owed, by simp⟩
  · next hused =>
    rw [if_pos (Int64.not_le.mp hused)]
    unfold checkRate
    split
    · rw [wp_act_bind]
      refine ⟨by simp [Demand], fun answer _ => ?_⟩
      refine ⟨by simp [phases, TurnPhase.next], hφ.owed, ?_⟩
      cases hallowed : answer.allowed <;> simp [phases, TurnPhase.next, hallowed]
    · exact ⟨by simp, hφ.owed, by simp⟩

/-! ### Recording the usage -/

theorem figure_eq_zero {usage : Json} (h : usage.isObject = false) (key : Bytes) :
    figure usage key = 0 := by
  cases usage with
  | obj fields => cases h
  | _ => rfl

theorem toInt_ofInt32 {n : Int} (h : -2147483648 ≤ n ∧ n ≤ 2147483647) :
    (Int32.ofInt n).toInt = n :=
  Int32.toInt_ofInt_of_le (by omega) (by omega)

/-- A figure that fits is read as it was reported. -/
theorem value_getInt32 {usage : Json} {key : Bytes} (hobject : usage.isObject = true)
    (hfits : FigureFits usage key) :
    ∃ n : Int32, usage.value getInt32 key 0 = .ok n ∧ n.toInt = figure usage key := by
  cases usage with
  | obj fields =>
    unfold FigureFits at hfits
    unfold figure
    simp only [Json.value]
    simp only [Json.find?] at hfits ⊢
    cases hfield : fields.lookup key with
    -- a figure that is missing is 0
    | none => exact ⟨0, rfl, rfl⟩
    | some v =>
      rw [hfield] at hfits
      cases v with
      -- one that is there fits, and loses nothing
      | int n => exact ⟨.ofInt n, rfl, toInt_ofInt32 hfits⟩
      | float x =>
        have hread : toInt32 x = .ofInt (x.num.tdiv x.den) :=
          toInt32_of_fits (by omega) (by omega)
        exact ⟨_, congrArg Except.ok hread, toInt_ofInt32 hfits⟩
      | _ => exact absurd hfits id
  -- `usage` is an object
  | _ => cases hobject

/-- Two figures are added without overflow. -/
theorem toInt_add_toInt64 (p c : Int32) : (p.toInt64 + c.toInt64).toInt = p.toInt + c.toInt := by
  rw [Int64.toInt_add, Int32.toInt_toInt64, Int32.toInt_toInt64]
  have hp := p.le_toInt
  have hp' := p.toInt_lt
  have hc := c.le_toInt
  have hc' := c.toInt_lt
  exact Int.bmod_eq_of_le (by omega) (by omega)

/-- The counter is paid what the response has reported. -/
theorem wp_recordTokenUsage_phases {llm : LlmClient} (hllm : agent.llm = some llm) {usage : Json}
    (hday : φ.day ≠ .resetting) (hstage : φ.stage = .sending)
    (hprompt : FigureFits usage (utf8 "prompt_tokens"))
    (hcompletion : FigureFits usage (utf8 "completion_tokens"))
    (howed : φ.owed = figure usage (utf8 "prompt_tokens") + figure usage
    (utf8 "completion_tokens")) :
    wp (phases budget today) (Demand today) (recordTokenUsage agent usage)
      (fun _ φ' => φ'.day ≠ .resetting ∧ φ'.owed = 0 ∧ φ'.stage = .sending) φ := by
  unfold recordTokenUsage
  rw [hllm]
  cases hobject : usage.isObject with
  | false =>
    -- a usage that is no object reports nothing and is ignored
    rw [figure_eq_zero hobject, figure_eq_zero hobject] at howed
    simp only [value_of_not_object hobject]
    exact ⟨hday, howed, hstage⟩
  | true =>
    obtain ⟨p, hp, hpfigure⟩ := value_getInt32 hobject hprompt
    obtain ⟨c, hc, hcfigure⟩ := value_getInt32 hobject hcompletion
    simp only [hp, hc]
    rw [← hpfigure, ← hcfigure] at howed
    split
    · next hzero =>
      obtain ⟨rfl, rfl⟩ := hzero
      exact ⟨hday, howed, hstage⟩
    · rw [wp_act_bind]
      refine ⟨hday, fun _ _ => ?_⟩
      rw [wp_act_bind]
      refine ⟨hday, fun _ _ => ?_⟩
      refine wp_bind_of (wp_atomicDayReset_phases hday) ?_ ?_
      swap
      · rintro _ _ ⟨hr, -⟩
        cases hr
      rintro _ _ ⟨-, rfl⟩
      have hpaid : (p.toInt64 + c.toInt64).toInt = φ.owed :=
        (toInt_add_toInt64 p c).trans howed.symm
      refine ⟨⟨rfl, hstage, hpaid⟩, fun _ _ => ⟨by simp [phases, TurnPhase.next], ?_, hstage⟩⟩
      show φ.owed - (p.toInt64 + c.toInt64).toInt = 0
      rw [hpaid, Int.sub_self]

/-! ### The tool loop -/

/-- Where the loop stands in front of a round: nothing is owed, and the check has passed. -/
structure TurnPhase.Ready (round : Nat) (φ : TurnPhase) : Prop where
  day : φ.day ≠ .resetting
  owed : φ.owed = 0
  stage : if round = 0 then φ.stage = .cleared else φ.stage = .sending

theorem TurnPhase.Idle.of_sending (hday : φ.day ≠ .resetting) (howed : φ.owed = 0)
    (hstage : φ.stage = .sending) : φ.Idle :=
  ⟨hday, howed, fun h => by rw [hstage] at h; cases h⟩

theorem isNeutral_of_launch (calls : List ToolCall) (record : TurnRecord) :
    wp recordMachine (fun _ e => TurnEff.isNeutral e = true) (launchTools calls)
      (fun _ _ => True) record := by
  induction calls generalizing record with
  | nil => trivial
  | cons tc calls ih => exact ⟨rfl, fun _ _ => ih _⟩

theorem isNeutral_of_collect (calls : List ToolCall) (messages : List ChatMessage)
    (record : TurnRecord) :
    wp recordMachine (fun _ e => TurnEff.isNeutral e = true) (collectTools calls messages)
      (fun _ _ => True) record := by
  induction calls generalizing messages record with
  | nil => trivial
  | cons tc calls ih =>
    unfold collectTools
    rw [wp_act_bind]
    refine ⟨rfl, fun ended _ => ?_⟩
    rw [wp_bind, wp_ofExcept]
    cases toolOutput ended with
    | error t => trivial
    | ok result => exact ih _ _

/-- Every round of the loop records what it has used before it goes on. -/
theorem wp_toolRounds_phases {llm : LlmClient} (hllm : agent.llm = some llm) (tools : List Json)
    (remaining round : Nat) (messages : List ChatMessage) (hφ : φ.Ready round)
    (hround : remaining = 0 → round ≠ 0) :
    wp (phases budget today) (Demand today) (toolRounds agent tools remaining round messages)
      (fun _ φ' => φ'.Idle) φ := by
  induction remaining generalizing round messages φ with
  | zero =>
    have hstage := hφ.stage
    rw [if_neg (hround rfl)] at hstage
    exact .of_sending hφ.day hφ.owed hstage
  | succ remaining ih =>
    unfold toolRounds
    rw [wp_bind]
    unfold ask
    rw [wp_act_bind]
    refine ⟨⟨hφ.day, hφ.owed, fun h => ?_⟩, fun _ _ => ?_⟩
    · have hstage := hφ.stage
      rwa [if_pos (of_decide_eq_true h)] at hstage
    rw [wp_act_bind]
    refine ⟨⟨hφ.day, rfl⟩, fun answer hanswer => ?_⟩
    rw [wp_ofExcept]
    cases answer with
    | error err => exact .of_sending hφ.day hφ.owed rfl
    | ok resp =>
      obtain ⟨hprompt, hcompletion⟩ := hanswer
      rw [then_ok]
      -- what the response has reported is owed now, and nothing else
      have howed : φ.owed + resp.tokens = figure resp.usage (utf8 "prompt_tokens") +
          figure resp.usage (utf8 "completion_tokens") := by
        rw [hφ.owed, Int.zero_add]
        rfl
      refine wp_bind_of (wp_recordTokenUsage_phases hllm hφ.day rfl hprompt hcompletion howed) ?_ ?_
      swap
      · rintro _ φ' ⟨hday, howed, hstage⟩
        exact .of_sending hday howed hstage
      rintro _ φ' ⟨hday, howed, hstage⟩
      have hidle := TurnPhase.Idle.of_sending hday howed hstage
      split
      · exact hidle
      rw [wp_bind, wp_ofExcept]
      cases dumpToolCalls resp.toolCalls with
      | error err => exact hidle
      | ok json =>
        rw [then_ok]
        refine wp_bind_of (wp_neutral (isNeutral_of_launch _ _) hday) ?_ ?_
        swap
        · rintro _ _ ⟨-, rfl⟩
          exact hidle
        rintro _ _ ⟨-, rfl⟩
        refine wp_bind_of (wp_neutral (isNeutral_of_collect _ _ _) hday) ?_ ?_
        swap
        · rintro _ _ ⟨-, rfl⟩
          exact hidle
        rintro after _ ⟨-, rfl⟩
        exact ih (round + 1) after ⟨hday, howed, hstage⟩ fun _ => Nat.succ_ne_zero round

theorem wp_toolLoop_phases {llm : LlmClient} (hllm : agent.llm = some llm)
    (messages : List ChatMessage) (hday : φ.day ≠ .resetting) (howed : φ.owed = 0)
    (hstage : φ.stage = .cleared) :
    wp (phases budget today) (Demand today) (toolLoop agent messages) (fun _ φ' => φ'.Idle) φ := by
  unfold toolLoop
  rw [wp_act_bind]
  refine ⟨hday, fun providers _ => ?_⟩
  show wp _ _ (if buildToolsJson providers = [] then _ else _) _ _
  split
  · rw [wp_bind]
    unfold ask
    rw [wp_act_bind]
    refine ⟨⟨hday, howed, fun _ => hstage⟩, fun _ _ => ?_⟩
    rw [wp_act_bind]
    refine ⟨hday, fun answer hanswer => ?_⟩
    rw [wp_ofExcept]
    cases answer with
    | error err => exact .of_sending hday howed rfl
    | ok resp =>
      -- the usage is dropped here, so it must be nothing
      have hnothing : resp.tokens = 0 := hanswer
      refine .of_sending hday ?_ rfl
      show φ.owed + resp.tokens = 0
      rw [howed, hnothing, Int.add_zero]
  · exact wp_toolRounds_phases hllm _ kSafetyLimit 0 messages ⟨hday, howed, hstage⟩
      fun h => absurd h (by decide)

/-! ### The turn -/

theorem TurnPhase.Idle.of_dropped {n : Int} (h : φ.Idle) (hn : n = 0) :
    TurnPhase.Idle { φ with owed := φ.owed + n } :=
  ⟨h.day, by rw [hn, Int.add_zero]; exact h.owed, h.stage⟩

/-- A part of a turn with neutral effects only leaves an idle phase idle. -/
theorem wp_idle {α : Type} {p : Turn α}
    (h : wp recordMachine (fun _ e => TurnEff.isNeutral e = true) p (fun _ _ => True) [])
    (hφ : φ.Idle) : wp (phases budget today) (Demand today) p (fun _ φ' => φ'.Idle) φ := by
  refine wp_mono (wp_neutral (P := fun _ => True) h hφ.day) ?_
  rintro _ _ ⟨-, rfl⟩
  exact hφ

theorem isNeutral_of_replyTo (content : Bytes) (record : TurnRecord) :
    wp recordMachine (fun _ e => TurnEff.isNeutral e = true) (replyTo message content)
      (fun _ _ => True) record := by
  unfold replyTo
  rw [wp_act_bind]
  refine ⟨rfl, fun sent _ => ?_⟩
  rw [wp_ofExcept]
  trivial

theorem wp_notice_phases (content : Bytes) (ended : TurnEnd) (hφ : φ.Idle) :
    wp (phases budget today) (Demand today) (replyTo message content >>= fun _ => pure ended)
      (fun _ φ' => φ'.Idle) φ :=
  wp_bind_of (wp_idle (isNeutral_of_replyTo content []) hφ) (fun _ _ hφ' => hφ') fun _ _ hφ' => hφ'

theorem isNeutral_of_buildMessageList (record : TurnRecord) :
    wp recordMachine (fun _ e => TurnEff.isNeutral e = true) (buildMessageList agent c)
      (fun _ _ => True) record := by
  unfold buildMessageList
  rw [wp_act_bind]
  refine ⟨rfl, fun messages _ => ?_⟩
  split
  · trivial
  · exact ⟨rfl, fun _ _ => trivial⟩

/-- The request of a summary is sent while nothing is owed, and its usage is dropped. -/
theorem wp_summarizeWithModel_phases (hφ : φ.Idle) :
    wp (phases budget today) (Demand today) (Turn.summarizeWithModel c)
      (fun _ φ' => φ'.Idle) φ := by
  unfold Turn.summarizeWithModel
  rw [wp_act_bind]
  refine ⟨hφ.day, fun due _ => ?_⟩
  cases due with
  -- no summary is due
  | none => exact hφ
  | some snap =>
    show wp _ _ (act _ >>= _) _ φ
    rw [wp_act_bind]
    refine ⟨⟨hφ.day, hφ.owed, fun h => by cases h⟩, fun _ _ => ?_⟩
    rw [wp_act_bind]
    refine ⟨hφ.day, fun answer hanswer => ?_⟩
    -- the figures of a summary are dropped, so nothing is owed behind it
    have hφ' : ((phases budget today).next φ (.response (.complete snap.prompt)) answer).Idle := by
      cases answer with
      | error err => exact hφ
      | ok resp => exact hφ.of_dropped hanswer
    show wp _ _ (if answer.map ModelResponse.content = .ok [] then _ else _) _ _
    split
    · exact hφ'
    · exact ⟨hφ'.day, fun _ _ => hφ'⟩

theorem isNeutral_of_deliver (before after : List ChatMessage) (record : TurnRecord) :
    wp recordMachine (fun _ e => TurnEff.isNeutral e = true) (deliver message c before after)
      (fun _ _ => True) record := by
  -- sending a reply counts nothing
  have hreply : ∀ content ended record,
      wp recordMachine (fun _ e => TurnEff.isNeutral e = true)
        (replyTo message content >>= fun _ => (pure ended : Turn TurnEnd)) (fun _ _ => True)
        record :=
    fun content ended record =>
      wp_bind_of (isNeutral_of_replyTo content record) (fun _ _ _ => trivial) fun _ _ _ => trivial
  unfold deliver
  split
  · trivial
  show wp _ _ (if filterOutput (finalReply after) = [] then _ else _) _ _
  split
  · exact hreply _ _ _
  · exact ⟨rfl, fun _ _ => hreply _ _ _⟩

/-- Behind a passed check the tool loop runs, and the rest of the turn is neutral. -/
theorem wp_runModel_phases {llm : LlmClient} (hllm : agent.llm = some llm)
    (messages : List ChatMessage) (hday : φ.day ≠ .resetting) (howed : φ.owed = 0)
    (hstage : φ.stage = .cleared) :
    wp (phases budget today) (Demand today) (runModel agent message c messages)
      (fun _ φ' => φ'.Idle) φ := by
  unfold runModel
  refine wp_bind_of (wp_toolLoop_phases hllm messages hday howed hstage) ?_ fun _ _ hφ' => hφ'
  intro after φ' hφ'
  -- behind the tool loop messages are stored and the reply is sent
  have hpersist : wp recordMachine (fun _ e => TurnEff.isNeutral e = true)
      (persistToolMessages c (after.drop messages.length)) (fun _ _ => True) [] := by
    refine wp_demands (wp_persistToolMessages c _ []) ?_
    rintro _ _ ⟨m, rfl⟩
    rfl
  refine wp_bind_of (wp_idle hpersist hφ') ?_ fun _ _ hφ'' => hφ''
  intro _ φ'' hφ''
  exact wp_idle (isNeutral_of_deliver messages after []) hφ''

theorem wp_answerMessage_phases (hbudget : 0 < budget)
    (hpolicy : agent.policy.dailyTokenBudget = budget) (hφ : φ.Idle) :
    wp (phases budget today) (Demand today) (answerMessage agent message c)
      (fun _ φ' => φ'.Idle) φ := by
  unfold answerMessage
  split
  swap
  · exact wp_notice_phases _ _ hφ
  next hconfigured =>
  obtain ⟨llm, hllm, -⟩ := (Option.any_eq_true ..).mp hconfigured
  rw [wp_act_bind]
  refine ⟨hφ.day, fun _ _ => ?_⟩
  -- the turn is idle up to the check
  refine wp_bind_of (wp_summarizeWithModel_phases hφ) ?_ fun _ _ hφ' => hφ'
  intro _ φ₁ hφ₁
  refine wp_bind_of (wp_idle (isNeutral_of_buildMessageList []) hφ₁) ?_ fun _ _ hφ' => hφ'
  intro list φ₂ hφ₂
  refine wp_bind_of (wp_checkLlmCall_phases hbudget hpolicy hφ₂) ?_ ?_
  swap
  · rintro err φ₃ ⟨hday, howed, hstage⟩
    rw [if_neg (by simp)] at hstage
    exact ⟨hday, howed, hstage⟩
  rintro refusal φ₃ ⟨hday, howed, hstage⟩
  cases refusal with
  -- a refused turn sends a notice and no request
  | some reason =>
    rw [if_neg (by simp)] at hstage
    exact wp_notice_phases _ _ ⟨hday, howed, hstage⟩
  -- the first request follows the check
  | none => exact wp_runModel_phases hllm _ hday howed (by simpa using hstage)

/-- **A turn keeps to the order** from any phase in which it may start. -/
theorem wp_processAgentMessage_phases (hbudget : 0 < budget)
    (hpolicy : agent.policy.dailyTokenBudget = budget) (hφ : φ.Idle) :
    wp (phases budget today) (Demand today) (processAgentMessage agent message)
      (fun _ φ' => φ'.Idle) φ := by
  unfold processAgentMessage
  rw [wp_act_bind]
  refine ⟨hφ.day, fun _ _ => ?_⟩
  rw [wp_tryCatch]
  refine wp_mono (wp_answerMessage_phases hbudget hpolicy hφ) ?_
  intro r φ' hφ'
  cases r with
  | ok ended => exact hφ'
  | error err => exact wp_notice_phases _ _ hφ'

end Turn

end Aestival
