import Aestival.Agent.TokenBudget
import Aestival.Agent.TurnParts

/-!
# What the metrics count

The metrics of an agent should count what its turns have done: the messages they process, the tool
calls they execute, the tokens the responses report. What has happened is told by a tally for each
turn (`TurnTally`), which follows its effects and is no part of the program. The tokens a turn owes
are those of a response it has received and not added yet.

Nothing ever adds to `tool_call_count`. The usage of a summary and of a completion without tools is
dropped, since `complete` and `complete_messages` return a text only; a figure that is no number
throws and takes the other figure with it; and a figure is narrowed to 32 bits.

* `wp_processAgentMessage_tallies`: what one turn does to its tally.
* `CountedTurns.TallyInv.step`: a step keeps the invariant, when the usage of its response can be
  counted (`CountStep`).
* `countsMatch_iff`: in runs of such steps the metrics are right as long as no tool call has been
  executed.
* `tool_call_uncounted`: a turn with one tool call.
-/

namespace Aestival

open Bytes Json Prog

/-! ### What has happened -/

/-- The prompt tokens and the completion tokens a response reports. -/
def ModelResponse.figures (r : ModelResponse) : Int × Int :=
  (figure r.usage (utf8 "prompt_tokens"), figure r.usage (utf8 "completion_tokens"))

/-- What a turn has done so far. -/
structure TurnTally where
  begun : Bool := false
  /-- the tool calls it has executed -/
  executed : Int := 0
  /-- the tokens its responses have reported -/
  reported : Int × Int := 0
  /-- those of them that it has not added to the metrics -/
  owed : Int × Int := 0
  deriving DecidableEq

/-- The tally after an effect. -/
def TurnTally.next (φ : TurnTally) : (e : TurnEff) → e.Ans → TurnTally
  | .launchTool _, _ => { φ with begun := true, executed := φ.executed + 1 }
  | .response _, .ok resp =>
    { φ with begun := true, reported := φ.reported + resp.figures, owed := φ.owed + resp.figures }
  | .addTokens p c, _ => { φ with begun := true, owed := φ.owed - (p.toInt, c.toInt) }
  | _, _ => { φ with begun := true }

/-- The two fields, as the code reads them, are what the response reports; or one of them cannot be
read, and nothing is reported. -/
def ReadsUsage (resp : ModelResponse) : Prop :=
  match resp.usage.value getInt32 (utf8 "prompt_tokens") 0,
      resp.usage.value getInt32 (utf8 "completion_tokens") 0 with
  | .ok p, .ok c => resp.figures = (p.toInt, c.toInt)
  | _, _ => resp.figures = 0

/-- The code counts what this response reports. It reads the usage in the tool loop, and drops it
elsewhere. -/
def CountsUsage : ModelRequest → ModelResponse → Prop
  | .completeWithTools .., resp => ReadsUsage resp
  | _, resp => resp.figures = 0

/-- The usage of a response can be counted. -/
def Countable : (e : TurnEff) → e.Ans → Prop
  | .response r, .ok resp => CountsUsage r resp
  | _, _ => True

/-- The machine of the tallies. -/
def tallies : Machine TurnSig TurnTally where
  admits := fun _ e x => Countable e x
  next := TurnTally.next

/-- The first effect of a turn counts the message, and no other effect does. -/
def CountsOnce (φ : TurnTally) (e : TurnEff) : Prop := φ.begun = false ↔ e = .countMessage

/-- A turn that has begun and owes nothing. -/
structure TurnTally.Settled (φ : TurnTally) : Prop where
  begun : φ.begun = true
  owed : φ.owed = 0

/-- The effects that leave a settled turn settled. -/
def TurnEff.KeepsSettled : TurnEff → Prop
  | .countMessage => False
  | .addTokens .. => False
  | .response (.completeWithTools ..) => False
  | _ => True

section Turn

variable {φ : TurnTally} {agent : AgentController} {message : MessageEvent} {c : Bytes}

theorem countsOnce_of_begun {e : TurnEff} (hbegun : φ.begun = true) (hne : e ≠ .countMessage) :
    CountsOnce φ e := by
  unfold CountsOnce
  rw [hbegun]
  exact iff_of_false Bool.noConfusion hne

theorem TurnTally.Settled.next {e : TurnEff} (hφ : φ.Settled) (he : e.KeepsSettled) :
    CountsOnce φ e ∧ ∀ x : e.Ans, Countable e x → (φ.next e x).Settled := by
  cases e with
  | countMessage => exact he.elim
  | addTokens => exact he.elim
  | response r =>
    refine ⟨countsOnce_of_begun hφ.begun (by simp), fun x hx => ?_⟩
    cases x with
    | error t => exact ⟨rfl, hφ.owed⟩
    | ok resp =>
      -- the usage is dropped, so it must be nothing
      have hnothing : resp.figures = 0 := by
        cases r with
        | completeWithTools => exact he.elim
        | complete => exact hx
        | completeMessages => exact hx
      refine ⟨rfl, ?_⟩
      show φ.owed + resp.figures = 0
      rw [hφ.owed, hnothing, add_zero]
  | _ => exact ⟨countsOnce_of_begun hφ.begun (by simp), fun _ _ => ⟨rfl, hφ.owed⟩⟩

/-- A part of a turn with such effects only. -/
theorem wp_settled {α : Type} {p : Turn α} (h : p.Only TurnEff.KeepsSettled) (hφ : φ.Settled) :
    wp tallies CountsOnce p (fun _ φ' => φ'.Settled) φ :=
  h.wp (fun _ he _ hφ => hφ.next he) hφ

/-- The message is counted at the begin of a turn, and the tokens are reported by the model and
added in the accounting. -/
theorem TurnEff.keepsSettled_of_part {e : TurnEff}
    (h : e.part ∉ [.counting, .accounting, .model]) : e.KeepsSettled := by
  cases e with
  | countMessage => exact h (List.mem_of_elem_eq_true rfl)
  | addTokens => exact h (List.mem_of_elem_eq_true rfl)
  | response r =>
    cases r with
    | completeWithTools => exact h (List.mem_of_elem_eq_true rfl)
    | _ => trivial
  | _ => trivial

/-- Another part of a turn. -/
theorem wp_settled_of_part {α : Type} {p : Turn α} {part : TurnPart}
    (h : p.Only (TurnEff.part · = part)) (hpart : part ∉ [.counting, .accounting, .model])
    (hφ : φ.Settled) : wp tallies CountsOnce p (fun _ φ' => φ'.Settled) φ := by
  refine wp_settled (h.mono ?_) hφ
  rintro e rfl
  exact TurnEff.keepsSettled_of_part hpart

/-! ### The accounting -/

theorem keepsSettled_atomicDayReset : atomicDayReset.Only TurnEff.KeepsSettled := by
  refine only_act_bind.mpr ⟨trivial, fun today => only_act_bind.mpr ⟨trivial, fun expected => ?_⟩⟩
  split
  · exact only_pure _
  · refine only_act_bind.mpr ⟨trivial, fun won => ?_⟩
    split
    · exact only_act.mpr trivial
    · exact only_pure _

theorem keepsSettled_checkLlmCall (policy : PolicyConfig) (actor : Bytes) :
    (checkLlmCall policy actor).Only TurnEff.KeepsSettled := by
  have hrate : (checkRate policy actor).Only TurnEff.KeepsSettled := by
    unfold checkRate
    split
    · exact only_act_bind.mpr ⟨trivial, fun _ => only_pure _⟩
    · exact only_pure _
  refine keepsSettled_atomicDayReset.bind fun _ => ?_
  split
  · refine only_act_bind.mpr ⟨trivial, fun used => ?_⟩
    split
    · exact only_pure _
    · exact hrate
  · exact hrate

theorem ReadsUsage.cases {resp : ModelResponse} (h : ReadsUsage resp) :
    (∃ p q, resp.usage.value getInt32 (utf8 "prompt_tokens") 0 = .ok p ∧
      resp.usage.value getInt32 (utf8 "completion_tokens") 0 = .ok q ∧
      resp.figures = (p.toInt, q.toInt)) ∨
    ((∀ p q, resp.usage.value getInt32 (utf8 "prompt_tokens") 0 = .ok p →
      resp.usage.value getInt32 (utf8 "completion_tokens") 0 = .ok q → False) ∧
      resp.figures = 0) := by
  unfold ReadsUsage at h
  split at h
  next p q hp hq => exact .inl ⟨p, q, hp, hq, h⟩
  next hunread => exact .inr ⟨hunread, h⟩

/-- What the response has reported is added, and the turn is settled again. -/
theorem wp_recordTokenUsage_tallies {llm : LlmClient} (hllm : agent.llm = some llm)
    {resp : ModelResponse} (hread : ReadsUsage resp) (hbegun : φ.begun = true)
    (howed : φ.owed = resp.figures) :
    wp tallies CountsOnce (recordTokenUsage agent resp.usage) (fun _ φ' => φ'.Settled) φ := by
  unfold recordTokenUsage
  rw [hllm]
  dsimp only
  rcases hread.cases with ⟨p, q, hp, hq, hfigures⟩ | ⟨hunread, hnothing⟩
  -- both figures are read
  · rw [hp, hq]
    dsimp only
    rw [hfigures] at howed
    split
    · next hzero =>
      -- the source returns early: there is nothing to add
      obtain ⟨rfl, rfl⟩ := hzero
      exact ⟨hbegun, howed⟩
    · rw [wp_act_bind]
      refine ⟨countsOnce_of_begun hbegun (by simp), fun _ _ => ?_⟩
      rw [wp_act_bind]
      refine ⟨countsOnce_of_begun rfl (by simp), fun _ _ => ?_⟩
      -- what the response owed has been added
      have hsettled : TurnTally.Settled ((φ.next (.recordUsage llm.modelName p q) ()).next
          (.addTokens p q) ()) := by
        refine ⟨rfl, ?_⟩
        show φ.owed - (p.toInt, q.toInt) = 0
        rw [howed, sub_self]
      exact wp_settled (keepsSettled_atomicDayReset.bind fun _ => only_act.mpr trivial) hsettled
  · -- a figure cannot be read, and nothing is added
    rw [hnothing] at howed
    split
    · next p q hp hq => exact (hunread p q hp hq).elim
    · split
      · exact ⟨hbegun, howed⟩
      · exact ⟨hbegun, howed⟩

/-- Figures that are numbers in the range of an `int`, or missing, are read as they are. -/
theorem readsUsage_of_fits {resp : ModelResponse}
    (hprompt : FigureFits resp.usage (utf8 "prompt_tokens"))
    (hcompletion : FigureFits resp.usage (utf8 "completion_tokens")) : ReadsUsage resp := by
  unfold ReadsUsage
  cases hobject : resp.usage.isObject with
  | false =>
    rw [value_of_not_object hobject]
    exact Prod.ext (figure_eq_zero hobject _) (figure_eq_zero hobject _)
  | true =>
    obtain ⟨p, hp, hpfigure⟩ := value_getInt32 hobject hprompt
    obtain ⟨q, hq, hqfigure⟩ := value_getInt32 hobject hcompletion
    rw [hp, hq]
    exact Prod.ext hpfigure.symm hqfigure.symm

/-! ### The tool loop -/

theorem wp_toolRounds_tallies {llm : LlmClient} (hllm : agent.llm = some llm) (tools : List Json)
    (remaining round : Nat) (messages : List ChatMessage) (hφ : φ.Settled) :
    wp tallies CountsOnce (toolRounds agent tools remaining round messages)
      (fun _ φ' => φ'.Settled) φ := by
  -- the turn is settled at the beginning of every round
  induction remaining generalizing round messages φ with
  | zero => exact hφ
  | succ remaining ih =>
    unfold toolRounds
    rw [wp_bind]
    unfold ask
    rw [wp_act_bind]
    obtain ⟨hrequest, hsent⟩ :=
      hφ.next (e := .request (.completeWithTools round messages tools)) trivial
    refine ⟨hrequest, fun _ _ => ?_⟩
    rw [wp_act_bind]
    have hwaiting := hsent () trivial
    refine ⟨countsOnce_of_begun hwaiting.begun (by simp), fun answer hanswer => ?_⟩
    rw [wp_ofExcept]
    cases answer with
    -- a failed request has no figures
    | error err => exact ⟨rfl, hwaiting.owed⟩
    | ok resp =>
      rw [then_ok]
      -- the figures of the response are owed until they are recorded
      have howed : φ.owed + resp.figures = resp.figures := by rw [hφ.owed, zero_add]
      refine wp_bind_of (wp_recordTokenUsage_tallies hllm hanswer rfl howed) ?_ fun _ _ h => h
      rintro _ φ' hφ'
      split
      · exact hφ'
      rw [wp_bind, wp_ofExcept]
      cases dumpToolCalls resp.toolCalls with
      | error err => exact hφ'
      | ok json =>
        rw [then_ok]
        -- the tools add nothing to the metrics
        refine wp_bind_of (wp_settled_of_part (only_launchTools _) (by decide) hφ') ?_
          fun _ _ h => h
        rintro _ φ₁ hφ₁
        refine wp_bind_of (wp_settled_of_part (only_collectTools _ _) (by decide) hφ₁) ?_
          fun _ _ h => h
        exact fun after _ hφ₂ => ih (round + 1) after hφ₂

theorem wp_toolLoop_tallies {llm : LlmClient} (hllm : agent.llm = some llm)
    (messages : List ChatMessage) (hφ : φ.Settled) :
    wp tallies CountsOnce (toolLoop agent messages) (fun _ φ' => φ'.Settled) φ := by
  unfold toolLoop
  rw [wp_act_bind]
  obtain ⟨honce, hnext⟩ := hφ.next (e := .getTools) trivial
  refine ⟨honce, fun providers _ => ?_⟩
  have hφ₁ := hnext providers trivial
  show wp _ _ (if buildToolsJson providers = [] then _ else _) _ _
  split
  · -- the usage of a completion without tools is dropped
    refine wp_settled (Only.bind (only_act_bind.mpr ⟨trivial, fun _ =>
      only_act_bind.mpr ⟨trivial, fun answer => only_ofExcept answer⟩⟩) fun resp => ?_) hφ₁
    exact only_pure _
  · exact wp_toolRounds_tallies hllm _ kSafetyLimit 0 messages hφ₁

/-! ### The turn -/

theorem wp_answerMessage_tallies (hφ : φ.Settled) :
    wp tallies CountsOnce (answerMessage agent message c) (fun _ φ' => φ'.Settled) φ := by
  -- the notices that end a turn early count nothing
  have hnotice : ∀ content ended (φ : TurnTally), φ.Settled →
      wp tallies CountsOnce (replyTo message content >>= fun _ => pure ended)
        (fun _ φ' => φ'.Settled) φ := fun content ended φ hφ =>
    wp_settled_of_part (only_notice content ended) (by decide) hφ
  unfold answerMessage
  split
  case isFalse => exact hnotice _ _ φ hφ
  case isTrue henabled =>
    obtain ⟨llm, hllm⟩ : ∃ llm, agent.llm = some llm := by
      cases hllm : agent.llm with
      | none =>
        rw [hllm] at henabled
        cases henabled
      | some llm => exact ⟨llm, rfl⟩
    have happend : Only TurnEff.KeepsSettled (act (.append c
        { role := .user, senderNick := message.senderNick
          content := formatDisplayContent message })) := only_act.mpr trivial
    -- up to the tool loop nothing is recorded, the summary included
    refine wp_bind_of (wp_settled happend hφ) (fun _ φ₁ hφ₁ => ?_) fun _ _ h => h
    refine wp_bind_of (wp_settled_of_part only_summarizeWithModel (by decide) hφ₁)
      (fun _ φ₂ hφ₂ => ?_) fun _ _ h => h
    refine wp_bind_of (wp_settled_of_part only_buildMessageList (by decide) hφ₂)
      (fun list φ₃ hφ₃ => ?_) fun _ _ h => h
    refine wp_bind_of (wp_settled (keepsSettled_checkLlmCall _ _) hφ₃) (fun refusal φ₄ hφ₄ => ?_)
      fun _ _ h => h
    cases refusal with
    | some reason => exact hnotice _ _ φ₄ hφ₄
    | none =>
      refine wp_bind_of (wp_toolLoop_tallies hllm _ hφ₄) (fun after φ₅ hφ₅ => ?_) fun _ _ h => h
      -- nor behind it
      refine wp_bind_of (wp_settled_of_part (only_persistToolMessages _) (by decide) hφ₅)
        (fun _ φ₆ hφ₆ => ?_) fun _ _ h => h
      refine wp_settled ((only_deliver _ _).mono ?_) hφ₆
      rintro e (he | ⟨content, rfl⟩)
      · exact TurnEff.keepsSettled_of_part (by rw [he]; decide)
      · trivial

/-- **A turn counts its message once**, and at its end it owes nothing. -/
theorem wp_processAgentMessage_tallies (message : MessageEvent) :
    wp tallies CountsOnce (processAgentMessage agent message) (fun _ φ' => φ'.Settled) {} := by
  unfold processAgentMessage
  rw [wp_act_bind]
  refine ⟨iff_of_true rfl rfl, fun _ _ => ?_⟩
  have hφ : TurnTally.Settled { begun := true } := ⟨rfl, rfl⟩
  refine wp_tryCatch.mpr (wp_mono (wp_answerMessage_tallies hφ) fun r φ' hφ' => ?_)
  cases r with
  | ok ended => exact hφ'
  | error err =>
    exact wp_settled_of_part (only_notice _ _) (by decide) hφ'

end Turn

/-! ### The metrics -/

/-- Turns of one agent, side by side, with their tallies. -/
abbrev CountedTurns (ι : Type) := Pool TurnSig World TurnTally Thrown TurnEnd ι

/-- The turns that answer `messages`, none of them begun. -/
def startCounted {ι : Type} (agent : AgentController) (messages : ι → MessageEvent) (w : World) :
    CountedTurns ι where
  state := w
  phase := fun _ => {}
  rest := fun j => processAgentMessage agent (messages j)

namespace World

variable {e : TurnEff}

/-- Two effects change the metrics. -/
theorem metrics_next (hcount : e ≠ .countMessage) (hadd : ∀ p q, e ≠ .addTokens p q) (w : World)
    (x : e.Ans) : (w.next e x).metrics = w.metrics := by
  cases e with
  | countMessage => exact absurd rfl hcount
  | addTokens p q => exact absurd rfl (hadd p q)
  | commit c n reply =>
    rw [World.next_commit]
    split <;> rfl
  | response r => cases x <;> rfl
  | casDay expected desired =>
    rw [World.next_casDay]
    split <;> rfl
  | _ => rfl

theorem messageCount_next (hcount : e ≠ .countMessage) (w : World) (x : e.Ans) :
    (w.next e x).metrics.messageCount = w.metrics.messageCount := by
  cases e with
  | countMessage => exact absurd rfl hcount
  | addTokens p q => rfl
  | _ => rw [metrics_next (by simp) (by simp)]

theorem tokens_next (hadd : ∀ p q, e ≠ .addTokens p q) (w : World) (x : e.Ans) :
    (w.next e x).metrics.promptTokens = w.metrics.promptTokens ∧
      (w.next e x).metrics.completionTokens = w.metrics.completionTokens := by
  cases e with
  | countMessage => exact ⟨rfl, rfl⟩
  | addTokens p q => exact absurd rfl (hadd p q)
  | _ =>
    rw [metrics_next (by simp) (by simp)]
    exact ⟨rfl, rfl⟩

/-- Nothing adds to `tool_call_count`. -/
theorem toolCallCount_next (w : World) (e : TurnEff) (x : e.Ans) :
    (w.next e x).metrics.toolCallCount = w.metrics.toolCallCount := by
  cases e with
  | countMessage => rfl
  | addTokens p q => rfl
  | _ => rw [metrics_next (by simp) (by simp)]

end World

namespace TurnTally

variable {e : TurnEff}

theorem begun_next (φ : TurnTally) (e : TurnEff) (x : e.Ans) : (φ.next e x).begun = true := by
  cases e with
  | response r => cases x <;> rfl
  | _ => rfl

/-- What is reported is owed, until it is added. -/
theorem reported_next (hadd : ∀ p q, e ≠ .addTokens p q) (φ : TurnTally) (x : e.Ans) :
    (φ.next e x).reported - φ.reported = (φ.next e x).owed - φ.owed := by
  cases e with
  | addTokens p q => exact absurd rfl (hadd p q)
  | response r =>
    cases x with
    | ok resp =>
      show φ.reported + resp.figures - φ.reported = φ.owed + resp.figures - φ.owed
      rw [add_sub_cancel_left, add_sub_cancel_left]
    | error t => exact (sub_self φ.reported).trans (sub_self φ.owed).symm
  | _ => exact (sub_self φ.reported).trans (sub_self φ.owed).symm

end TurnTally

namespace CountedTurns

variable {ι : Type} [Fintype ι]

/-- The messages that are processed: the turns that have begun. -/
def processed (c : CountedTurns ι) : Int := c.total fun φ => if φ.begun = true then 1 else 0

/-- The tool calls that have been executed. -/
def executed (c : CountedTurns ι) : Int := c.total TurnTally.executed

/-- The tokens that the responses have reported. -/
def reported (c : CountedTurns ι) : Int × Int := c.total TurnTally.reported

/-- The tokens that have been reported and are not added yet. -/
def owed (c : CountedTurns ι) : Int × Int := c.total TurnTally.owed

end CountedTurns

open CountedTurns

/-- **The metrics have counted what has happened** since they were `before`. -/
structure CountsMatch {ι : Type} [Fintype ι] (before : Metrics) (c : CountedTurns ι) : Prop where
  messages : c.state.metrics.messageCount.toInt = before.messageCount.toInt + processed c
  toolCalls : c.state.metrics.toolCallCount.toInt = before.toolCallCount.toInt + executed c
  prompt : c.state.metrics.promptTokens.toInt + (owed c).1 =
    before.promptTokens.toInt + (reported c).1
  completion : c.state.metrics.completionTokens.toInt + (owed c).2 =
    before.completionTokens.toInt + (reported c).2
  /-- Only a turn that is under way owes tokens. -/
  settled : ∀ j, (c.phase j).begun = false ∨ (c.rest j).isOver = true → (c.phase j).owed = 0

/-- When no turn is under way, the tokens are those that were reported. -/
theorem CountsMatch.tokens {ι : Type} [Fintype ι] {before : Metrics} {c : CountedTurns ι}
    (h : CountsMatch before c) (hrest : ∀ j, (c.phase j).begun = false ∨ (c.rest j).isOver = true) :
    c.state.metrics.promptTokens.toInt = before.promptTokens.toInt + (reported c).1 ∧
      c.state.metrics.completionTokens.toInt = before.completionTokens.toInt + (reported c).2 := by
  have howed : owed c = 0 := Pool.total_eq_zero fun j => h.settled j (hrest j)
  have hprompt := h.prompt
  have hcompletion := h.completion
  rw [howed] at hprompt hcompletion
  exact ⟨(add_zero _).symm.trans hprompt, (add_zero _).symm.trans hcompletion⟩

/-- The steps whose tokens the metrics can count. -/
structure CountStep {ι : Type} (c : CountedTurns ι) (_i : ι) (e : TurnEff) (x : e.Ans) : Prop where
  countable : Countable e x
  /-- No counter overflows. -/
  messageFits : e = .countMessage →
    (c.state.metrics.messageCount + 1).toInt = c.state.metrics.messageCount.toInt + 1
  tokensFit : ∀ p q, e = .addTokens p q →
    (c.state.metrics.promptTokens + p.toInt64).toInt =
      c.state.metrics.promptTokens.toInt + p.toInt ∧
    (c.state.metrics.completionTokens + q.toInt64).toInt =
      c.state.metrics.completionTokens.toInt + q.toInt

/-! ### The invariant -/

namespace CountedTurns

variable {ι : Type} [Fintype ι] {before : Metrics} {c c' : CountedTurns ι} {i : ι}

/-- What the metrics are throughout a run. -/
structure TallyInv (before : Metrics) (c : CountedTurns ι) : Prop where
  conforms : c.Conforms tallies CountsOnce TurnTally.Settled
  messages : c.state.metrics.messageCount.toInt = before.messageCount.toInt + processed c
  toolCalls : c.state.metrics.toolCallCount = before.toolCallCount
  prompt : c.state.metrics.promptTokens.toInt + (owed c).1 =
    before.promptTokens.toInt + (reported c).1
  completion : c.state.metrics.completionTokens.toInt + (owed c).2 =
    before.completionTokens.toInt + (reported c).2
  unbegun : ∀ j, (c.phase j).begun = false → (c.phase j).owed = 0

theorem TallyInv.start (agent : AgentController) (messages : ι → MessageEvent) (w : World) :
    TallyInv w.metrics (startCounted agent messages w) := by
  have hprocessed : processed (startCounted agent messages w) = 0 :=
    Pool.total_eq_zero fun _ => rfl
  have hreported : reported (startCounted agent messages w) = 0 := Pool.total_eq_zero fun _ => rfl
  have howed : owed (startCounted agent messages w) = 0 := Pool.total_eq_zero fun _ => rfl
  refine ⟨fun j => wp_processAgentMessage_tallies (messages j), ?_, rfl, ?_, ?_, fun _ _ => rfl⟩
  · rw [hprocessed, add_zero]
    rfl
  · rw [howed, hreported]
    rfl
  · rw [howed, hreported]
    rfl

variable [DecidableEq ι] {e : TurnEff} {x : e.Ans}

theorem TallyInv.messages_step (hinv : TallyInv before c)
    (hstep : Pool.Step World.machine tallies c i e x c') (hok : CountStep c i e x) :
    c'.state.metrics.messageCount.toInt = before.messageCount.toInt + processed c' := by
  have honce : CountsOnce (c.phase i) e := hstep.demand hinv.conforms
  have hstate : c'.state = c.state.next e x := hstep.state_eq
  -- a turn counts as processed from its first effect on
  have hprocessed :
      processed c' = processed c + (1 - if (c.phase i).begun = true then 1 else 0) := by
    have htotal := hstep.total_eq fun φ => if φ.begun = true then (1 : Int) else 0
    have hbegun : (tallies.next (c.phase i) e x).begun = true := TurnTally.begun_next _ _ _
    rw [if_pos hbegun] at htotal
    exact htotal
  have hmessages := hinv.messages
  by_cases hcount : e = .countMessage
  · -- the first effect of a turn
    subst hcount
    have hnew : (c.phase i).begun = false := honce.mpr rfl
    have hadded : c'.state.metrics.messageCount = c.state.metrics.messageCount + 1 := by
      rw [hstate]
      rfl
    rw [hadded, hok.messageFits rfl, hprocessed, hnew, if_neg Bool.noConfusion]
    omega
  -- every later effect leaves both numbers
  · have hbegun : (c.phase i).begun = true :=
      Bool.eq_true_of_not_eq_false fun h => hcount (honce.mp h)
    rw [hstate, World.messageCount_next hcount, hprocessed, hbegun, if_pos rfl]
    omega

theorem TallyInv.tokens_step (hinv : TallyInv before c)
    (hstep : Pool.Step World.machine tallies c i e x c') (hok : CountStep c i e x) :
    c'.state.metrics.promptTokens.toInt + (owed c').1 =
        before.promptTokens.toInt + (reported c').1 ∧
      c'.state.metrics.completionTokens.toInt + (owed c').2 =
        before.completionTokens.toInt + (reported c').2 := by
  have hstate : c'.state = c.state.next e x := hstep.state_eq
  have hreported : reported c' =
      reported c + ((TurnTally.next (c.phase i) e x).reported - (c.phase i).reported) :=
    hstep.total_eq _
  have howed : owed c' = owed c + ((TurnTally.next (c.phase i) e x).owed - (c.phase i).owed) :=
    hstep.total_eq _
  have hprompt := hinv.prompt
  have hcompletion := hinv.completion
  by_cases hadd : ∃ p q, e = .addTokens p q
  · -- what is added to the metrics is no longer owed
    obtain ⟨p, q, rfl⟩ := hadd
    obtain ⟨hp, hq⟩ := hok.tokensFit p q rfl
    have hpaid : owed c' = owed c - (p.toInt, q.toInt) := by
      rw [howed]
      show owed c + ((c.phase i).owed - (p.toInt, q.toInt) - (c.phase i).owed) = _
      rw [sub_sub_cancel_left, sub_eq_add_neg]
    have hsame : reported c' = reported c := by
      rw [hreported]
      exact (congrArg _ (sub_self _)).trans (add_zero _)
    have hprompt' : c'.state.metrics.promptTokens = c.state.metrics.promptTokens + p.toInt64 := by
      rw [hstate]
      rfl
    have hcompletion' : c'.state.metrics.completionTokens =
        c.state.metrics.completionTokens + q.toInt64 := by
      rw [hstate]
      rfl
    rw [hpaid, hsame, hprompt', hcompletion', hp, hq]
    constructor
    · show _ + ((owed c).1 - p.toInt) = _
      omega
    · show _ + ((owed c).2 - q.toInt) = _
      omega
  · -- what is reported is owed
    have hne : ∀ p q, e ≠ .addTokens p q := fun p q h => hadd ⟨p, q, h⟩
    obtain ⟨hprompt', hcompletion'⟩ := World.tokens_next hne c.state x
    rw [hstate, hprompt', hcompletion', hreported, howed, TurnTally.reported_next hne]
    generalize (TurnTally.next (c.phase i) e x).owed - (c.phase i).owed = more
    constructor
    · show _ + ((owed c).1 + more.1) = _ + ((reported c).1 + more.1)
      omega
    · show _ + ((owed c).2 + more.2) = _ + ((reported c).2 + more.2)
      omega

/-- **The metrics keep counting** in every step whose tokens they can count. -/
theorem TallyInv.step (hinv : TallyInv before c)
    (hstep : Pool.Step World.machine tallies c i e x c') (hok : CountStep c i e x) :
    TallyInv before c' where
  conforms := hstep.conforms hinv.conforms hok.countable
  messages := hinv.messages_step hstep hok
  toolCalls := by
    rw [show c'.state = c.state.next e x from hstep.state_eq, World.toolCallCount_next]
    exact hinv.toolCalls
  prompt := (hinv.tokens_step hstep hok).1
  completion := (hinv.tokens_step hstep hok).2
  -- the turn that steps has begun now
  unbegun j hj := by
    by_cases hji : j = i
    · subst hji
      rw [hstep.phase_self] at hj
      cases (TurnTally.begun_next (c.phase j) e x).symm.trans hj
    · rw [hstep.phase_of_ne hji] at hj ⊢
      exact hinv.unbegun j hj

omit [DecidableEq ι] in
/-- The invariant says that everything but the tool calls is counted. -/
theorem TallyInv.counts_iff (hinv : TallyInv before c) :
    CountsMatch before c ↔ executed c = 0 := by
  constructor
  · intro h
    have htools := h.toolCalls
    rw [hinv.toolCalls] at htools
    omega
  · intro hnone
    refine ⟨hinv.messages, ?_, hinv.prompt, hinv.completion, fun j hj => ?_⟩
    · rw [hinv.toolCalls, hnone, add_zero]
    · rcases hj with hj | hj
      · exact hinv.unbegun j hj
      · exact (hinv.conforms.of_isOver hj).owed

end CountedTurns

/-- **The metrics have counted what has happened as long as no tool call has been executed**, in
every run in which the usage of the responses can be counted. -/
theorem countsMatch_iff {ι : Type} [Fintype ι] [DecidableEq ι] {agent : AgentController}
    {messages : ι → MessageEvent} {w : World} {c : CountedTurns ι}
    (hrun : Pool.Run World.machine tallies CountStep (startCounted agent messages w) c) :
    CountsMatch w.metrics c ↔ executed c = 0 := by
  have hinv : TallyInv w.metrics c :=
    hrun.invariant (.start agent messages w) fun hinv hstep hok => hinv.step hstep hok
  exact hinv.counts_iff

/-! ### Two turns -/

/-- A turn that is alone is a run of the pool that consists of it. -/
theorem run_of_simulateTurn {around : Scenario} {agent : AgentController} {message : MessageEvent}
    {ok : CountedTurns Unit → Unit → (e : TurnEff) → e.Ans → Prop}
    (hok : ∀ (c : CountedTurns Unit), ∀ ev ∈ (simulateTurn around agent message {}).1,
      c.state = ev.pre → ok c () ev.eff ev.ans) :
    ∃ c, Pool.Run World.machine tallies ok (startCounted agent (fun _ => message) {}) c ∧
      c.state = (simulateTurn around agent message {}).2.1 ∧
      c.phase () = (simulateTurn around agent message {}).1.foldl
        (fun φ ev => TurnTally.next φ ev.eff ev.ans) {} := by
  obtain ⟨c, hrun, hstate, hphase, -⟩ := Pool.Run.of_exec_end
    (c := startCounted agent (fun _ => message) {}) .start
    (exec_simulateTurn around agent message {}) rfl rfl hok
  exact ⟨c, hrun, hstate, hphase⟩

/-- A text, and 5 and 3 tokens. -/
def talkingResponse : ModelResponse where
  content := utf8 "done"
  usage := .obj [(utf8 "completion_tokens", .int 3), (utf8 "prompt_tokens", .int 5)]

/-- A model that answers so. -/
def talkingModel : ModelRequest → Except Thrown ModelResponse
  | .completeWithTools .. => .ok talkingResponse
  | _ => .ok { content := utf8 "done" }

/-- Its surroundings, in which there is a tool. -/
def talkingScenario : Scenario where
  model := talkingModel
  providers := [[⟨utf8 "t", [], .null⟩]]

/-- No counter overflows in this event. -/
def keepsCounters (ev : Event TurnSig World) : Bool :=
  match ev.eff with
  | .countMessage =>
    (ev.pre.metrics.messageCount + 1).toInt = ev.pre.metrics.messageCount.toInt + 1
  | .addTokens p q =>
    (ev.pre.metrics.promptTokens + p.toInt64).toInt = ev.pre.metrics.promptTokens.toInt + p.toInt ∧
    (ev.pre.metrics.completionTokens + q.toInt64).toInt =
      ev.pre.metrics.completionTokens.toInt + q.toInt
  | _ => true

/-- The usage this model reports can be counted. -/
theorem countable_talking (pre : World) (e : TurnEff) :
    Countable e (World.answer talkingScenario pre e) := by
  cases e with
  | response r =>
    cases r with
    | complete prompt => rfl
    | completeMessages messages => rfl
    | completeWithTools round messages tools =>
      -- both figures are small
      show ReadsUsage talkingResponse
      refine readsUsage_of_fits ?_ ?_
      · show (-2147483648 : Int) ≤ 5 ∧ (5 : Int) ≤ 2147483647
        decide
      · show (-2147483648 : Int) ≤ 3 ∧ (3 : Int) ≤ 2147483647
        decide
  | _ => trivial

/-- The turn of a message that is answered with a text is counted. -/
theorem talking_turn_counted : ∃ c : CountedTurns Unit,
    Pool.Run World.machine tallies CountStep
      (startCounted smallBudget (fun _ => privateMessage (utf8 "hi")) {}) c ∧
    c.state.metrics = { messageCount := 1, promptTokens := 5, completionTokens := 3 } ∧
    CountsMatch {} c := by
  -- no counter overflows in this turn
  have hfits : (simulateTurn talkingScenario smallBudget (privateMessage (utf8 "hi")) {}).1.all
      keepsCounters = true := rfl
  have hok : ∀ (c : CountedTurns Unit),
      ∀ ev ∈ (simulateTurn talkingScenario smallBudget (privateMessage (utf8 "hi")) {}).1,
      c.state = ev.pre → CountStep c () ev.eff ev.ans := by
    intro c ev hev hstate
    have hkeeps := List.all_eq_true.mp hfits ev hev
    unfold keepsCounters at hkeeps
    refine ⟨?_, fun hcount => ?_, fun p q hadd => ?_⟩
    · rw [ans_of_mem_simulate hev]
      exact countable_talking ev.pre ev.eff
    · rw [hcount] at hkeeps
      rw [hstate]
      exact of_decide_eq_true hkeeps
    · rw [hadd] at hkeeps
      rw [hstate]
      exact of_decide_eq_true hkeeps
  obtain ⟨c, hrun, hstate, hphase⟩ := run_of_simulateTurn hok
  -- a turn that has ended executes nothing
  have hnone : executed c = 0 := by
    refine Pool.total_eq_zero fun _ => ?_
    rw [hphase]
    rfl
  refine ⟨c, hrun, ?_, (countsMatch_iff hrun).mpr hnone⟩
  rw [hstate]
  rfl

/-- **Tool calls are not counted.** The first response of this turn asks for one. -/
theorem tool_call_uncounted :
    ¬ ∀ (ι : Type) [Fintype ι] [DecidableEq ι] (agent : AgentController)
      (messages : ι → MessageEvent) (w : World) (c : CountedTurns ι),
      Pool.Run World.machine tallies (fun _ _ _ _ => True) (startCounted agent messages w) c →
      CountsMatch w.metrics c := by
  intro hall
  let any : CountedTurns Unit → Unit → (e : TurnEff) → e.Ans → Prop := fun _ _ _ _ => True
  have hok : ∀ (c : CountedTurns Unit), ∀ ev ∈ reportingTurn 50, c.state = ev.pre →
      any c () ev.eff ev.ans := fun _ _ _ _ => trivial
  obtain ⟨c, hrun, hstate, hphase⟩ := run_of_simulateTurn hok
  -- the turn has executed one tool
  have hone : executed c = 1 := by
    show ∑ j, (c.phase j).executed = 1
    rw [Fintype.sum_unique, show default = () from rfl, hphase]
    rfl
  -- and the counter is 0 still
  have htools := (hall Unit smallBudget _ {} c hrun).toolCalls
  rw [hstate, hone] at htools
  exact absurd htools (by decide)

end Aestival
