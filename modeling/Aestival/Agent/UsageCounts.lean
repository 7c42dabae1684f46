import Aestival.Agent.MetricCounts
import Aestival.Chat.TokenUsage

/-!
# What is recorded and what is counted

`record_token_usage` writes the usage of a response in two places: a row of the statistics in the
database, and the counters of the metrics. The turns of an agent do so side by side, and between the
two writes of one turn any number of others may come. A statement that fails is not noticed: the row
is missing, and the counters are raised all the same.

`RecordedWorld` is the shared state together with the table of the statistics; what the rows that
are missing would have held is its `lost`. What a turn has recorded and not counted yet is its
`pending`. In every run the counters are ahead of the rows by what is pending and behind by nothing
but what is lost (`RecordedTurns.StatsInv`), and when no turn is under way the totals of
`get_token_stats` and what is lost are together what the counters have gained
(`statistics_match_metrics`).
-/

namespace Aestival

open Bytes Json Prog

/-! ### The statistics in the shared state -/

/-- The shared state of the turns, and the table `token_usage`. -/
structure RecordedWorld where
  world : World := {}
  usage : TokenUsage := []
  /-- how often a row should have been written -/
  inserts : ℕ := 0
  /-- the tokens of those that were not -/
  lost : Int × Int := 0

/-- What a turn has recorded and not counted yet: prompt and completion tokens. -/
structure RecordPhase where
  begun : Bool := false
  pending : Int × Int := 0
  deriving DecidableEq

/-- The phase after an effect. -/
def RecordPhase.next (φ : RecordPhase) : TurnEff → RecordPhase
  | .recordUsage _ p c => ⟨true, φ.pending + (p.toInt, c.toInt)⟩
  | .addTokens p c => ⟨true, φ.pending - (p.toInt, c.toInt)⟩
  | _ => ⟨true, φ.pending⟩

/-- The machine of the phases. -/
def recordings : Machine TurnSig RecordPhase where
  admits := fun _ _ _ => True
  next := fun φ e _ => φ.next e

section Machine

/- The second at which each row is written, and whether its statement succeeds, by its number. -/
variable (clock : ℕ → Int) (writes : ℕ → Bool)

/-- The state after an effect. -/
def RecordedWorld.next (s : RecordedWorld) (e : TurnEff) (x : e.Ans) : RecordedWorld :=
  let world := s.world.next e x
  match e with
  | .recordUsage m p c =>
    { world
      usage := s.usage.recordTokenUsage (writes s.inserts) (clock s.inserts) m p c
      inserts := s.inserts + 1
      lost := if writes s.inserts then s.lost else s.lost + (p.toInt, c.toInt) }
  | _ => { s with world }

/-- The machine of the turns with the table. -/
def recordedMachine : Machine TurnSig RecordedWorld where
  admits := fun s e x => s.world.Admits e x
  next := fun s e x => s.next clock writes e x

end Machine

/-! ### One turn -/

/-- A turn that has begun and has nothing pending. -/
structure RecordPhase.Settled (φ : RecordPhase) : Prop where
  begun : φ.begun = true
  pending : φ.pending = 0

/-- The effects that neither record nor count. -/
def TurnEff.LeavesPending : TurnEff → Prop
  | .recordUsage .. => False
  | .addTokens .. => False
  | _ => True

section Turn

variable {φ : RecordPhase} {agent : AgentController} {message : MessageEvent} {c : Bytes}

/-- No demand is made of a turn here. -/
abbrev NoDemand : RecordPhase → TurnEff → Prop := fun _ _ => True

theorem RecordPhase.next_of_leaves {e : TurnEff} (he : e.LeavesPending) (φ : RecordPhase) :
    φ.next e = ⟨true, φ.pending⟩ := by
  cases e with
  | recordUsage => exact he.elim
  | addTokens => exact he.elim
  | _ => rfl

theorem RecordPhase.Settled.next {e : TurnEff} (hφ : φ.Settled) (he : e.LeavesPending) :
    (φ.next e).Settled := by
  rw [RecordPhase.next_of_leaves he]
  exact ⟨rfl, hφ.pending⟩

/-- A part of a turn that neither records nor counts. -/
theorem wp_leaves {α : Type} {p : Turn α} (h : p.Only TurnEff.LeavesPending) (hφ : φ.Settled) :
    wp recordings NoDemand p (fun _ φ' => φ'.Settled) φ :=
  h.wp (fun _ he _ hφ => ⟨trivial, fun _ _ => hφ.next he⟩) hφ

theorem TurnEff.leavesPending_of_part {e : TurnEff} (h : e.part ≠ .accounting) :
    e.LeavesPending := by
  cases e with
  | recordUsage => exact h rfl
  | addTokens => exact h rfl
  | _ => trivial

theorem wp_leaves_of_part {α : Type} {p : Turn α} {part : TurnPart}
    (h : p.Only (TurnEff.part · = part)) (hpart : part ≠ .accounting) (hφ : φ.Settled) :
    wp recordings NoDemand p (fun _ φ' => φ'.Settled) φ := by
  refine wp_leaves (h.mono ?_) hφ
  rintro e rfl
  exact TurnEff.leavesPending_of_part hpart

theorem leaves_atomicDayReset : atomicDayReset.Only TurnEff.LeavesPending := by
  refine only_act_bind.mpr ⟨trivial, fun today => only_act_bind.mpr ⟨trivial, fun expected => ?_⟩⟩
  split
  · exact only_pure _
  · refine only_act_bind.mpr ⟨trivial, fun won => ?_⟩
    split
    · exact only_act.mpr trivial
    · exact only_pure _

theorem leaves_checkLlmCall (policy : PolicyConfig) (actor : Bytes) :
    (checkLlmCall policy actor).Only TurnEff.LeavesPending := by
  have hrate : (checkRate policy actor).Only TurnEff.LeavesPending := by
    unfold checkRate
    split
    · exact only_act_bind.mpr ⟨trivial, fun _ => only_pure _⟩
    · exact only_pure _
  refine leaves_atomicDayReset.bind fun _ => ?_
  split
  · refine only_act_bind.mpr ⟨trivial, fun used => ?_⟩
    split
    · exact only_pure _
    · exact hrate
  · exact hrate

/-- What is recorded is counted by the next effect. -/
theorem wp_recordTokenUsage_recordings (usage : Json) (hφ : φ.Settled) :
    wp recordings NoDemand (recordTokenUsage agent usage) (fun _ φ' => φ'.Settled) φ := by
  unfold recordTokenUsage
  split
  · exact hφ
  · split
    · next p q hp hq =>
      split
      · exact hφ
      · rw [wp_act_bind]
        refine ⟨trivial, fun _ _ => ?_⟩
        rw [wp_act_bind]
        refine ⟨trivial, fun _ _ => ?_⟩
        -- the row is written, and what it has is counted at once
        have hcounted : RecordPhase.Settled ⟨true, φ.pending + (p.toInt, q.toInt) -
            (p.toInt, q.toInt)⟩ := ⟨rfl, by rw [add_sub_cancel_right]; exact hφ.pending⟩
        exact wp_leaves (leaves_atomicDayReset.bind fun _ => only_act.mpr trivial) hcounted
    · split
      · exact hφ
      · exact hφ

theorem wp_toolRounds_recordings (tools : List Json) (remaining round : Nat)
    (messages : List ChatMessage) (hφ : φ.Settled) :
    wp recordings NoDemand (toolRounds agent tools remaining round messages)
      (fun _ φ' => φ'.Settled) φ := by
  -- nothing is pending at the beginning of a round
  induction remaining generalizing round messages φ with
  | zero => exact hφ
  | succ remaining ih =>
    unfold toolRounds
    have hask : (ask (.completeWithTools round messages tools)).Only TurnEff.LeavesPending :=
      only_act_bind.mpr ⟨trivial, fun _ =>
        only_act_bind.mpr ⟨trivial, fun answer => only_ofExcept answer⟩⟩
    refine wp_bind_of (wp_leaves hask hφ) (fun resp φ₁ hφ₁ => ?_) fun _ _ h => h
    -- the row is written and the figures are counted, both or neither
    refine wp_bind_of (wp_recordTokenUsage_recordings resp.usage hφ₁) (fun _ φ₂ hφ₂ => ?_)
      fun _ _ h => h
    split
    · exact hφ₂
    · rw [wp_bind, wp_ofExcept]
      cases dumpToolCalls resp.toolCalls with
      | error err => exact hφ₂
      | ok json =>
        rw [then_ok]
        -- the tools record nothing
        refine wp_bind_of (wp_leaves_of_part (only_launchTools _) (by decide) hφ₂)
          (fun _ φ₃ hφ₃ => ?_) fun _ _ h => h
        refine wp_bind_of (wp_leaves_of_part (only_collectTools _ _) (by decide) hφ₃)
          (fun after φ₄ hφ₄ => ?_) fun _ _ h => h
        exact ih (round + 1) after hφ₄

theorem wp_toolLoop_recordings (messages : List ChatMessage) (hφ : φ.Settled) :
    wp recordings NoDemand (toolLoop agent messages) (fun _ φ' => φ'.Settled) φ := by
  unfold toolLoop
  rw [wp_act_bind]
  refine ⟨trivial, fun providers _ => ?_⟩
  have hφ₁ : (φ.next .getTools).Settled := hφ.next trivial
  show wp _ _ (if buildToolsJson providers = [] then _ else _) _ _
  split
  · have hask : (ask (.completeMessages messages)).Only TurnEff.LeavesPending :=
      only_act_bind.mpr ⟨trivial, fun _ =>
        only_act_bind.mpr ⟨trivial, fun answer => only_ofExcept answer⟩⟩
    exact wp_leaves (hask.bind fun _ => only_pure _) hφ₁
  · exact wp_toolRounds_recordings _ kSafetyLimit 0 messages hφ₁

theorem wp_answerMessage_recordings (hφ : φ.Settled) :
    wp recordings NoDemand (answerMessage agent message c) (fun _ φ' => φ'.Settled) φ := by
  -- the notices that end a turn early record nothing
  have hnotice : ∀ content ended (φ : RecordPhase), φ.Settled →
      wp recordings NoDemand (replyTo message content >>= fun _ => pure ended)
        (fun _ φ' => φ'.Settled) φ := fun content ended φ hφ =>
    wp_leaves_of_part (only_notice content ended) (by decide) hφ
  unfold answerMessage
  split
  case isFalse => exact hnotice _ _ φ hφ
  case isTrue =>
    have happend : Only TurnEff.LeavesPending (act (.append c
        { role := .user, senderNick := message.senderNick
          content := formatDisplayContent message })) := only_act.mpr trivial
    -- nor does anything before the tool loop, the summary included
    refine wp_bind_of (wp_leaves happend hφ) (fun _ φ₁ hφ₁ => ?_) fun _ _ h => h
    refine wp_bind_of (wp_leaves_of_part only_summarizeWithModel (by decide) hφ₁)
      (fun _ φ₂ hφ₂ => ?_) fun _ _ h => h
    refine wp_bind_of (wp_leaves_of_part only_buildMessageList (by decide) hφ₂)
      (fun list φ₃ hφ₃ => ?_) fun _ _ h => h
    refine wp_bind_of (wp_leaves (leaves_checkLlmCall _ _) hφ₃) (fun refusal φ₄ hφ₄ => ?_)
      fun _ _ h => h
    cases refusal with
    | some reason => exact hnotice _ _ φ₄ hφ₄
    | none =>
      refine wp_bind_of (wp_toolLoop_recordings _ hφ₄) (fun after φ₅ hφ₅ => ?_) fun _ _ h => h
      -- or behind it
      refine wp_bind_of (wp_leaves_of_part (only_persistToolMessages _) (by decide) hφ₅)
        (fun _ φ₆ hφ₆ => ?_) fun _ _ h => h
      refine wp_leaves ((only_deliver _ _).mono ?_) hφ₆
      rintro e (he | ⟨content, rfl⟩)
      · exact TurnEff.leavesPending_of_part (by rw [he]; decide)
      · trivial

/-- **A turn counts what it records**: whatever happens in it, nothing is pending at its end. -/
theorem wp_processAgentMessage_recordings (message : MessageEvent) :
    wp recordings NoDemand (processAgentMessage agent message) (fun _ φ' => φ'.Settled) {} := by
  unfold processAgentMessage
  rw [wp_act_bind]
  refine ⟨trivial, fun _ _ => ?_⟩
  have hφ : RecordPhase.Settled ⟨true, 0⟩ := ⟨rfl, rfl⟩
  refine wp_tryCatch.mpr (wp_mono (wp_answerMessage_recordings hφ) fun r φ' hφ' => ?_)
  cases r with
  | ok ended => exact hφ'
  | error err => exact wp_leaves_of_part (only_notice _ _) (by decide) hφ'

end Turn

/-! ### Turns side by side -/

/-- Turns of one agent, side by side. -/
abbrev RecordedTurns (ι : Type) := Pool TurnSig RecordedWorld RecordPhase Thrown TurnEnd ι

/-- The turns that answer `messages`, none of them begun. -/
def startRecorded {ι : Type} (agent : AgentController) (messages : ι → MessageEvent)
    (w : RecordedWorld) : RecordedTurns ι where
  state := w
  phase := fun _ => {}
  rest := fun j => processAgentMessage agent (messages j)

/-- The tokens of some rows. -/
def TokenUsage.tokens (usage : TokenUsage) : Int × Int :=
  (usage.map fun r => (r.promptTokens.toInt, r.completionTokens.toInt)).sum

/-- What the counters of the tokens are. -/
def Metrics.tokens (m : Metrics) : Int64 × Int64 := (m.promptTokens, m.completionTokens)

/-- Counters after some tokens were added. They wrap around. -/
def addTokens (counters : Int64 × Int64) (tokens : Int × Int) : Int64 × Int64 :=
  (counters.1 + .ofInt tokens.1, counters.2 + .ofInt tokens.2)

theorem addTokens_add (counters : Int64 × Int64) (s t : Int × Int) :
    addTokens (addTokens counters s) t = addTokens counters (s + t) := by
  refine Prod.ext ?_ ?_
  · show counters.1 + .ofInt s.1 + .ofInt t.1 = counters.1 + .ofInt (s.1 + t.1)
    rw [Int64.add_assoc, Int64.ofInt_add]
  · show counters.2 + .ofInt s.2 + .ofInt t.2 = counters.2 + .ofInt (s.2 + t.2)
    rw [Int64.add_assoc, Int64.ofInt_add]

theorem RecordPhase.begun_next (φ : RecordPhase) (e : TurnEff) : (φ.next e).begun = true := by
  cases e <;> rfl

namespace RecordedTurns

variable {ι : Type} [Fintype ι] {clock : ℕ → Int} {writes : ℕ → Bool} {w : RecordedWorld}
  {c c' : RecordedTurns ι} {i : ι}

/-- The tokens that are recorded and not counted yet. -/
def pending (c : RecordedTurns ι) : Int × Int := c.total RecordPhase.pending

/-- The counters and the rows throughout a run. -/
structure StatsInv (w : RecordedWorld) (c : RecordedTurns ι) : Prop where
  conforms : c.Conforms recordings NoDemand RecordPhase.Settled
  /-- the rows that were written in the run, behind those that were there, and those that should
  have been are what the counters have gained and what is pending -/
  counted : ∃ rows, c.state.usage = w.usage ++ rows ∧
    c.state.world.metrics.tokens = addTokens w.world.metrics.tokens
      (TokenUsage.tokens rows + (c.state.lost - w.lost) - c.pending)
  unbegun : ∀ j, (c.phase j).begun = false → (c.phase j).pending = 0

theorem StatsInv.start (agent : AgentController) (messages : ι → MessageEvent)
    (w : RecordedWorld) : StatsInv w (startRecorded agent messages w) := by
  refine ⟨fun j => wp_processAgentMessage_recordings (messages j), ⟨[], ?_, ?_⟩, fun _ _ => rfl⟩
  · exact (List.append_nil _).symm
  · have hpending : (startRecorded agent messages w).pending = 0 := Pool.total_eq_zero fun _ => rfl
    have hlost : (startRecorded agent messages w).state.lost - w.lost = 0 := sub_self w.lost
    rw [hpending, hlost]
    exact Prod.ext (Int64.add_zero _).symm (Int64.add_zero _).symm

variable [DecidableEq ι] {e : TurnEff} {x : e.Ans}

/-- What a step changes of what is pending. -/
theorem pending_step (hstep : Pool.Step (recordedMachine clock writes) recordings c i e x c') :
    c'.pending = c.pending + (((c.phase i).next e).pending - (c.phase i).pending) :=
  hstep.total_eq RecordPhase.pending

variable (clock writes) in
/-- A row more, or as many tokens more are lost. -/
theorem recorded_step (s : RecordedWorld) (m : Bytes) (p q : Int32)
    (y : (TurnEff.recordUsage m p q).Ans) :
    ∃ rows, (s.next clock writes (.recordUsage m p q) y).usage = s.usage ++ rows ∧
      TokenUsage.tokens rows + (s.next clock writes (.recordUsage m p q) y).lost =
        s.lost + (p.toInt, q.toInt) := by
  simp only [RecordedWorld.next, TokenUsage.recordTokenUsage]
  by_cases hwrites : writes s.inserts = true
  · refine ⟨[⟨clock s.inserts, cStr m, p, q⟩], if_pos hwrites, ?_⟩
    rw [if_pos hwrites, add_comm]
    exact congrArg _ (List.sum_singleton ..)
  · refine ⟨[], ?_, ?_⟩
    · rw [if_neg hwrites, List.append_nil]
    · rw [if_neg hwrites]
      exact zero_add _

theorem tokens_append (rows rows' : TokenUsage) :
    TokenUsage.tokens (rows ++ rows') = TokenUsage.tokens rows + TokenUsage.tokens rows' := by
  rw [TokenUsage.tokens, List.map_append, List.sum_append]
  rfl

/-- Everything that was recorded since `w` is in the rows or lost, and the counters have it but for
what is pending. -/
def Counted (w : RecordedWorld) (c : RecordedTurns ι) : Prop :=
  ∃ rows, c.state.usage = w.usage ++ rows ∧
    c.state.world.metrics.tokens = addTokens w.world.metrics.tokens
      (TokenUsage.tokens rows + (c.state.lost - w.lost) - c.pending)

/-- A row more, or more that is lost, and as much more is pending. -/
theorem Counted.recordUsage (h : Counted w c) {m : Bytes} {p q : Int32} {x : Unit}
    (hstep : Pool.Step (recordedMachine clock writes) recordings c i (.recordUsage m p q) x c') :
    Counted w c' := by
  obtain ⟨rows, husage, htokens⟩ := h
  have hstate : c'.state = c.state.next clock writes (.recordUsage m p q) x := hstep.state_eq
  obtain ⟨new, husage', hnew⟩ := recorded_step clock writes c.state m p q x
  refine ⟨rows ++ new, ?_, ?_⟩
  · rw [hstate, husage', husage, List.append_assoc]
  · have hmore : c'.pending = c.pending + (p.toInt, q.toInt) := by
      rw [pending_step hstep]
      exact congrArg _ (add_sub_cancel_left ..)
    have hcounters : c'.state.world.metrics.tokens = c.state.world.metrics.tokens := by
      rw [hstate]
      rfl
    have hsum : TokenUsage.tokens (rows ++ new) + (c'.state.lost - w.lost) =
        TokenUsage.tokens rows + (c.state.lost - w.lost) + (p.toInt, q.toInt) := by
      rw [hstate, tokens_append, add_assoc, ← add_sub_assoc, hnew,
        add_sub_right_comm, ← add_assoc]
    rw [hcounters, hsum, hmore, add_sub_add_right_eq_sub, htokens]

/-- What was pending is counted. -/
theorem Counted.addTokens (h : Counted w c) {p q : Int32} {x : Unit}
    (hstep : Pool.Step (recordedMachine clock writes) recordings c i (.addTokens p q) x c') :
    Counted w c' := by
  obtain ⟨rows, husage, htokens⟩ := h
  have hstate : c'.state = c.state.next clock writes (.addTokens p q) x := hstep.state_eq
  have hless : c'.pending = c.pending - (p.toInt, q.toInt) := by
    rw [pending_step hstep, sub_eq_add_neg c.pending]
    exact congrArg _ (sub_sub_cancel_left ..)
  have hcounted : c'.state.world.metrics.tokens =
      Aestival.addTokens c.state.world.metrics.tokens (p.toInt, q.toInt) := by
    rw [hstate]
    rfl
  have hlost : c'.state.lost = c.state.lost := by rw [hstate]; rfl
  refine ⟨rows, ?_, ?_⟩
  · rw [hstate]
    exact husage
  · rw [hcounted, htokens, hless, hlost, sub_sub_eq_add_sub,
      add_sub_right_comm _ (p.toInt, q.toInt)]
    exact addTokens_add _ _ _

/-- Neither the rows nor the counters change. -/
theorem Counted.leaves (h : Counted w c) (hleaves : e.LeavesPending)
    (hstep : Pool.Step (recordedMachine clock writes) recordings c i e x c') : Counted w c' := by
  obtain ⟨rows, husage, htokens⟩ := h
  have hstate : c'.state = c.state.next clock writes e x := hstep.state_eq
  have hnext : c'.state.usage = c.state.usage ∧ c'.state.lost = c.state.lost ∧
      c'.state.world = c.state.world.next e x := by
    rw [hstate]
    cases e with
    | recordUsage m p q => exact hleaves.elim
    | _ => exact ⟨rfl, rfl, rfl⟩
  have hsame : c'.pending = c.pending := by
    rw [pending_step hstep, RecordPhase.next_of_leaves hleaves, sub_self, add_zero]
  have hcounters : c'.state.world.metrics.tokens = c.state.world.metrics.tokens := by
    have hne : ∀ p q, e ≠ .addTokens p q := by
      rintro p q rfl
      exact hleaves
    obtain ⟨hprompt, hcompletion⟩ := World.tokens_next hne c.state.world x
    rw [hnext.2.2]
    exact Prod.ext hprompt hcompletion
  refine ⟨rows, hnext.1.trans husage, ?_⟩
  rw [hcounters, hnext.2.1, hsame]
  exact htokens

/-- **The counters are ahead of what was recorded by what is pending**, after every step. -/
theorem StatsInv.counted_step (hinv : StatsInv w c)
    (hstep : Pool.Step (recordedMachine clock writes) recordings c i e x c') : Counted w c' := by
  have hcounted : Counted w c := hinv.counted
  cases e with
  | recordUsage m p q => exact hcounted.recordUsage hstep
  | addTokens p q => exact hcounted.addTokens hstep
  | _ =>
    refine hcounted.leaves ?_ hstep
    trivial

theorem StatsInv.step (hinv : StatsInv w c)
    (hstep : Pool.Step (recordedMachine clock writes) recordings c i e x c') : StatsInv w c' where
  conforms := hstep.conforms hinv.conforms trivial
  counted := hinv.counted_step hstep
  unbegun j hj := by
    by_cases hji : j = i
    · subst hji
      rw [hstep.phase_self] at hj
      cases (RecordPhase.begun_next (c.phase j) e).symm.trans hj
    · rw [hstep.phase_of_ne hji] at hj ⊢
      exact hinv.unbegun j hj

omit [DecidableEq ι] in
/-- Nothing is pending when no turn is under way. -/
theorem StatsInv.pending_eq_zero (hinv : StatsInv w c)
    (hrest : ∀ j, (c.phase j).begun = false ∨ (c.rest j).isOver = true) : c.pending = 0 := by
  refine Pool.total_eq_zero fun j => ?_
  rcases hrest j with hj | hj
  · exact hinv.unbegun j hj
  · exact (hinv.conforms.of_isOver hj).pending

end RecordedTurns

/-! ### The two reports -/

/-- The tokens of a report of days. -/
theorem tokens_eq_figures (rows : TokenUsage) :
    (rows.map UsageRow.figures).sum.2 = TokenUsage.tokens rows := by
  unfold TokenUsage.tokens
  induction rows with
  | nil => rfl
  | cons r rows ih =>
    rw [List.map_cons, List.sum_cons, List.map_cons, List.sum_cons, ← ih]
    rfl

/-- The turns of an agent that run on a database, whatever is answered. -/
abbrev RecordedTurns.Run {ι : Type} [DecidableEq ι] (clock : ℕ → Int) (writes : ℕ → Bool)
    (agent : AgentController) (messages : ι → MessageEvent) (w : RecordedWorld) :
    RecordedTurns ι → Prop :=
  Pool.Run (recordedMachine clock writes) recordings (fun _ _ _ _ => True)
    (startRecorded agent messages w)

/-- **The statistics say what the metrics have counted**, but for the rows that could not be
written. In every run of turns side by side, when no turn is under way, the counters of the tokens
have gained the totals of `get_token_stats` and what was lost, if the rows of the run are those of
the last thirty days. -/
theorem statistics_match_metrics {ι : Type} [Fintype ι] [DecidableEq ι] {clock : ℕ → Int}
    {writes : ℕ → Bool} {localDate : Int → TextKey} {agent : AgentController}
    {messages : ι → MessageEvent}
    {w : RecordedWorld} {c : RecordedTurns ι} {now : Int}
    (hrun : RecordedTurns.Run clock writes agent messages w c)
    (hrest : ∀ j, (c.phase j).begun = false ∨ (c.rest j).isOver = true)
    (hold : w.usage.recent now = [])
    (hnew : ∀ r ∈ c.state.usage.drop w.usage.length, now - statsWindow < r.createdAt) :
    c.state.world.metrics.tokens =
      addTokens w.world.metrics.tokens
        ((sumAll (c.state.usage.getTokenStats localDate now)).2 + (c.state.lost - w.lost)) := by
  have hinv : RecordedTurns.StatsInv w c :=
    hrun.invariant (.start agent messages w) fun hinv hstep _ => hinv.step hstep
  obtain ⟨rows, husage, htokens⟩ := hinv.counted
  rw [hinv.pending_eq_zero hrest, sub_zero] at htokens
  -- the rows of the last thirty days are those of the run
  have hrecent : c.state.usage.recent now = rows := by
    rw [husage, List.drop_left] at hnew
    have hall : TokenUsage.recent rows now = rows :=
      List.filter_eq_self.mpr fun r hr => decide_eq_true (hnew r hr)
    have happend : TokenUsage.recent (w.usage ++ rows) now =
        w.usage.recent now ++ TokenUsage.recent rows now := List.filter_append ..
    rw [husage, happend, hold, hall]
    rfl
  have hreport : DailyReport localDate (c.state.usage.recent now)
      (c.state.usage.getTokenStats localDate now) := (getTokenStats_reports c.state.usage now).1
  rw [htokens, hreport.total, hrecent, tokens_eq_figures]

/-- The surroundings of a turn on a database. -/
def RecordedWorld.answer (around : Scenario) (s : RecordedWorld) (e : TurnEff) : e.Ans :=
  s.world.answer around e

/-- A turn on a new database that is answered with a text: its trace, the state it leaves, and how
it ends. -/
def talkingTurn (writes : ℕ → Bool) :
    List (Event TurnSig RecordedWorld) × RecordedWorld × Except Thrown TurnEnd :=
  simulate (recordedMachine (fun _ => 100) writes) (RecordedWorld.answer talkingScenario) {}
    (processAgentMessage smallBudget (privateMessage (utf8 "hi")))

/-- Its end, as one of the runs. -/
theorem talkingTurn_run (writes : ℕ → Bool) : ∃ c : RecordedTurns Unit,
    RecordedTurns.Run (fun _ => 100) writes smallBudget (fun _ => privateMessage (utf8 "hi")) {} c ∧
    c.state = (talkingTurn writes).2.1 ∧ (c.rest ()).isOver = true := by
  have henv : ∀ s e, (recordedMachine (fun _ => 100) writes).admits s e
      (RecordedWorld.answer talkingScenario s e) :=
    fun s e => World.admits_answer talkingScenario s.world e
  -- one turn, alone
  have hexec := exec_simulate henv {}
    (processAgentMessage smallBudget (privateMessage (utf8 "hi")))
  let any : RecordedTurns Unit → Unit → (e : TurnEff) → e.Ans → Prop := fun _ _ _ _ => True
  have hany : ∀ (c : RecordedTurns Unit), ∀ ev ∈ (talkingTurn writes).1, c.state = ev.pre →
      any c () ev.eff ev.ans := fun _ _ _ _ => trivial
  obtain ⟨c, hrun, hstate, -, hover⟩ := Pool.Run.of_exec_end
    (c := startRecorded smallBudget (fun _ : Unit => privateMessage (utf8 "hi")) {}) .start
    hexec rfl rfl hany
  exact ⟨c, hrun, hstate, hover⟩

/-- It is counted in both places, or only in the metrics if the row cannot be written. -/
theorem talking_turn_statistics :
    (∃ c : RecordedTurns Unit,
      RecordedTurns.Run (fun _ => 100) (fun _ => true) smallBudget
        (fun _ => privateMessage (utf8 "hi")) {} c ∧
      c.state.world.metrics.tokens = (5, 3) ∧ c.state.usage.length = 1 ∧
      c.state.world.metrics.tokens = addTokens (0, 0)
        ((sumAll (c.state.usage.getTokenStats (fun _ => ⟨utf8 "1970-01-01"⟩) 200)).2 +
          (c.state.lost - 0))) ∧
    ∃ c : RecordedTurns Unit,
      RecordedTurns.Run (fun _ => 100) (fun _ => false) smallBudget
        (fun _ => privateMessage (utf8 "hi")) {} c ∧
      c.state.world.metrics.tokens = (5, 3) ∧ c.state.usage.length = 0 ∧
      c.state.world.metrics.tokens = addTokens (0, 0)
        ((sumAll (c.state.usage.getTokenStats (fun _ => ⟨utf8 "1970-01-01"⟩) 200)).2 +
          (c.state.lost - 0)) := by
  constructor
  -- the INSERT succeeds
  · obtain ⟨c, hrun, hstate, hover⟩ := talkingTurn_run fun _ => true
    have hrows : c.state.usage = [⟨100, utf8 "deepseek-chat", 5, 3⟩] := by
      rw [hstate]
      rfl
    refine ⟨c, hrun, by rw [hstate]; rfl, by rw [hrows]; rfl, ?_⟩
    refine statistics_match_metrics hrun (fun () => .inr hover) rfl fun r hr => ?_
    rw [hrows] at hr
    obtain rfl := List.mem_singleton.mp hr
    decide
  -- the INSERT fails: the figures are counted and have no row
  · obtain ⟨c, hrun, hstate, hover⟩ := talkingTurn_run fun _ => false
    have hrows : c.state.usage = [] := by
      rw [hstate]
      rfl
    refine ⟨c, hrun, by rw [hstate]; rfl, by rw [hrows]; rfl, ?_⟩
    refine statistics_match_metrics hrun (fun () => .inr hover) rfl fun r hr => ?_
    rw [hrows] at hr
    exact absurd hr List.not_mem_nil

end Aestival
