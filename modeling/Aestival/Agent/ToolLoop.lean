import Aestival.Agent.Controller

/-!
# What the tool loop appends

The messages `toolLoop` adds are a `Transcript`: rounds of an assistant message with its tool calls
and the results of these calls in their order, and at the end a text of the model, or nothing when
the rounds are used up. `wp_toolLoop` proves it for any behaviour of the model and the tools, and
says which text it is: the one of the last response (`lastText`).

The rest of a turn does not depend on what happens inside the loop. For that the effects are
classified: the loop performs only effects that are `inLoop`, and none of these `writesStore`.
-/

namespace Aestival

open Bytes Prog

/-! ### Kinds of effects -/

/-- The effects of the policy engine and the token statistics. -/
def TurnEff.isAccounting : TurnEff → Bool
  | .addTokens .. | .recordUsage .. | .today | .loadDay | .casDay .. | .storeUsed _ | .loadUsed
  | .addUsed _ | .rateLimit .. => true
  | _ => false

/-- The effects of the tool loop, the requests apart. -/
def TurnEff.isQuiet (e : TurnEff) : Bool :=
  e.isAccounting || match e with
    | .getTools | .launchTool _ | .awaitTool _ => true
    | _ => false

/-- The effects of the tool loop. -/
def TurnEff.inLoop (e : TurnEff) : Bool :=
  e.isQuiet || match e with
    | .request _ | .response _ => true
    | _ => false

theorem TurnEff.isQuiet_of_isAccounting {e : TurnEff} (h : e.isAccounting = true) :
    e.isQuiet = true := by
  unfold TurnEff.isQuiet
  rw [h]
  rfl

theorem TurnEff.inLoop_of_isQuiet {e : TurnEff} (h : e.isQuiet = true) : e.inLoop = true := by
  unfold TurnEff.inLoop
  rw [h]
  rfl

/-- The effects that change a conversation. -/
def TurnEff.writesStore : TurnEff → Bool
  | .append .. | .commit .. => true
  | _ => false

/-- No effect of the loop does. -/
theorem TurnEff.writesStore_of_inLoop {e : TurnEff} (h : e.inLoop = true) :
    e.writesStore = false := by
  cases e with
  | append => cases h
  | commit => cases h
  | _ => rfl

theorem World.store_next {e : TurnEff} (h : e.writesStore = false) (w : World) (x : e.Ans) :
    (w.next e x).store = w.store := by
  cases e with
  | casDay expected desired =>
    rw [World.next_casDay]
    split <;> rfl
  | response r =>
    cases x with
    | ok resp => rfl
    | error t => rfl
  | append => cases h
  | commit => cases h
  | _ => rfl

/-! ### The record of a turn -/

/-- What a turn has done and been answered. -/
abbrev TurnRecord := List (Σ e : TurnSig.Eff, TurnSig.Ans e)

/-- The text of a response inside the loop. One that asks for tools has none. -/
def responseText : (Σ e : TurnSig.Eff, TurnSig.Ans e) → Option Bytes
  | ⟨.response (.completeMessages _), .ok r⟩ => some r.content
  | ⟨.response (.completeWithTools ..), .ok r⟩ =>
    some (if r.toolCalls = [] then r.content else [])
  | _ => none

/-- The text of the last response, empty while there is none. -/
def lastText (record : TurnRecord) : Bytes := (record.filterMap responseText).getLast?.getD []

theorem lastText_concat (record : TurnRecord) (p : Σ e : TurnSig.Eff, TurnSig.Ans e) :
    lastText (record ++ [p]) = (responseText p).getD (lastText record) := by
  unfold lastText
  rw [List.filterMap_append]
  cases hp : responseText p with
  | none => simp [hp]
  | some s => simp [hp]

theorem responseText_of_isQuiet {e : TurnEff} (h : e.isQuiet = true) (x : e.Ans) :
    responseText ⟨e, x⟩ = none := by
  cases e with
  | response r => cases h
  | _ => rfl

/-- The machine a turn is recorded on. -/
abbrev recordMachine : Machine TurnSig TurnRecord := Machine.recording TurnSig

/-- A part of a turn that receives no response leaves the last text as it is. -/
theorem wp_keepsText {α : Type} {p : Turn α} {A : TurnEff → Prop} {P : Except Thrown α → Prop}
    {record : TurnRecord} {s : Bytes} (hA : ∀ e, A e → ∀ x : e.Ans, responseText ⟨e, x⟩ = none)
    (h : wp recordMachine (fun _ e => A e) p (fun r _ => P r) record)
    (hs : lastText record = s) :
    wp recordMachine (fun _ e => A e) p (fun r record' => P r ∧ lastText record' = s) record := by
  refine wp_demands (wp_frame (I := fun record => lastText record = s) h ?_ hs) fun _ _ he => he.1
  intro e he record x _ hrecord
  show lastText (record ++ [⟨e, x⟩]) = s
  rw [lastText_concat, show responseText ⟨e, x⟩ = none from hA e he x]
  exact hrecord

/-- So does a part of the loop without requests. -/
theorem wp_quiet {α : Type} {p : Turn α} {P : Except Thrown α → Prop} {record : TurnRecord}
    {s : Bytes} (h : wp recordMachine (fun _ e => TurnEff.isQuiet e = true) p (fun r _ => P r)
      record)
    (hs : lastText record = s) :
    wp recordMachine (fun _ e => TurnEff.inLoop e = true) p
      (fun r record' => P r ∧ lastText record' = s) record := by
  refine wp_demands (wp_keepsText (fun e he x => responseText_of_isQuiet he x) h hs) ?_
  intro record e he
  exact TurnEff.inLoop_of_isQuiet he

/-! ### Accounting -/

section Accounting

variable {record : TurnRecord} {Q : TurnEff → Prop}

/-- `atomicDayReset` performs accounting only. -/
theorem wp_atomicDayReset (hQ : ∀ e, TurnEff.isAccounting e = true → Q e) :
    wp recordMachine (fun _ e => Q e) atomicDayReset (fun r _ => r = .ok ()) record := by
  unfold atomicDayReset
  rw [wp_act_bind]
  refine ⟨hQ _ rfl, fun today _ => ?_⟩
  rw [wp_act_bind]
  refine ⟨hQ _ rfl, fun expected _ => ?_⟩
  split
  · rfl
  · rw [wp_act_bind]
    refine ⟨hQ _ rfl, fun won _ => ?_⟩
    split
    · exact ⟨hQ _ rfl, fun _ _ => rfl⟩
    · rfl

/-- So does `checkLlmCall`. -/
theorem wp_checkLlmCall (hQ : ∀ e, TurnEff.isAccounting e = true → Q e) (policy : PolicyConfig)
    (actor : Bytes) :
    wp recordMachine (fun _ e => Q e) (checkLlmCall policy actor) (fun _ _ => True) record := by
  -- the rate limit has one effect at most
  have hrate : ∀ record, wp recordMachine (fun _ e => Q e) (checkRate policy actor)
      (fun _ _ => True) record := by
    intro record
    unfold checkRate
    split
    · exact ⟨hQ _ rfl, fun _ _ => trivial⟩
    · trivial
  unfold checkLlmCall
  refine wp_bind_of (wp_atomicDayReset hQ) (fun _ _ _ => ?_) fun _ _ _ => trivial
  split
  · rw [wp_act_bind]
    refine ⟨hQ _ rfl, fun used _ => ?_⟩
    split
    · trivial
    · exact hrate _
  · exact hrate _

/-- So does `recordTokenUsage`, whatever the usage is. -/
theorem wp_recordTokenUsage (hQ : ∀ e, TurnEff.isAccounting e = true → Q e)
    (agent : AgentController) (usage : Json) :
    wp recordMachine (fun _ e => Q e) (recordTokenUsage agent usage) (fun _ _ => True) record := by
  unfold recordTokenUsage
  split
  · trivial
  split
  · split
    · trivial
    · rw [wp_act_bind]
      refine ⟨hQ _ rfl, fun _ _ => ?_⟩
      rw [wp_act_bind]
      refine ⟨hQ _ rfl, fun _ _ => ?_⟩
      refine wp_bind_of (wp_atomicDayReset hQ) ?_ ?_
      · intro _ _ _
        exact ⟨hQ _ rfl, fun _ _ => trivial⟩
      · intro _ _ _
        trivial
  · split <;> trivial

end Accounting

/-! ### The tools of a round -/

/-- The messages with the results of some calls, in their order. -/
def ToolResults (calls : List ToolCall) (results : List ChatMessage) : Prop :=
  List.Forall₂ (fun tc m => ∃ result, m = { role := .tool, content := result, toolCallId := tc.id })
    calls results

theorem wp_launchTools (calls : List ToolCall) (record : TurnRecord) :
    wp recordMachine (fun _ e => TurnEff.isQuiet e = true) (launchTools calls)
      (fun r _ => r = .ok ()) record := by
  induction calls generalizing record with
  | nil => rfl
  | cons tc calls ih => exact ⟨rfl, fun _ _ => ih _⟩

/-- The results are appended one for each call, unless a task has thrown. -/
theorem wp_collectTools (calls : List ToolCall) (messages : List ChatMessage)
    (record : TurnRecord) :
    wp recordMachine (fun _ e => TurnEff.isQuiet e = true) (collectTools calls messages)
      (fun r _ => ∀ after, r = .ok after →
        ∃ results, after = messages ++ results ∧ ToolResults calls results) record := by
  induction calls generalizing messages record with
  | nil =>
    intro after h
    obtain rfl := Except.ok.inj h
    exact ⟨[], (List.append_nil _).symm, .nil⟩
  | cons tc calls ih =>
    unfold collectTools
    rw [wp_act_bind]
    refine ⟨rfl, fun ended _ => ?_⟩
    rw [wp_bind, wp_ofExcept]
    -- an error ends the loop; a result is appended, and the loop goes on
    cases toolOutput ended with
    | error t =>
      intro after h
      cases h
    | ok result =>
      rw [then_ok]
      refine wp_mono (ih _ _) ?_
      intro r _ hr after h
      obtain ⟨results, rfl, hresults⟩ := hr after h
      exact ⟨_ :: results, by rw [List.append_assoc]; rfl, .cons ⟨result, rfl⟩ hresults⟩

/-- A dumped list of calls is not empty. -/
theorem dumpToolCalls_ne_nil {calls : List ToolCall} {json : Bytes}
    (h : dumpToolCalls calls = .ok json) : json ≠ [] := by
  unfold dumpToolCalls at h
  split at h
  · rw [← Except.ok.inj h]
    simp [utf8]
  · cases h

/-! ### The transcript -/

/-- What the loop appends, with the text it ends with. -/
inductive Transcript : Bytes → List ChatMessage → Prop
  /-- the rounds are used up -/
  | exhausted : Transcript [] []
  /-- a response without tool calls -/
  | text (content : Bytes) : Transcript content [{ role := .assistant, content }]
  /-- a response with tool calls, and their results -/
  | round {calls : List ToolCall} {json content : Bytes} {results t : List ChatMessage}
    (hcalls : calls ≠ []) (hjson : dumpToolCalls calls = .ok json)
    (hresults : ToolResults calls results) (ht : Transcript content t) :
    Transcript content ({ role := .assistant, toolCallsJson := json } :: (results ++ t))

/-- What the loop ends with from `messages`: a list that goes on with a transcript whose text is the
one of the last response. -/
def LoopEnd (messages : List ChatMessage) (r : Except Thrown (List ChatMessage))
    (record : TurnRecord) : Prop :=
  ∀ after, r = .ok after → ∃ t, after = messages ++ t ∧ Transcript (lastText record) t

theorem loopEnd_error {messages : List ChatMessage} {err : Thrown} {record : TurnRecord} :
    LoopEnd messages (.error err) record := by
  intro after h
  cases h

/-- The last response had no tool calls: the loop ends with its text. -/
theorem loopEnd_text (messages : List ChatMessage) {content : Bytes} {record : TurnRecord}
    (h : lastText record = content) :
    LoopEnd messages (.ok (messages ++ [{ role := .assistant, content }])) record := by
  intro after hafter
  obtain rfl := Except.ok.inj hafter
  subst h
  exact ⟨_, rfl, .text _⟩

/-- A request and its response, in the loop. -/
theorem wp_ask {α : Type} {r : ModelRequest} {f : ModelResponse → Turn α}
    {Q : Except Thrown α → TurnRecord → Prop} {record : TurnRecord}
    (hok : ∀ resp : ModelResponse,
      wp recordMachine (fun _ e => TurnEff.inLoop e = true) (f resp) Q
        (record ++ [⟨.request r, ()⟩] ++ [⟨.response r, .ok resp⟩]))
    (herror : ∀ err record', Q (.error err) record') :
    wp recordMachine (fun _ e => TurnEff.inLoop e = true) (ask r >>= f) Q record := by
  rw [wp_bind]
  unfold ask
  rw [wp_act_bind]
  refine ⟨rfl, fun _ _ => ?_⟩
  rw [wp_act_bind]
  refine ⟨rfl, fun answer _ => ?_⟩
  rw [wp_ofExcept]
  -- an error ends the turn
  cases answer with
  | ok resp => exact hok resp
  | error err => exact herror err _

/-- The rounds of the loop. Before the first one nothing is asked of the record; when no round is
left, the last response must have had tool calls. -/
theorem wp_toolRounds (agent : AgentController) (tools : List Json) (remaining round : Nat)
    (messages : List ChatMessage) (record : TurnRecord)
    (h : remaining = 0 → lastText record = []) :
    wp recordMachine (fun _ e => TurnEff.inLoop e = true)
      (toolRounds agent tools remaining round messages) (LoopEnd messages) record := by
  induction remaining generalizing round messages record with
  | zero =>
    intro after hafter
    obtain rfl := Except.ok.inj hafter
    refine ⟨[], (List.append_nil _).symm, ?_⟩
    rw [h rfl]
    exact .exhausted
  | succ remaining ih =>
    unfold toolRounds
    refine wp_ask ?_ fun _ _ => loopEnd_error
    intro resp
    -- the text of the response is the last text from here on
    have htext : lastText (record ++ [⟨.request (.completeWithTools round messages tools), ()⟩] ++
        [⟨.response (.completeWithTools round messages tools), .ok resp⟩]) =
        if resp.toolCalls = [] then resp.content else [] := by
      rw [lastText_concat]
      rfl
    have hrecorded : wp recordMachine (fun _ e => TurnEff.isQuiet e = true)
        (recordTokenUsage agent resp.usage) (fun _ _ => True)
        (record ++ [⟨.request (.completeWithTools round messages tools), ()⟩] ++
          [⟨.response (.completeWithTools round messages tools), .ok resp⟩]) :=
      wp_recordTokenUsage (fun e he => TurnEff.isQuiet_of_isAccounting he) agent resp.usage
    refine wp_bind_of (wp_quiet hrecorded htext) ?_ fun _ _ _ => loopEnd_error
    rintro _ record₁ ⟨-, htext₁⟩
    split
    · next hnone =>
      rw [if_pos hnone] at htext₁
      exact loopEnd_text messages htext₁
    · next hcalls =>
      rw [if_neg hcalls] at htext₁
      rw [wp_bind, wp_ofExcept]
      cases hjson : dumpToolCalls resp.toolCalls with
      | error err => exact loopEnd_error
      | ok json =>
        rw [then_ok]
        refine wp_bind_of (wp_quiet (wp_launchTools resp.toolCalls record₁) htext₁) ?_
          fun _ _ _ => loopEnd_error
        rintro _ record₂ ⟨-, htext₂⟩
        refine wp_bind_of (wp_quiet (wp_collectTools resp.toolCalls _ record₂) htext₂) ?_
          fun _ _ _ => loopEnd_error
        rintro after record₃ ⟨hafter, htext₃⟩
        obtain ⟨results, rfl, hresults⟩ := hafter after rfl
        refine wp_mono (ih (round + 1) _ record₃ fun _ => htext₃) ?_
        intro r record₄ hr after' hafter'
        obtain ⟨t, rfl, ht⟩ := hr after' hafter'
        refine ⟨_, ?_, .round hcalls hjson hresults ht⟩
        simp only [List.append_assoc, List.cons_append, List.nil_append]

/-- **The tool loop** appends a transcript that ends with the text of the last response. -/
theorem wp_toolLoop (agent : AgentController) (messages : List ChatMessage) (record : TurnRecord) :
    wp recordMachine (fun _ e => TurnEff.inLoop e = true) (toolLoop agent messages)
      (LoopEnd messages) record := by
  unfold toolLoop
  rw [wp_act_bind]
  refine ⟨rfl, fun providers _ => ?_⟩
  show wp _ _ (if buildToolsJson providers = [] then _ else _) _ _
  split
  · refine wp_ask ?_ fun _ _ => loopEnd_error
    intro resp
    refine loopEnd_text messages ?_
    rw [lastText_concat]
    rfl
  · exact wp_toolRounds agent _ kSafetyLimit 0 messages _ fun h => absurd h (by decide)

/-! ### Behind the loop -/

/-- Storing the tool messages performs `append` only. -/
theorem wp_persistToolMessages (c : Bytes) (messages : List ChatMessage) (record : TurnRecord) :
    wp recordMachine (fun _ e => ∃ m, e = .append c m) (persistToolMessages c messages)
      (fun _ _ => True) record := by
  induction messages generalizing record with
  | nil => trivial
  | cons m messages ih =>
    unfold persistToolMessages
    split
    · exact ⟨⟨_, rfl⟩, fun _ _ => ih _⟩
    split
    · exact ⟨⟨_, rfl⟩, fun _ _ => ih _⟩
    · exact ih _

end Aestival
