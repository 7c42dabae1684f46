import Aestival.Agent.ToolLoop
import Aestival.Library.Runs

/-!
# The transcript of a tool loop with its tasks

`tool_loop` launches one task for every call of a response and collects the results through the
futures, in the order of the calls. The tasks run meanwhile, and end in any order. `LoopStep` is the
loop beside its tasks: the loop performs its next effect, or some task ends.

`toolLoop_appends` says what is appended when the loop returns: rounds of an assistant message with
the calls of a response and one result for each of them, which is that of its own task (`Round`),
and a text of the model unless ten rounds were used up. On the way a loop that has not returned is
never stuck (`loop_progress`).
-/

namespace Aestival

open Bytes Prog

/-! ### The loop and its tasks -/

/-- A task that executes a call, and how it has ended. -/
structure LaunchedTask where
  call : ToolCall
  ended : Option ToolEnd := none

/-- The loop is at the program `rest`. Its tasks are listed as they were launched, those of earlier
rounds included. Every round waits for all of its futures, so the next future is that of the first
task that was not waited for. -/
structure LoopState where
  rest : Turn (List ChatMessage)
  tasks : List LaunchedTask := []
  awaited : Nat := 0

/-- What happens: the loop performs an effect, or a task ends. -/
inductive LoopEvent where
  | main (e : TurnEff) (x : e.Ans)
  | finish (task : Nat) (ended : ToolEnd)

/-- The effects that concern the tasks. -/
def TurnEff.isTask : TurnEff → Bool
  | .launchTool _ | .awaitTool _ => true
  | _ => false

/-- One step. The loop waits for a future until its task has ended; all other effects may be
answered in any way. -/
inductive LoopStep : LoopState → LoopEvent → LoopState → Prop
  | launch {s : LoopState} {tc : ToolCall} {k : Unit → Turn (List ChatMessage)}
    (hrest : s.rest = .op (.launchTool tc) k) :
    LoopStep s (.main (.launchTool tc) ())
      { s with rest := k (), tasks := s.tasks ++ [{ call := tc }] }
  | await {s : LoopState} {tc : ToolCall} {k : ToolEnd → Turn (List ChatMessage)} {t : LaunchedTask}
    {ended : ToolEnd} (hrest : s.rest = .op (.awaitTool tc) k) (ht : s.tasks[s.awaited]? = some t)
    (hended : t.ended = some ended) :
    LoopStep s (.main (.awaitTool tc) ended) { s with rest := k ended, awaited := s.awaited + 1 }
  | other {s : LoopState} {e : TurnEff} {k : e.Ans → Turn (List ChatMessage)} (x : e.Ans)
    (hrest : s.rest = .op e k) (htask : e.isTask = false) :
    LoopStep s (.main e x) { s with rest := k x }
  | finish {s : LoopState} {i : Nat} {t : LaunchedTask} (ended : ToolEnd)
    (ht : s.tasks[i]? = some t) (hrunning : t.ended = none) :
    LoopStep s (.finish i ended) { s with tasks := s.tasks.set i { t with ended := some ended } }

/-- `tool_loop` from these messages, with its tasks. -/
def loopSystem (agent : AgentController) (messages : List ChatMessage) :
    TransitionSystem LoopState LoopEvent where
  init s := s = { rest := toolLoop agent messages }
  step := LoopStep

/-! ### What the loop appends -/

/-- The output of a task, once it has ended. -/
def LaunchedTask.output (t : LaunchedTask) : Option Bytes :=
  match t.ended.map toolOutput with
  | some (.ok result) => some result
  | _ => none

/-- The message with its output. -/
def LaunchedTask.message (t : LaunchedTask) : ChatMessage :=
  { role := .tool, content := t.output.getD [], toolCallId := t.call.id }

/-- A round: the tasks of the calls of a response, and the calls as they are dumped. -/
structure Round where
  tasks : List LaunchedTask
  json : Bytes

def Round.calls (r : Round) : List ToolCall := r.tasks.map LaunchedTask.call

/-- Its messages. -/
def Round.messages (r : Round) : List ChatMessage :=
  { role := .assistant, toolCallsJson := r.json } :: r.tasks.map LaunchedTask.message

/-- There are calls, dumped in their order, and every task has put out something. -/
structure Round.WellFormed (r : Round) : Prop where
  nonempty : r.calls ≠ []
  json : dumpToolCalls r.calls = .ok r.json
  outputs : ∀ t ∈ r.tasks, ∃ result, t.output = some result ∧ result ≠ []

/-- A loop of at most `limit` rounds that has been given these responses (calls and text) and has
launched these tasks has appended `t`: the rounds, and then `final`. -/
structure Appended (limit : Nat) (responses : List (List ToolCall × Bytes))
    (tasks : List LaunchedTask) (rounds : List Round) (final t : List ChatMessage) : Prop where
  messages : t = rounds.flatMap Round.messages ++ final
  /-- every task is that of one result -/
  tasks : tasks = rounds.flatMap Round.tasks
  few : rounds.length ≤ limit
  wellFormed : ∀ r ∈ rounds, r.WellFormed
  /-- the rounds hold the calls of the responses, and the final message comes from one without -/
  asked : responses.map Prod.fst = rounds.map Round.calls ++ final.map fun _ => []
  final : final = [] ∧ rounds.length = limit ∨
    ∃ calls content, responses.getLast? = some (calls, content) ∧
      final = [{ role := .assistant, content }]

/-! ### What a record tells -/

/-- The responses, launches and results of a part of the loop. -/
structure LoopView where
  responses : List (List ToolCall × Bytes) := []
  launched : List ToolCall := []
  awaited : List (ToolCall × ToolEnd) := []

/-- What one effect adds. A completion without tools has no calls. -/
def LoopView.next (v : LoopView) : (e : TurnEff) → e.Ans → LoopView
  | .response r, x =>
    match r, x with
    | .completeMessages _, .ok resp => { v with responses := v.responses ++ [([], resp.content)] }
    | .completeWithTools .., .ok resp =>
      { v with responses := v.responses ++ [(resp.toolCalls, resp.content)] }
    | _, _ => v
  | .launchTool tc, _ => { v with launched := v.launched ++ [tc] }
  | .awaitTool tc, x => { v with awaited := v.awaited ++ [(tc, x)] }
  | _, _ => v

/-- The machine whose states are the views. -/
def viewMachine : Machine TurnSig LoopView where
  admits _ _ _ := True
  next := LoopView.next

/-- The view of a run. -/
def viewOf (tr : List (LoopState × LoopEvent)) : LoopView :=
  tr.foldl (fun v p => match p.2 with
    -- the loop does not see a task end before it waits for it
    | .main e x => v.next e x
    | .finish .. => v) {}

/-- A future is only waited for when it is there. -/
def LoopDemand (v : LoopView) : TurnEff → Prop
  | .awaitTool tc => v.launched[v.awaited.length]? = some tc
  | _ => True

/-- A task that has ended. -/
def endedTask (p : ToolCall × ToolEnd) : LaunchedTask := { call := p.1, ended := some p.2 }

/-- The messages that responses and results make, with at most `remaining` rounds. -/
inductive Told : Nat → List (List ToolCall × Bytes) → List (ToolCall × ToolEnd) →
    List ChatMessage → Prop
  | exhausted : Told 0 [] [] []
  | text (remaining : Nat) (content : Bytes) :
    Told (remaining + 1) [([], content)] [] [{ role := .assistant, content }]
  | round {remaining : Nat} {calls : List ToolCall} {content json : Bytes}
    {results ends : List (ToolCall × ToolEnd)} {responses : List (List ToolCall × Bytes)}
    {t : List ChatMessage} (hcalls : calls ≠ []) (hjson : dumpToolCalls calls = .ok json)
    (hresults : results.map Prod.fst = calls)
    (houtputs : ∀ p ∈ results, ∃ result, toolOutput p.2 = .ok result)
    (ht : Told remaining responses ends t) :
    Told (remaining + 1) ((calls, content) :: responses) (results ++ ends)
      ({ role := .assistant, toolCallsJson := json } ::
        (results.map fun p => (endedTask p).message) ++ t)

theorem toolOutput_ne_nil {ended : ToolEnd} {result : Bytes} (h : toolOutput ended = .ok result) :
    result ≠ [] := by
  cases ended with
  | controllerDestroyed =>
    rw [← Except.ok.inj h]
    decide
  | returned s =>
    cases s with
    | nil =>
      rw [← Except.ok.inj h]
      decide
    | cons b s =>
      rw [← Except.ok.inj h]
      exact List.cons_ne_nil b s
  | thrown t => cases h

/-- What is told is appended round by round. -/
theorem Told.appended {remaining : Nat} {responses : List (List ToolCall × Bytes)}
    {ends : List (ToolCall × ToolEnd)} {t : List ChatMessage}
    (h : Told remaining responses ends t) :
    ∃ rounds final, Appended remaining responses (ends.map endedTask) rounds final t := by
  -- induction on what is told: the end of the loop, a text, or a round in front of the rest
  induction h with
  | exhausted => exact ⟨[], [], rfl, rfl, Nat.le_refl 0, by simp, rfl, .inl ⟨rfl, rfl⟩⟩
  | text remaining content =>
    refine ⟨[], [{ role := .assistant, content }], rfl, rfl, Nat.zero_le _, by simp, rfl, ?_⟩
    exact .inr ⟨[], content, rfl, rfl⟩
  | @round remaining calls content json results ends responses t hcalls hjson hresults houtputs _
      ih =>
    obtain ⟨rounds, final, hrest⟩ := ih
    -- the tasks of the round are those of its results, so they have its calls
    have hround : (results.map endedTask).map LaunchedTask.call = calls := by
      rw [← hresults, List.map_map]
      rfl
    refine ⟨⟨results.map endedTask, json⟩ :: rounds, final, ?_, ?_, ?_, ?_, ?_, ?_⟩
    · simp only [hrest.messages, List.flatMap_cons, Round.messages, List.map_map, List.cons_append,
        List.append_assoc]
      rfl
    · rw [List.map_append, hrest.tasks]
      rfl
    · exact Nat.succ_le_succ hrest.few
    · rw [List.forall_mem_cons]
      refine ⟨⟨?_, ?_, ?_⟩, hrest.wellFormed⟩
      · rw [Round.calls, hround]
        exact hcalls
      · rw [Round.calls, hround]
        exact hjson
      · intro task htask
        obtain ⟨p, hp, rfl⟩ := List.mem_map.mp htask
        obtain ⟨result, hresult⟩ := houtputs p hp
        refine ⟨result, ?_, toolOutput_ne_nil hresult⟩
        rw [LaunchedTask.output, endedTask, Option.map_some, hresult]
    · rw [List.map_cons, hrest.asked, List.map_cons, Round.calls, hround]
      rfl
    · rcases hrest.final with ⟨hnil, hlen⟩ | ⟨calls', content', hlast, htext⟩
      · exact .inl ⟨hnil, congrArg (· + 1) hlen⟩
      · refine .inr ⟨calls', content', ?_, htext⟩
        rw [List.getLast?_cons, hlast]
        rfl

/-! ### The loop on its own -/

/-- What a part of the loop ends with from `messages`, seen from the view `v` on. -/
def LoopTold (remaining : Nat) (messages : List ChatMessage) (v : LoopView)
    (r : Except Thrown (List ChatMessage)) (v' : LoopView) : Prop :=
  ∀ after, r = .ok after → ∃ responses ends t, after = messages ++ t ∧
    Told remaining responses ends t ∧
    v' = ⟨v.responses ++ responses, v.launched ++ ends.map Prod.fst, v.awaited ++ ends⟩

theorem loopTold_error {remaining : Nat} {messages : List ChatMessage} {v v' : LoopView}
    {err : Thrown} : LoopTold remaining messages v (.error err) v' := by
  intro after h
  cases h

/-- Accounting is not seen. -/
theorem LoopView.next_of_isAccounting {e : TurnEff} (h : e.isAccounting = true) (v : LoopView)
    (x : e.Ans) : v.next e x = v := by
  cases e with
  | launchTool tc => cases h
  | awaitTool tc => cases h
  | response r => cases h
  | _ => rfl

theorem loopDemand_of_isAccounting {e : TurnEff} (h : e.isAccounting = true) (v : LoopView) :
    LoopDemand v e := by
  cases e with
  | awaitTool tc => cases h
  | _ => trivial

theorem wp_recordTokenUsage_view (agent : AgentController) (usage : Json) (v : LoopView) :
    wp viewMachine LoopDemand (recordTokenUsage agent usage) (fun _ v' => v' = v) v := by
  have hrecord : wp recordMachine (fun _ e => TurnEff.isAccounting e = true)
      (recordTokenUsage agent usage) (fun _ _ => True) [] :=
    wp_recordTokenUsage (fun e he => he) agent usage
  have hframe : wp viewMachine (fun v' e => TurnEff.isAccounting e = true ∧ v' = v)
      (recordTokenUsage agent usage) (fun _ v' => True ∧ v' = v) v := by
    refine wp_frame hrecord ?_ rfl
    intro e he v' x _ hv
    rw [← hv]
    exact LoopView.next_of_isAccounting he v' x
  -- the view is framed: accounting changes nothing in it and waits for nothing
  refine wp_demands (wp_mono hframe fun _ _ h => h.2) ?_
  intro v' e h
  exact loopDemand_of_isAccounting h.1 v'

/-- All tasks are launched. -/
theorem wp_launchTools_view (calls : List ToolCall) (v : LoopView) :
    wp viewMachine LoopDemand (launchTools calls)
      (fun r v' => r = .ok () ∧ v' = { v with launched := v.launched ++ calls }) v := by
  induction calls generalizing v with
  | nil =>
    refine ⟨rfl, ?_⟩
    rw [List.append_nil]
  | cons tc calls ih =>
    unfold launchTools
    rw [wp_act_bind]
    refine ⟨trivial, fun _ _ => wp_mono (ih _) ?_⟩
    rintro r v' ⟨hr, rfl⟩
    have hcons : v.launched ++ [tc] ++ calls = v.launched ++ tc :: calls := List.append_assoc ..
    refine ⟨hr, ?_⟩
    show LoopView.mk v.responses (v.launched ++ [tc] ++ calls) v.awaited = _
    rw [hcons]

/-- The results are collected from the first future on that was not waited for, which is that of the
first call. -/
theorem wp_collectTools_view (calls : List ToolCall) (messages : List ChatMessage) (v : LoopView)
    (hv : v.launched = v.awaited.map Prod.fst ++ calls) :
    wp viewMachine LoopDemand (collectTools calls messages)
      (fun r v' => ∀ after, r = .ok after → ∃ results : List (ToolCall × ToolEnd),
        results.map Prod.fst = calls ∧ (∀ p ∈ results, ∃ s, toolOutput p.2 = .ok s) ∧
        after = messages ++ results.map (fun p => (endedTask p).message) ∧
        v' = { v with awaited := v.awaited ++ results }) v := by
  induction calls generalizing messages v with
  | nil =>
    intro after h
    obtain rfl := Except.ok.inj h
    exact ⟨[], rfl, by simp, (List.append_nil _).symm, by rw [List.append_nil]⟩
  | cons tc calls ih =>
    unfold collectTools
    rw [wp_act_bind]
    refine ⟨?_, fun ended _ => ?_⟩
    · -- the future of this call
      show v.launched[v.awaited.length]? = some tc
      rw [hv, List.getElem?_append_right (by rw [List.length_map]), List.length_map, Nat.sub_self]
      rfl
    -- an output that throws ends the loop with an exception, of which nothing is claimed
    rw [wp_bind, wp_ofExcept]
    cases houtput : toolOutput ended with
    | error t =>
      intro after h
      cases h
    | ok result =>
      rw [then_ok]
      refine wp_mono (ih _ (v.next (.awaitTool tc) ended) ?_) ?_
      · show v.launched = (v.awaited ++ [(tc, ended)]).map Prod.fst ++ calls
        rw [hv, List.map_append, List.append_assoc]
        rfl
      · intro r v' hr after hafter
        obtain ⟨results, hcalls, houtputs, rfl, rfl⟩ := hr after hafter
        refine ⟨(tc, ended) :: results, ?_, ?_, ?_, ?_⟩
        · rw [List.map_cons, hcalls]
        · rw [List.forall_mem_cons]
          exact ⟨⟨result, houtput⟩, houtputs⟩
        · have hmessage : (endedTask (tc, ended)).message =
              { role := .tool, content := result, toolCallId := tc.id } := by
            rw [LaunchedTask.message, LaunchedTask.output, endedTask, Option.map_some, houtput]
            rfl
          rw [List.map_cons, hmessage, List.append_assoc]
          rfl
        · have hcons : v.awaited ++ [(tc, ended)] ++ results =
              v.awaited ++ (tc, ended) :: results := List.append_assoc ..
          show LoopView.mk v.responses v.launched (v.awaited ++ [(tc, ended)] ++ results) = _
          rw [hcons]

/-- The rounds, from a view in which every task was waited for. -/
theorem wp_toolRounds_view (agent : AgentController) (tools : List Json) (remaining round : Nat)
    (messages : List ChatMessage) (v : LoopView) (hv : v.launched = v.awaited.map Prod.fst) :
    wp viewMachine LoopDemand (toolRounds agent tools remaining round messages)
      (LoopTold remaining messages v) v := by
  induction remaining generalizing round messages v with
  | zero =>
    intro after hafter
    obtain rfl := Except.ok.inj hafter
    exact ⟨[], [], [], (List.append_nil _).symm, .exhausted, by simp⟩
  | succ remaining ih =>
    unfold toolRounds ask
    rw [wp_bind, wp_act_bind]
    refine ⟨trivial, fun _ _ => ?_⟩
    rw [wp_act_bind]
    refine ⟨trivial, fun answer _ => ?_⟩
    rw [wp_ofExcept]
    cases answer with
    | error err => exact loopTold_error
    | ok resp =>
      rw [then_ok]
      refine wp_bind_of (wp_recordTokenUsage_view agent resp.usage _) ?_ fun _ _ _ => loopTold_error
      rintro _ _ rfl
      split
      · next hnone =>
        -- a response without calls is the last one
        intro after hafter
        obtain rfl := Except.ok.inj hafter
        refine ⟨_, [], _, rfl, .text remaining resp.content, ?_⟩
        show LoopView.mk (v.responses ++ [(resp.toolCalls, resp.content)]) v.launched v.awaited = _
        rw [hnone, List.map_nil, List.append_nil, List.append_nil]
      · next hcalls =>
        rw [wp_bind, wp_ofExcept]
        cases hjson : dumpToolCalls resp.toolCalls with
        | error err => exact loopTold_error
        | ok json =>
          rw [then_ok]
          refine wp_bind_of (wp_launchTools_view resp.toolCalls _) ?_ fun _ _ _ => loopTold_error
          rintro _ _ ⟨-, rfl⟩
          refine wp_bind_of (wp_collectTools_view resp.toolCalls _ _ ?_) ?_
            fun _ _ _ => loopTold_error
          · show v.launched ++ resp.toolCalls = _
            rw [hv]
            rfl
          intro collected v₁ hcollected
          obtain ⟨results, hresults, houtputs, rfl, rfl⟩ := hcollected collected rfl
          -- all futures of the round were waited for, so the next one starts as this one did
          refine wp_mono (ih (round + 1) _ _ ?_) ?_
          · show v.launched ++ resp.toolCalls = (v.awaited ++ results).map Prod.fst
            rw [hv, List.map_append, hresults]
          · intro r v₂ hr after hafter
            obtain ⟨responses, ends, t, rfl, ht, rfl⟩ := hr after hafter
            refine ⟨(resp.toolCalls, resp.content) :: responses, _, _, ?_,
              .round hcalls hjson hresults houtputs ht, ?_⟩
            · simp only [List.append_assoc, List.cons_append, List.nil_append]
            · show LoopView.mk (v.responses ++ [(resp.toolCalls, resp.content)] ++ responses)
                (v.launched ++ resp.toolCalls ++ ends.map Prod.fst)
                (v.awaited ++ results ++ ends) = _
              rw [List.map_append, hresults]
              simp only [List.append_assoc, List.cons_append, List.nil_append]

/-- **The tool loop** on its own: what it appends is told by its responses and results. -/
theorem wp_toolLoop_view (agent : AgentController) (messages : List ChatMessage) :
    wp viewMachine LoopDemand (toolLoop agent messages) (LoopTold kSafetyLimit messages {}) {} := by
  unfold toolLoop
  rw [wp_act_bind]
  refine ⟨trivial, fun providers _ => ?_⟩
  show wp _ _ (if buildToolsJson providers = [] then _ else _) _ _
  split
  · unfold ask
    rw [wp_bind, wp_act_bind]
    refine ⟨trivial, fun _ _ => ?_⟩
    rw [wp_act_bind]
    refine ⟨trivial, fun answer _ => ?_⟩
    rw [wp_ofExcept]
    cases answer with
    | error err => exact loopTold_error
    | ok resp =>
      intro after hafter
      obtain rfl := Except.ok.inj hafter
      -- without tools there is one request, and its response is the text
      exact ⟨_, [], _, rfl, .text 9 resp.content, rfl⟩
  · exact wp_toolRounds_view agent _ kSafetyLimit 0 messages _ rfl

/-! ### The loop beside its tasks -/

section System

variable {agent : AgentController} {messages : List ChatMessage} {tr : List (LoopState × LoopEvent)}
  {s : LoopState}

theorem viewOf_concat (tr : List (LoopState × LoopEvent)) (s : LoopState) (ev : LoopEvent) :
    viewOf (tr ++ [(s, ev)]) = match ev with
      | .main e x => (viewOf tr).next e x
      | .finish .. => viewOf tr := by
  rw [viewOf, List.foldl_append]
  rfl

/-- What has been done so far fits the tasks, and what is left will tell the rest. -/
structure LoopInv (messages : List ChatMessage) (v : LoopView) (s : LoopState) : Prop where
  rest : wp viewMachine LoopDemand s.rest (LoopTold kSafetyLimit messages {}) v
  launched : s.tasks.map LaunchedTask.call = v.launched
  awaited : v.awaited.length = s.awaited
  /-- the results that were collected are those of the first tasks -/
  ended : (s.tasks.take s.awaited).map LaunchedTask.ended = v.awaited.map fun p => some p.2

/-- An effect that is no task's is not seen by the tasks. -/
theorem LoopView.next_of_not_task {e : TurnEff} (h : e.isTask = false) (v : LoopView) (x : e.Ans) :
    (v.next e x).launched = v.launched ∧ (v.next e x).awaited = v.awaited := by
  cases e with
  | launchTool tc => cases h
  | awaitTool tc => cases h
  | response r =>
    cases r <;> cases x <;> exact ⟨rfl, rfl⟩
  | _ => exact ⟨rfl, rfl⟩

/-- The rest of a program is verified from where it stands. -/
theorem wp_rest {p : Turn (List ChatMessage)} {e : TurnEff} {k : e.Ans → Turn (List ChatMessage)}
    {Q : Except Thrown (List ChatMessage) → LoopView → Prop} {v : LoopView}
    (h : wp viewMachine LoopDemand p Q v) (hp : p = .op e k) (x : e.Ans) :
    wp viewMachine LoopDemand (k x) Q (v.next e x) := by
  subst hp
  exact h.2 x trivial

/-- A step keeps the invariant. -/
theorem LoopInv.step {s' : LoopState} {ev : LoopEvent} (h : LoopInv messages (viewOf tr) s)
    (hstep : LoopStep s ev s') : LoopInv messages (viewOf (tr ++ [(s, ev)])) s' := by
  -- as many results were collected as there are tasks at most
  have htaken : s.awaited ≤ s.tasks.length := by
    have hlen := congrArg List.length h.ended
    rw [List.length_map, List.length_take, List.length_map, h.awaited] at hlen
    omega
  rw [viewOf_concat]
  cases hstep with
  | @launch tc k hrest =>
    refine ⟨wp_rest h.rest hrest (), ?_, h.awaited, ?_⟩
    · rw [List.map_append, h.launched]
      rfl
    -- the new task is behind those that were waited for
    · rw [List.take_append_of_le_length htaken]
      exact h.ended
  | @await tc k t ended hrest ht hended =>
    refine ⟨wp_rest h.rest hrest ended, h.launched, ?_, ?_⟩
    · show ((viewOf tr).awaited ++ [(tc, ended)]).length = _
      rw [List.length_append, h.awaited]
      rfl
    · show _ = ((viewOf tr).awaited ++ [(tc, ended)]).map _
      rw [List.take_add_one, ht, List.map_append, List.map_append, h.ended]
      simp [hended]
  | @other e k x hrest htask =>
    obtain ⟨hlaunched, hawaited⟩ := LoopView.next_of_not_task htask (viewOf tr) x
    refine ⟨wp_rest h.rest hrest x, ?_, ?_, ?_⟩
    · rw [hlaunched]
      exact h.launched
    · rw [hawaited]
      exact h.awaited
    · rw [hawaited]
      exact h.ended
  | @finish i t ended ht hrunning =>
    obtain ⟨hi, rfl⟩ := List.getElem?_eq_some_iff.mp ht
    refine ⟨h.rest, ?_, h.awaited, ?_⟩
    · have hlt : i < (s.tasks.map LaunchedTask.call).length := by simpa using hi
      have hcall : (s.tasks[i]).call = (s.tasks.map LaunchedTask.call)[i] :=
        (List.getElem_map ..).symm
      rw [← h.launched, List.map_set]
      show (s.tasks.map LaunchedTask.call).set i (s.tasks[i]).call = _
      rw [hcall, List.set_getElem_self]
    · -- a task that is still running was not waited for
      have hle : s.awaited ≤ i := by
        by_contra hlt
        have hget := congrArg (·[i]?) h.ended
        simp only [List.getElem?_map, List.getElem?_take, if_pos (Nat.lt_of_not_le hlt), ht,
          Option.map_some, hrunning] at hget
        cases hp : (viewOf tr).awaited[i]? <;> rw [hp] at hget <;> cases hget
      show ((s.tasks.set i _).take s.awaited).map _ = _
      rw [List.take_set_of_le hle]
      exact h.ended

theorem loopInv_of_run (h : (loopSystem agent messages).Run tr s) :
    LoopInv messages (viewOf tr) s := by
  induction h with
  | start hinit =>
    obtain rfl := hinit
    exact ⟨wp_toolLoop_view agent messages, rfl, rfl, rfl⟩
  | step _ hstep ih => exact ih.step hstep

/-- **A tool loop that returns** has appended well-formed rounds, each with the outputs of its own
tasks, and a text of the model unless all ten rounds were used. -/
theorem toolLoop_appends {after : List ChatMessage} (h : (loopSystem agent messages).Run tr s)
    (hret : s.rest = .ret after) :
    ∃ rounds final t, after = messages ++ t ∧
      Appended 10 (viewOf tr).responses s.tasks rounds final t := by
  have hinv := loopInv_of_run h
  have htold := hinv.rest
  rw [hret] at htold
  obtain ⟨responses, ends, t, rfl, ht, hview⟩ := htold after rfl
  obtain ⟨rounds, final, happended⟩ := ht.appended
  have hcalls : s.tasks.map LaunchedTask.call = ends.map Prod.fst := by
    rw [hinv.launched, hview]
    rfl
  -- a loop that has returned has waited for every task
  have hlen : s.awaited = s.tasks.length := by
    rw [← hinv.awaited, ← List.length_map LaunchedTask.call, hcalls, hview, List.length_map]
    rfl
  have hended : s.tasks.map LaunchedTask.ended = ends.map fun p => some p.2 := by
    have h := hinv.ended
    rw [hlen, List.take_length, hview] at h
    exact h
  have htasks : s.tasks = ends.map endedTask := by
    calc s.tasks
      _ = List.zipWith LaunchedTask.mk (s.tasks.map LaunchedTask.call)
          (s.tasks.map LaunchedTask.ended) := by
        rw [List.zipWith_map, List.zipWith_self]
        exact (List.map_id _).symm
      _ = List.zipWith LaunchedTask.mk (ends.map Prod.fst) (ends.map fun p => some p.2) := by
        rw [hcalls, hended]
      _ = ends.map endedTask := by
        rw [List.zipWith_map, List.zipWith_self]
        rfl
  refine ⟨rounds, final, t, rfl, ?_⟩
  rw [htasks, hview]
  exact happended

/-- Two calls with one identifier. -/
def twinCalls : List ToolCall :=
  [{ id := utf8 "1", functionName := utf8 "f", arguments := utf8 "1" },
    { id := utf8 "1", functionName := utf8 "g", arguments := utf8 "2" }]

def twinSystem : TransitionSystem LoopState LoopEvent :=
  loopSystem {} [{ role := .user, content := utf8 "hi" }]

/-- A tool loop whose second task ends first. -/
theorem exists_twin_run : ∃ tr s after, twinSystem.Run tr s ∧ s.rest = .ret after ∧
    s.tasks.map LaunchedTask.output = [some (utf8 "first"), some (utf8 "second")] := by
  have h := TransitionSystem.Run.start (A := twinSystem) rfl
  have h := h.step (.other [[⟨utf8 "f", [], .null⟩]] rfl rfl)
  have h := h.step (.other () rfl rfl)
  have h := h.step (.other (Except.ok { toolCalls := twinCalls } : Except Thrown ModelResponse)
    rfl rfl)
  have h := h.step (.launch rfl)
  have h := h.step (.launch rfl)
  -- the tasks end in the other order
  have h := h.step (.finish (.returned (utf8 "second")) (i := 1) rfl rfl)
  have h := h.step (.finish (.returned (utf8 "first")) (i := 0) rfl rfl)
  have h := h.step (.await rfl rfl rfl)
  have h := h.step (.await rfl rfl rfl)
  have h := h.step (.other () rfl rfl)
  have h := h.step (.other (Except.ok { content := utf8 "done" } : Except Thrown ModelResponse)
    rfl rfl)
  exact ⟨_, _, _, h, rfl, rfl⟩

theorem toolLoop_appends_twins : ∃ tr s after, twinSystem.Run tr s ∧ s.rest = .ret after ∧
    ∃ rounds final t, after = [{ role := .user, content := utf8 "hi" }] ++ t ∧
      Appended 10 (viewOf tr).responses s.tasks rounds final t := by
  obtain ⟨tr, s, after, h, hret, -⟩ := exists_twin_run
  exact ⟨tr, s, after, h, hret, toolLoop_appends h hret⟩

/-- A loop that has not returned is never stuck: it performs its next effect, or it waits for a task
that has not ended. -/
theorem loop_progress (h : (loopSystem agent messages).Run tr s) {e : TurnEff}
    {k : e.Ans → Turn (List ChatMessage)} (hrest : s.rest = .op e k) :
    ∃ ev s', LoopStep s ev s' := by
  have hinv := loopInv_of_run h
  have hdemand : LoopDemand (viewOf tr) e := by
    have hrun := hinv.rest
    rw [hrest] at hrun
    exact hrun.1
  cases e with
  | launchTool tc => exact ⟨_, _, .launch hrest⟩
  -- the task that is awaited was launched
  | awaitTool tc =>
    have hlaunched : (s.tasks.map LaunchedTask.call)[s.awaited]? = some tc := by
      rw [hinv.launched, ← hinv.awaited]
      exact hdemand
    rw [List.getElem?_map, Option.map_eq_some_iff] at hlaunched
    obtain ⟨t, ht, -⟩ := hlaunched
    cases hended : t.ended with
    -- it may still have to end
    | none => exact ⟨_, _, .finish (.returned []) ht hended⟩
    | some ended => exact ⟨_, _, .await hrest ht hended⟩
  -- every other effect has an answer
  | _ =>
    exact ⟨_, _, .other (({} : World).answer { model := fun _ => .error .exception } _) hrest rfl⟩

end System

end Aestival
