import Aestival.Agent.ClearCommand
import Aestival.Agent.GroupRules
import Aestival.Agent.Pairing
import Aestival.Chat.Rounds
import Mathlib.Data.List.Forall2

/-!
# What the conversations hold and what is sent

Every request of the tool loop carries the whole conversation: the prompts, what is stored, and what
the turn has added. While the turns of several conversations run at once, all of these are plain
messages and complete rounds (`Rounds`), as long as no `clear` comes in the middle of a turn of its
conversation and no summary cuts inside a round.

A turn is verified on the conversation it belongs to (`conversationMachine`), as if it were alone:
the turns of other conversations do not write to it (`view_step`). The conversation is not made of
complete rounds while the turn stores its own: there the messages that are still to be stored are
added in mind (`wp_persist_rounds`). The requests are looked at apart from the state, since what
they carry is in the program (`sendsRounds_toolLoop`).
-/

namespace Aestival

open Bytes Prog

/-! ### Rounds of tool calls -/

/-- The calls dumped as `json` have these ids. -/
def CallIds (json : Bytes) (ids : List Bytes) : Prop :=
  ∃ calls, calls ≠ [] ∧ dumpToolCalls calls = .ok json ∧ ids = calls.map (·.id)

/-- The messages a request carries, if it has a list of them. -/
def TurnEff.sent : TurnEff → Option (List ChatMessage)
  | .request (.completeMessages messages) | .request (.completeWithTools _ messages _) =>
    some messages
  | _ => none

/-- What is sent is made of complete rounds. -/
def SendsRounds (e : TurnEff) : Prop := ∀ messages, e.sent = some messages → Rounds CallIds messages

theorem sendsRounds_of_part {e : TurnEff} (h : e.part ≠ .model) : SendsRounds e := by
  intro messages hsent
  cases e with
  | request r =>
    cases r with
    | complete => cases hsent
    | completeMessages => exact absurd rfl h
    | completeWithTools => exact absurd rfl h
  | _ => cases hsent

/-- One round, with the results of its calls. -/
theorem rounds_round {calls : List ToolCall} {json : Bytes} {results l : List ChatMessage}
    (hcalls : calls ≠ []) (hjson : dumpToolCalls calls = .ok json)
    (hresults : List.Forall₂ (fun tc m => m.role = .tool ∧ m.toolCallId = tc.id) calls results)
    (hl : Rounds CallIds l) :
    Rounds CallIds ({ role := .assistant, toolCallsJson := json } :: (results ++ l)) := by
  have hids : Results (calls.map (·.id)) results := List.forall₂_map_left_iff.mpr hresults
  exact .round rfl (dumpToolCalls_ne_nil hjson) ⟨calls, hcalls, hjson, rfl⟩ hids hl

/-- The results of the loop are results of their calls. -/
theorem answers_toolResults {calls : List ToolCall} {results : List ChatMessage}
    (h : ToolResults calls results) :
    List.Forall₂ (fun tc m => m.role = .tool ∧ m.toolCallId = tc.id) calls results :=
  h.imp fun _ _ ⟨_, hm⟩ => hm ▸ ⟨rfl, rfl⟩

/-- So are the ones that are stored. -/
theorem answers_storedResults {calls : List ToolCall} {results : List ChatMessage}
    (h : ToolResults calls results) :
    List.Forall₂ (fun tc m => m.role = .tool ∧ m.toolCallId = tc.id) calls
      (results.filterMap storedMessage) := by
  induction h with
  | nil => exact .nil
  | cons hm _ ih =>
    obtain ⟨result, rfl⟩ := hm
    exact .cons ⟨rfl, rfl⟩ ih

/-- What a turn stores of a transcript is made of complete rounds. -/
theorem rounds_storedMessages {content : Bytes} {t : List ChatMessage} (h : Transcript content t) :
    Rounds CallIds (t.filterMap storedMessage) := by
  induction h with
  | exhausted => exact .nil
  | text content => exact .nil
  | @round tcs json content results t hcalls hjson hresults _ ih =>
    have hne : json ≠ [] := dumpToolCalls_ne_nil hjson
    have hstored : storedMessage { role := .assistant, toolCallsJson := json } =
        some { role := .assistant, toolCallsJson := json } := by
      simp [storedMessage, hne]
    rw [List.filterMap_cons_some hstored, List.filterMap_append]
    exact rounds_round hcalls hjson (answers_storedResults hresults) ih

/-! ### What the loop sends -/

section Loop

variable {agent : AgentController}

/-- A request that may be sent, and what follows it. -/
theorem wp_ask_sends {α : Type} {r : ModelRequest} {f : ModelResponse → Turn α}
    {record : TurnRecord} (hr : SendsRounds (.request r))
    (hf : ∀ resp record', wp recordMachine (fun _ e => SendsRounds e) (f resp) (fun _ _ => True)
      record') :
    wp recordMachine (fun _ e => SendsRounds e) (ask r >>= f) (fun _ _ => True) record := by
  unfold ask
  rw [wp_bind, wp_act_bind]
  refine ⟨hr, fun _ _ => ?_⟩
  rw [wp_act_bind]
  refine ⟨fun _ hsent => (nomatch hsent), fun answer _ => ?_⟩
  rw [wp_ofExcept]
  cases answer with
  | error err => trivial
  | ok resp => exact hf resp _

theorem wp_sends_of_part {α : Type} {p : Turn α} {part : TurnPart} {record : TurnRecord}
    (h : p.Only (TurnEff.part · = part)) (hpart : part ≠ .model := by decide) :
    wp recordMachine (fun _ e => SendsRounds e) p (fun _ _ => True) record :=
  h.wp (I := fun _ => True) (fun _ he _ _ =>
    ⟨sendsRounds_of_part (he.trans_ne hpart), fun _ _ => trivial⟩) trivial

theorem wp_toolRounds_sends (tools : List Json) (remaining round : Nat)
    {messages : List ChatMessage} (h : Rounds CallIds messages) (record : TurnRecord) :
    wp recordMachine (fun _ e => SendsRounds e) (toolRounds agent tools remaining round messages)
      (fun _ _ => True) record := by
  -- the messages of every round are whole rounds when they are sent
  induction remaining generalizing round messages record with
  | zero => trivial
  | succ remaining ih =>
    unfold toolRounds
    refine wp_ask_sends (fun _ hsent => Option.some.inj hsent ▸ h) fun resp record₁ => ?_
    refine wp_bind_of (wp_sends_of_part (only_recordTokenUsage resp.usage)) ?_ fun _ _ _ => trivial
    intro _ record₂ _
    split
    · trivial
    -- the response asks for tools, so that another round follows
    · next hcalls =>
      rw [wp_bind, wp_ofExcept]
      cases hjson : dumpToolCalls resp.toolCalls with
      | error err => trivial
      | ok json =>
        rw [then_ok]
        refine wp_bind_of (wp_sends_of_part (only_launchTools _)) ?_ fun _ _ _ => trivial
        intro _ record₃ _
        -- every call has its result, so a whole round is appended
        have hcollect : wp recordMachine (fun _ e => SendsRounds e)
            (collectTools resp.toolCalls
            (messages ++ [{ role := .assistant, toolCallsJson := json }]))
            (fun r _ => ∀ after, r = .ok after → Rounds CallIds after) record₃ := by
          refine wp_demands (wp_mono (wp_collectTools resp.toolCalls _ record₃) ?_) fun _ e he => ?_
          · intro r _ hr after hafter
            obtain ⟨results, rfl, hresults⟩ := hr after hafter
            have hround := rounds_round hcalls hjson (answers_toolResults hresults) Rounds.nil
            rw [List.append_nil] at hround
            rw [List.append_assoc]
            exact h.append hround
          · intro messages hsent
            cases e with
            | request r => cases he
            | _ => cases hsent
        refine wp_bind_of hcollect ?_ fun _ _ _ => trivial
        intro after record₄ hafter
        exact ih (round + 1) (hafter after rfl) record₄

/-- **The loop** goes on with complete rounds. -/
theorem sendsRounds_toolLoop {messages : List ChatMessage} (h : Rounds CallIds messages) :
    (toolLoop agent messages).Only SendsRounds := by
  refine Only.of_wp (Q := fun _ _ => True) [] ?_
  unfold toolLoop
  rw [wp_act_bind]
  refine ⟨fun _ hsent => (nomatch hsent), fun providers _ => ?_⟩
  change wp _ _ (if buildToolsJson providers = [] then _ else _) _ _
  split
  · exact wp_ask_sends (fun _ hsent => Option.some.inj hsent ▸ h) fun _ _ => trivial
  · exact wp_toolRounds_sends _ kSafetyLimit 0 h _

end Loop

/-! ### A conversation and its turn -/

/-- The answers of effects on a conversation that stores `l`. A summary that is stored in it cuts
between rounds. -/
def AdmitsView (c : Bytes) (l : List ChatMessage) : (e : TurnEff) → e.Ans → Prop
  | .snapshot d, x => d = c → x = takeSnapshot l
  | .load d, x => d = c → x = l
  | .commit d _ reply, _ => d = c → CutBetweenRounds reply l
  | _, _ => True

/-- A conversation as its turn sees it. -/
def conversationMachine (c : Bytes) : Machine TurnSig (List ChatMessage) where
  admits := AdmitsView c
  next l e _ := if e.writesTo = some c then Write.apply l ⟨0, e⟩ else l

theorem TurnEff.writesTo_of_writesStore {e : TurnEff} (h : e.writesStore = false) :
    e.writesTo = none := by
  cases e with
  | append => cases h
  | commit => cases h
  | _ => rfl

/-- **An effect on the world** is one on each of its conversations. -/
theorem view_step {w : World} {e : TurnEff} {x : e.Ans} (hx : w.Admits e x)
    (hcut : CutsBetweenRounds ⟨w, e, x⟩) (c : Bytes) :
    (conversationMachine c).admits (w.store.load c) e x ∧
      (w.next e x).store.load c = (conversationMachine c).next (w.store.load c) e x := by
  refine ⟨?_, Conversations.load_next w e x 0 c⟩
  -- the answers about this conversation are as its own machine gives them
  cases e with
  | snapshot d =>
    rintro rfl
    exact hx
  | load d =>
    rintro rfl
    exact hx
  | commit d n reply =>
    rintro rfl
    exact hcut
  | _ => trivial

section Turn

variable {l : List ChatMessage} {agent : AgentController} {message : MessageEvent} {c : Bytes}

theorem conversationMachine_append (c : Bytes) (l : List ChatMessage) (m : ChatMessage) (x : Unit) :
    (conversationMachine c).next l (.append c m) x = l ++ [m] := if_pos rfl

theorem conversationMachine_commit (c : Bytes) (l : List ChatMessage) (n : Nat)
    (reply : Completion) (x : Unit) :
    (conversationMachine c).next l (.commit c n reply) x = (finishSummary n reply l).getD l :=
  if_pos rfl

theorem conversationMachine_of_quiet {e : TurnEff} (h : e.writesStore = false) (x : e.Ans) :
    (conversationMachine c).next l e x = l := by
  refine if_neg ?_
  rw [TurnEff.writesTo_of_writesStore h]
  nofun

/-- A part of a turn that writes to no conversation, and sends complete rounds only. -/
theorem wp_keepsRounds {α : Type} {p : Turn α} {P : Except Thrown α → Prop}
    (h : wp recordMachine (fun _ e => TurnEff.writesStore e = false) p (fun r _ => P r) [])
    (hsends : p.Only SendsRounds) :
    wp (conversationMachine c) (fun _ e => SendsRounds e) p (fun r l' => P r ∧ l' = l) l := by
  refine hsends.wp_demands (wp_frame (I := (· = l)) h ?_ rfl) fun _ _ he _ => he
  rintro e he _ x _ rfl
  exact conversationMachine_of_quiet he x

/-- A part of a turn that neither writes to a conversation nor asks the model. -/
theorem wp_aside_rounds {α : Type} {p : Turn α} {part : TurnPart}
    (h : p.Only (TurnEff.part · = part)) (hstore : part ≠ .store := by decide)
    (hsummary : part ≠ .summary := by decide) (hmodel : part ≠ .model := by decide) :
    wp (conversationMachine c) (fun _ e => SendsRounds e) p (fun _ l' => l' = l) l := by
  refine h.wp (I := (· = l)) (fun e he _ heq => ⟨sendsRounds_of_part (he.trans_ne hmodel),
    fun x _ => ?_⟩) rfl
  have hwrites : TurnEff.writesStore e = false := by
    cases e with
    | append => exact absurd he.symm hstore
    | commit => exact absurd he.symm hsummary
    | _ => rfl
  rw [conversationMachine_of_quiet hwrites, heq]

/-- So it keeps the conversation complete. -/
theorem wp_aside_complete {α : Type} {p : Turn α} {part : TurnPart} (hl : Rounds CallIds l)
    (h : p.Only (TurnEff.part · = part)) (hstore : part ≠ .store := by decide)
    (hsummary : part ≠ .summary := by decide) (hmodel : part ≠ .model := by decide) :
    wp (conversationMachine c) (fun _ e => SendsRounds e) p (fun _ l' => Rounds CallIds l') l :=
  wp_mono (wp_aside_rounds h hstore hsummary hmodel) fun _ _ heq => heq ▸ hl

/-- **A summary** that cuts between rounds. -/
theorem wp_summarizeWithModel_rounds (hl : Rounds CallIds l) :
    wp (conversationMachine c) (fun _ e => SendsRounds e) (Turn.summarizeWithModel c)
      (fun _ l' => Rounds CallIds l') l := by
  -- its own request is of two messages and has no tools
  have hsends : (Turn.summarizeWithModel c).Only SendsRounds :=
    only_summarizeWithModel.mono fun e he => sendsRounds_of_part (he.trans_ne (by decide))
  refine hsends.wp_demands (D := fun _ _ => True) ?_ fun _ _ he _ => he
  unfold Turn.summarizeWithModel
  rw [wp_act_bind]
  refine ⟨trivial, fun due hdue => ?_⟩
  rw [conversationMachine_of_quiet rfl]
  -- the snapshot is of the conversation as it is now
  have hdue : due = takeSnapshot l := hdue rfl
  unfold takeSnapshot at hdue
  split at hdue
  · rw [hdue]
    exact hl
  next hbig =>
  rw [hdue]
  show wp _ _ (act (.request (.complete (summaryPrompt l))) >>= fun _ => _) _ l
  rw [wp_act_bind]
  refine ⟨trivial, fun _ _ => ?_⟩
  rw [wp_act_bind]
  refine ⟨trivial, fun answer _ => ?_⟩
  rw [conversationMachine_of_quiet rfl, conversationMachine_of_quiet rfl]
  show wp (conversationMachine c) _ (if answer.map ModelResponse.content = .ok [] then pure ()
    else act (.commit c l.length (answer.map ModelResponse.content))) _ l
  split
  · exact hl
  refine wp_act.mpr ⟨trivial, fun x hcut => ?_⟩
  -- the conversation is cut where no round is cut in two
  rw [conversationMachine_commit]
  cases hmsgs : finishSummary l.length (answer.map ModelResponse.content) l with
  | none => exact hl
  | some msgs => exact rounds_finishSummary hl hbig (hcut rfl) hmsgs

/-- The prompts are those of the system. -/
def AgentController.SystemPrompts (agent : AgentController) : Prop :=
  ∀ m ∈ agent.globalSystem, m.role = .system

/-- The messages for the model: those of the system, and the conversation. -/
theorem wp_buildMessageList_rounds (hagent : agent.SystemPrompts) (hl : Rounds CallIds l) :
    wp (conversationMachine (conversationOf message)) (fun _ e => SendsRounds e)
      (buildMessageList agent (conversationOf message))
      (fun r l' => (∀ list, r = .ok list → Rounds CallIds (insertGroupRules agent message list)) ∧
        l' = l) l := by
  unfold buildMessageList
  rw [wp_act_bind]
  refine ⟨sendsRounds_of_part nofun, fun history hload => ?_⟩
  obtain rfl : history = l := hload rfl
  split
  · next hglobal =>
    -- it is no group message
    have hgroup : message.isGroup = false :=
      Bool.eq_false_iff.mpr fun h => conversationOf_ne_global h hglobal
    refine ⟨fun list hlist => ?_, rfl⟩
    obtain rfl := Except.ok.inj hlist
    unfold insertGroupRules
    rw [hgroup]
    exact hl
  · rw [wp_act_bind]
    refine ⟨sendsRounds_of_part nofun, fun now _ => ⟨fun list hlist => ?_, rfl⟩⟩
    obtain rfl := Except.ok.inj hlist
    have hprompts : ∀ m ∈ ({ role := .system, content := utf8 "当前时间: " ++ now } : ChatMessage) ::
        agent.globalSystem.reverse, Plain m := by
      intro m hm
      rcases List.mem_cons.mp hm with rfl | hm
      · exact plain_of_system rfl
      · exact plain_of_system (hagent m (List.mem_reverse.mp hm))
    unfold insertGroupRules
    split
    · -- the rules are put among the prompts
      exact hl.insertIdx (plain_of_system rfl) hprompts (by simp)
    · exact Rounds.append (rounds_of_plain hprompts) hl

theorem wp_toolLoop_rounds {messages : List ChatMessage} (h : Rounds CallIds messages) :
    wp (conversationMachine c) (fun _ e => SendsRounds e) (toolLoop agent messages)
      (fun r l' => (∀ after, r = .ok after →
        ∃ t content, after = messages ++ t ∧ Transcript content t) ∧ l' = l) l := by
  refine wp_keepsRounds (wp_demands (wp_mono (wp_toolLoop agent messages []) ?_) ?_)
    (sendsRounds_toolLoop h)
  · intro r record hr after hafter
    obtain ⟨t, rfl, ht⟩ := hr after hafter
    exact ⟨t, _, rfl, ht⟩
  · intro _ e he
    exact TurnEff.writesStore_of_inLoop he

/-- While the messages of a turn are stored, the conversation is complete with those that are still
to be stored. -/
theorem wp_persist_rounds {messages : List ChatMessage}
    (h : Rounds CallIds (l ++ messages.filterMap storedMessage)) :
    wp (conversationMachine c) (fun _ e => SendsRounds e) (persistToolMessages c messages)
      (fun _ l' => Rounds CallIds l') l := by
  induction messages generalizing l with
  | nil =>
    rw [List.filterMap_nil, List.append_nil] at h
    exact h
  | cons m messages ih =>
    -- a message that is stored moves from the rest to the conversation
    have hstep : ∀ stored x, storedMessage m = some stored →
        wp (conversationMachine c) (fun _ e => SendsRounds e) (persistToolMessages c messages)
          (fun _ l' => Rounds CallIds l')
          ((conversationMachine c).next l (.append c stored) x) := by
      intro stored x hstored
      rw [List.filterMap_cons_some hstored] at h
      rw [conversationMachine_append]
      exact ih (by rwa [List.append_assoc])
    have hsends : ∀ stored, SendsRounds (.append c stored) := by
      intro stored
      refine sendsRounds_of_part ?_
      intro hpart
      cases hpart
    unfold persistToolMessages
    split
    · next hcalls => exact ⟨hsends _, fun x _ => hstep _ x (if_pos hcalls)⟩
    next hcalls =>
    split
    · next htool =>
      exact ⟨hsends _, fun x _ => hstep _ x ((if_neg hcalls).trans (if_pos htool))⟩
    · next htool =>
      -- the other messages are not stored
      have hnone : storedMessage m = none := (if_neg hcalls).trans (if_neg htool)
      rw [List.filterMap_cons_none hnone] at h
      exact ih h

theorem wp_deliver_rounds (before after : List ChatMessage) (hl : Rounds CallIds l) :
    wp (conversationMachine c) (fun _ e => SendsRounds e) (deliver message c before after)
      (fun _ l' => Rounds CallIds l') l := by
  unfold deliver
  split
  · exact hl
  show wp _ _ (if filterOutput (finalReply after) = [] then _ else _) _ _
  split
  · exact wp_aside_complete hl (only_notice _ _)
  · rw [wp_act_bind]
    refine ⟨sendsRounds_of_part nofun, fun x _ => ?_⟩
    rw [conversationMachine_append]
    exact wp_aside_complete (hl.concat ⟨by simp, fun _ => rfl⟩) (only_notice _ _)

/-- **A turn** whose summary, if it makes one, cuts between rounds. -/
theorem wp_processAgentMessage_rounds (hagent : agent.SystemPrompts) (hl : Rounds CallIds l) :
    wp (conversationMachine (conversationOf message)) (fun _ e => SendsRounds e)
      (processAgentMessage agent message) (fun _ l' => Rounds CallIds l') l := by
  unfold processAgentMessage
  rw [wp_act_bind]
  refine ⟨sendsRounds_of_part nofun, fun _ _ => ?_⟩
  rw [conversationMachine_of_quiet rfl, wp_tryCatch]
  -- an exception leaves complete rounds as well, and is answered by a notice
  refine wp_mono (Q := fun _ l' => Rounds CallIds l') ?_ fun r l' hr => ?_
  swap
  · cases r with
    | ok ended => exact hr
    | error err => exact wp_aside_complete hr (only_notice _ _)
  unfold answerMessage
  split
  swap
  · exact wp_aside_complete hl (only_notice _ _)
  rw [wp_act_bind]
  refine ⟨sendsRounds_of_part nofun, fun _ _ => ?_⟩
  rw [conversationMachine_append]
  have huser : Plain { role := .user, senderNick := message.senderNick,
                       content := formatDisplayContent message } := ⟨by simp, by simp⟩
  refine wp_bind_of (wp_summarizeWithModel_rounds (hl.concat huser)) (fun _ l hl => ?_)
    fun _ _ h => h
  refine wp_bind_of (wp_buildMessageList_rounds hagent hl) ?_ fun _ _ h => h.2 ▸ hl
  rintro list _ ⟨hlist, rfl⟩
  refine wp_bind_of (wp_aside_rounds (only_checkLlmCall _ _)) ?_ fun _ _ h => h ▸ hl
  rintro refusal _ rfl
  cases refusal with
  | some reason => exact wp_aside_complete hl (only_notice _ _)
  | none =>
    show wp _ _ (runModel agent message _ (insertGroupRules agent message list)) _ _
    unfold runModel
    refine wp_bind_of (wp_toolLoop_rounds (hlist list rfl)) ?_ fun _ _ h => h.2 ▸ hl
    rintro after _ ⟨hafter, rfl⟩
    obtain ⟨t, content, rfl, ht⟩ := hafter after rfl
    rw [List.drop_left]
    refine wp_bind_of (wp_persist_rounds (hl.append (rounds_storedMessages ht)))
      (fun _ l hl => ?_) fun _ _ h => h
    exact wp_deliver_rounds _ _ hl

end Turn

/-! ### All conversations -/

/-- Every conversation is made of complete rounds. -/
def World.Complete (w : World) : Prop := ∀ c, Rounds CallIds (w.store.load c)

/-- The session thread and the workers of an agent that begin with complete conversations. -/
def completeConversations (agent : AgentController) :
    TransitionSystem Conversations ConversationEvent where
  init s := s.Initial ∧ s.world.Complete
  step := Conversations.Step agent

namespace Conversations

variable {agent : AgentController} {s s' : Conversations} {e : ConversationEvent}

/-- A step that separates no result from its call: a `clear` that comes while no turn of the
conversation runs that it deletes, or a summary that cuts between rounds. -/
def KeepsRounds (s : Conversations) : ConversationEvent → Prop
  | .clear message => s.current (actorIdOf message) = none
  | .perform _ e x => CutsBetweenRounds ⟨s.world, e, x⟩
  | _ => True

/-- A conversation is complete while no turn of it runs, and its turn completes it. -/
structure RoundsInv (s : Conversations) : Prop where
  key : ∀ c, ∀ q ∈ s.queues c, conversationOf q.2 = c
  own : ∀ c n p, s.current c = some (n, p) → p.Only (TurnEff.Own c)
  idle : ∀ c, s.current c = none → Rounds CallIds (s.world.store.load c)
  running : ∀ c n p, s.current c = some (n, p) →
    wp (conversationMachine c) (fun _ e => SendsRounds e) p (fun _ l => Rounds CallIds l)
      (s.world.store.load c)

theorem RoundsInv.initial (h : s.Initial) (hcomplete : s.world.Complete) : RoundsInv s := by
  obtain ⟨world, rfl⟩ := h
  exact ⟨fun _ _ h => absurd h List.not_mem_nil, nofun, fun c _ => hcomplete c, nofun⟩

theorem RoundsInv.enqueue (h : RoundsInv s) (message : MessageEvent) :
    RoundsInv (s.enqueue message) := by
  refine ⟨fun c q hq => ?_, h.own, h.idle, h.running⟩
  rcases update_eq_iff.mp (rfl : (s.enqueue message).queues c = _) with ⟨rfl, heq⟩ | ⟨-, heq⟩
  · rw [← heq] at hq
    rcases List.mem_append.mp hq with hq | hq
    · exact h.key _ q hq
    · rw [List.mem_singleton.mp hq]
  · exact h.key c q (heq ▸ hq)

/-- A deleted conversation is complete, and the others are what they were. -/
theorem RoundsInv.clear (h : RoundsInv s) {message : MessageEvent}
    (hquiet : s.current (actorIdOf message) = none) : RoundsInv (s.clear message) := by
  have hload : ∀ c, c ≠ actorIdOf message →
      (s.clear message).world.store.load c = s.world.store.load c := fun c hc =>
    ListStore.load_exec_ne s.world.store (.clearMessages (actorIdOf message)) hc
  refine ⟨h.key, h.own, fun c hc => ?_, fun c n p hp => ?_⟩
  -- the conversation is empty now
  · by_cases heq : c = actorIdOf message
    · show Rounds CallIds ((s.world.store.clearMessages (actorIdOf message)).load c)
      rw [heq, ListStore.load_clearMessages]
      exact .nil
    · rw [hload c heq]
      exact h.idle c hc
  -- no turn of it is running
  · have hne : c ≠ actorIdOf message := by
      rintro rfl
      cases hquiet.symm.trans hp
    rw [hload c hne]
    exact h.running c n p hp

/-- A turn begins on a complete conversation. -/
theorem RoundsInv.start (hagent : agent.SystemPrompts) (h : RoundsInv s) {cid : Bytes} {n : Nat}
    {message : MessageEvent} {rest : List (Nat × MessageEvent)} (hidle : s.current cid = none)
    (hqueue : s.queues cid = (n, message) :: rest) :
    RoundsInv (s.start agent cid n message rest) := by
  -- the queue holds messages of its own conversation only
  have hkey : conversationOf message = cid := h.key cid (n, message) (hqueue ▸ List.mem_cons_self)
  have hcurrent : ∀ c k p, (s.start agent cid n message rest).current c = some (k, p) →
      c = cid ∧ p = processAgentMessage agent message ∨ s.current c = some (k, p) := by
    intro c k p hp
    rcases update_eq_iff.mp hp with ⟨hc, heq⟩ | ⟨-, hp⟩
    · exact Or.inl ⟨hc, (Prod.mk.inj (Option.some.inj heq)).2.symm⟩
    · exact Or.inr hp
  refine ⟨fun c q hq => ?_, fun c k p hp => ?_, fun c hc => ?_, fun c k p hp => ?_⟩
  · rcases update_eq_iff.mp (rfl : (s.start agent cid n message rest).queues c = _) with
      ⟨rfl, heq⟩ | ⟨-, heq⟩
    · refine h.key c q ?_
      rw [hqueue]
      exact List.mem_cons_of_mem _ (heq ▸ hq)
    · exact h.key c q (heq ▸ hq)
  · rcases hcurrent c k p hp with ⟨rfl, rfl⟩ | hp
    · exact hkey ▸ own_of_processAgentMessage agent message
    · exact h.own c k p hp
  · rcases update_eq_iff.mp hc with ⟨-, heq⟩ | ⟨-, hc⟩
    · cases heq
    · exact h.idle c hc
  · rcases hcurrent c k p hp with ⟨rfl, rfl⟩ | hp
    -- the conversation is whole rounds before its turn
    · have hturn : wp (conversationMachine (conversationOf message)) _
          (processAgentMessage agent message) _ _ :=
        wp_processAgentMessage_rounds hagent (h.idle c hidle)
      rwa [hkey] at hturn
    · exact h.running c k p hp

/-- An effect of a turn is one on its own conversation. -/
theorem RoundsInv.perform (h : RoundsInv s) {cid : Bytes} {n : Nat} {e : TurnEff} {x : e.Ans}
    {k : e.Ans → Turn TurnEnd} (hcurrent : s.current cid = some (n, .op e k))
    (hx : s.world.Admits e x) (hcut : CutsBetweenRounds ⟨s.world, e, x⟩) :
    RoundsInv (s.perform cid n e x (k x)) := by
  have hown : TurnEff.Own cid e ∧ ∀ x, (k x).Only (TurnEff.Own cid) := h.own cid n _ hcurrent
  -- one turn goes on, and the others stay where they are
  have hnext : ∀ c m p, (s.perform cid n e x (k x)).current c = some (m, p) →
      c = cid ∧ p = k x ∨ c ≠ cid ∧ s.current c = some (m, p) := by
    intro c m p hp
    rcases update_eq_iff.mp hp with ⟨hc, heq⟩ | hp
    · exact Or.inl ⟨hc, (Prod.mk.inj (Option.some.inj heq)).2.symm⟩
    · exact Or.inr hp
  -- a turn writes its own conversation only
  have hothers : ∀ c, c ≠ cid → (s.world.next e x).store.load c = s.world.store.load c := by
    intro c hc
    rw [load_next s.world e x n c, if_neg fun hwrites => hc (hown.1 c hwrites)]
  refine ⟨h.key, fun c m p hp => ?_, fun c hc => ?_, fun c m p hp => ?_⟩
  · rcases hnext c m p hp with ⟨rfl, rfl⟩ | ⟨-, hp⟩
    · exact hown.2 x
    · exact h.own c m p hp
  · rcases update_eq_iff.mp hc with ⟨-, heq⟩ | ⟨hne, hc⟩
    · cases heq
    · show Rounds CallIds ((s.world.next e x).store.load c)
      rw [hothers c hne]
      exact h.idle c hc
  · show wp _ _ p _ ((s.world.next e x).store.load c)
    rcases hnext c m p hp with ⟨rfl, rfl⟩ | ⟨hne, hp⟩
    -- the turn sees its conversation as its own machine has it
    · obtain ⟨hview, hload⟩ := view_step hx hcut c
      rw [hload]
      exact (h.running c n _ hcurrent).2 x hview
    · rw [hothers c hne]
      exact h.running c m p hp

/-- A turn ends with a complete conversation. -/
theorem RoundsInv.finish (h : RoundsInv s) {cid : Bytes} {n : Nat} {p : Turn TurnEnd}
    (hcurrent : s.current cid = some (n, p)) (hover : p.isOver = true) :
    RoundsInv (s.finish cid) := by
  have hrunning : ∀ c k q, (s.finish cid).current c = some (k, q) → s.current c = some (k, q) := by
    intro c k q hq
    rcases update_eq_iff.mp hq with ⟨-, heq⟩ | ⟨-, hq⟩
    · cases heq
    · exact hq
  refine ⟨h.key, fun c k q hq => h.own c k q (hrunning c k q hq), fun c hc => ?_,
    fun c k q hq => h.running c k q (hrunning c k q hq)⟩
  rcases update_eq_iff.mp hc with ⟨rfl, -⟩ | ⟨-, hc⟩
  -- the turn has ended with whole rounds
  · have hended := h.running c n p hcurrent
    cases p with
    | ret => exact hended
    | throw => exact hended
    | op => cases hover
  · exact h.idle c hc

theorem RoundsInv.step (hagent : agent.SystemPrompts) (h : RoundsInv s)
    (hstep : Step agent s e s') (hkeeps : KeepsRounds s e) : RoundsInv s' := by
  cases hstep with
  | enqueue _ => exact h.enqueue _
  | clear _ => exact h.clear hkeeps
  | start hidle hqueue => exact h.start hagent hidle hqueue
  | perform hcurrent hx => exact h.perform hcurrent hx hkeeps
  | finish hcurrent hover => exact h.finish hcurrent hover

end Conversations

open Conversations

section Runs

variable {agent : AgentController} {tr : List (Conversations × ConversationEvent)}
  {s : Conversations}

theorem roundsInv_of_run (h : (completeConversations agent).Run tr s)
    (hagent : agent.SystemPrompts) (hkeeps : ∀ p ∈ tr, KeepsRounds p.1 p.2) : RoundsInv s :=
  (h.restrict hkeeps).invariant (I := RoundsInv) (fun _ hinit => .initial hinit.1 hinit.2)
    fun _ _ _ hs hstep => hs.step hagent hstep.1 hstep.2

/-- **What is stored** of a conversation whose turn is over is made of complete rounds. -/
theorem stored_complete (h : (completeConversations agent).Run tr s)
    (hagent : agent.SystemPrompts) (hkeeps : ∀ p ∈ tr, KeepsRounds p.1 p.2) {c : Bytes}
    (hidle : s.current c = none) : Rounds CallIds (s.world.store.load c) :=
  (roundsInv_of_run h hagent hkeeps).idle c hidle

/-- **What is sent** by a turn is made of complete rounds. -/
theorem sent_complete (h : (completeConversations agent).Run tr s)
    (hagent : agent.SystemPrompts) (hkeeps : ∀ p ∈ tr, KeepsRounds p.1 p.2) {t : Conversations}
    {c : Bytes} {e : TurnEff} {x : e.Ans} (hev : (t, .perform c e x) ∈ tr) : SendsRounds e := by
  obtain ⟨pre, post, rfl⟩ := List.append_of_mem hev
  have hinv := roundsInv_of_run h.upTo hagent fun p hp => hkeeps p (List.mem_append_left _ hp)
  obtain ⟨t', hstep, -⟩ := h.stepAt
  have hstep : Step agent t (.perform c e x) t' := hstep
  cases hstep with
  | perform hcurrent _ => exact (hinv.running c _ _ hcurrent).1

end Runs

end Aestival
