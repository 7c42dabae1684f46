import Aestival.Agent.Conversations
import Aestival.Agent.LiveAgent
import Aestival.Agent.ReplyTargets
import Aestival.Agent.TurnParts
import Aestival.Library.Tables

/-!
# From a frame to its reply

What the bot owes its users, in every interleaving of the threads of an agent (`Delivers`): the
messages that are queued are messages of frames, in the order in which these came; each of them gets
one turn, and the turns of a conversation come in the order of its messages; nothing is lost when
the agent is stopped, because the destructor waits until the queues are empty; and what a turn
reads, stores and sends belongs to the origin of the frame.

`delivers` puts it together. The messages are counted by `AgentThreads.pending_step`. That none is
left behind is `AgentThreads.Stops`: nobody holds a controller that is being destroyed, so no
message comes in any more, and a worker stops only when its queue is empty. What a turn can still do
is `AgentThreads.Serving`.
-/

namespace Aestival

open Bytes Prog

/-! ### What a run has done -/

/-- The message of a frame. -/
def LiveEvent.dispatches : LiveEvent → Option MessageEvent
  | .frame event data => (dispatchEvent event data).map (·.event)
  | _ => none

/-- The message that `handle_message` puts into a queue. -/
def LiveAgent.enqueues (agentId : Bytes) (s : LiveAgent) : LiveEvent → Option MessageEvent
  | .handle env => s.threads.handling.filter fun m => (s.handled agentId env m).enqueued
  | _ => none

/-- The message whose turn ends. -/
def LiveAgent.ends (cid : Bytes) (s : LiveAgent) : LiveEvent → List MessageEvent
  | .thread e => s.threads.ended cid e
  | _ => []

/-- The messages the frames of a run have brought. -/
def dispatched (tr : List (LiveAgent × LiveEvent)) : List MessageEvent :=
  tr.filterMap fun x => x.2.dispatches

/-- The messages that were put into queues. -/
def enqueued (agentId : Bytes) (tr : List (LiveAgent × LiveEvent)) : List MessageEvent :=
  tr.filterMap fun x => x.1.enqueues agentId x.2

/-- The messages of a conversation whose turns are over. -/
def served (cid : Bytes) (tr : List (LiveAgent × LiveEvent)) : List MessageEvent :=
  tr.flatMap fun x => x.1.ends cid x.2

/-- What the effect reads and stores is stored for the origin, and what it sends goes there. -/
def TurnEff.For (o : Origin) : TurnEff → Prop
  | .append c _ | .snapshot c | .commit c _ _ | .load c | .rateLimit _ c => c = o.key
  | .reply m _ => placeOf m = o.place
  | _ => True

/-- What should hold of a run. -/
structure Delivers (agentId : Bytes) (tr : List (LiveAgent × LiveEvent)) (s : LiveAgent) :
    Prop where
  /-- Queued messages are messages of frames, in their order and each once. -/
  frames : (enqueued agentId tr).Sublist (dispatched tr)
  /-- In every conversation they are the ones whose turns are over, in this order, and behind them
  the ones that are pending. -/
  turns : ∀ cid, (enqueued agentId tr).filter (fun m => conversationOf m = cid) =
    served cid tr ++ s.threads.pending cid
  /-- None is pending when the controller has been destroyed. -/
  drained : s.threads.life = .destroyed → ∀ cid, s.threads.pending cid = []
  /-- A turn is that of a frame, and has effects for the origin of this frame only. -/
  effects : ∀ s' cid e x, (s', LiveEvent.thread (.perform cid e x)) ∈ tr →
    ∃ s₀ event data pm o, (s₀, LiveEvent.frame event data) ∈ tr ∧
      dispatchEvent event data = some pm ∧ pm.From o ∧ o.key = cid ∧
      s'.threads.current cid = [pm.event] ∧ e.For o

/-! ### The effects of a turn -/

/-- The effect answers this message, or reads its conversation. -/
def TurnEff.Answers (message : MessageEvent) : TurnEff → Prop
  | .reply m _ => m = message
  | .snapshot c | .load c => c = conversationOf message
  | _ => True

/-- Replies, summaries and the list of messages are the parts that read or answer. -/
theorem TurnEff.answers_of_part {message : MessageEvent} {e : TurnEff} {part : TurnPart}
    (h : e.part = part) (hother : part ∉ [TurnPart.reply, .summary, .list] := by decide) :
    e.Answers message := by
  subst h
  cases e with
  | reply => exact absurd (List.mem_cons_self ..) hother
  | snapshot => exact absurd (List.mem_cons_of_mem _ (List.mem_cons_self ..)) hother
  | load =>
    exact absurd (List.mem_cons_of_mem _ (List.mem_cons_of_mem _ (List.mem_cons_self ..))) hother
  | _ => trivial

section Answers

variable {agent : AgentController} {message : MessageEvent}

theorem answers_notice (content : Bytes) (ended : TurnEnd) :
    (replyTo message content >>= fun _ => pure ended).Only (TurnEff.Answers message) :=
  Only.bind (only_act_bind.mpr ⟨rfl, fun sent => only_ofExcept sent⟩) fun _ => only_pure _

theorem answers_summarizeWithModel :
    (Turn.summarizeWithModel (conversationOf message)).Only (TurnEff.Answers message) := by
  refine only_act_bind.mpr ⟨rfl, fun due => ?_⟩
  cases due with
  | none => exact only_pure _
  | some snap =>
    refine only_act_bind.mpr ⟨trivial, fun _ => only_act_bind.mpr ⟨trivial, fun answer => ?_⟩⟩
    dsimp only
    split
    · exact only_pure _
    · exact only_act.mpr trivial

theorem answers_buildMessageList :
    (buildMessageList agent (conversationOf message)).Only (TurnEff.Answers message) := by
  refine only_act_bind.mpr ⟨rfl, fun messages => ?_⟩
  split
  · exact only_pure _
  · exact only_act_bind.mpr ⟨trivial, fun _ => only_pure _⟩

theorem answers_deliver (c : Bytes) (before after : List ChatMessage) :
    (deliver message c before after).Only (TurnEff.Answers message) := by
  unfold deliver
  split
  · exact only_pure _
  dsimp only
  split
  · exact answers_notice _ _
  · exact only_act_bind.mpr ⟨trivial, fun _ => answers_notice _ _⟩

/-- The tool loop has no effects of these kinds, and neither has what stores the tool messages. -/
theorem answers_runModel (c : Bytes) (messages : List ChatMessage) :
    (runModel agent message c messages).Only (TurnEff.Answers message) := by
  have hloop : (toolLoop agent messages).Only (TurnEff.Answers message) := by
    refine (Only.of_wp [] (wp_toolLoop agent messages [])).mono fun e he => ?_
    cases e with
    | reply => cases he
    | snapshot => cases he
    | load => cases he
    | _ => trivial
  refine hloop.bind fun after => ?_
  exact Only.bind ((only_persistToolMessages _).mono fun e he => TurnEff.answers_of_part he)
    fun _ => answers_deliver _ _ _

/-- **A turn answers its message.** -/
theorem answers_processAgentMessage (agent : AgentController) (message : MessageEvent) :
    (processAgentMessage agent message).Only (TurnEff.Answers message) := by
  refine only_act_bind.mpr ⟨trivial, fun _ => Only.tryCatch ?_ fun _ => answers_notice _ _⟩
  unfold answerMessage
  split
  · refine only_act_bind.mpr ⟨trivial, fun _ => answers_summarizeWithModel.bind fun _ => ?_⟩
    refine answers_buildMessageList.bind fun list => Only.bind ?_ fun refusal => ?_
    · exact (only_checkLlmCall _ _).mono fun e he => TurnEff.answers_of_part he
    · cases refusal with
      | some reason => exact answers_notice _ _
      | none => exact answers_runModel _ _
  · exact answers_notice _ _

end Answers

/-- What a turn of the message can still do. -/
def TurnEff.Serves (policy : PolicyConfig) (message : MessageEvent) (e : TurnEff) : Prop :=
  e.Concerns policy (conversationOf message) ∧ e.Answers message

theorem serves_processAgentMessage (agent : AgentController) (message : MessageEvent) :
    (processAgentMessage agent message).Only (TurnEff.Serves agent.policy message) :=
  (concerns_processAgentMessage agent message).and (answers_processAgentMessage agent message)

theorem serves_failTurn (policy : PolicyConfig) (message : MessageEvent) :
    (failTurn message).Only (TurnEff.Serves policy message) :=
  (concerns_notice _ _).and (answers_notice _ _)

theorem conversationOf_of_from {pm : ParsedMessage} {o : Origin} (h : pm.From o) :
    conversationOf pm.event = o.key := by
  rw [conversationOf, actorIdOf_of_from h, if_neg]
  cases o <;> exact nofun

/-- A turn of a message from an origin is for this origin. -/
theorem TurnEff.Serves.for {policy : PolicyConfig} {pm : ParsedMessage} {o : Origin} {e : TurnEff}
    (h : e.Serves policy pm.event) (hfrom : pm.From o) : e.For o := by
  have hkey := conversationOf_of_from hfrom
  cases e with
  | append => exact Eq.trans h.1 hkey
  | commit => exact Eq.trans h.1 hkey
  | rateLimit => exact h.1.2.trans hkey
  | snapshot => exact Eq.trans h.2 hkey
  | load => exact Eq.trans h.2 hkey
  | reply m content =>
    obtain rfl : m = pm.event := h.2
    exact placeOf_of_from hfrom
  | _ => trivial

/-! ### The threads -/

namespace AgentThreads

variable {agent : AgentController} {s s' : AgentThreads} {e : ThreadEvent}

/-- Every turn that runs serves its message. -/
def Serving (agent : AgentController) (s : AgentThreads) : Prop :=
  ∀ cid turn, s.Running cid turn → turn.rest.Only (TurnEff.Serves agent.policy turn.message)

theorem Serving.congr (h : s.Serving agent) (hworkers : s'.workers = s.workers) :
    s'.Serving agent := by
  intro cid turn hturn
  refine h cid turn ?_
  rw [Running, ← hworkers]
  exact hturn

/-- A worker is in another state. -/
theorem Serving.update (h : s.Serving agent) {c : Bytes} {w : WorkerState}
    (hworkers : s'.workers = Function.update s.workers c (some w))
    (hw : ∀ turn, w = .running turn →
      turn.rest.Only (TurnEff.Serves agent.policy turn.message)) : s'.Serving agent := by
  intro cid turn hturn
  rw [Running, hworkers] at hturn
  rcases update_eq_some_iff.mp hturn with ⟨-, rfl⟩ | ⟨-, hturn⟩
  · exact hw turn rfl
  · exact h cid turn hturn

/-- A turn goes on. -/
theorem Serving.turn (h : s.Serving agent) {c : Bytes} {turn : RunningTurn}
    (hworkers : s'.workers = Function.update s.workers c (some (.running turn)))
    (hrest : turn.rest.Only (TurnEff.Serves agent.policy turn.message)) : s'.Serving agent := by
  refine h.update hworkers fun turn' heq => ?_
  obtain rfl := WorkerState.running.inj heq
  exact hrest

theorem Serving.step (h : s.Serving agent) (hstep : Step agent s e s') : s'.Serving agent := by
  -- the turn as it is, and what is left of it behind one of its effects
  have hstill : ∀ {c : Bytes} {turn turn' : RunningTurn}, s.Running c turn →
      turn'.rest = turn.rest → turn'.message = turn.message →
      turn'.rest.Only (TurnEff.Serves agent.policy turn'.message) := by
    intro c turn turn' hturn hrest hmessage
    rw [hrest, hmessage]
    exact h c turn hturn
  have hafter : ∀ {c : Bytes} {turn : RunningTurn} {eff : TurnEff}
      {k : eff.Ans → Turn TurnEnd}, s.Running c turn → turn.rest = .op eff k →
      ∀ x, (k x).Only (TurnEff.Serves agent.policy turn.message) := by
    intro c turn eff k hturn hrest x
    have honly := h c turn hturn
    rw [hrest] at honly
    exact honly.2 x
  cases hstep with
  | enqueue _ _ =>
    refine h.update rfl fun turn hw => ?_
    -- a new slot has no turn
    cases hworker : s.workers (conversationOf _) with
    | none => rw [hworker] at hw; exact nomatch hw
    | some w =>
      rw [hworker, Option.getD_some] at hw
      exact h _ turn (hworker.trans (congrArg some hw))
  | take _ _ => exact h.turn rfl (serves_processAgentMessage _ _)
  | finish _ _ _ => exact h.update rfl nofun
  | leave _ _ _ => exact h.update rfl nofun
  | lockSelf hturn _ _ _ _ => exact h.turn rfl (hstill hturn rfl rfl)
  | badWeakPtr _ _ _ _ _ => exact h.turn rfl (serves_failTurn _ _)
  | dropSelf hturn _ _ => exact h.turn rfl (hstill hturn rfl rfl)
  | launchTool hturn hrest _ => exact h.turn rfl (hafter hturn hrest ())
  | awaitTool hturn hrest _ _ _ => exact h.turn rfl (hafter hturn hrest _)
  | dropFuture hturn _ _ _ _ => exact h.turn rfl (hstill hturn rfl rfl)
  | perform hturn hrest _ _ _ => exact h.turn rfl (hafter hturn hrest _)
  | _ => exact h.congr rfl

/-- How the destructor, the queues and the workers fit together. -/
structure Stops (s : AgentThreads) : Prop where
  /-- Nobody holds a controller that is being destroyed. -/
  unheld : s.life ≠ .alive → s.life ≠ .terminated → s.holders = ∅
  /-- Where messages wait, there is a worker for them. -/
  attended : ∀ cid, s.queues cid ≠ [] → ∃ w, s.workers cid = some w ∧ w ≠ .stopped
  stopped : ∀ cid, s.workers cid = some .stopped → s.life ≠ .alive
  joined : ∀ caller joined joining, s.life = .destructor caller joined joining →
    ∀ cid ∈ joined, s.workers cid = some .stopped
  destroyed : s.life = .destroyed → ∀ cid w, s.workers cid = some w → w = .stopped

theorem Stops.initial (h : s.Initial) : s.Stops := by
  obtain ⟨world, rfl⟩ := h
  exact ⟨fun h => absurd rfl h, fun _ h => absurd rfl h, nofun, nofun, nofun⟩

/-- Somebody holds the controller, so it lives. -/
theorem Stops.alive (h : s.Stops) (hlive : s.life ≠ .terminated) (hheld : s.holders.Nonempty) :
    s.life = .alive := by
  by_contra hdead
  exact hheld.ne_empty (h.unheld hdead hlive)

theorem Stops.frame (h : s.Stops) (hworkers : s'.workers = s.workers)
    (hqueues : s'.queues = s.queues) (hlife : s'.life = s.life)
    (hholders : s.holders = ∅ → s'.holders = ∅) : s'.Stops := by
  refine ⟨?_, ?_, ?_, ?_, ?_⟩
  · rw [hlife]
    exact fun hdead hlive => hholders (h.unheld hdead hlive)
  · rw [hqueues, hworkers]
    exact h.attended
  · rw [hworkers, hlife]
    exact h.stopped
  · rw [hworkers, hlife]
    exact h.joined
  · rw [hworkers, hlife]
    exact h.destroyed

/-- Somebody who can gets a pointer. -/
theorem Stops.gain (h : s.Stops) (hheld : s.holders.Nonempty) (hworkers : s'.workers = s.workers)
    (hqueues : s'.queues = s.queues) (hlife : s'.life = s.life) : s'.Stops :=
  h.frame hworkers hqueues hlife fun hnone => absurd hnone hheld.ne_empty

/-- A worker that has not stopped is in another state, in which it has not. -/
theorem Stops.move (h : s.Stops) {c : Bytes} {w w' : WorkerState} (hw : s.workers c = some w)
    (hworkers : s'.workers = Function.update s.workers c (some w')) (hgoes : w ≠ .stopped)
    (hgoes' : w' ≠ .stopped) (hqueues : ∀ cid, s'.queues cid ≠ [] → s.queues cid ≠ [])
    (hlife : s'.life = s.life) (hholders : s.holders = ∅ → s'.holders = ∅) : s'.Stops := by
  refine ⟨?_, fun cid hcid => ?_, fun cid hcid => ?_, fun caller joined joining hd cid hcid => ?_,
    fun hd => ?_⟩
  · rw [hlife]
    exact fun hdead hlive => hholders (h.unheld hdead hlive)
  · rw [hworkers]
    by_cases hc : cid = c
    · subst hc
      exact ⟨w', Function.update_self .., hgoes'⟩
    · rw [Function.update_of_ne hc]
      exact h.attended cid (hqueues cid hcid)
  · rw [hworkers] at hcid
    rw [hlife]
    rcases update_eq_some_iff.mp hcid with ⟨-, heq⟩ | ⟨-, hcid⟩
    · exact absurd heq hgoes'
    · exact h.stopped cid hcid
  · rw [hlife] at hd
    have hstopped := h.joined caller joined joining hd cid hcid
    -- the workers that have been joined have stopped, so it is none of them
    have hc : cid ≠ c := by
      rintro rfl
      exact hgoes (Option.some.inj (hw.symm.trans hstopped))
    rw [hworkers, Function.update_of_ne hc]
    exact hstopped
  · rw [hlife] at hd
    exact absurd (h.destroyed hd c w hw) hgoes

/-- A pointer is destroyed. -/
theorem Stops.drop (h : s.Stops) (hlive : s.life ≠ .terminated) {o : Owner} (ho : o ∈ s.holders) :
    (s.drop o).Stops := by
  have halive := h.alive hlive ⟨o, ho⟩
  by_cases hlast : s.holders.erase o = ∅
  · -- the destructor begins, and has joined nobody
    have hlife := life_drop_last hlast
    refine ⟨fun _ _ => hlast, h.attended, fun _ _ => ?_, fun caller joined joining hd => ?_,
      fun hd => ?_⟩
    · rw [hlife]
      exact nofun
    · rw [hlife] at hd
      obtain ⟨-, rfl, -⟩ := Life.destructor.inj hd
      exact fun _ hcid => absurd hcid List.not_mem_nil
    · rw [hlife] at hd
      exact nomatch hd
  -- the agent lives on in another holder
  · have hlife := (life_drop hlast).trans halive
    refine ⟨fun hdead => absurd hlife hdead, h.attended, fun cid hcid => ?_, ?_, ?_⟩
    · exact absurd halive (h.stopped cid hcid)
    · rw [hlife]
      exact nofun
    · rw [hlife]
      exact nofun

/-- The process ends. -/
theorem Stops.terminate (h : s.Stops) : Stops { s with life := .terminated } :=
  ⟨fun _ hlive => absurd rfl hlive, h.attended, nofun, nofun, nofun⟩

/-- A message comes in while the session holds the controller. -/
theorem Stops.enqueue (h : s.Stops) (hlive : s.life ≠ .terminated) (hheld : s.holders.Nonempty)
    (message : MessageEvent) : (s.enqueue message).Stops := by
  have halive := h.alive hlive hheld
  -- the thread of the conversation is there or is started now, and does not stop
  have hgoes : (s.workers (conversationOf message)).getD .waiting ≠ .stopped := by
    cases hw : s.workers (conversationOf message) with
    | none => exact nofun
    | some w =>
      rintro rfl
      exact h.stopped _ hw halive
  have hlife : (s.enqueue message).life = .alive := halive
  refine ⟨fun hdead => absurd hlife hdead, fun cid hcid => ?_, fun cid hcid => ?_, ?_, ?_⟩
  -- every queue that is not empty has a thread
  · by_cases hc : cid = conversationOf message
    · subst hc
      exact ⟨_, workers_enqueue .., hgoes⟩
    · have hold : s.queues cid ≠ [] := by
        rwa [← show (s.enqueue message).queues cid = s.queues cid from
          Function.update_of_ne hc ..]
      obtain ⟨w, hw, hne⟩ := h.attended cid hold
      exact ⟨w, (Function.update_of_ne hc ..).trans hw, hne⟩
  · rcases update_eq_some_iff.mp hcid with ⟨-, heq⟩ | ⟨-, hcid⟩
    · exact absurd heq hgoes
    · exact absurd halive (h.stopped cid hcid)
  · rw [hlife]
    exact nofun
  · rw [hlife]
    exact nofun

/-- A worker leaves its loop. -/
theorem Stops.leave (h : s.Stops) {c : Bytes} (hworker : s.workers c = some .waiting)
    (hqueue : s.queues c = []) (hstopping : s.life ≠ .alive) : (s.setWorker c .stopped).Stops := by
  have hother : ∀ {cid : Bytes}, cid ≠ c →
      (s.setWorker c .stopped).workers cid = s.workers cid := fun hc =>
    Function.update_of_ne hc ..
  refine ⟨h.unheld, fun cid hcid => ?_, fun _ _ => hstopping,
    fun caller joined joining hd cid hcid => ?_, fun hd => ?_⟩
  -- its own queue is empty
  · have hc : cid ≠ c := by
      rintro rfl
      exact hcid hqueue
    rw [hother hc]
    exact h.attended cid hcid
  -- those joined before have stopped already
  · have hstopped := h.joined caller joined joining hd cid hcid
    have hc : cid ≠ c := by
      rintro rfl
      exact nomatch hworker.symm.trans hstopped
    rw [hother hc]
    exact hstopped
  · exact nomatch h.destroyed hd c .waiting hworker

theorem Stops.step (h : s.Stops) (hlive : s.life ≠ .terminated) (hstep : Step agent s e s') :
    s'.Stops := by
  cases hstep with
  | launch ho _ => exact h.gain ⟨_, ho⟩ rfl rfl rfl
  | reset ho => exact h.drop hlive ho
  | notified ho => exact h.drop hlive ho
  | receive _ halive => exact h.gain halive rfl rfl rfl
  | enqueue ho _ => exact h.enqueue hlive ⟨_, ho⟩ _
  | handled ho => exact h.drop hlive ho
  | @take c message queue hworker hqueue =>
    refine h.move hworker rfl nofun nofun (fun cid hcid => ?_) rfl id
    -- the queue of the slot was longer before
    by_cases hc : cid = c
    · subst hc
      rw [hqueue]
      exact nofun
    · rwa [← show Function.update s.queues c queue cid = s.queues cid from
        Function.update_of_ne hc ..]
  | lockSelf hturn _ _ _ halive =>
    exact h.move hturn rfl nofun nofun (fun _ => id) rfl fun hnone => absurd hnone halive.ne_empty
  | badWeakPtr hturn _ _ _ _ => exact h.move hturn rfl nofun nofun (fun _ => id) rfl id
  | dropSelf hturn _ ho =>
    exact (h.drop hlive ho).move hturn rfl nofun nofun (fun _ => id) rfl id
  | launchTool hturn _ _ => exact h.move hturn rfl nofun nofun (fun _ => id) rfl id
  | awaitTool hturn _ _ _ _ => exact h.move hturn rfl nofun nofun (fun _ => id) rfl id
  | dropFuture hturn _ _ _ _ => exact h.move hturn rfl nofun nofun (fun _ => id) rfl id
  | perform hturn _ _ _ _ => exact h.move hturn rfl nofun nofun (fun _ => id) rfl id
  | finish hturn _ _ => exact h.move hturn rfl nofun nofun (fun _ => id) rfl id
  | uncaught _ _ _ => exact h.terminate
  | leave hworker hqueue hstopping => exact h.leave hworker hqueue hstopping
  | lockTask _ _ halive => exact h.gain halive rfl rfl rfl
  | expired _ _ _ => exact h.frame rfl rfl rfl id
  | execute _ _ _ => exact h.frame rfl rfl rfl id
  | dropTask _ _ ho => exact (h.drop hlive ho).frame rfl rfl rfl id
  | join hlife _ _ _ =>
    refine ⟨fun _ _ => h.unheld (by rw [hlife]; nofun) hlive, h.attended, nofun,
      fun _ _ _ hd => ?_, nofun⟩
    obtain ⟨rfl, rfl, -⟩ := Life.destructor.inj hd
    exact h.joined _ _ _ hlife
  | joinSelf _ => exact h.terminate
  | joined hlife hstopped =>
    refine ⟨fun _ _ => h.unheld (by rw [hlife]; nofun) hlive, h.attended, nofun,
      fun _ _ _ hd cid hcid => ?_, nofun⟩
    obtain ⟨rfl, rfl, -⟩ := Life.destructor.inj hd
    rcases List.mem_cons.mp hcid with rfl | hcid
    · exact hstopped
    · exact h.joined _ _ _ hlife cid hcid
  | destroyed hlife hall =>
    refine ⟨fun _ _ => h.unheld (by rw [hlife]; nofun) hlive, h.attended, nofun, nofun,
      fun _ cid w hw => ?_⟩
    have hslot : s.workers cid = some w := hw
    -- every slot has been joined
    have hjoined := h.joined _ _ _ hlife cid (hall cid (by rw [hslot]; rfl))
    exact Option.some.inj (hslot.symm.trans hjoined)

/-- **Behind the destructor no message is left.** -/
theorem Stops.pending_eq_nil (h : s.Stops) (hlife : s.life = .destroyed) (cid : Bytes) :
    s.pending cid = [] := by
  -- a queue that is not empty has a thread, and all have stopped
  have hqueue : s.queues cid = [] := by
    by_contra hne
    obtain ⟨w, hw, hgoes⟩ := h.attended cid hne
    exact hgoes (h.destroyed hlife cid w hw)
  have hcurrent : s.current cid = [] := by
    rw [current]
    cases hw : s.workers cid with
    | none => rfl
    | some w =>
      obtain rfl := h.destroyed hlife cid w hw
      rfl
  rw [pending, hqueue, hcurrent]
  rfl

end AgentThreads

/-! ### Runs -/

section Runs

variable {agent : AgentController} {agentId : Bytes} {s s' : LiveAgent} {e : LiveEvent}
  {tr : List (LiveAgent × LiveEvent)}

/-- What the threads keep, and what does not depend on the stored conversations, the agent keeps. -/
theorem threads_invariant {I : AgentThreads → Prop} (hinit : ∀ t : AgentThreads, t.Initial → I t)
    (hworld : ∀ (t : AgentThreads) world, I t → I { t with world })
    (hstep : ∀ t e t', I t → t.life ≠ .terminated → AgentThreads.Step agent t e t' → I t')
    (hrun : (liveAgents agent agentId).Run tr s) : I s.threads := by
  refine hrun.invariant (I := fun s => I s.threads) (fun s hs => hinit s.threads hs) ?_
  rintro s e s' hI ⟨hlive, hs⟩
  cases hs with
  | received _ ht => exact hstep _ _ _ hI hlive ht
  | skipped _ => exact hI
  | queued _ _ ht => exact hstep (s.threadsAfter _) _ _ (hworld _ _ hI) hlive ht
  | consumed _ _ ht => exact hstep (s.threadsAfter _) _ _ (hworld _ _ hI) hlive ht
  | returned _ ht => exact hstep _ _ _ hI hlive ht
  | plugins _ => exact hI
  | thread _ ht => exact hstep _ _ _ hI hlive ht

theorem stops_of_run (hrun : (liveAgents agent agentId).Run tr s) : s.threads.Stops :=
  threads_invariant (fun _ h => .initial h) (fun _ _ h => h.frame rfl rfl rfl id)
    (fun _ _ _ h hlive hstep => h.step hlive hstep) hrun

theorem serving_of_run (hrun : (liveAgents agent agentId).Run tr s) : s.threads.Serving agent := by
  refine threads_invariant (fun t h => ?_) (fun _ _ h => h.congr rfl)
    (fun _ _ _ h _ hstep => h.step hstep) hrun
  obtain ⟨world, rfl⟩ := h
  exact nofun

/-- The message the io thread has received and not passed on yet. -/
def LiveAgent.inHand (s : LiveAgent) : List MessageEvent :=
  if .session ∈ s.threads.holders then s.threads.handling.toList else []

/-- The io thread alone changes what it has in hand. -/
theorem inHand_of_other {t t' : AgentThreads} {e : ThreadEvent} (hother : e.ofIo = false)
    (hstep : AgentThreads.Step agent t e t') :
    t'.handling = t.handling ∧ (.session ∈ t'.holders ↔ .session ∈ t.holders) := by
  have hinsert : ∀ {o : Owner}, Owner.session ≠ o →
      (Owner.session ∈ insert o t.holders ↔ .session ∈ t.holders) := by
    intro o ho
    rw [Finset.mem_insert]
    exact or_iff_right ho
  have herase : ∀ {o : Owner}, Owner.session ≠ o →
      (Owner.session ∈ t.holders.erase o ↔ .session ∈ t.holders) := by
    intro o ho
    rw [Finset.mem_erase]
    exact and_iff_right ho
  -- what else changes the holders adds or drops another one
  cases hstep with
  | receive => exact nomatch hother
  | enqueue => exact nomatch hother
  | handled => exact nomatch hother
  | launch => exact ⟨rfl, hinsert nofun⟩
  | lockSelf => exact ⟨rfl, hinsert nofun⟩
  | lockTask => exact ⟨rfl, hinsert nofun⟩
  | reset => exact ⟨rfl, herase nofun⟩
  | notified => exact ⟨rfl, herase nofun⟩
  | dropSelf => exact ⟨rfl, herase nofun⟩
  | dropTask => exact ⟨rfl, herase nofun⟩
  | _ => exact ⟨rfl, Iff.rfl⟩

theorem enqueues_of_enqueued {env : MessageEnv} {message : MessageEvent}
    (hmessage : s.threads.handling = some message)
    (hend : (s.handled agentId env message).enqueued = true) :
    s.enqueues agentId (.handle env) = some message := by
  rw [LiveAgent.enqueues, hmessage]
  exact Option.filter_some_pos hend

theorem enqueues_of_consumed {env : MessageEnv} {message : MessageEvent}
    (hmessage : s.threads.handling = some message)
    (hend : (s.handled agentId env message).enqueued = false) :
    s.enqueues agentId (.handle env) = none := by
  rw [LiveAgent.enqueues, hmessage]
  exact Option.filter_some_neg hend

/-- **A step passes on what is in hand, or takes a new message in hand.** -/
theorem inHand_step (hstep : LiveStep agent agentId s e s') :
    ((s.enqueues agentId e).toList ++ s'.inHand).Sublist (s.inHand ++ e.dispatches.toList) := by
  cases hstep with
  -- the message of the frame is in hand
  | @received event data pm t hparsed ht =>
    have hnew : LiveEvent.dispatches (.frame event data) = some pm.event := by
      rw [LiveEvent.dispatches, hparsed]
      rfl
    rw [hnew]
    cases ht with
    | receive hfree _ =>
      have hhand : LiveAgent.inHand { s with threads := { s.threads with
          handling := some pm.event, holders := insert .session s.threads.holders } } =
          [pm.event] := if_pos (Finset.mem_insert_self ..)
      rw [hhand]
      exact List.sublist_append_right _ _
  | skipped => exact List.sublist_append_left _ _
  -- it goes into its queue
  | @queued env message t hmessage hend ht =>
    rw [enqueues_of_enqueued hmessage hend]
    cases ht with
    | enqueue hsession _ =>
      have hheld : .session ∈ s.threads.holders := hsession
      have hhand : s.inHand = [message] := by
        rw [LiveAgent.inHand, if_pos hheld, hmessage]
        rfl
      have hempty : LiveAgent.inHand ⟨(s.threadsAfter (s.handled agentId env message).host).enqueue
          message, (s.handled agentId env message).host⟩ = [] := by
        rw [LiveAgent.inHand]
        exact ite_self _
      rw [hhand, hempty]
      exact List.Sublist.refl _
  -- or a plugin has handled it
  | @consumed env message t hmessage hend ht =>
    rw [enqueues_of_consumed hmessage hend]
    cases ht with
    | handled hsession =>
      have hempty : LiveAgent.inHand ⟨(s.threadsAfter (s.handled agentId env message).host).drop
          .session, (s.handled agentId env message).host⟩ = [] :=
        if_neg (Finset.notMem_erase _ _)
      rw [hempty]
      exact List.nil_sublist _
  | returned hdone ht =>
    cases ht with
    | handled hsession =>
      have hempty : LiveAgent.inHand { s with threads := s.threads.drop .session } = [] :=
        if_neg (Finset.notMem_erase _ _)
      rw [hempty]
      exact List.nil_sublist _
  | plugins => exact List.sublist_append_left _ _
  -- the other threads have nothing in hand
  | @thread e t hother ht =>
    obtain ⟨hhandling, hsession⟩ := inHand_of_other hother ht
    have hhand : LiveAgent.inHand { s with threads := t } = s.inHand := by
      rw [LiveAgent.inHand, hhandling, LiveAgent.inHand]
      simp only [hsession]
    rw [hhand]
    exact List.sublist_append_left _ _

/-- **What is queued is pending until its turn ends.** -/
theorem pending_liveStep (hstep : LiveStep agent agentId s e s') (cid : Bytes) :
    s.threads.pending cid ++
        (s.enqueues agentId e).toList.filter (fun m => conversationOf m = cid) =
      s.ends cid e ++ s'.threads.pending cid := by
  -- what touches no queue changes nothing
  have hkeep : ∀ {t : AgentThreads}, t.pending cid = s.threads.pending cid →
      s.threads.pending cid ++ [] = [] ++ t.pending cid := by
    intro t h
    rw [h, List.append_nil, List.nil_append]
  cases hstep with
  | received _ ht => exact AgentThreads.pending_step ht cid
  | skipped => exact hkeep rfl
  | @queued env message t hmessage hend ht =>
    -- the message enters the queue of its conversation
    have hfilter : (some message).toList.filter (fun m => decide (conversationOf m = cid)) =
        AgentThreads.entered cid (.enqueue message) := by
      rw [AgentThreads.entered, Option.toList_some, List.filter_singleton, Bool.cond_decide]
    rw [enqueues_of_enqueued hmessage hend, hfilter]
    exact AgentThreads.pending_step ht cid
  | @consumed env message t hmessage hend ht =>
    rw [enqueues_of_consumed hmessage hend]
    exact AgentThreads.pending_step ht cid
  | returned _ ht => exact AgentThreads.pending_step ht cid
  | plugins => exact hkeep rfl
  | @thread e t hother ht =>
    -- no thread but that of the session enters messages
    have hnone : AgentThreads.entered cid e = [] := by
      cases e with
      | enqueue => cases hother
      | _ => rfl
    have hthread := AgentThreads.pending_step ht cid
    rw [hnone] at hthread
    exact hthread

/-- The lists of a longer run. -/
theorem enqueued_concat : enqueued agentId (tr ++ [(s, e)]) =
    enqueued agentId tr ++ (s.enqueues agentId e).toList := by
  rw [enqueued, List.filterMap_append, List.filterMap_cons, List.filterMap_nil]
  cases s.enqueues agentId e <;> rfl

theorem dispatched_concat :
    dispatched (tr ++ [(s, e)]) = dispatched tr ++ e.dispatches.toList := by
  rw [dispatched, List.filterMap_append, List.filterMap_cons, List.filterMap_nil]
  cases e.dispatches <;> rfl

theorem served_concat (cid : Bytes) :
    served cid (tr ++ [(s, e)]) = served cid tr ++ s.ends cid e := by
  rw [served, List.flatMap_append, List.flatMap_singleton]
  rfl

/-- Every frame is passed on or dropped before the next one comes. -/
theorem frames_of_run (hrun : (liveAgents agent agentId).Run tr s) :
    (enqueued agentId tr ++ s.inHand).Sublist (dispatched tr) := by
  induction hrun with
  | @start s h =>
    obtain ⟨world, hthreads⟩ := h
    have hempty : s.inHand = [] := by
      rw [LiveAgent.inHand, hthreads]
      rfl
    rw [hempty]
    exact List.Sublist.refl _
  | @step tr s s' e _ hstep ih =>
    -- a step moves a message in hand, or takes one from the frames
    have hnext := (List.Sublist.refl (enqueued agentId tr)).append (inHand_step hstep.2)
    rw [enqueued_concat, dispatched_concat, List.append_assoc]
    refine hnext.trans ?_
    rw [← List.append_assoc]
    exact ih.append (List.Sublist.refl _)

/-- Turns end in the order of their messages. -/
theorem turns_of_run (hrun : (liveAgents agent agentId).Run tr s) (cid : Bytes) :
    (enqueued agentId tr).filter (fun m => conversationOf m = cid) =
      served cid tr ++ s.threads.pending cid := by
  induction hrun with
  | start h =>
    obtain ⟨world, hthreads⟩ := h
    rw [hthreads]
    rfl
  | @step tr s s' e _ hstep ih =>
    rw [enqueued_concat, List.filter_append, ih, served_concat, List.append_assoc,
      pending_liveStep hstep.2 cid, List.append_assoc]

/-- A dispatched message is the message of a frame. -/
theorem frame_of_mem {m : MessageEvent} (h : m ∈ dispatched tr) : ∃ s₀ event data pm o,
    (s₀, LiveEvent.frame event data) ∈ tr ∧ dispatchEvent event data = some pm ∧ pm.From o ∧
      pm.event = m := by
  obtain ⟨⟨s₀, e⟩, hmem, hm⟩ := List.mem_filterMap.mp h
  cases e with
  | frame event data =>
    obtain ⟨pm, hparsed, hpm⟩ := Option.map_eq_some_iff.mp hm
    obtain ⟨o, ho⟩ := from_of_dispatchEvent hparsed
    exact ⟨s₀, event, data, pm, o, hmem, hparsed, ho, hpm⟩
  | _ => exact nomatch hm

end Runs

/-- **From a frame to its reply.** Every run of an agent delivers. -/
theorem delivers {agent : AgentController} {agentId : Bytes} {tr : List (LiveAgent × LiveEvent)}
    {s : LiveAgent} (hrun : (liveAgents agent agentId).Run tr s) : Delivers agentId tr s where
  frames := (List.sublist_append_left _ _).trans (frames_of_run hrun)
  turns := turns_of_run hrun
  drained := (stops_of_run hrun).pending_eq_nil
  effects := by
    intro s' cid e x hmem
    obtain ⟨pre, post, rfl⟩ := List.append_of_mem hmem
    obtain ⟨_, ⟨-, hstep⟩, -⟩ := hrun.stepAt
    have hpre := hrun.upTo
    cases hstep with
    | thread _ ht =>
      cases ht with
      | @perform _ turn _ _ k hturn hrest _ _ _ =>
        have hcurrent := AgentThreads.current_of_running hturn
        -- the message of the turn is pending, so it was enqueued, so a frame has brought it
        have hpending : turn.message ∈ (enqueued agentId pre).filter
            (fun m => conversationOf m = cid) := by
          rw [turns_of_run hpre, AgentThreads.pending, hcurrent]
          simp
        obtain ⟨henqueued, hcid⟩ := List.mem_filter.mp hpending
        have hframes := (List.sublist_append_left _ _).trans (frames_of_run hpre)
        obtain ⟨s₀, event, data, pm, o, hframe, hparsed, ho, hpm⟩ :=
          frame_of_mem (hframes.subset henqueued)
        have hserves := serving_of_run hpre cid turn hturn
        rw [hrest, ← hpm] at hserves
        refine ⟨s₀, event, data, pm, o, List.mem_append_left _ hframe, hparsed, ho, ?_,
          hpm ▸ hcurrent, hserves.1.for ho⟩
        rw [← conversationOf_of_from ho, hpm]
        exact of_decide_eq_true hcid

/-! ### One message and a stop -/

/-- A private message of the user `u`, as the gateway sends it. -/
def hiFrame : Json.Text :=
  .document ⟨.obj [(utf8 "author", .obj [(utf8 "user_openid", .str (utf8 "u"))]),
    (utf8 "content", .str (utf8 "hi"))], by decide +kernel⟩

def hiParsed : ParsedMessage where
  content := utf8 "hi"
  senderId := utf8 "u"
  userOpenid := utf8 "u"
  isPrivate := true

theorem dispatchEvent_hiFrame :
    dispatchEvent (utf8 "C2C_MESSAGE_CREATE") hiFrame = some hiParsed := rfl

/-- An agent without plugins. -/
def bareAgent : LiveAgent where
  host := { manager := ⟨[], none, ∅⟩, providers := [] }

/-- The message is answered by an agent without a model, which is then stopped. -/
theorem run_hiFrame : ∃ tr s, (liveAgents {} (utf8 "a")).Run tr s ∧
    s.threads.life = .destroyed ∧ enqueued (utf8 "a") tr = [hiParsed.event] := by
  have start : (liveAgents {} (utf8 "a")).Run [] bareAgent := .start ⟨{}, rfl⟩
  have received := start.step ⟨nofun,
    .received dispatchEvent_hiFrame (.receive (by decide) ⟨.registry, by decide⟩)⟩
  have queued := received.step ⟨nofun,
    @LiveStep.queued _ _ _ {} _ _ rfl rfl (.enqueue (by decide) rfl)⟩
  have returned := queued.step ⟨nofun, .returned rfl (.handled (by decide))⟩
  let cid := conversationOf hiParsed.event
  have taken := returned.step ⟨by decide, .thread rfl (@AgentThreads.Step.take _ _ cid _ _ rfl rfl)⟩
  have counted := taken.step ⟨by decide,
    .thread rfl (@AgentThreads.Step.perform _ _ cid _ _ () _ rfl rfl rfl rfl trivial)⟩
  have replied := counted.step ⟨by decide, .thread rfl
    (@AgentThreads.Step.perform _ _ cid _ _ (Except.ok true) _ rfl rfl rfl rfl trivial)⟩
  have finished := replied.step ⟨by decide,
    .thread rfl (@AgentThreads.Step.finish _ _ cid _ _ rfl rfl rfl)⟩
  -- the registry lets go of the controller, and its destructor joins the worker
  have reset := finished.step ⟨by decide, .thread rfl (.reset (by decide))⟩
  have left := reset.step ⟨by decide,
    .thread rfl (@AgentThreads.Step.leave _ _ cid rfl rfl (by decide))⟩
  have joins := left.step ⟨by decide,
    .thread rfl (@AgentThreads.Step.join _ _ cid .registry [] rfl rfl nofun nofun)⟩
  have joined := joins.step ⟨by decide,
    .thread rfl (@AgentThreads.Step.joined _ _ cid .registry [] rfl rfl)⟩
  refine ⟨_, _, joined.step ⟨by decide, .thread rfl
    (@AgentThreads.Step.destroyed _ _ .registry [cid] rfl fun c hslot => ?_)⟩, rfl, rfl⟩
  by_contra hother
  have hc : c ≠ conversationOf hiParsed.event := fun heq => hother (List.mem_singleton.mpr heq)
  -- no other conversation has a slot
  simp [AgentThreads.setWorker, AgentThreads.setTurn, AgentThreads.enqueue, AgentThreads.drop,
    LiveAgent.threadsAfter, bareAgent, hc, cid] at hslot

theorem delivers_hiFrame : ∃ tr s, s.threads.life = .destroyed ∧
    enqueued (utf8 "a") tr = [hiParsed.event] ∧ Delivers (utf8 "a") tr s :=
  have ⟨tr, s, hrun, hlife, henqueued⟩ := run_hiFrame
  ⟨tr, s, hlife, henqueued, delivers hrun⟩

end Aestival
