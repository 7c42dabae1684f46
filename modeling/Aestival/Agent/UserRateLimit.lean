import Aestival.Agent.Conversations
import Aestival.Agent.RateWindows

/-!
# The rate limit of a user

`check_llm_call` limits the messages of a minute "per user", and is called with the id of the
conversation. In a private chat this is the user; in a group or a channel all members share it.

The decisions of a run (`limitDecisions`) are read off its history: for each check the message whose
turn it is, the time the section has read, and whether the turn may go on.

* `limiter_of_run`: in every run the decisions on a conversation are those of a limiter that serves
  this conversation alone.
* `sameLimits_of_differElsewhere`: two runs decide alike on the messages of a user, if they differ
  only in conversations the user does not write in.
* `group_shares_limit`: of two members of a group, the second is refused because of the first.
-/

namespace Aestival

open Bytes Prog

/-! ### Decisions -/

/-- A decision of the rate limit, with the message of the turn and the time. -/
structure LimitDecision where
  message : MessageEvent
  now : Int
  passed : Bool
  deriving DecidableEq

/-- What was asked. -/
def LimitDecision.asked (d : LimitDecision) : MessageEvent × Int := (d.message, d.now)

/-- The decisions so far, and the messages of the turns that run. -/
structure LimitLog where
  answering : Bytes → Option MessageEvent := fun _ => none
  decisions : List LimitDecision := []

namespace LimitLog

/-- One more step of a run. -/
def note (log : LimitLog) (s : Conversations) : ConversationEvent → LimitLog
  | .start cid =>
    { log with
      answering := Function.update log.answering cid ((s.queues cid).head?.map Prod.snd) }
  | .perform cid (.rateLimit _ _) x =>
    match log.answering cid with
    | some message => { log with decisions := log.decisions ++ [⟨message, x.now, x.allowed⟩] }
    | none => log
  | _ => log

end LimitLog

/-- What has been decided in a run. -/
def limitLog (tr : List (Conversations × ConversationEvent)) : LimitLog :=
  tr.foldl (fun log p => log.note p.1 p.2) {}

def limitDecisions (tr : List (Conversations × ConversationEvent)) : List LimitDecision :=
  (limitLog tr).decisions

@[simp] theorem limitLog_concat (tr : List (Conversations × ConversationEvent)) (s : Conversations)
    (e : ConversationEvent) : limitLog (tr ++ [(s, e)]) = (limitLog tr).note s e := by
  simp [limitLog]

/-- The decisions on the messages of a conversation. -/
def ofConversation (c : Bytes) (ds : List LimitDecision) : List LimitDecision :=
  ds.filter fun d => conversationOf d.message = c

/-- The decisions on the messages of a user. -/
def ofUser (u : Bytes) (ds : List LimitDecision) : List LimitDecision :=
  ds.filter fun d => d.message.senderId = u

/-- The steady clock does not go back, and counts from its epoch. -/
structure SteadyClock (ds : List LimitDecision) : Prop where
  started : ∀ d ∈ ds, 0 ≤ d.now
  ordered : ds.Pairwise fun d d' => d.now ≤ d'.now

instance (ds : List LimitDecision) : Decidable (SteadyClock ds) :=
  decidable_of_iff ((∀ d ∈ ds, 0 ≤ d.now) ∧ ds.Pairwise fun d d' => d.now ≤ d'.now)
    ⟨fun h => ⟨h.1, h.2⟩, fun h => ⟨h.started, h.ordered⟩⟩

/-- The agent after its start: no rates have been counted. -/
def freshConversations (agent : AgentController) :
    TransitionSystem Conversations ConversationEvent where
  init := fun s => ∃ world, world.rateLimits = [] ∧ s = { world }
  step := (conversations agent).step

/-! ### Two runs -/

/-- The runs have the same messages of the user, at the same times. -/
def SameMessages (u : Bytes) (ds ds' : List LimitDecision) : Prop :=
  (ofUser u ds).map LimitDecision.asked = (ofUser u ds').map LimitDecision.asked

/-- The runs have the same messages in every conversation the user writes in. -/
def DifferElsewhere (u : Bytes) (ds ds' : List LimitDecision) : Prop :=
  ∀ d ∈ ofUser u ds,
    (ofConversation (conversationOf d.message) ds).map LimitDecision.asked =
      (ofConversation (conversationOf d.message) ds').map LimitDecision.asked

/-- The runs decide alike on the messages of the user. -/
def SameLimits (u : Bytes) (ds ds' : List LimitDecision) : Prop :=
  (ofUser u ds).map LimitDecision.passed = (ofUser u ds').map LimitDecision.passed

instance (u : Bytes) (ds ds' : List LimitDecision) : Decidable (SameMessages u ds ds') :=
  inferInstanceAs (Decidable (_ = _))

instance (u : Bytes) (ds ds' : List LimitDecision) : Decidable (DifferElsewhere u ds ds') :=
  inferInstanceAs (Decidable (∀ d ∈ ofUser u ds, _ = _))

instance (u : Bytes) (ds ds' : List LimitDecision) : Decidable (SameLimits u ds ds') :=
  inferInstanceAs (Decidable (_ = _))

/-! ### Decisions are those of the rate limit -/

/-- The decisions were made one after the other, on this table. -/
inductive Judged (maxMessagesPerMinute : Int32) : List LimitDecision → RateTable → Prop
  | nil : Judged maxMessagesPerMinute [] []
  | concat {ds : List LimitDecision} {table : RateTable} (h : Judged maxMessagesPerMinute ds table)
    (message : MessageEvent) (now : Int) :
    Judged maxMessagesPerMinute
      (ds ++ [⟨message, now,
        (rateLimit maxMessagesPerMinute table (conversationOf message) now).2⟩])
      (rateLimit maxMessagesPerMinute table (conversationOf message) now).1

section Runs

variable {agent : AgentController} {log : LimitLog} {s s' : Conversations} {e : ConversationEvent}
  {tr : List (Conversations × ConversationEvent)}

/-- Each turn is that of the message the log has for it, and what has been decided explains the
table. -/
structure LimitInv (agent : AgentController) (log : LimitLog) (s : Conversations) : Prop where
  queued : ∀ c, ∀ q ∈ s.queues c, conversationOf q.2 = c
  answering : ∀ c n p, s.current c = some (n, p) → p.Only (TurnEff.Concerns agent.policy c) ∧
    ∃ message, log.answering c = some message ∧ conversationOf message = c
  judged : Judged agent.policy.maxMessagesPerMinute log.decisions s.world.rateLimits

/-- Only the critical section changes the table. -/
theorem World.rateLimits_next (w : World) {e : TurnEff} (x : e.Ans)
    (h : ∀ n actor, e ≠ .rateLimit n actor) : (w.next e x).rateLimits = w.rateLimits := by
  -- the windows are written by one effect
  cases e with
  | rateLimit n actor => exact absurd rfl (h n actor)
  | commit c n reply =>
    rw [World.next_commit]
    split <;> rfl
  | casDay expected desired =>
    rw [World.next_casDay]
    split <;> rfl
  | response r =>
    cases x with
    | ok resp => rfl
    | error t => rfl
  | _ => rfl

/-- Other effects are no decisions. -/
theorem LimitLog.note_perform (log : LimitLog) (s : Conversations) (cid : Bytes) {e : TurnEff}
    (x : e.Ans) (h : ∀ n actor, e ≠ .rateLimit n actor) : log.note s (.perform cid e x) = log := by
  cases e with
  | rateLimit n actor => exact absurd rfl (h n actor)
  | _ => rfl

theorem LimitInv.enqueue (h : LimitInv agent log s) (message : MessageEvent) :
    LimitInv agent log (s.enqueue message) where
  queued := by
    refine (Function.forall_update_iff s.queues
      fun c queue => ∀ q ∈ queue, conversationOf q.2 = c).mpr ⟨?_, fun c _ => h.queued c⟩
    intro q hq
    rcases List.mem_append.mp hq with hq | hq
    · exact h.queued _ q hq
    · rw [List.mem_singleton.mp hq]
  answering := h.answering
  judged := h.judged

theorem LimitInv.clear (h : LimitInv agent log s) (message : MessageEvent) :
    LimitInv agent log (s.clear message) where
  queued := h.queued
  answering := h.answering
  judged := h.judged

theorem LimitInv.start (h : LimitInv agent log s) {cid : Bytes} {n : Nat} {message : MessageEvent}
    {rest : List (Nat × MessageEvent)} (hqueue : s.queues cid = (n, message) :: rest) :
    LimitInv agent (log.note s (.start cid)) (s.start agent cid n message rest) where
  queued := by
    refine (Function.forall_update_iff s.queues
      fun c queue => ∀ q ∈ queue, conversationOf q.2 = c).mpr ⟨?_, fun c _ => h.queued c⟩
    exact fun q hq => h.queued cid q (hqueue ▸ List.mem_cons_of_mem _ hq)
  answering := by
    intro c k p hp
    show _ ∧ ∃ m, Function.update log.answering cid ((s.queues cid).head?.map Prod.snd) c = some m ∧
      conversationOf m = c
    rcases update_eq_some_iff.mp hp with ⟨rfl, hnew⟩ | ⟨hc, hold⟩
    · -- the turn of the first message of the queue begins
      have hkey : conversationOf message = c := h.queued c _ (hqueue ▸ List.mem_cons_self)
      obtain ⟨-, rfl⟩ := Prod.mk.inj hnew
      refine ⟨hkey ▸ concerns_processAgentMessage agent message, message, ?_, hkey⟩
      rw [Function.update_self, hqueue]
      rfl
    -- the turns of the other conversations go on
    · rw [Function.update_of_ne hc]
      exact h.answering c k p hold
  judged := h.judged

theorem LimitInv.finish (h : LimitInv agent log s) (cid : Bytes) :
    LimitInv agent log (s.finish cid) where
  queued := h.queued
  answering := fun c n p hp => h.answering c n p (some_of_erase hp).2
  judged := h.judged

/-- What is left of a turn still concerns its conversation. -/
theorem LimitInv.answering_perform (h : LimitInv agent log s) {cid : Bytes} {n : Nat} {e : TurnEff}
    {x : e.Ans} {k : e.Ans → Turn TurnEnd} (hcurrent : s.current cid = some (n, .op e k)) :
    ∀ c m p, (s.perform cid n e x (k x)).current c = some (m, p) →
      p.Only (TurnEff.Concerns agent.policy c) ∧
        ∃ message, log.answering c = some message ∧ conversationOf message = c := by
  intro c m p hp
  rcases update_eq_some_iff.mp hp with ⟨rfl, hrest⟩ | ⟨-, hold⟩
  · obtain ⟨-, rfl⟩ := Prod.mk.inj hrest
    obtain ⟨honly, hanswering⟩ := h.answering c n _ hcurrent
    exact ⟨honly.2 x, hanswering⟩
  · exact h.answering c m p hold

theorem LimitInv.perform (h : LimitInv agent log s) {cid : Bytes} {n : Nat} {e : TurnEff}
    {x : e.Ans} {k : e.Ans → Turn TurnEnd} (hcurrent : s.current cid = some (n, .op e k))
    (hx : s.world.Admits e x) :
    LimitInv agent (log.note s (.perform cid e x)) (s.perform cid n e x (k x)) := by
  have hanswering := h.answering_perform (x := x) hcurrent
  by_cases hrate : ∀ n actor, e ≠ .rateLimit n actor
  -- other effects leave the table and the log as they are
  · rw [LimitLog.note_perform log s cid x hrate]
    refine ⟨h.queued, hanswering, ?_⟩
    show Judged _ _ (s.world.next e x).rateLimits
    rw [World.rateLimits_next s.world x hrate]
    exact h.judged
  · push Not at hrate
    obtain ⟨max, actor, rfl⟩ := hrate
    -- the turn asks for the rate of its own conversation
    obtain ⟨honly, message, hmessage, hkey⟩ := h.answering cid n _ hcurrent
    obtain ⟨rfl, rfl⟩ : max = agent.policy.maxMessagesPerMinute ∧ actor = cid := honly.1
    subst hkey
    have hnote : log.note s (.perform (conversationOf message)
        (.rateLimit agent.policy.maxMessagesPerMinute (conversationOf message)) x) =
        { log with decisions := log.decisions ++ [⟨message, x.now, x.allowed⟩] } := by
      simp only [LimitLog.note, hmessage]
    have hallowed : x.allowed = (rateLimit agent.policy.maxMessagesPerMinute s.world.rateLimits
        (conversationOf message) x.now).2 := hx
    rw [hnote]
    refine ⟨h.queued, hanswering, ?_⟩
    show Judged _ (log.decisions ++ [⟨message, x.now, x.allowed⟩]) _
    rw [hallowed]
    exact h.judged.concat message x.now

theorem LimitInv.step (h : LimitInv agent log s) (hstep : Conversations.Step agent s e s') :
    LimitInv agent (log.note s e) s' := by
  cases hstep with
  | enqueue _ => exact h.enqueue _
  | clear _ => exact h.clear _
  | start _ hqueue => exact h.start hqueue
  | perform hcurrent hx => exact h.perform hcurrent hx
  | finish _ _ => exact h.finish _

theorem limitInv_of_run (h : (freshConversations agent).Run tr s) :
    LimitInv agent (limitLog tr) s := by
  induction h with
  | start h =>
    obtain ⟨world, hempty, rfl⟩ := h
    refine ⟨fun _ _ h => absurd h List.not_mem_nil, fun _ _ _ h => absurd h (by simp), ?_⟩
    show Judged _ [] world.rateLimits
    rw [hempty]
    exact .nil
  | step _ hstep ih =>
    rw [limitLog_concat]
    exact ih.step hstep

end Runs

/-! ### `check_llm_call` decides by the rate limit -/

/-- The rate limit has refused. -/
def isRefusal : (Σ e : TurnSig.Eff, TurnSig.Ans e) → Bool
  | ⟨.rateLimit _ _, x⟩ => !x.allowed
  | _ => false

section Check

variable {policy : PolicyConfig} {c : Bytes} {record : TurnRecord}

theorem any_isRefusal_concat {p : Σ e : TurnSig.Eff, TurnSig.Ans e} (hp : isRefusal p = false)
    (hrecord : record.any isRefusal = false) : (record ++ [p]).any isRefusal = false := by
  simp [hp, hrecord]

theorem wp_atomicDayReset_refusal (hrecord : record.any isRefusal = false) :
    wp recordMachine (fun _ _ => True) atomicDayReset
      (fun r record' => r = .ok () ∧ record'.any isRefusal = false) record := by
  unfold atomicDayReset
  refine wp_act_bind.mpr ⟨trivial, fun today _ => ?_⟩
  refine wp_act_bind.mpr ⟨trivial, fun expected _ => ?_⟩
  have hread := any_isRefusal_concat (p := ⟨.loadDay, expected⟩) rfl
    (any_isRefusal_concat (p := ⟨.today, today⟩) rfl hrecord)
  split
  · exact ⟨rfl, hread⟩
  · refine wp_act_bind.mpr ⟨trivial, fun won _ => ?_⟩
    split
    · exact ⟨trivial, fun _ _ => ⟨rfl, any_isRefusal_concat rfl (any_isRefusal_concat rfl hread)⟩⟩
    · exact ⟨rfl, any_isRefusal_concat rfl hread⟩

/-- Without a token budget `check_llm_call` refuses when the rate limit does. -/
theorem wp_checkLlmCall_refusal (hbudget : policy.dailyTokenBudget ≤ 0)
    (hrecord : record.any isRefusal = false) :
    wp recordMachine (fun _ _ => True) (checkLlmCall policy c)
      (fun r record' => ∀ refusal, r = .ok refusal → refusal.isSome = record'.any isRefusal)
      record := by
  unfold checkLlmCall
  refine wp_bind_of (wp_atomicDayReset_refusal hrecord) (fun _ record hafter => ?_) ?_
  -- no budget is set, so the rate limit decides
  · rw [if_neg (Int64.not_lt.mpr hbudget)]
    unfold checkRate
    split
    · refine wp_act_bind.mpr ⟨trivial, fun answer _ => ?_⟩
      intro refusal hrefusal
      obtain rfl := Except.ok.inj hrefusal
      refine Eq.trans ?_ (List.any_append ..).symm
      rw [hafter.2]
      cases hallowed : answer.allowed with
      | false => simp [isRefusal, hallowed]
      | true => simp [isRefusal, hallowed]
    -- no limit is set
    · intro refusal hrefusal
      obtain rfl := Except.ok.inj hrefusal
      exact hafter.2.symm
  · rintro err record' ⟨herror, -⟩
    cases herror

/-- The decision of `check_llm_call` is that of the rate limit. -/
theorem checkLlmCall_refuses_iff (hbudget : policy.dailyTokenBudget ≤ 0) {w w' : World}
    {tr : List (Event TurnSig World)} {refusal : Option Bytes}
    (h : Exec World.machine w (checkLlmCall policy c) tr w' (.ok refusal)) :
    refusal.isSome = (inputs tr).any isRefusal := by
  obtain ⟨_, hrecorded⟩ := h.recorded []
  exact (hrecorded.of_wp (wp_checkLlmCall_refusal hbudget rfl)).1 refusal rfl

end Check

/-! ### A limiter for each conversation -/

section Limiters

variable {maxMessagesPerMinute : Int32} {ds ds' : List LimitDecision} {table : RateTable}
  {c u : Bytes}

/-- The times at which a conversation was checked. -/
def timesOf (c : Bytes) (ds : List LimitDecision) : List Int :=
  (ofConversation c ds).map LimitDecision.now

theorem ofConversation_concat (c : Bytes) (ds : List LimitDecision) (d : LimitDecision) :
    ofConversation c (ds ++ [d]) =
      if conversationOf d.message = c then ofConversation c ds ++ [d] else ofConversation c ds := by
  unfold ofConversation
  rw [List.filter_append]
  split
  · next h => simp [h]
  · next h => simp [h]

theorem SteadyClock.of_concat {d : LimitDecision} (h : SteadyClock (ds ++ [d])) :
    SteadyClock ds ∧ 0 ≤ d.now ∧ ∀ d' ∈ ds, d'.now ≤ d.now := by
  obtain ⟨hordered, -, hlast⟩ := List.pairwise_append.mp h.ordered
  refine ⟨⟨fun d' hd' => h.started d' (List.mem_append_left _ hd'), hordered⟩, ?_, ?_⟩
  · exact h.started d (List.mem_append_right _ (List.mem_singleton_self d))
  · exact fun d' hd' => hlast d' hd' d (List.mem_singleton_self d)

/-- At every time from the last decision on, the table is as good as a limiter for each
conversation, and the decisions were those of these limiters. -/
theorem Judged.tracks (h : Judged maxMessagesPerMinute ds table) (hclock : SteadyClock ds) :
    (∀ now, 0 ≤ now → (∀ d ∈ ds, d.now ≤ now) →
      table.Tracks now fun c => (limiter maxMessagesPerMinute (timesOf c ds)).1) ∧
    ∀ c, (ofConversation c ds).map LimitDecision.passed =
      (limiter maxMessagesPerMinute (timesOf c ds)).2 := by
  induction h with
  | nil => exact ⟨fun now _ _ => .nil now, fun _ => rfl⟩
  | @concat ds table h message now ih =>
    obtain ⟨hclock, hnow, hlast⟩ := hclock.of_concat
    obtain ⟨htable, hown⟩ := ih hclock
    -- the check is made at a time when the table still is as good as the limiters
    obtain ⟨hpassed, htracks⟩ :=
      rateLimit_tracks maxMessagesPerMinute (conversationOf message) (htable now hnow hlast) hnow
    refine ⟨fun t _ ht => ?_, fun c => ?_⟩
    · have hlater : now ≤ t := ht _ (List.mem_append_right _ (List.mem_singleton_self _))
      convert htracks.mono hlater using 1
      -- one limiter has made one more check
      ext c : 1
      by_cases hc : conversationOf message = c
      · subst hc
        rw [Function.update_self, timesOf, ofConversation_concat, if_pos rfl, List.map_append]
        show (limiter maxMessagesPerMinute (timesOf _ ds ++ [now])).1 = _
        rw [limiter_concat]
      · rw [Function.update_of_ne (Ne.symm hc), timesOf, ofConversation_concat, if_neg hc]
        rfl
    -- the decision is added in its conversation, and the others have no new one
    · by_cases hc : conversationOf message = c
      · subst hc
        rw [timesOf, ofConversation_concat, if_pos rfl, List.map_append, List.map_append, hown]
        show _ ++ [(rateLimit maxMessagesPerMinute table (conversationOf message) now).2] =
          (limiter maxMessagesPerMinute (timesOf _ ds ++ [now])).2
        rw [limiter_concat, hpassed]
      · rw [timesOf, ofConversation_concat, if_neg hc]
        exact hown c

/-- **Each conversation has a limiter of its own**, whatever happens in the others. -/
theorem limiter_of_run {agent : AgentController} {tr : List (Conversations × ConversationEvent)}
    {s : Conversations} (h : (freshConversations agent).Run tr s)
    (hclock : SteadyClock (limitDecisions tr)) (c : Bytes) :
    (ofConversation c (limitDecisions tr)).map LimitDecision.passed =
      (limiter agent.policy.maxMessagesPerMinute (timesOf c (limitDecisions tr))).2 :=
  ((limitInv_of_run h).judged.tracks hclock).2 c

/-! ### Two runs agree -/

/-- A decision is what was asked and what was answered. -/
theorem eq_of_asked_of_passed
    (hasked : ds.map LimitDecision.asked = ds'.map LimitDecision.asked)
    (hpassed : ds.map LimitDecision.passed = ds'.map LimitDecision.passed) : ds = ds' := by
  induction ds generalizing ds' with
  | nil => exact (List.map_eq_nil_iff.mp hasked.symm).symm
  | cons d ds ih =>
    cases ds' with
    | nil => simp at hasked
    | cons d' ds' =>
      obtain ⟨hhead, hasked⟩ := List.cons.inj hasked
      obtain ⟨hanswer, hpassed⟩ := List.cons.inj hpassed
      obtain ⟨hmessage, hnow⟩ := Prod.mk.inj hhead
      have hd : d = d' := by
        cases d
        cases d'
        simp_all
      rw [hd, ih hasked hpassed]

/-- The messages of a user in a conversation. -/
theorem filter_ofUser (u c : Bytes) (ds : List LimitDecision) :
    (ofUser u ds).filter (fun d => conversationOf d.message = c) =
      (ofConversation c ds).filter fun d => d.message.senderId = u := by
  unfold ofUser ofConversation
  rw [List.filter_filter, List.filter_filter]
  exact List.filter_congr fun d _ => Bool.and_comm _ _

/-- If the decisions agree in the conversations of the user, they agree on its messages. -/
theorem ofUser_eq (hsame : SameMessages u ds ds')
    (hown : ∀ d ∈ ofUser u ds,
      ofConversation (conversationOf d.message) ds = ofConversation
        (conversationOf d.message) ds') :
    ofUser u ds = ofUser u ds' := by
  -- decisions of one user are those of his conversations, one after the other
  refine eq_of_parts (fun d => conversationOf d.message) ?_ hsame fun c => ?_
  · intro d d' h
    exact congrArg conversationOf (Prod.mk.inj h).1
  · rw [filter_ofUser, filter_ofUser]
    by_cases hc : ∃ d ∈ ofUser u ds, conversationOf d.message = c
    · obtain ⟨d, hd, rfl⟩ := hc
      rw [hown d hd]
    · -- neither run has a message of the user in this conversation
      have hnone : (ofUser u ds).filter (fun d => conversationOf d.message = c) = [] := by
        rw [List.filter_eq_nil_iff]
        intro d hd hdc
        exact hc ⟨d, hd, of_decide_eq_true hdc⟩
      -- both runs have the same messages of the user
      have hkeys : (ofUser u ds).map (fun d => conversationOf d.message) =
          (ofUser u ds').map fun d => conversationOf d.message := by
        have h := congrArg (List.map fun a : MessageEvent × Int => conversationOf a.1) hsame
        rw [List.map_map, List.map_map] at h
        exact h
      have hnone' : (ofUser u ds').filter (fun d => conversationOf d.message = c) = [] := by
        rw [List.filter_eq_nil_iff]
        intro d hd hdc
        have hmem : c ∈ (ofUser u ds').map fun d => conversationOf d.message :=
          List.mem_map.mpr ⟨d, hd, of_decide_eq_true hdc⟩
        rw [← hkeys] at hmem
        exact hc (List.mem_map.mp hmem)
      rw [← filter_ofUser, ← filter_ofUser, hnone, hnone']

end Limiters

/-! ### Messages one after the other -/

namespace Conversations

/-- The worker of a conversation works for some steps, in given surroundings. -/
def advance (around : Scenario) (cid : Bytes) :
    Nat → Conversations → List (Conversations × ConversationEvent) × Conversations
  | 0, s => ([], s)
  | steps + 1, s =>
    match s.current cid with
    | none => ([], s)
    | some (n, .op e k) =>
      let x := s.world.answer around e
      let (tr, s') := advance around cid steps (s.perform cid n e x (k x))
      ((s, .perform cid e x) :: tr, s')
    | some (_, .ret _) | some (_, .throw _) => ([(s, .finish cid)], s.finish cid)

/-- A message comes, and its worker takes up the first one of the queue. -/
def handle (agent : AgentController) (around : Scenario) (steps : Nat) (s : Conversations)
    (message : MessageEvent) : List (Conversations × ConversationEvent) × Conversations :=
  let cid := conversationOf message
  let s₁ := s.enqueue message
  match s₁.queues cid with
  | [] => ([(s, .enqueue message)], s₁)
  | (n, first) :: rest =>
    let (tr, s') := advance around cid steps (s₁.start agent cid n first rest)
    ((s, .enqueue message) :: (s₁, .start cid) :: tr, s')

variable {agent : AgentController} {s : Conversations}
  {tr : List (Conversations × ConversationEvent)}

theorem run_advance (around : Scenario) (cid : Bytes) (steps : Nat)
    (h : (freshConversations agent).Run tr s) :
    (freshConversations agent).Run (tr ++ (advance around cid steps s).1)
      (advance around cid steps s).2 := by
  induction steps generalizing s tr with
  | zero => rwa [advance, List.append_nil]
  | succ steps ih =>
    unfold advance
    split
    · rwa [List.append_nil]
    -- the turn goes on with the answer of the scenario
    · next n e k hcurrent =>
      have hadmits := World.admits_answer around s.world e
      have hstep := h.step (A := freshConversations agent) (Step.perform hcurrent hadmits)
      have hrest := ih hstep
      rw [List.append_assoc] at hrest
      exact hrest
    -- or is over
    · next hcurrent => exact h.step (A := freshConversations agent) (Step.finish hcurrent rfl)
    · next hcurrent => exact h.step (A := freshConversations agent) (Step.finish hcurrent rfl)

theorem run_handle (around : Scenario) (steps : Nat) {message : MessageEvent}
    (h : (freshConversations agent).Run tr s) (hclear : ¬ IsClear message)
    (hidle : s.current (conversationOf message) = none) :
    (freshConversations agent).Run (tr ++ (handle agent around steps s message).1)
      (handle agent around steps s message).2 := by
  have henqueue := h.step (A := freshConversations agent) (Step.enqueue hclear)
  unfold handle
  dsimp only
  split
  · exact henqueue
  -- the thread of the conversation takes the first message
  · next n first rest hqueue =>
    have hstart := henqueue.step (A := freshConversations agent) (Step.start hidle hqueue)
    have hrun := run_advance around (conversationOf message) steps hstart
    rw [List.append_assoc, List.append_assoc] at hrun
    exact hrun

end Conversations

/-- One message in a minute. -/
def strictAgent : AgentController := plainAgent { maxMessagesPerMinute := 1 }

/-- The model does not answer, and the clock stands. -/
def brokenModel : Scenario where
  model := fun _ => .error .exception
  steadyNanos := 100 * nanosPerSecond

/-- What happens when a message comes, and when two come one after the other. -/
def oneMessage (m : MessageEvent) : List (Conversations × ConversationEvent) × Conversations :=
  Conversations.handle strictAgent brokenModel 14 {} m

def twoMessages (m m' : MessageEvent) : List (Conversations × ConversationEvent) × Conversations :=
  let (tr, s) := oneMessage m
  let (tr', s') := Conversations.handle strictAgent brokenModel 14 s m'
  (tr ++ tr', s')

theorem run_oneMessage (m : MessageEvent) (hclear : ¬ IsClear m) :
    (freshConversations strictAgent).Run (oneMessage m).1 (oneMessage m).2 :=
  Conversations.run_handle brokenModel 14 (.start ⟨{}, rfl, rfl⟩) hclear rfl

theorem run_twoMessages (m m' : MessageEvent) (hclear : ¬ IsClear m) (hclear' : ¬ IsClear m')
    (hidle : (oneMessage m).2.current (conversationOf m') = none) :
    (freshConversations strictAgent).Run (twoMessages m m').1 (twoMessages m m').2 :=
  Conversations.run_handle brokenModel 14 (run_oneMessage m hclear) hclear' hidle

/-- A message of a user in its private chat, and one in the group `g`. -/
def chatMessage (user : Bytes) : MessageEvent where
  content := utf8 "hi"
  senderId := user
  userOpenid := user
  isPrivate := true

def groupMessage (user : Bytes) : MessageEvent where
  content := utf8 "hi"
  senderId := user
  groupId := utf8 "g"
  isGroup := true

/-! ### The limit of a user -/

/-- **Other conversations make no difference.** Two runs that differ only in conversations the user
does not write in decide alike on the messages of the user. -/
theorem sameLimits_of_differElsewhere {agent : AgentController} {u : Bytes}
    {tr tr' : List (Conversations × ConversationEvent)} {s s' : Conversations}
    (h : (freshConversations agent).Run tr s) (h' : (freshConversations agent).Run tr' s')
    (hclock : SteadyClock (limitDecisions tr)) (hclock' : SteadyClock (limitDecisions tr'))
    (hsame : SameMessages u (limitDecisions tr) (limitDecisions tr'))
    (hdiffer : DifferElsewhere u (limitDecisions tr) (limitDecisions tr')) :
    SameLimits u (limitDecisions tr) (limitDecisions tr') := by
  -- it is enough to look at the conversations of the user one by one
  refine congrArg (List.map LimitDecision.passed) (ofUser_eq hsame fun d hd => ?_)
  have hasked := hdiffer d hd
  refine eq_of_asked_of_passed hasked ?_
  -- the same checks at the same times, by two limiters that begin alike
  have htimes : timesOf (conversationOf d.message) (limitDecisions tr) =
      timesOf (conversationOf d.message) (limitDecisions tr') := by
    have h := congrArg (List.map Prod.snd) hasked
    rw [List.map_map, List.map_map] at h
    exact h
  calc (ofConversation (conversationOf d.message) (limitDecisions tr)).map LimitDecision.passed
      = (limiter agent.policy.maxMessagesPerMinute
          (timesOf (conversationOf d.message) (limitDecisions tr))).2 := limiter_of_run h hclock _
    _ = (limiter agent.policy.maxMessagesPerMinute
          (timesOf (conversationOf d.message) (limitDecisions tr'))).2 := by rw [htimes]
    _ = (ofConversation (conversationOf d.message) (limitDecisions tr')).map
          LimitDecision.passed := (limiter_of_run h' hclock' _).symm

/-- A private message of another user makes no difference. -/
theorem sameLimits_privateChats :
    SameLimits (utf8 "u") (limitDecisions (oneMessage (chatMessage (utf8 "u"))).1)
      (limitDecisions (twoMessages (chatMessage (utf8 "v")) (chatMessage (utf8 "u"))).1) :=
  sameLimits_of_differElsewhere (run_oneMessage _ (by decide))
    (run_twoMessages _ _ (by decide) (by decide) (by rfl)) (by decide +kernel) (by decide +kernel)
    (by decide +kernel) (by decide +kernel)

/-- **The members of a group share one limit.** A message of `v` in the group, and the one of `u`
that follows it is refused. -/
theorem group_shares_limit :
    ¬ ∀ (agent : AgentController) (u : Bytes) (tr tr' : List (Conversations × ConversationEvent))
      (s s' : Conversations), agent.policy.dailyTokenBudget ≤ 0 →
      (freshConversations agent).Run tr s → (freshConversations agent).Run tr' s' →
      SteadyClock (limitDecisions tr) → SteadyClock (limitDecisions tr') →
      SameMessages u (limitDecisions tr) (limitDecisions tr') →
      SameLimits u (limitDecisions tr) (limitDecisions tr') := by
  intro h
  have halone := run_oneMessage (groupMessage (utf8 "u")) (by decide)
  have hsecond := run_twoMessages (groupMessage (utf8 "v")) (groupMessage (utf8 "u")) (by decide)
    (by decide) (by rfl)
  have hlimits := h strictAgent (utf8 "u") _ _ _ _ (by decide) halone hsecond (by decide +kernel)
    (by decide +kernel) (by decide +kernel)
  -- alone the message passes
  exact absurd hlimits (by decide +kernel)

end Aestival
