import Aestival.Agent.Conversations
import Aestival.Library.Tables

/-!
# A cleared conversation

`clear` deletes what is stored of a conversation and touches neither its queue nor its worker. A
turn whose message was received earlier, and which is still queued or running, writes to the
conversation afterwards.

* `StaysCleared`: the stored conversation is what has been written since the last `clear`, by turns
  of later messages.
* `staysCleared`: it holds in every run in which every `clear` comes at a time when no earlier turn
  of its conversation can still write (`Settled`).
* `cleared_then_written`: a turn is running when `clear` comes, and stores the text of its message.
-/

namespace Aestival

open Bytes Prog

/-- The effect writes to no conversation. -/
def TurnEff.WritesNothing (e : TurnEff) : Prop := e.writesTo = none

namespace Conversations

variable {agent : AgentController} {s s' : Conversations} {e : ConversationEvent}

/-- Where `clear` has been run, what is stored is what later turns have written since. -/
def StaysCleared (s : Conversations) : Prop :=
  ∀ c n, s.cleared c = some n →
    s.world.store.load c = (s.writes c).foldl Write.apply [] ∧ ∀ w ∈ s.writes c, n ≤ w.turn

/-- No turn of an earlier message can still write to the conversation of this one, and the two
conversations that `clear` speaks of are the same. -/
structure Settled (agent : AgentController) (s : Conversations) (message : MessageEvent) :
    Prop where
  actor : actorIdOf message ≠ []
  queued : ∀ q ∈ s.queues (conversationOf message),
    (processAgentMessage agent q.2).Only TurnEff.WritesNothing
  running : ∀ n p, s.current (conversationOf message) = some (n, p) → p.Only TurnEff.WritesNothing

/-- The condition on a step. -/
def ClearsSettled (agent : AgentController) (s : Conversations) : ConversationEvent → Prop
  | .clear message => Settled agent s message
  | _ => True

/-- The turns of a conversation write to it alone. Where `clear` has been run, those of earlier
messages write nothing any more. -/
structure ClearInv (agent : AgentController) (s : Conversations) : Prop where
  own : ∀ c n p, s.current c = some (n, p) → p.Only (TurnEff.Own c)
  key : ∀ c, ∀ q ∈ s.queues c, conversationOf q.2 = c
  count : ∀ c n, s.cleared c = some n → n ≤ s.received
  queued : ∀ c n, s.cleared c = some n → ∀ q ∈ s.queues c,
    n ≤ q.1 ∨ (processAgentMessage agent q.2).Only TurnEff.WritesNothing
  running : ∀ c n, s.cleared c = some n → ∀ k p, s.current c = some (k, p) →
    n ≤ k ∨ p.Only TurnEff.WritesNothing
  stays : s.StaysCleared

theorem ClearInv.initial (h : s.Initial) : ClearInv agent s := by
  obtain ⟨world, rfl⟩ := h
  refine ⟨?_, ?_, ?_, ?_, ?_, ?_⟩
  · exact fun _ _ _ h => by cases h
  · exact fun _ _ h => absurd h List.not_mem_nil
  · exact fun _ _ h => by cases h
  · exact fun _ _ h => by cases h
  · exact fun _ _ h => by cases h
  · exact fun _ _ h => by cases h

theorem ClearInv.enqueue (h : ClearInv agent s) (message : MessageEvent) :
    ClearInv agent (s.enqueue message) := by
  have hqueues : ∀ c, ∀ q ∈ (s.enqueue message).queues c,
      q ∈ s.queues c ∨ c = conversationOf message ∧ q = (s.received, message) := by
    intro c q hq
    rcases update_eq_iff.mp (rfl : (s.enqueue message).queues c = _) with ⟨rfl, heq⟩ | ⟨-, heq⟩
    · rw [← heq] at hq
      exact (List.mem_append.mp hq).imp_right fun hq => ⟨rfl, List.mem_singleton.mp hq⟩
    · exact Or.inl (heq ▸ hq)
  refine ⟨h.own, ?_, fun c n hn => Nat.le_succ_of_le (h.count c n hn), ?_, h.running, h.stays⟩
  · intro c q hq
    rcases hqueues c q hq with hq | ⟨rfl, rfl⟩
    · exact h.key c q hq
    · rfl
  -- the new message comes after every `clear` so far
  · intro c n hn q hq
    rcases hqueues c q hq with hq | ⟨-, rfl⟩
    · exact h.queued c n hn q hq
    · exact Or.inl (h.count c n hn)

theorem conversationOf_of_actor {message : MessageEvent} (h : actorIdOf message ≠ []) :
    conversationOf message = actorIdOf message := if_neg h

/-- `clear` where no earlier turn can still write. -/
theorem ClearInv.clear (h : ClearInv agent s) {message : MessageEvent}
    (hsettled : Settled agent s message) : ClearInv agent (s.clear message) := by
  have hcleared : ∀ c n, (s.clear message).cleared c = some n →
      c = conversationOf message ∧ n = s.received ∨
        c ≠ conversationOf message ∧ s.cleared c = some n := by
    intro c n hn
    rcases update_eq_iff.mp hn with ⟨hc, heq⟩ | hother
    · exact Or.inl ⟨hc, (Option.some.inj heq).symm⟩
    · exact Or.inr hother
  refine ⟨h.own, h.key, ?_, ?_, ?_, ?_⟩
  · intro c n hn
    rcases hcleared c n hn with ⟨-, rfl⟩ | ⟨-, hn⟩
    · exact Nat.le_refl _
    · exact h.count c n hn
  · intro c n hn q hq
    rcases hcleared c n hn with ⟨rfl, -⟩ | ⟨-, hn⟩
    · exact Or.inr (hsettled.queued q hq)
    · exact h.queued c n hn q hq
  · intro c n hn k p hp
    rcases hcleared c n hn with ⟨rfl, -⟩ | ⟨-, hn⟩
    · exact Or.inr (hsettled.running k p hp)
    · exact h.running c n hn k p hp
  · intro c n hn
    have hkey := conversationOf_of_actor hsettled.actor
    show (s.world.store.clearMessages (actorIdOf message)).load c =
        (Function.update s.writes (actorIdOf message) [] c).foldl Write.apply [] ∧
      ∀ w ∈ Function.update s.writes (actorIdOf message) [] c, n ≤ w.turn
    rcases hcleared c n hn with ⟨rfl, -⟩ | ⟨hc, hn⟩
    -- here nothing is stored, and nothing has been written since
    · rw [hkey, Function.update_self, ListStore.load_clearMessages]
      exact ⟨rfl, fun _ hw => absurd hw List.not_mem_nil⟩
    · rw [hkey] at hc
      have hload : (s.world.store.clearMessages (actorIdOf message)).load c =
          s.world.store.load c :=
        ListStore.load_exec_ne s.world.store (.clearMessages (actorIdOf message)) hc
      rw [Function.update_of_ne hc, hload]
      exact h.stays c n hn

theorem ClearInv.start (h : ClearInv agent s) {cid : Bytes} {n : Nat} {message : MessageEvent}
    {rest : List (Nat × MessageEvent)} (hqueue : s.queues cid = (n, message) :: rest) :
    ClearInv agent (s.start agent cid n message rest) := by
  have hhead : (n, message) ∈ s.queues cid := hqueue ▸ List.mem_cons_self
  have hqueues : ∀ c, ∀ q ∈ (s.start agent cid n message rest).queues c, q ∈ s.queues c := by
    intro c q hq
    rcases update_eq_iff.mp (rfl : (s.start agent cid n message rest).queues c = _) with
      ⟨rfl, heq⟩ | ⟨-, heq⟩
    · rw [hqueue]
      exact List.mem_cons_of_mem _ (heq ▸ hq)
    · exact heq ▸ hq
  -- the worker of `cid` runs the message that was first; the others run what they ran
  have hcurrent : ∀ c k p, (s.start agent cid n message rest).current c = some (k, p) →
      c = cid ∧ k = n ∧ p = processAgentMessage agent message ∨ s.current c = some (k, p) := by
    intro c k p hp
    rcases update_eq_iff.mp hp with ⟨hc, heq⟩ | ⟨-, hp⟩
    · obtain ⟨hk, hp⟩ := Prod.mk.inj (Option.some.inj heq)
      exact Or.inl ⟨hc, hk.symm, hp.symm⟩
    · exact Or.inr hp
  refine ⟨?_, fun c q hq => h.key c q (hqueues c q hq), h.count,
    fun c k hk q hq => h.queued c k hk q (hqueues c q hq), ?_, h.stays⟩
  · intro c k p hp
    rcases hcurrent c k p hp with ⟨rfl, rfl, rfl⟩ | hp
    · have hown := own_of_processAgentMessage agent message
      rwa [h.key c _ hhead] at hown
    · exact h.own c k p hp
  · intro c m hm k p hp
    rcases hcurrent c k p hp with ⟨rfl, rfl, rfl⟩ | hp
    · exact h.queued c m hm _ hhead
    · exact h.running c m hm k p hp

/-- What an effect does to the stored conversations. -/
theorem load_next (w : World) (e : TurnEff) (x : e.Ans) (n : Nat) (c : Bytes) :
    (w.next e x).store.load c =
      if e.writesTo = some c then Write.apply (w.store.load c) ⟨n, e⟩ else w.store.load c := by
  have hquiet : e.writesStore = false → (w.next e x).store.load c = w.store.load c :=
    fun h => by rw [World.store_next h]
  cases e with
  -- the two effects that write: a message, and a summary
  | append d m =>
    show (w.store.appendMessage d m).load c =
      if some d = some c then w.store.load c ++ [m] else w.store.load c
    by_cases hc : c = d
    · subst hc
      rw [if_pos rfl, ListStore.load_appendMessage]
    · rw [if_neg fun h => hc (Option.some.inj h).symm]
      exact ListStore.load_exec_ne w.store (.appendMessage d m) hc
  | commit d k reply =>
    rw [World.next_commit]
    show _ = if some d = some c then (finishSummary k reply (w.store.load c)).getD (w.store.load c)
      else w.store.load c
    by_cases hc : c = d
    · subst hc
      rw [if_pos rfl]
      cases finishSummary k reply (w.store.load c) with
      | none => rfl
      | some msgs => exact ListStore.load_save ..
    · rw [if_neg fun h => hc (Option.some.inj h).symm]
      cases finishSummary k reply (w.store.load d) with
      | none => rfl
      | some msgs => exact ListStore.load_exec_ne w.store (.save d msgs) hc
  | _ => exact hquiet rfl

/-- A turn leaves the other conversations as they are. -/
theorem load_of_turn {w w' : World} {message : MessageEvent} {events : List (Event TurnSig World)}
    {r : Except Thrown TurnEnd}
    (h : Exec World.machine w (processAgentMessage agent message) events w' r) {d : Bytes}
    (hd : d ≠ conversationOf message) : w'.store.load d = w.store.load d := by
  have hframe := (own_of_processAgentMessage agent message).wp (M := World.machine) (s := w)
    (D := fun _ _ => True) (I := fun w' => w'.store.load d = w.store.load d)
    (fun e he w' hload => ⟨trivial, fun x _ => ?_⟩) rfl
  · exact (h.of_wp hframe).1
  · show (w'.next e x).store.load d = w.store.load d
    rw [load_next w' e x 0 d, if_neg fun hwrites => hd (he d hwrites), hload]

theorem ClearInv.perform (h : ClearInv agent s) {cid : Bytes} {n : Nat} {e : TurnEff} {x : e.Ans}
    {k : e.Ans → Turn TurnEnd} (hcurrent : s.current cid = some (n, .op e k)) :
    ClearInv agent (s.perform cid n e x (k x)) := by
  have hown : TurnEff.Own cid e ∧ ∀ x, (k x).Only (TurnEff.Own cid) := h.own cid n _ hcurrent
  have hnext : ∀ c m p, (s.perform cid n e x (k x)).current c = some (m, p) →
      c = cid ∧ m = n ∧ p = k x ∨ s.current c = some (m, p) := by
    intro c m p hp
    rcases update_eq_iff.mp hp with ⟨hc, heq⟩ | ⟨-, hp⟩
    · obtain ⟨hm, hp⟩ := Prod.mk.inj (Option.some.inj heq)
      exact Or.inl ⟨hc, hm.symm, hp.symm⟩
    · exact Or.inr hp
  refine ⟨?_, h.key, h.count, h.queued, ?_, ?_⟩
  · intro c m p hp
    rcases hnext c m p hp with ⟨rfl, rfl, rfl⟩ | hp
    · exact hown.2 x
    · exact h.own c m p hp
  · intro c m hm l p hp
    rcases hnext c l p hp with ⟨rfl, rfl, rfl⟩ | hp
    · exact (h.running c m hm l _ hcurrent).imp_right fun honly => honly.2 x
    · exact h.running c m hm l p hp
  · intro c m hm
    obtain ⟨hload, hlater⟩ := h.stays c m hm
    show (s.world.next e x).store.load c = (s.note n e c).foldl Write.apply [] ∧
      ∀ w ∈ s.note n e c, m ≤ w.turn
    rw [load_next s.world e x n c]
    unfold note
    cases hwrites : e.writesTo with
    | none =>
      rw [if_neg (Option.some_ne_none c).symm]
      exact ⟨hload, hlater⟩
    | some d =>
      obtain rfl := hown.1 d hwrites
      by_cases hc : c = d
      · subst hc
        -- the turn that writes is a later one, since an earlier one writes nothing any more
        have hturn : m ≤ n := by
          refine (h.running c m hm n _ hcurrent).resolve_right fun honly => ?_
          have hnone : e.writesTo = none := honly.1
          rw [hwrites] at hnone
          cases hnone
        dsimp only
        rw [if_pos rfl, Function.update_self, List.foldl_append, ← hload]
        refine ⟨rfl, fun w hw => ?_⟩
        rcases List.mem_append.mp hw with hw | hw
        · exact hlater w hw
        · rw [List.mem_singleton.mp hw]
          exact hturn
      · dsimp only
        rw [if_neg fun heq => hc (Option.some.inj heq).symm, Function.update_of_ne hc]
        exact ⟨hload, hlater⟩

theorem ClearInv.finish (h : ClearInv agent s) (cid : Bytes) : ClearInv agent (s.finish cid) := by
  have hcurrent : ∀ c k p, (s.finish cid).current c = some (k, p) → s.current c = some (k, p) := by
    intro c k p hp
    rcases update_eq_iff.mp hp with ⟨-, heq⟩ | ⟨-, hp⟩
    · cases heq
    · exact hp
  exact ⟨fun c k p hp => h.own c k p (hcurrent c k p hp), h.key, h.count, h.queued,
    fun c m hm k p hp => h.running c m hm k p (hcurrent c k p hp), h.stays⟩

theorem ClearInv.step (h : ClearInv agent s) (hstep : Step agent s e s')
    (hclears : ClearsSettled agent s e) : ClearInv agent s' := by
  cases hstep with
  | enqueue _ => exact h.enqueue _
  | clear _ => exact h.clear hclears
  | start _ hqueue => exact h.start hqueue
  | perform hcurrent _ => exact h.perform hcurrent
  | finish _ _ => exact h.finish _

end Conversations

open Conversations

/-! ### The beginning of a turn -/

/-- The message of the user `u` as it is stored. -/
def userMessage (message : MessageEvent) : ChatMessage where
  role := .user
  senderNick := message.senderNick
  content := formatDisplayContent message

/-- A turn counts its message, and stores it. -/
theorem turn_begins (message : MessageEvent) :
    ∃ k k', processAgentMessage (plainAgent {}) message = .op .countMessage k ∧
      k () = .op (.append (conversationOf message) (userMessage message)) k' :=
  ⟨_, _, rfl, rfl⟩

/-- The beginning of a turn, from a state in which its message waits alone. -/
theorem Conversations.run_turn {s : Conversations} {tr : List (Conversations × ConversationEvent)}
    {message : MessageEvent} {n : Nat} (h : (conversations (plainAgent {})).Run tr s)
    (hidle : s.current (conversationOf message) = none)
    (hqueue : s.queues (conversationOf message) = [(n, message)]) :
    ∃ t k' s', (conversations (plainAgent {})).Run
        (tr ++ [(s, .start (conversationOf message))] ++
          [(t, .perform (conversationOf message) .countMessage ())]) s' ∧
      s'.current (conversationOf message) =
        some (n, .op (.append (conversationOf message) (userMessage message)) k') ∧
      s'.received = s.received ∧ s'.cleared = s.cleared ∧ s'.writes = s.writes ∧
      s'.world.store = s.world.store := by
  -- a turn counts its message first, then appends it
  obtain ⟨k, k', hk, hk'⟩ := turn_begins message
  have hstart := h.step (Step.start hidle hqueue)
  have hcurrent : (s.start (plainAgent {}) (conversationOf message) n message []).current
      (conversationOf message) = some (n, .op .countMessage k) := by
    rw [← hk]
    exact Function.update_self ..
  have hperform : Step (plainAgent {}) _ (.perform (conversationOf message) .countMessage ()) _ :=
    .perform (x := ()) hcurrent trivial
  refine ⟨_, k', _, hstart.step hperform, ?_, rfl, rfl, rfl, rfl⟩
  rw [← hk']
  exact Function.update_self ..

/-- The turn stores the text of its message. -/
theorem Conversations.step_append {agent : AgentController} {s : Conversations} {c : Bytes}
    {n : Nat}
    {m : ChatMessage} {k : Unit → Turn TurnEnd}
    (hcurrent : s.current c = some (n, .op (.append c m) k)) :
    Step agent s (.perform c (.append c m) ()) (s.perform c n (.append c m) () (k ())) :=
  .perform (x := ()) hcurrent trivial

theorem Conversations.mem_writes_perform (s : Conversations) (c : Bytes) (n : Nat) (m : ChatMessage)
    (p : Turn TurnEnd) :
    ⟨n, .append c m⟩ ∈ (s.perform c n (.append c m) () p).writes c := by
  show _ ∈ Function.update s.writes c (s.writes c ++ [⟨n, .append c m⟩]) c
  rw [Function.update_self]
  exact List.mem_append_right _ (List.mem_singleton_self _)

theorem Conversations.cleared_clear (s : Conversations) (message : MessageEvent) :
    (s.clear message).cleared (conversationOf message) = some s.received := Function.update_self ..

theorem Conversations.current_finish (s : Conversations) (c : Bytes) :
    (s.finish c).current c = none := by
  unfold finish
  exact Function.update_self ..

theorem Conversations.queues_start (s : Conversations) (agent : AgentController) (c : Bytes)
    (n : Nat)
    (message : MessageEvent) (rest : List (Nat × MessageEvent)) :
    (s.start agent c n message rest).queues c = rest := by
  unfold start
  exact Function.update_self ..

theorem Conversations.queues_enqueue (s : Conversations) (message : MessageEvent) :
    (s.enqueue message).queues (conversationOf message) =
      s.queues (conversationOf message) ++ [(s.received, message)] :=
  Function.update_self (conversationOf message) _ s.queues

/-- `hi` and `clear`, of the user `u`. -/
def hiMessage : MessageEvent := privateMessage (utf8 "hi")
def clearMessage : MessageEvent := privateMessage (utf8 "clear")

/-! ### Cleared conversations -/

/-- **A cleared conversation stays cleared** in every run whose `clear`s come when no earlier turn
of their conversation can still write. -/
theorem staysCleared {agent : AgentController} {tr : List (Conversations × ConversationEvent)}
    {s : Conversations} (h : (conversations agent).Run tr s)
    (hclears : ∀ p ∈ tr, ClearsSettled agent p.1 p.2) : s.StaysCleared := by
  refine ((h.restrict hclears).invariant (I := ClearInv agent) ?_ ?_).stays
  · exact fun s hs => .initial hs
  · exact fun s e s' hs hstep => hs.step hstep.1 hstep.2

/-- A turn answers `hi`. When it has ended `clear` comes, and then another turn stores the text of
its message. -/
theorem staysCleared_clear_between :
    ∃ tr s, (conversations (plainAgent {})).Run tr s ∧
      (∃ t, (t, .clear clearMessage) ∈ tr ∧ t.world.store.load (conversationOf hiMessage) =
        [userMessage hiMessage, { role := .assistant, content := utf8 "ok" }]) ∧
      s.cleared (conversationOf hiMessage) = some 1 ∧
      s.world.store.load (conversationOf hiMessage) = [userMessage hiMessage] ∧ s.StaysCleared := by
  have hsame : conversationOf clearMessage = conversationOf hiMessage := by decide
  have hinit : (conversations (plainAgent {})).Run [] {} := .start ⟨{}, rfl⟩
  have henqueue := hinit.step (Step.enqueue (m := hiMessage) (by decide))
  have hstart := henqueue.step (Step.start rfl (Function.update_self ..))
  obtain ⟨turn, s₁, p', hturn, hall, hworld, hcurrent, hover, -, hqueues, hreceived, hcleared⟩ :=
    Conversations.run_exec rfl hstart (Function.update_self ..)
      (exec_simulateTurn { model := fun _ => .ok { content := utf8 "ok" } } (plainAgent {})
        hiMessage
        {})
  have hfinish := hturn.step (Step.finish hcurrent hover)
  have hclear := hfinish.step (Step.clear (m := clearMessage) (by decide))
  have henqueue' := hclear.step (Step.enqueue (m := hiMessage) (by decide))
  -- when the turn has ended, its worker waits, and nothing is queued
  have hidle : (((s₁.finish (conversationOf hiMessage)).clear clearMessage).enqueue
      hiMessage).current (conversationOf hiMessage) = none :=
    current_finish s₁ (conversationOf hiMessage)
  have hempty : s₁.queues (conversationOf hiMessage) = [] := by
    rw [hqueues]
    exact queues_start ..
  have hqueue : (((s₁.finish (conversationOf hiMessage)).clear clearMessage).enqueue
      hiMessage).queues (conversationOf hiMessage) = [(s₁.received, hiMessage)] := by
    refine (queues_enqueue ..).trans ?_
    show s₁.queues (conversationOf hiMessage) ++ [(s₁.received, hiMessage)] = _
    rw [hempty]
    rfl
  obtain ⟨_, k', s, hrun, hcurrent', -, hcleared', -, hstore⟩ :=
    Conversations.run_turn henqueue' hidle hqueue
  have hwrite := hrun.step (step_append hcurrent')
  refine ⟨_, _, hwrite, ⟨s₁.finish (conversationOf hiMessage), by simp, ?_⟩, ?_, ?_,
    staysCleared hwrite ?_⟩
  · show s₁.world.store.load _ = _
    rw [hworld]
    rfl
  · refine (congrFun hcleared' _).trans ?_
    rw [← hsame]
    refine (cleared_clear (s₁.finish (conversationOf hiMessage)) clearMessage).trans ?_
    show some s₁.received = _
    rw [hreceived]
    rfl
  · refine (ListStore.load_appendMessage ..).trans ?_
    rw [hstore]
    show (s₁.world.store.clearMessages (actorIdOf clearMessage)).load
      (actorIdOf clearMessage) ++ _ = _
    rw [ListStore.load_clearMessages]
    rfl
  · have hsettled : Settled (plainAgent {}) (s₁.finish (conversationOf hiMessage)) clearMessage := {
      actor := by decide
      queued := fun q hq => by
        rw [hsame] at hq
        exact absurd (hempty ▸ hq) List.not_mem_nil
      running := fun n p hp => by
        rw [hsame, current_finish] at hp
        cases hp }
    have hturn : ∀ q ∈ turn, ClearsSettled (plainAgent {}) q.1 q.2 := by
      intro q hq
      obtain ⟨ev, -, -, heq⟩ := hall.event q hq
      rw [heq]
      trivial
    simp only [List.nil_append, List.forall_mem_append, List.forall_mem_singleton]
    exact ⟨⟨⟨⟨⟨⟨⟨⟨trivial, trivial⟩, hturn⟩, trivial⟩, hsettled⟩, trivial⟩, trivial⟩, trivial⟩,
      trivial⟩

/-- **A running turn stores its message behind `clear`.** -/
theorem cleared_then_written :
    ∃ tr s, (conversations (plainAgent {})).Run tr s ∧
      s.cleared (conversationOf hiMessage) = some 1 ∧
      s.world.store.load (conversationOf hiMessage) = [userMessage hiMessage] ∧
      ¬ s.StaysCleared := by
  have hinit : (conversations (plainAgent {})).Run [] {} := .start ⟨{}, rfl⟩
  have henqueue := hinit.step (Step.enqueue (m := hiMessage) (by decide))
  obtain ⟨_, k', s, hrun, hcurrent, hreceived, -, -, -⟩ :=
    Conversations.run_turn henqueue rfl (Function.update_self ..)
  have hkey : actorIdOf clearMessage = conversationOf hiMessage := by decide
  have hclear := hrun.step (Step.clear (m := clearMessage) (by decide))
  have hafter : (s.clear clearMessage).current (conversationOf hiMessage) = _ := hcurrent
  have hwrite := hclear.step (step_append hafter)
  have hempty : (s.clear clearMessage).world.store.load (conversationOf hiMessage) = [] := by
    rw [← hkey]
    exact ListStore.load_clearMessages ..
  generalize hlast : (s.clear clearMessage).perform (conversationOf hiMessage) 0
    (.append (conversationOf hiMessage) (userMessage hiMessage)) () (k' ()) = last at hwrite
  have hload : last.world.store.load (conversationOf hiMessage) = [userMessage hiMessage] := by
    rw [← hlast]
    refine (ListStore.load_appendMessage ..).trans ?_
    rw [hempty]
    rfl
  have hcleared : last.cleared (conversationOf hiMessage) = some 1 := by
    have hsame : conversationOf clearMessage = conversationOf hiMessage := by decide
    rw [← hlast, ← hsame]
    refine (cleared_clear s clearMessage).trans ?_
    rw [hreceived]
    rfl
  refine ⟨_, last, hwrite, hcleared, hload, fun hstays => ?_⟩
  -- the write is one of turn 0, which is older than the `clear`
  have hlater := (hstays _ _ hcleared).2
    ⟨0, .append (conversationOf hiMessage) (userMessage hiMessage)⟩
  refine absurd (hlater ?_) (by decide)
  rw [← hlast]
  exact mem_writes_perform ..

end Aestival
