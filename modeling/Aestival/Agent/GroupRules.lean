import Aestival.Agent.TurnParts
import Mathlib.Data.List.InsertIdx

/-!
# Where the group rules stand

The list a turn hands to its tool loop is put together in three steps: `build_message_list` inserts
every global prompt at the front of the stored messages, and then the time; and
`process_agent_message` inserts the group rules behind as many messages as there are global prompts.
The second step turns the order of the prompts around, and the third one does not count the time:
the rules end up before the last message of the prompts, which is the first prompt
(`insertGroupRules_cons`). So they stand behind all prompts, and the prompts in order, when there is
no prompt, or by chance (`rulesPlaced_iff`).

`wp_processAgentMessage_handsOver` ties this to the runs: the first request of the tool loop of a
turn carries this list, made of what the turn has loaded and of the time it has read.
-/

namespace Aestival

open Bytes Prog

/-! ### The list -/

/-- How the rules should stand among the global prompts and the stored messages: the prompts in
order, the rules directly behind the last one, and all stored messages in order behind the rules. -/
def RulesPlaced (prompts history : List ChatMessage) (rules : ChatMessage)
    (list : List ChatMessage) : Prop :=
  ∃ front rest, list = front ++ prompts ++ rules :: rest ∧ history.Sublist rest

/-- The message with the time. -/
def timeMessage (now : Bytes) : ChatMessage :=
  { role := .system, content := utf8 "当前时间: " ++ now }

/-- The message with the rules. -/
def rulesMessage (agent : AgentController) (message : MessageEvent) : ChatMessage :=
  { role := .system, content := groupRules agent.groupRulesTemplate message.wasAtMentioned }

/-- The prompts inserted at the front, one after another. -/
def insertPrompts (prompts messages : List ChatMessage) : List ChatMessage :=
  prompts.foldl (fun messages gm => gm :: messages) messages

/-- They end up in reverse order. -/
theorem insertPrompts_eq (prompts messages : List ChatMessage) :
    insertPrompts prompts messages = prompts.reverse ++ messages := by
  induction prompts generalizing messages with
  | nil => rfl
  | cons p prompts ih =>
    rw [insertPrompts, List.foldl_cons, ← insertPrompts, ih, List.reverse_cons, List.append_assoc]
    rfl

/-- The list for a group: `build_message_list`, and the rules inserted behind as many messages as
there are prompts. -/
def groupList (prompts history : List ChatMessage) (time rules : ChatMessage) : List ChatMessage :=
  (time :: insertPrompts prompts history).insertIdx prompts.length rules

/-- Behind a list one element longer there is one more. -/
theorem insertIdx_append_length {α : Type} (l t : List α) (a : α) :
    (l ++ t).insertIdx l.length a = l ++ a :: t := by
  induction l with
  | nil => rfl
  | cons b l ih => rw [List.cons_append, List.length_cons, List.insertIdx_succ_cons, ih,
      List.cons_append]

section Placed

variable {p time rules : ChatMessage} {prompts history : List ChatMessage}

/-- **Where the rules end up**: behind the time and all prompts but the first one, which come the
last one first. -/
theorem groupList_cons : groupList (p :: prompts) history time rules =
    time :: (prompts.reverse ++ rules :: p :: history) := by
  have hindex := insertIdx_append_length prompts.reverse (p :: history) rules
  rw [List.length_reverse] at hindex
  rw [groupList, insertPrompts_eq, List.length_cons, List.insertIdx_succ_cons, List.reverse_cons,
    List.append_assoc, List.singleton_append, hindex]

/-- When prompts and rules stand as they should all the same: there is no prompt, or the prompts
read the same from behind and the first of them is what the rules say, or the first one is what the
message with the time says and the others read the same from behind. -/
def PlacedByChance (prompts : List ChatMessage) (time rules : ChatMessage) : Prop :=
  prompts = [] ∨ (prompts.head? = some rules ∧ prompts.reverse = prompts) ∨
    (prompts.head? = some time ∧ prompts.tail.reverse = prompts.tail)

instance : Decidable (PlacedByChance prompts time rules) :=
  inferInstanceAs (Decidable (_ ∨ _ ∨ _))

/-- In front of the prompts there is at most the time. -/
theorem front_length_le {front rest : List ChatMessage}
    (heq : groupList (p :: prompts) history time rules = front ++ (p :: prompts) ++ rules :: rest)
    (hrest : history.Sublist rest) : front.length ≤ 1 := by
  have hlength := congrArg List.length heq
  rw [groupList_cons] at hlength
  simp only [List.length_cons, List.length_append, List.length_reverse] at hlength
  have hle := hrest.length_le
  omega

/-- The rules behind the prompts, when nothing is in front of these. -/
theorem placed_without_front {rest : List ChatMessage}
    (heq : time :: (prompts.reverse ++ rules :: p :: history) = p :: prompts ++ rules :: rest) :
    p = time ∧ prompts.reverse = prompts := by
  obtain ⟨hhead, htail⟩ := List.cons.inj heq
  exact ⟨hhead.symm, (List.append_inj htail List.length_reverse).1⟩

/-- The rules behind the prompts, when the time is in front of these. -/
theorem placed_behind_time {first : ChatMessage} {rest : List ChatMessage}
    (heq : time :: (prompts.reverse ++ rules :: p :: history) =
      [first] ++ (p :: prompts) ++ rules :: rest) :
    p = rules ∧ (p :: prompts).reverse = p :: prompts := by
  have htail := (List.cons.inj heq).2
  have hsplit : (prompts.reverse ++ [rules]) ++ p :: history = (p :: prompts) ++ rules :: rest := by
    rw [List.append_assoc]
    exact htail
  have hlength : (prompts.reverse ++ [rules]).length = (p :: prompts).length := by
    simp
  obtain ⟨hprompts, hrest⟩ := List.append_inj hsplit hlength
  obtain ⟨hp, -⟩ := List.cons.inj hrest
  exact ⟨hp, by rw [List.reverse_cons, hp, hprompts, hp]⟩

/-- **The rules stand as they should exactly when there is no prompt, or by chance.** -/
theorem rulesPlaced_iff :
    RulesPlaced prompts history rules (groupList prompts history time rules) ↔
      PlacedByChance prompts time rules := by
  cases prompts with
  | nil =>
    refine iff_of_true ?_ (.inl rfl)
    exact ⟨[], time :: history, rfl, List.sublist_cons_self time history⟩
  | cons p prompts =>
    constructor
    · rintro ⟨front, rest, heq, hrest⟩
      -- at most one message may stand in front of the prompts
      have hfront := front_length_le heq hrest
      rw [groupList_cons] at heq
      cases front with
      | nil =>
        obtain ⟨rfl, hreverse⟩ := placed_without_front heq
        exact .inr (.inr ⟨rfl, hreverse⟩)
      | cons first front =>
        -- it is the one with the time
        obtain rfl : front = [] := List.eq_nil_of_length_eq_zero (by
          rw [List.length_cons] at hfront
          omega)
        obtain ⟨rfl, hreverse⟩ := placed_behind_time heq
        exact .inr (.inl ⟨rfl, hreverse⟩)
    · rintro (hnil | ⟨hhead, hreverse⟩ | ⟨hhead, hreverse⟩)
      · cases hnil
      · -- the rules take the place of the last prompt, and the first one that of the rules
        obtain rfl := Option.some.inj hhead
        refine ⟨[time], history, ?_, List.Sublist.refl _⟩
        rw [List.reverse_cons] at hreverse
        calc groupList (p :: prompts) history time p
            = time :: ((prompts.reverse ++ [p]) ++ p :: history) := by
              rw [groupList_cons, List.append_assoc]
              rfl
          _ = [time] ++ (p :: prompts) ++ p :: history := by rw [hreverse]; rfl
      · -- the time takes the place of the first prompt
        obtain rfl := Option.some.inj hhead
        rw [List.tail_cons] at hreverse
        refine ⟨[], p :: history, ?_, List.sublist_cons_self p history⟩
        rw [groupList_cons, hreverse]
        rfl

end Placed

/-! ### The turn -/

/-- What a turn has loaded and read for its list. -/
structure ListView where
  loads : List (List ChatMessage) := []
  times : List Bytes := []

/-- What one effect adds. -/
def ListView.next (v : ListView) : (e : TurnEff) → e.Ans → ListView
  | .load _, x => { v with loads := v.loads ++ [x] }
  | .currentTime, x => { v with times := v.times ++ [x] }
  | _, _ => v

/-- The machine that watches the list. -/
def listMachine : Machine TurnSig ListView where
  admits _ _ _ := True
  next := ListView.next

/-- What has been loaded and read in a trace. -/
def listView {σ : Type} (tr : List (Event TurnSig σ)) : ListView :=
  tr.foldl (fun v ev => v.next ev.eff ev.ans) {}

/-- The list handed to the tool loop, as its first request carries it. -/
def TurnEff.handsOver : TurnEff → Option (List ChatMessage)
  | .request (.completeMessages messages) => some messages
  | .request (.completeWithTools 0 messages _) => some messages
  | _ => none

/-- What is handed over was made of what was loaded and read. -/
def HandsOverList (agent : AgentController) (message : MessageEvent) (v : ListView) (e : TurnEff) :
    Prop :=
  ∀ messages, e.handsOver = some messages → ∃ history now, v = ⟨[history], [now]⟩ ∧
    messages = groupList agent.globalSystem history (timeMessage now) (rulesMessage agent message)

theorem ListView.next_of_part {e : TurnEff} (h : e.part ≠ .list) (v : ListView) (x : e.Ans) :
    v.next e x = v := by
  cases e with
  | load => exact absurd rfl h
  | currentTime => exact absurd rfl h
  | _ => rfl

theorem handsOver_of_part {e : TurnEff} (h : e.part ≠ .model) : e.handsOver = none := by
  cases e with
  | request r =>
    cases r with
    | complete => rfl
    | completeMessages => exact absurd rfl h
    | completeWithTools => exact absurd rfl h
  | _ => rfl

section Turn

variable {agent : AgentController} {message : MessageEvent} {c : Bytes}

/-- An effect that hands nothing over. -/
theorem handsOverList_none {e : TurnEff} (h : e.handsOver = none) (v : ListView) :
    HandsOverList agent message v e := by
  intro messages hover
  rw [h] at hover
  cases hover

/-- A part of the turn that neither makes the list nor hands it over. -/
theorem wp_aside {α : Type} {p : Turn α}
    (h : p.Only fun e => TurnEff.part e ≠ .list ∧ TurnEff.part e ≠ .model) (v : ListView) :
    wp listMachine (HandsOverList agent message) p (fun _ v' => v' = v) v := by
  refine h.wp ?_ rfl
  rintro e ⟨hlist, hmodel⟩ _ rfl
  exact ⟨handsOverList_none (handsOver_of_part hmodel) _,
    fun x _ => ListView.next_of_part hlist _ x⟩

theorem wp_aside_part {α : Type} {p : Turn α} {part : TurnPart}
    (h : p.Only (TurnEff.part · = part)) (v : ListView) (hlist : part ≠ .list := by decide)
    (hmodel : part ≠ .model := by decide) :
    wp listMachine (HandsOverList agent message) p (fun _ v' => v' = v) v := by
  refine wp_aside (h.mono ?_) v
  rintro e rfl
  exact ⟨hlist, hmodel⟩

/-- The conversation of a group message is not the global one. -/
theorem conversationOf_ne_global (h : message.isGroup = true) :
    conversationOf message ≠ utf8 "global" := by
  -- the key of a group begins as `global` does not
  have hdiffer : ∀ front rest : Bytes, front ≠ [] → ¬ front <+: utf8 "global" →
      (if front ++ rest = [] then utf8 "global" else front ++ rest) ≠ utf8 "global" := by
    intro front rest hne hfront
    rw [if_neg (List.append_ne_nil_of_left_ne_nil hne rest)]
    rintro heq
    exact hfront ⟨rest, heq⟩
  unfold conversationOf actorIdOf
  split
  · rw [List.append_assoc, List.append_assoc]
    exact hdiffer _ _ (by decide) (by decide)
  split
  · exact hdiffer _ _ (by decide) (by decide)
  · exact hdiffer _ _ (by decide) (by decide)

/-- The list is made of what is loaded and the time. -/
theorem wp_buildMessageList_list (hc : c ≠ utf8 "global") :
    wp listMachine (HandsOverList agent message) (buildMessageList agent c)
      (fun r v => ∃ history now, v = ⟨[history], [now]⟩ ∧
        r = .ok (timeMessage now :: insertPrompts agent.globalSystem history)) {} := by
  unfold buildMessageList
  rw [wp_act_bind]
  refine ⟨handsOverList_none rfl _, fun history _ => ?_⟩
  rw [if_neg hc, wp_act_bind]
  refine ⟨handsOverList_none rfl _, fun now _ => ⟨history, now, rfl, ?_⟩⟩
  rw [insertPrompts_eq]
  rfl

/-- A request and its response change nothing in what was loaded and read. -/
theorem wp_ask_list {α : Type} {r : ModelRequest} {f : ModelResponse → Turn α} {v : ListView}
    (hover : HandsOverList agent message v (.request r))
    (hf : ∀ resp, wp listMachine (HandsOverList agent message) (f resp) (fun _ v' => v' = v) v) :
    wp listMachine (HandsOverList agent message) (ask r >>= f) (fun _ v' => v' = v) v := by
  unfold ask
  rw [wp_bind, wp_act_bind]
  refine ⟨hover, fun _ _ => ?_⟩
  rw [wp_act_bind]
  refine ⟨handsOverList_none rfl _, fun answer _ => ?_⟩
  rw [wp_ofExcept]
  cases answer with
  | error err => rfl
  | ok resp => exact hf resp

/-- Only the first round hands the list over. -/
theorem wp_toolRounds_list (tools : List Json) (remaining round : Nat) (messages : List ChatMessage)
    (v : ListView)
    (h : round = 0 → HandsOverList agent message v (.request (.completeMessages messages))) :
    wp listMachine (HandsOverList agent message) (toolRounds agent tools remaining round messages)
      (fun _ v' => v' = v) v := by
  induction remaining generalizing round messages with
  | zero => rfl
  | succ remaining ih =>
    unfold toolRounds
    -- only the request of the first round hands over the list
    refine wp_ask_list ?_ fun resp => ?_
    · cases round with
      | zero => exact h rfl
      | succ round => exact handsOverList_none rfl v
    -- what follows reads no list
    refine wp_bind_of (wp_aside_part (only_recordTokenUsage resp.usage) v) ?_ fun _ _ hv => hv
    rintro _ _ rfl
    split
    · rfl
    rw [wp_bind, wp_ofExcept]
    cases dumpToolCalls resp.toolCalls with
    | error err => rfl
    | ok json =>
      rw [then_ok]
      refine wp_bind_of (wp_aside_part (only_launchTools _) _) ?_ fun _ _ hv => hv
      rintro _ _ rfl
      refine wp_bind_of (wp_aside_part (only_collectTools _ _) _) ?_ fun _ _ hv => hv
      rintro after _ rfl
      exact ih (round + 1) after fun hzero => absurd hzero (Nat.succ_ne_zero round)

theorem wp_toolLoop_list (messages : List ChatMessage) (v : ListView)
    (h : HandsOverList agent message v (.request (.completeMessages messages))) :
    wp listMachine (HandsOverList agent message) (toolLoop agent messages) (fun _ v' => v' = v)
      v := by
  unfold toolLoop
  rw [wp_act_bind]
  refine ⟨handsOverList_none rfl _, fun providers _ => ?_⟩
  change wp _ _ (if buildToolsJson providers = [] then _ else _) _ _
  split
  · exact wp_ask_list h fun resp => rfl
  · exact wp_toolRounds_list _ kSafetyLimit 0 messages v fun _ => h

theorem wp_runModel_list (messages : List ChatMessage) (v : ListView)
    (h : HandsOverList agent message v (.request (.completeMessages messages))) :
    wp listMachine (HandsOverList agent message) (runModel agent message c messages)
      (fun _ _ => True) v := by
  unfold runModel
  refine wp_bind_of (wp_toolLoop_list messages v h) ?_ fun _ _ _ => trivial
  intro after _ _
  refine wp_bind_of (wp_aside_part (only_persistToolMessages _) _) ?_ fun _ _ _ => trivial
  intro _ v' _
  refine wp_mono (wp_aside ((only_deliver _ _).mono ?_) v') fun _ _ _ => trivial
  rintro e (hreply | ⟨content, rfl⟩)
  · rw [hreply]
    decide
  · exact ⟨nofun, nofun⟩

/-- **What a turn hands to its tool loop** for a group with rules. -/
theorem wp_processAgentMessage_handsOver (hgroup : message.isGroup = true)
    (hrules : agent.groupRulesTemplate ≠ []) :
    wp listMachine (HandsOverList agent message) (processAgentMessage agent message)
      (fun _ _ => True) {} := by
  have hnotice : ∀ content ended v, wp listMachine (HandsOverList agent message)
      (replyTo message content >>= fun _ => pure ended) (fun _ _ => True) v :=
    fun content ended v => wp_mono (wp_aside_part (only_notice content ended) v) fun _ _ _ =>
      trivial
  unfold processAgentMessage
  rw [wp_act_bind]
  refine ⟨handsOverList_none rfl _, fun _ _ => ?_⟩
  rw [wp_tryCatch]
  -- a turn that throws only sends a notice
  suffices hanswer : wp listMachine (HandsOverList agent message)
      (answerMessage agent message (conversationOf message)) (fun _ _ => True) {} by
    refine wp_mono hanswer fun r v _ => ?_
    cases r with
    | ok ended => trivial
    | error err => exact hnotice _ _ v
  unfold answerMessage
  split
  swap
  · exact hnotice _ _ _
  rw [wp_act_bind]
  refine ⟨handsOverList_none rfl _, fun _ _ => ?_⟩
  refine wp_bind_of (wp_aside_part only_summarizeWithModel _) ?_ fun _ _ _ => trivial
  rintro _ _ rfl
  refine wp_bind_of (wp_buildMessageList_list (conversationOf_ne_global hgroup)) ?_
    fun _ _ _ => trivial
  rintro list _ ⟨history, now, rfl, hlist⟩
  obtain rfl := Except.ok.inj hlist
  refine wp_bind_of (wp_aside_part (only_checkLlmCall _ _) _) ?_ fun _ _ _ => trivial
  rintro refusal _ rfl
  cases refusal with
  | some reason => exact hnotice _ _ _
  | none =>
    refine wp_runModel_list _ _ fun messages hover => ⟨history, now, rfl, ?_⟩
    rw [← Option.some.inj hover, insertGroupRules, if_pos (by simp [hgroup, hrules])]
    rfl

/-- What is handed over in a run. -/
theorem handed_over {σ : Type} {M : Machine TurnSig σ} {w w' : σ}
    {tr pre post : List (Event TurnSig σ)} {ev : Event TurnSig σ} {r : Except Thrown TurnEnd}
    (h : Exec M w (processAgentMessage agent message) tr w' r) (hgroup : message.isGroup = true)
    (hrules : agent.groupRulesTemplate ≠ []) (htr : tr = pre ++ ev :: post) :
    HandsOverList agent message (listView pre) ev.eff :=
  h.seen (fun _ _ _ => trivial) (wp_processAgentMessage_handsOver hgroup hrules) htr

/-- **Where the rules stand in what a turn hands to its tool loop**: behind the prompts in order,
and before all stored messages, exactly when there is no prompt, or by chance. -/
theorem rules_placed_iff {σ : Type} {M : Machine TurnSig σ} {w w' : σ}
    {tr pre post : List (Event TurnSig σ)} {ev : Event TurnSig σ} {r : Except Thrown TurnEnd}
    {messages : List ChatMessage}
    (h : Exec M w (processAgentMessage agent message) tr w' r) (hgroup : message.isGroup = true)
    (hrules : agent.groupRulesTemplate ≠ []) (htr : tr = pre ++ ev :: post)
    (hover : ev.eff.handsOver = some messages) :
    ∃ history now, listView pre = ⟨[history], [now]⟩ ∧
      (RulesPlaced agent.globalSystem history (rulesMessage agent message) messages ↔
        PlacedByChance agent.globalSystem (timeMessage now) (rulesMessage agent message)) := by
  obtain ⟨history, now, hview, rfl⟩ := handed_over h hgroup hrules htr messages hover
  exact ⟨history, now, hview, rulesPlaced_iff⟩

end Turn

/-! ### A message in a group -/

/-- An agent with these prompts and with rules for groups. -/
def groupAgent (prompts : List ChatMessage) : AgentController :=
  { plainAgent {} with globalSystem := prompts, groupRulesTemplate := utf8 "rules" }

/-- A message in a group. -/
def groupQuestion : MessageEvent where
  content := utf8 "hi"
  senderNick := utf8 "bob"
  groupId := utf8 "g"
  isGroup := true

/-- The prompt of `PROMPT.md`. -/
def firstPrompt : ChatMessage := { role := .system, content := utf8 "prompt" }

/-- What happens in the turn that answers it. -/
def groupTurn (prompts : List ChatMessage) : List (Event TurnSig World) :=
  (simulateTurn { model := fun _ => .ok { content := utf8 "ok" } } (groupAgent prompts)
    groupQuestion
    {}).1

theorem exec_groupTurn (prompts : List ChatMessage) :
    ∃ w' r, Exec World.machine {} (processAgentMessage (groupAgent prompts) groupQuestion)
      (groupTurn prompts) w' r :=
  ⟨_, _, exec_simulateTurn _ (groupAgent prompts) groupQuestion {}⟩

/-- Some event hands the list over. -/
theorem exists_handsOver (tr : List (Event TurnSig World))
    (h : tr.any (fun ev => ev.eff.handsOver.isSome) = true) :
    ∃ pre ev post messages, tr = pre ++ ev :: post ∧ ev.eff.handsOver = some messages := by
  obtain ⟨ev, hev, hsome⟩ := List.any_eq_true.mp h
  obtain ⟨pre, post, rfl⟩ := List.append_of_mem hev
  obtain ⟨messages, hmessages⟩ := Option.isSome_iff_exists.mp hsome
  exact ⟨pre, ev, post, messages, rfl, hmessages⟩

/-- Without prompts the rules stand before all stored messages. -/
theorem rules_placed_without_prompts : ∃ pre ev post messages history,
    groupTurn [] = pre ++ ev :: post ∧ ev.eff.handsOver = some messages ∧
      RulesPlaced [] history (rulesMessage (groupAgent []) groupQuestion) messages := by
  obtain ⟨pre, ev, post, messages, htr, hover⟩ := exists_handsOver (groupTurn []) (by rfl)
  obtain ⟨w', r, hexec⟩ := exec_groupTurn []
  obtain ⟨history, now, -, hplaced⟩ := rules_placed_iff hexec rfl (by decide) htr hover
  exact ⟨pre, ev, post, messages, history, htr, hover, hplaced.mpr (.inl rfl)⟩

/-- **With one prompt the rules stand before it.** -/
theorem rules_before_prompt :
    ¬ ∀ (agent : AgentController) (message : MessageEvent) (w w' : World)
      (tr pre post : List (Event TurnSig World)) (ev : Event TurnSig World)
      (r : Except Thrown TurnEnd) (messages history : List ChatMessage) (now : Bytes),
      Exec World.machine w (processAgentMessage agent message) tr w' r → message.isGroup = true →
      agent.groupRulesTemplate ≠ [] → tr = pre ++ ev :: post → ev.eff.handsOver = some messages →
      listView pre = ⟨[history], [now]⟩ →
      RulesPlaced agent.globalSystem history (rulesMessage agent message) messages := by
  intro hall
  -- a turn in a group, with one prompt
  obtain ⟨pre, ev, post, messages, htr, hover⟩ :=
    exists_handsOver (groupTurn [firstPrompt]) (by rfl)
  obtain ⟨w', r, hexec⟩ := exec_groupTurn [firstPrompt]
  obtain ⟨history, now, hview, hlist⟩ := handed_over hexec rfl (by decide) htr messages hover
  -- the order holds by one of three coincidences, and none is there
  have hplaced := hall _ _ _ _ _ _ _ _ _ _ _ _ hexec rfl (by decide) htr hover hview
  rw [hlist] at hplaced
  rcases rulesPlaced_iff.mp hplaced with hnone | ⟨hrules, -⟩ | ⟨htime, -⟩
  · cases hnone
  · exact absurd (Option.some.inj hrules) (by decide)
  · -- the prompt does not begin as the message with the time does
    have hcontent : utf8 "当前时间: " <+: utf8 "prompt" :=
      ⟨now, (congrArg ChatMessage.content (Option.some.inj htime)).symm⟩
    exact absurd hcontent (by decide)

end Aestival
