import Aestival.Agent.Effects

/-!
# A turn of the agent

`agent_controller::process_agent_message` with everything it calls, as a program over the effects
of a turn. A turn stores the message, has the conversation summarized, asks the policy engine,
lets the model use tools for up to `kSafetyLimit` rounds, stores the tool messages, and replies with
the last text of the model.

`process_agent_message` returns nothing. The model returns how the turn has ended (`TurnEnd`), with
the local variables its properties speak of.
-/

namespace Aestival

open Bytes Json

/-! ### Constants and fields -/

def kMaxToolContent : Nat := 4000
def kSafetyLimit : Nat := 10

/-- The client of the model, `llm_`. -/
structure LlmClient where
  enabled : Bool
  modelName : Bytes
  deriving DecidableEq, Repr

/-- The fields of `agent_controller` a turn reads. -/
structure AgentController where
  llm : Option LlmClient := none
  policy : PolicyConfig := {}
  globalSystem : List ChatMessage := []
  groupRulesTemplate : Bytes := []

/-! ### Pure helpers -/

/-- The last position at or before `pos` where a character of `s` starts. -/
def boundaryAtOrBefore (s : Bytes) : Nat → Nat
  | 0 => 0
  | pos + 1 =>
    let c := s.getD (pos + 1) 0
    if c < 0x80 ∨ 0xC0 ≤ c then pos + 1 else boundaryAtOrBefore s pos

/-- `utf8_safe_truncate`. -/
def utf8SafeTruncate (s : Bytes) (maxLen : Nat) : Nat :=
  if s.length ≤ maxLen then s.length else boundaryAtOrBefore s maxLen

/-- The content of a tool message as it is stored. -/
def capToolContent (content : Bytes) : Bytes :=
  if content.length > kMaxToolContent then
    content.take (utf8SafeTruncate content kMaxToolContent) ++ utf8 "\n[...truncated]"
  else content

/-- The length of a tag `<…>` at the start of `s`, without angles between its own. -/
def tagLength : Bytes → Option Nat
  | [] => none
  | b :: s =>
    if b = 60 then
      let body := s.takeWhile fun c => c ≠ 60 && c ≠ 62
      if s[body.length]? = some 62 then some (body.length + 2) else none
    else none

/-- `format_display_content`. In a group the text names its speaker, whose name loses its
brackets; then all tags are erased. -/
def formatDisplayContent (msg : MessageEvent) : Bytes :=
  let content :=
    if msg.isGroup then
      let nick := msg.senderNick.map fun ch => if ch = 91 ∨ ch = 93 then 32 else ch
      utf8 "[" ++ nick ++ utf8 "]: " ++ msg.content
    else msg.content
  eraseMatches tagLength 0 content

/-- `actor_id_of`. -/
def actorIdOf (m : MessageEvent) : Bytes :=
  if m.isGuild && m.isPrivate then utf8 "dm:" ++ m.guildId ++ utf8 ":" ++ m.senderId
  else if m.isPrivate then utf8 "c2c:" ++ m.userOpenid
  else if m.isGroup then utf8 "group:" ++ m.groupId
  else if m.isGuild then utf8 "guild:" ++ m.guildId ++ utf8 ":" ++ m.channelId
  else m.senderId

/-- `cid`: the conversation a message belongs to. -/
def conversationOf (m : MessageEvent) : Bytes :=
  if actorIdOf m = [] then utf8 "global" else actorIdOf m

/-- The group rules with the hint for this message. -/
def groupRules (template : Bytes) (wasAtMentioned : Bool) : Bytes :=
  let placeholder := utf8 "\x7bAT_HINT\x7d"
  let hint := if wasAtMentioned then utf8 "已检测到 @ (被点名)"
    else utf8 "未检测到 @ — 仅在有价值时发言"
  match template.find? placeholder with
  | some pos => template.take pos ++ hint ++ template.drop (pos + placeholder.length)
  | none => template

/-! ### JSON of the tools -/

/-- One octet of a JSON string. -/
def escapeByte (b : UInt8) : Bytes :=
  if b = 0x08 then utf8 "\\b"
  else if b = 0x09 then utf8 "\\t"
  else if b = 0x0A then utf8 "\\n"
  else if b = 0x0C then utf8 "\\f"
  else if b = 0x0D then utf8 "\\r"
  else if b = 0x22 then utf8 "\\\""
  else if b = 0x5C then utf8 "\\\\"
  else if b ≤ 0x1F then
    utf8 "\\u00" ++ [48 + b / 16, if b % 16 < 10 then 48 + b % 16 else 87 + b % 16]
  else [b]

/-- A JSON string. -/
def jsonString (s : Bytes) : Bytes := utf8 "\"" ++ s.flatMap escapeByte ++ utf8 "\""

/-- The JSON of a call, its fields in alphabetic order. -/
def toolCallText (tc : ToolCall) : Bytes :=
  utf8 "\x7b\"function\":\x7b\"arguments\":" ++ jsonString tc.arguments ++
    utf8 ",\"name\":" ++ jsonString tc.functionName ++
    utf8 "\x7d,\"id\":" ++ jsonString tc.id ++ utf8 ",\"type\":\"function\"\x7d"

/-- `tc_array.dump()`. The writer throws on a text that is not UTF-8. -/
def dumpToolCalls (calls : List ToolCall) : Except Thrown Bytes :=
  if calls.all fun tc => tc.id.validUtf8 && tc.functionName.validUtf8 && tc.arguments.validUtf8 then
    .ok (utf8 "[" ++ ((calls.map toolCallText).intersperse (utf8 ",")).flatten ++ utf8 "]")
  else .error .exception

/-- `build_tools_json`, from what `get_tools` of each provider has returned. -/
def buildToolsJson (providers : List (List ToolDefinition)) : List Json :=
  providers.flatten.map fun td =>
    .obj [(utf8 "function", .obj [(utf8 "description", .str td.description),
      (utf8 "name", .str td.name), (utf8 "parameters", td.parameters)]),
      (utf8 "type", .str (utf8 "function"))]

/-! ### The policy engine -/

/-- `atomic_day_reset`. Of several threads that see the new day one resets the counter. -/
def atomicDayReset : Turn Unit := do
  let today : Int ← act .today
  let expected : Int ← act .loadDay
  if expected = today then pure ()
  else do
    let won : Bool ← act (.casDay expected today)
    if won then act (.storeUsed 0) else pure ()

/-- The rate limit of `check_llm_call`. -/
def checkRate (policy : PolicyConfig) (actor : Bytes) : Turn (Option Bytes) :=
  if policy.maxMessagesPerMinute > 0 then do
    let answer : RateAnswer ← act (.rateLimit policy.maxMessagesPerMinute actor)
    pure (if answer.allowed then none else some (utf8 "消息发送过快，请稍后再试"))
  else pure none

/-- `check_llm_call`: the reason why the call is to be skipped, if it is. -/
def checkLlmCall (policy : PolicyConfig) (actor : Bytes) : Turn (Option Bytes) := do
  atomicDayReset
  if policy.dailyTokenBudget > 0 then do
    let used : Int64 ← act .loadUsed
    if used ≥ policy.dailyTokenBudget then pure (some (utf8 "今日 token 配额已用完"))
    else checkRate policy actor
  else checkRate policy actor

/-- `record_tokens`. -/
def recordTokens (prompt completion : Int64) : Turn Unit := do
  atomicDayReset
  act (.addUsed (prompt + completion))

/-- `record_token_usage`. A figure that is no number throws. -/
def recordTokenUsage (agent : AgentController) (usage : Json) : Turn Unit :=
  match agent.llm with
  | none => pure ()
  | some llm =>
    match usage.value getInt32 (utf8 "prompt_tokens") 0,
        usage.value getInt32 (utf8 "completion_tokens") 0 with
    | .ok p, .ok c =>
      if p = 0 ∧ c = 0 then pure ()
      else do
        act (.recordUsage llm.modelName p c)
        act (.addTokens p c)
        recordTokens p.toInt64 c.toInt64
    -- what is not an object is ignored; a field of another type throws
    | _, _ => if usage.isObject then .throw .exception else pure ()

/-! ### Requests -/

/-- Send a request and wait for the response. -/
def ask (r : ModelRequest) : Turn ModelResponse := do
  act (.request r)
  let answer : Except Thrown ModelResponse ← act (.response r)
  .ofExcept answer

/-- `reply_to`. -/
def replyTo (message : MessageEvent) (content : Bytes) : Turn Bool := do
  let sent : Except Thrown Bool ← act (.reply message content)
  .ofExcept sent

namespace Turn

/-- `summarize_with_model`. The text of the response is all that is used of it. -/
def summarizeWithModel (c : Bytes) : Turn Unit := do
  let due : Option Snapshot ← act (.snapshot c)
  match due with
  | none => pure ()
  | some snap => do
    act (.request (.complete snap.prompt))
    let answer : Except Thrown ModelResponse ← act (.response (.complete snap.prompt))
    let summary : Completion := answer.map ModelResponse.content
    if summary = .ok [] then pure () else act (.commit c snap.msgCountBefore summary)

end Turn

/-! ### The tool loop -/

/-- The task that executes a call, as its future delivers it. -/
def toolOutput : ToolEnd → Except Thrown Bytes
  | .controllerDestroyed => .ok (utf8 "(controller destroyed)")
  | .returned [] => .ok (utf8 "(no output)")
  | .returned (b :: s) => .ok (b :: s)
  | .thrown t => .error t

/-- Launch the tasks of all calls. -/
def launchTools : List ToolCall → Turn Unit
  | [] => pure ()
  | tc :: calls => do
    act (.launchTool tc)
    launchTools calls

/-- Append the results, in the order of the calls. -/
def collectTools : List ToolCall → List ChatMessage → Turn (List ChatMessage)
  | [], messages => pure messages
  | tc :: calls, messages => do
    let ended : ToolEnd ← act (.awaitTool tc)
    let result ← .ofExcept (toolOutput ended)
    collectTools calls (messages ++ [{ role := .tool, content := result, toolCallId := tc.id }])

/-- The loop of `tool_loop`: `remaining` rounds are left, and `round` are done. -/
def toolRounds (agent : AgentController) (tools : List Json) :
    (remaining round : Nat) → List ChatMessage → Turn (List ChatMessage)
  -- the bound of the loop is reached, and the last results have no answer
  | 0, _, messages => pure messages
  | remaining + 1, round, messages => do
    let resp ← ask (.completeWithTools round messages tools)
    recordTokenUsage agent resp.usage
    -- no tools: the content is the reply
    if resp.toolCalls = [] then
      pure (messages ++ [{ role := .assistant, content := resp.content }])
    else do
      let json ← .ofExcept (dumpToolCalls resp.toolCalls)
      -- all calls run at once, and their results are taken in order
      launchTools resp.toolCalls
      let messages ← collectTools resp.toolCalls
        (messages ++ [{ role := .assistant, toolCallsJson := json }])
      toolRounds agent tools remaining (round + 1) messages

/-- `tool_loop`: the messages with what the model and the tools have added. -/
def toolLoop (agent : AgentController) (messages : List ChatMessage) : Turn (List ChatMessage) := do
  let providers : List (List ToolDefinition) ← act .getTools
  let tools := buildToolsJson providers
  if tools = [] then do
    let resp ← ask (.completeMessages messages)
    pure (messages ++ [{ role := .assistant, content := resp.content }])
  else toolRounds agent tools kSafetyLimit 0 messages

/-! ### The turn -/

/-- How a turn has ended. `messagesBefore` is the list handed to the tool loop, `messages` the list
it has returned. -/
inductive TurnEnd where
  | notConfigured
  | refused (reason : Bytes)
  | silent
  | blocked
  | replied (messagesBefore messages : List ChatMessage) (reply : Bytes)
  | failed
  deriving DecidableEq, Repr

/-- `build_message_list`. The global prompts end up in front, the last one first, behind the
time. -/
def buildMessageList (agent : AgentController) (c : Bytes) : Turn (List ChatMessage) := do
  let messages : List ChatMessage ← act (.load c)
  if c = utf8 "global" then pure messages
  else do
    let now : Bytes ← act .currentTime
    pure ({ role := .system, content := utf8 "当前时间: " ++ now } ::
      (agent.globalSystem.reverse ++ messages))

/-- Insert the group rules behind the global prompts. -/
def insertGroupRules (agent : AgentController) (message : MessageEvent)
    (messages : List ChatMessage) : List ChatMessage :=
  if message.isGroup && agent.groupRulesTemplate ≠ [] then
    let rules := groupRules agent.groupRulesTemplate message.wasAtMentioned
    messages.insertIdx agent.globalSystem.length { role := .system, content := rules }
  else messages

/-- Store the tool messages of the turn. -/
def persistToolMessages (c : Bytes) : List ChatMessage → Turn Unit
  | [] => pure ()
  | m :: messages =>
    if m.role = .assistant ∧ m.toolCallsJson ≠ [] then do
      act (.append c { role := .assistant, content := m.content, toolCallsJson := m.toolCallsJson })
      persistToolMessages c messages
    else if m.role = .tool then do
      act (.append c
        { role := .tool, content := capToolContent m.content, toolCallId := m.toolCallId })
      persistToolMessages c messages
    else persistToolMessages c messages

/-- A message the reply is taken from: a text of the model. -/
def isReply (m : ChatMessage) : Bool :=
  m.role = .assistant && m.toolCallsJson = [] && m.content ≠ []

/-- `final_reply`, found by a scan from the back of the whole list. -/
def finalReply (messages : List ChatMessage) : Bytes :=
  match messages.reverse.find? isReply with
  | some m => m.content
  | none => []

/-- Filter the final reply, store it and send it. -/
def deliver (message : MessageEvent) (c : Bytes) (messagesBefore messages : List ChatMessage) :
    Turn TurnEnd :=
  -- in a group the model may choose to say nothing
  if message.isGroup ∧ (finalReply messages).contains (utf8 "[SILENT]") then pure .silent
  else
    let reply := filterOutput (finalReply messages)
    -- the filter leaves nothing, and nothing is stored
    if reply = [] then do
      let _ ← replyTo message (utf8 "reply blocked")
      pure .blocked
    else do
      act (.append c { role := .assistant, content := reply })
      let _ ← replyTo message reply
      pure (.replied messagesBefore messages reply)

/-- The part of a turn behind the policy check. -/
def runModel (agent : AgentController) (message : MessageEvent) (c : Bytes)
    (messages : List ChatMessage) : Turn TurnEnd := do
  let after ← toolLoop agent messages
  persistToolMessages c (after.drop messages.length)
  deliver message c messages after

/-- The body of the `try` block. -/
def answerMessage (agent : AgentController) (message : MessageEvent) (c : Bytes) : Turn TurnEnd :=
  if agent.llm.any (·.enabled) then do
    act (.append c { role := .user, senderNick := message.senderNick,
                     content := formatDisplayContent message })
    -- the message is stored before the summary and before the check
    Turn.summarizeWithModel c
    let list ← buildMessageList agent c
    let messages := insertGroupRules agent message list
    -- the only check, in front of the first request
    let refusal ← checkLlmCall agent.policy c
    match refusal with
    | some reason => do
      let _ ← replyTo message (utf8 "⚠ " ++ reason)
      pure (.refused reason)
    | none => runModel agent message c messages
  else do
    let _ ← replyTo message (utf8 "LLM not configured.")
    pure .notConfigured

/-- `process_agent_message`. -/
def processAgentMessage (agent : AgentController) (message : MessageEvent) : Turn TurnEnd := do
  act .countMessage
  (answerMessage agent message (conversationOf message)).tryCatch fun _ => do
    let _ ← replyTo message (utf8 "LLM request failed — check logs for details.")
    pure .failed

/-! ### Turns in given surroundings -/

/-- A turn in given surroundings: its trace, the world it leaves, and how it has ended. -/
def simulateTurn (around : Scenario) (agent : AgentController) (message : MessageEvent)
    (w : World) : List (Prog.Event TurnSig World) × World × Except Thrown TurnEnd :=
  Prog.simulate World.machine (World.answer around) w (processAgentMessage agent message)

/-- It is one of the possible turns. -/
theorem exec_simulateTurn (around : Scenario) (agent : AgentController)
    (message : MessageEvent) (w : World) :
    Prog.Exec World.machine w (processAgentMessage agent message)
      (simulateTurn around agent message w).1 (simulateTurn around agent message w).2.1
      (simulateTurn around agent message w).2.2 :=
  Prog.exec_simulate (World.admits_answer around) w _

/-- An agent with a model and no workspace files. -/
def plainAgent (policy : PolicyConfig) : AgentController where
  llm := some ⟨true, utf8 "deepseek-chat"⟩
  policy := policy

/-- A private message of the user `u`. -/
def privateMessage (content : Bytes) : MessageEvent where
  content := content
  userOpenid := utf8 "u"
  isPrivate := true

end Aestival
