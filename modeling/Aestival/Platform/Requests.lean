import Aestival.Agent.SentRequests
import Aestival.Library.Mending
import Aestival.Platform.Completions

/-!
# How a request is encoded

The adapters turn the messages of a conversation into the JSON a chat-completion endpoint reads. The
tool calls of an assistant message are stored as a text; they are parsed again, and the message
loses its content. A message with the current time is put behind the system messages in front. The
body is written with U+FFFD in the place of what is not UTF-8 (`requestText`).

`readText` is the other side: what an endpoint reads from a body, with `Accepted` for what the
protocol of function calls allows. `requests_accepted` says that in every run of the conversations
of an agent, as long as no `clear` comes in the middle of a turn and no summary cuts inside a round,
each request is read as the messages it was made from, with the calls the model had made, and
accepted.
-/

namespace Aestival

open Bytes Json

/-! ### The adapter -/

section Adapter

variable (fmt : FloatText)

/-- The body of the loop of `build_messages_json`. The fields are in the order of their names. A
text of tool calls that is not JSON is left out, and the content stays. -/
def messageJson (m : ChatMessage) : Json :=
  let role : Bytes × Json := (utf8 "role", .str m.role.text)
  let content : Bytes × Json := (utf8 "content", .str m.content)
  if m.role = .tool then .obj [content, role, (utf8 "tool_call_id", .str m.toolCallId)]
  else if m.role = .assistant ∧ m.toolCallsJson ≠ [] then
    match parse fmt m.toolCallsJson with
    | some calls => .obj [(utf8 "content", .null), role, (utf8 "tool_calls", calls)]
    | none => .obj [content, role]
  else .obj [content, role]

/-- `build_messages_json`. -/
def buildMessagesJson (msgs : List ChatMessage) : List Json := msgs.map (messageJson fmt)

/-- `j["role"] == "system"`. -/
def isSystemJson (j : Json) : Bool :=
  match j.find? (utf8 "role") with
  | some (.str role) => role = utf8 "system"
  | _ => false

/-- A message of the system. -/
def systemMessage (content : Bytes) : ChatMessage := { role := .system, content }

/-- The time is put behind the system messages in front. -/
def insertTime (now : Bytes) (j : List Json) : List Json :=
  j.takeWhile isSystemJson ++
    .obj [(utf8 "content", .str (utf8 "Current time: " ++ now)),
      (utf8 "role", .str (utf8 "system"))] ::
    j.dropWhile isSystemJson

/-- The body `send_chat_request` builds. Only tools that are there are named. -/
def chatBody (model : Bytes) (messages tools : List Json) : Json :=
  .obj ([(utf8 "messages", .arr messages), (utf8 "model", .str model),
    (utf8 "stream", .bool false)] ++
    if tools.isEmpty then [] else [(utf8 "tools", .arr tools)])

/-- `complete`, `complete_messages` and `complete_with_tools`, up to the body of the request. -/
def requestBody (model now : Bytes) : ModelRequest → Json
  | .complete prompt =>
    let role := utf8 "You are a concise bot assistant. Current time: " ++ now
    chatBody model
      (buildMessagesJson fmt [systemMessage role, { role := .user, content := prompt }]) []
  | .completeMessages msgs => chatBody model (insertTime now (buildMessagesJson fmt msgs)) []
  | .completeWithTools _ msgs tools =>
    chatBody model (insertTime now (buildMessagesJson fmt msgs)) tools

/-- The body as it is written. -/
def requestText (model now : Bytes) (r : ModelRequest) : Bytes :=
  dumpReplace fmt (requestBody fmt model now r)

end Adapter

/-! ### The endpoint -/

/-- What an endpoint reads. -/
inductive ApiMessage where
  | text (role : Role) (content : Bytes)
  | calls (calls : List ToolCall)
  | result (id content : Bytes)
  deriving DecidableEq, Repr

/-- A field that is a string. -/
def str? (j : Json) (key : Bytes) : Option Bytes :=
  match j.find? key with
  | some (.str s) => some s
  | _ => none

/-- A tool call. -/
def readApiCall (j : Json) : Option ToolCall := do
  let type ← str? j (utf8 "type")
  let fn ← j.find? (utf8 "function")
  let id ← str? j (utf8 "id")
  let functionName ← str? fn (utf8 "name")
  let arguments ← str? fn (utf8 "arguments")
  if type = utf8 "function" then some { id, functionName, arguments } else none

/-- A message of one role: a result of a tool, tool calls of the assistant, or a text. -/
def readApiMessage (j : Json) : Option ApiMessage := do
  let role ← str? j (utf8 "role")
  -- a tool result names its call
  if role = Role.tool.text then do
    let id ← str? j (utf8 "tool_call_id")
    let content ← str? j (utf8 "content")
    some (.result id content)
  else
    match j.find? (utf8 "tool_calls") with
    | some (.arr calls) =>
      -- only the assistant calls tools
      if role = Role.assistant.text then (calls.mapM readApiCall).map .calls else none
    | some _ => none
    | none => do
      let content ← str? j (utf8 "content")
      let role ← [Role.user, .assistant, .system].find? fun r => r.text = role
      some (.text role content)

/-- The messages of a request. -/
def readRequest (body : Json) : Option (List ApiMessage) :=
  match body.find? (utf8 "messages") with
  | some (.arr messages) => messages.mapM readApiMessage
  | _ => none

/-- The messages of the body with this text. -/
def readText (fmt : FloatText) (text : Bytes) : Option (List ApiMessage) :=
  (parse fmt text).bind readRequest

/-- The protocol of function calls: behind the calls of the assistant stands one result for each of
them, in their order, and there are no other results. -/
inductive Accepted : List ApiMessage → Prop
  | nil : Accepted []
  | text {role : Role} {content : Bytes} {l : List ApiMessage} (hrole : role ≠ .tool)
    (hl : Accepted l) : Accepted (.text role content :: l)
  | round {calls : List ToolCall} {results l : List ApiMessage} (hcalls : calls ≠ [])
    (hresults : List.Forall₂ (fun tc r => ∃ content, r = .result tc.id content) calls results)
    (hl : Accepted l) : Accepted (.calls calls :: (results ++ l))

/-- The message of the API is the message of the conversation, with U+FFFD where its content is not
UTF-8. -/
inductive Carries : ChatMessage → ApiMessage → Prop
  | text {m : ChatMessage} (hm : Plain m) : Carries m (.text m.role m.content.mend)
  | calls {m : ChatMessage} {calls : List ToolCall} (hm : m.role = .assistant)
    (hjson : dumpToolCalls calls = .ok m.toolCallsJson) : Carries m (.calls calls)
  | result {m : ChatMessage} (hm : m.role = .tool) (hid : m.toolCallId.validUtf8 = true) :
    Carries m (.result m.toolCallId m.content.mend)

/-! ### The calls -/

/-- The element `tool_loop` puts into `tc_array` for a call. -/
def callJson (tc : ToolCall) : Json :=
  .obj [(utf8 "function", .obj [(utf8 "arguments", .str tc.arguments),
      (utf8 "name", .str tc.functionName)]),
    (utf8 "id", .str tc.id), (utf8 "type", .str (utf8 "function"))]

theorem jsonString_eq (s : Bytes) : jsonString s = printString s := rfl

theorem toolCallText_eq (fmt : FloatText) (tc : ToolCall) :
    toolCallText tc = print fmt (callJson tc) := by
  rw [toolCallText, jsonString_eq, jsonString_eq, jsonString_eq]
  simp only [callJson, print, printFieldTail, List.append_assoc, List.cons_append]
  rfl

/-- Texts with commas between them. -/
theorem flatten_intersperse (sep t : Bytes) (texts : List Bytes) :
    ((t :: texts).intersperse sep).flatten = t ++ texts.flatMap (sep ++ ·) := by
  induction texts generalizing t with
  | nil => simp
  | cons u texts ih =>
    rw [List.intersperse_cons_cons, List.flatten_cons, List.flatten_cons, ih, List.flatMap_cons,
      List.append_assoc]

/-- The text of the calls is that of an array. -/
theorem dumpToolCalls_text (fmt : FloatText) (calls : List ToolCall) :
    utf8 "[" ++ ((calls.map toolCallText).intersperse (utf8 ",")).flatten ++ utf8 "]" =
      print fmt (.arr (calls.map callJson)) := by
  cases calls with
  | nil => rw [List.map_nil, List.map_nil, print]; rfl
  | cons tc calls =>
    -- the separator in front of each further call
    have htexts : (calls.map toolCallText).flatMap (utf8 "," ++ ·) =
        (calls.map callJson).flatMap fun j => 44 :: print fmt j := by
      rw [List.flatMap_map, List.flatMap_map]
      refine List.flatMap_congr fun tc _ => ?_
      rw [toolCallText_eq fmt]
      rfl
    rw [List.map_cons, flatten_intersperse, htexts, toolCallText_eq fmt, List.map_cons, print,
      printTail_eq, List.append_assoc, List.append_assoc]
    rfl

theorem canonical_callJson {fmt : FloatText} {tc : ToolCall}
    (h : (tc.id.validUtf8 && tc.functionName.validUtf8 && tc.arguments.validUtf8) = true) :
    Canonical fmt (callJson tc) := by
  simp only [Bool.and_eq_true] at h
  obtain ⟨⟨hid, hname⟩, harguments⟩ := h
  have hinner : ([utf8 "arguments", utf8 "name"] : List Bytes).Pairwise (· < ·) := by decide
  have houter : ([utf8 "function", utf8 "id", utf8 "type"] : List Bytes).Pairwise (· < ·) := by
    decide
  have htype : (utf8 "function").validUtf8 = true := by decide
  exact ⟨⟨by decide, ⟨⟨by decide, harguments, by decide, hname, trivial⟩, hinner⟩, by decide, hid,
    by decide, htype, trivial⟩, houter⟩

/-- Calls that are dumped consist of UTF-8. -/
theorem valid_of_dumpToolCalls {calls : List ToolCall} {json : Bytes}
    (h : dumpToolCalls calls = .ok json) {tc : ToolCall} (htc : tc ∈ calls) :
    (tc.id.validUtf8 && tc.functionName.validUtf8 && tc.arguments.validUtf8) = true := by
  unfold dumpToolCalls at h
  split at h
  · next hvalid => exact List.all_eq_true.mp hvalid tc htc
  · cases h

theorem canonical_calls (fmt : FloatText) {calls : List ToolCall} {json : Bytes}
    (h : dumpToolCalls calls = .ok json) : Canonical fmt (.arr (calls.map callJson)) := by
  refine canonicalElems_iff.mpr fun j hj => ?_
  obtain ⟨tc, htc, rfl⟩ := List.mem_map.mp hj
  exact canonical_callJson (valid_of_dumpToolCalls h htc)

/-- **The calls are stored as a text that is parsed as them.** -/
theorem parse_dumpToolCalls (fmt : FloatText) {calls : List ToolCall} {json : Bytes}
    (h : dumpToolCalls calls = .ok json) : parse fmt json = some (.arr (calls.map callJson)) := by
  have htext : json = print fmt (.arr (calls.map callJson)) := by
    rw [← dumpToolCalls_text fmt]
    unfold dumpToolCalls at h
    split at h
    · exact (Except.ok.inj h).symm
    · cases h
  rw [htext]
  exact parse_print (canonical_calls fmt h)

theorem mapM_readApiCall (calls : List ToolCall) :
    (calls.map callJson).mapM readApiCall = some calls := by
  induction calls with
  | nil => rfl
  | cons tc calls ih =>
    have htc : readApiCall (callJson tc) = some tc := rfl
    rw [List.map_cons, List.mapM_cons, htc, ih]
    rfl

/-! ### The messages -/

section Messages

variable {fmt : FloatText} {m : ChatMessage} {msgs : List ChatMessage}

theorem Role.validUtf8_text (r : Role) : r.text.validUtf8 = true := by
  cases r <;> decide

/-- The fields of a message, as they are written. -/
theorem mend_messageFields (content : Json) (role : Role) {rest rest' : List (Bytes × Json)}
    (hrest : mendFields rest = rest') :
    Json.mend (.obj ((utf8 "content", content) :: (utf8 "role", .str role.text) :: rest)) =
      .obj ((utf8 "content", content.mend) :: (utf8 "role", .str role.text) :: rest') := by
  rw [mend_obj, mendFields_cons (by decide), mendFields_cons (by decide), hrest, mend_str,
    mend_eq_self (Role.validUtf8_text role)]

/-- **A message is written as what it was, and read.** -/
theorem Carries.sent {a : ApiMessage} (h : Carries m a) :
    Canonical fmt (messageJson fmt m).mend ∧
      readApiMessage (messageJson fmt m).mend = some a := by
  have hrole : Bytes.validUtf8 Role.tool.text = true ∧ Bytes.validUtf8 Role.assistant.text = true :=
    by decide
  cases h with
  -- a text: nothing refers to calls
  | text hm =>
    obtain ⟨htool, hcalls⟩ := hm
    have hjson : (messageJson fmt m).mend =
        .obj [(utf8 "content", .str m.content.mend), (utf8 "role", .str m.role.text)] := by
      unfold messageJson
      rw [if_neg htool, if_neg fun h => h.2 (hcalls h.1)]
      have hrest : mendFields [] = [] := by rw [mendFields]
      exact (mend_messageFields _ _ hrest).trans (by rw [mend_str])
    have hnames : ([utf8 "content", utf8 "role"] : List Bytes).Pairwise (· < ·) := by decide
    rw [hjson]
    refine ⟨⟨⟨by decide, validUtf8_mend _, by decide, Role.validUtf8_text _, trivial⟩, hnames⟩, ?_⟩
    cases hrole : m.role with
    | tool => exact absurd hrole htool
    | _ => rfl
  | @calls calls hm hcalls =>
    have hne := dumpToolCalls_ne_nil hcalls
    have htool : m.role ≠ .tool := by
      rw [hm]
      nofun
    -- the calls are those that were dumped, and are read back
    have hcanonical := canonical_calls fmt hcalls
    have hjson : (messageJson fmt m).mend =
        .obj [(utf8 "content", .null), (utf8 "role", .str Role.assistant.text),
          (utf8 "tool_calls", .arr (calls.map callJson))] := by
      unfold messageJson
      rw [if_neg htool, if_pos ⟨hm, hne⟩, parse_dumpToolCalls fmt hcalls, hm]
      refine mend_messageFields .null .assistant ?_
      rw [mendFields_cons (by decide), mend_of_canonical _ hcanonical]
      rfl
    have hnames : ([utf8 "content", utf8 "role", utf8 "tool_calls"] : List Bytes).Pairwise
        (· < ·) := by decide
    rw [hjson]
    refine ⟨⟨⟨by decide, trivial, by decide, hrole.2, by decide, hcanonical, trivial⟩, hnames⟩, ?_⟩
    show ((_ : List Json).mapM readApiCall).map ApiMessage.calls = _
    rw [mapM_readApiCall]
    rfl
  -- the id is valid UTF-8, so that mending leaves it
  | result hm hid =>
    have hjson : (messageJson fmt m).mend =
        .obj [(utf8 "content", .str m.content.mend), (utf8 "role", .str Role.tool.text),
          (utf8 "tool_call_id", .str m.toolCallId)] := by
      unfold messageJson
      rw [if_pos hm, hm]
      refine (mend_messageFields (.str m.content) .tool ?_).trans (by rw [mend_str])
      rw [mendFields_cons (by decide), mend_str, mend_eq_self hid]
      rfl
    have hnames : ([utf8 "content", utf8 "role", utf8 "tool_call_id"] : List Bytes).Pairwise
        (· < ·) := by decide
    rw [hjson]
    exact ⟨⟨⟨by decide, validUtf8_mend _, by decide, hrole.1, by decide, hid, trivial⟩, hnames⟩,
      rfl⟩

theorem sent_of_carries {api : List ApiMessage} (h : List.Forall₂ Carries msgs api) :
    (∀ j ∈ buildMessagesJson fmt msgs, Canonical fmt j.mend) ∧
      ((buildMessagesJson fmt msgs).map Json.mend).mapM readApiMessage = some api := by
  induction h with
  | nil => exact ⟨fun _ h => absurd h List.not_mem_nil, rfl⟩
  | @cons m a msgs api hm _ ih =>
    obtain ⟨hcanonical, hread⟩ : Canonical fmt (messageJson fmt m).mend ∧ _ := hm.sent
    refine ⟨List.forall_mem_cons.mpr ⟨hcanonical, ih.1⟩, ?_⟩
    rw [buildMessagesJson, List.map_cons, List.map_cons, List.mapM_cons, hread]
    have hrest := ih.2
    rw [buildMessagesJson] at hrest
    rw [hrest]
    rfl

/-- Complete rounds are accepted. -/
theorem accepted_of_rounds (h : Rounds CallIds msgs) :
    ∃ api, Accepted api ∧ List.Forall₂ Carries msgs api := by
  induction h with
  | nil => exact ⟨[], .nil, .nil⟩
  | plain hm _ ih =>
    obtain ⟨api, haccepted, hcarries⟩ := ih
    exact ⟨_, .text hm.not_tool haccepted, .cons (.text hm) hcarries⟩
  | @round a ids results l ha _ hids hresults _ ih =>
    obtain ⟨api, haccepted, hcarries⟩ := ih
    obtain ⟨calls, hne, hjson, rfl⟩ := hids
    have hanswers : List.Forall₂ (fun tc m => m.role = .tool ∧ m.toolCallId = tc.id) calls
        results :=
      List.forall₂_map_left_iff.mp hresults
    -- the results have the ids of the calls
    have hvalid : ∀ m ∈ results, m.toolCallId.validUtf8 = true := by
      intro m hm
      have hids : calls.map ToolCall.id = results.map ChatMessage.toolCallId := by
        rw [← List.forall₂_eq_eq_eq, List.forall₂_map_left_iff, List.forall₂_map_right_iff]
        exact hanswers.imp fun _ _ h => h.2.symm
      obtain ⟨tc, htc, hid⟩ := List.mem_map.mp (hids ▸ List.mem_map_of_mem hm :
        m.toolCallId ∈ calls.map ToolCall.id)
      have hvalid := valid_of_dumpToolCalls hjson htc
      simp only [Bool.and_eq_true] at hvalid
      exact hid ▸ hvalid.1.1
    let read := results.map fun m => ApiMessage.result m.toolCallId m.content.mend
    refine ⟨.calls calls :: (read ++ api), .round hne ?_ haccepted, .cons (.calls ha hjson) ?_⟩
    · refine List.forall₂_map_right_iff.mpr (hanswers.imp ?_)
      rintro tc m ⟨-, hid⟩
      exact ⟨m.content.mend, by rw [hid]⟩
    · refine List.rel_append (?_ : List.Forall₂ Carries results read) hcarries
      refine List.forall₂_map_right_iff.mpr (List.forall₂_same.mpr fun m hm => ?_)
      exact .result (hresults.role_eq hm) (hvalid m hm)

/-- The message with the time, behind the system messages in front. -/
def withTime (now : Bytes) (msgs : List ChatMessage) : List ChatMessage :=
  msgs.takeWhile (fun m => m.role = .system) ++ systemMessage (utf8 "Current time: " ++ now) ::
    msgs.dropWhile fun m => m.role = .system

theorem isSystemJson_messageJson (m : ChatMessage) :
    isSystemJson (messageJson fmt m) = decide (m.role = .system) := by
  have hrole : (messageJson fmt m).find? (utf8 "role") = some (.str m.role.text) := by
    unfold messageJson
    split
    · rfl
    split
    · split <;> rfl
    · rfl
  unfold isSystemJson
  rw [hrole]
  cases m.role <;> rfl

theorem insertTime_eq (now : Bytes) (msgs : List ChatMessage) :
    insertTime now (buildMessagesJson fmt msgs) = buildMessagesJson fmt (withTime now msgs) := by
  have hsystem : isSystemJson ∘ messageJson fmt = fun m => decide (m.role = .system) :=
    funext isSystemJson_messageJson
  rw [insertTime, buildMessagesJson, List.takeWhile_map, List.dropWhile_map, hsystem,
    buildMessagesJson, withTime, List.map_append, List.map_cons]
  rfl

theorem rounds_withTime (now : Bytes) (h : Rounds CallIds msgs) :
    Rounds CallIds (withTime now msgs) := by
  have hfront : ∀ m ∈ msgs.takeWhile fun m => m.role = .system, Plain m := fun m hm =>
    plain_of_system (by simpa using List.mem_takeWhile_imp hm)
  have hback : Rounds CallIds (msgs.dropWhile fun m => m.role = .system) := by
    refine Rounds.behind (k := msgs.takeWhile fun m => m.role = .system) ?_ hfront
    rwa [List.takeWhile_append_dropWhile]
  exact (rounds_of_plain hfront).append (.plain (plain_of_system rfl) hback)

end Messages

/-! ### The requests of a session -/

/-- The messages a request is made of. -/
def requestMessages (now : Bytes) : ModelRequest → List ChatMessage
  | .complete prompt =>
    [systemMessage (utf8 "You are a concise bot assistant. Current time: " ++ now),
      { role := .user, content := prompt }]
  | .completeMessages msgs | .completeWithTools _ msgs _ => withTime now msgs

/-- The definitions of tools it has. -/
def ModelRequest.tools : ModelRequest → List Json
  | .completeWithTools _ _ tools => tools
  | _ => []

section Requests

variable {fmt : FloatText} {model now : Bytes}

/-- The definitions of tools are read back when their parameters are. -/
theorem canonical_buildToolsJson {providers : List (List ToolDefinition)}
    (h : ∀ td ∈ providers.flatten, Canonical fmt td.parameters.mend) :
    ∀ j ∈ buildToolsJson providers, Canonical fmt j.mend := by
  intro j hj
  obtain ⟨td, htd, rfl⟩ := List.mem_map.mp hj
  have hinner : ([utf8 "description", utf8 "name", utf8 "parameters"] : List Bytes).Pairwise
      (· < ·) := by decide
  have houter : ([utf8 "function", utf8 "type"] : List Bytes).Pairwise (· < ·) := by decide
  have htype : (utf8 "function").validUtf8 = true := by decide
  -- mending goes to the members; the names are valid already
  have hfunction : Json.mend (.obj [(utf8 "description", .str td.description),
      (utf8 "name", .str td.name), (utf8 "parameters", td.parameters)]) =
      .obj [(utf8 "description", .str td.description.mend), (utf8 "name", .str td.name.mend),
        (utf8 "parameters", td.parameters.mend)] := by
    rw [mend_obj, mendFields_cons (by decide), mendFields_cons (by decide),
      mendFields_cons (by decide), mendFields, mend_str, mend_str]
  rw [mend_obj, mendFields_cons htype, mendFields_cons (by decide), mendFields, hfunction, mend_str,
    mend_eq_self htype]
  exact ⟨⟨htype, ⟨⟨by decide, validUtf8_mend _, by decide, validUtf8_mend _, by decide, h td htd,
    trivial⟩, hinner⟩, by decide, htype, trivial⟩, houter⟩

/-- A body is read from its text as the messages it was made of. -/
theorem readText_chatBody {msgs : List ChatMessage} {tools : List Json} {api : List ApiMessage}
    (h : List.Forall₂ Carries msgs api) (htools : ∀ j ∈ tools, Canonical fmt j.mend) :
    readText fmt (dumpReplace fmt (chatBody model (buildMessagesJson fmt msgs) tools)) =
      some api := by
  obtain ⟨hcanonical, hread⟩ : (∀ j ∈ buildMessagesJson fmt msgs, Canonical fmt j.mend) ∧ _ :=
    sent_of_carries h
  have hall : ∀ {l : List Json}, (∀ j ∈ l, Canonical fmt j.mend) →
      CanonicalElems fmt (l.map Json.mend) := fun hl =>
    canonicalElems_iff.mpr (List.forall_mem_map.mpr hl)
  -- the fields of the body, with those of the tools or without
  have hbody : ∃ rest, (chatBody model (buildMessagesJson fmt msgs) tools).mend =
      .obj ((utf8 "messages", .arr ((buildMessagesJson fmt msgs).map Json.mend)) ::
        (utf8 "model", .str model.mend) :: (utf8 "stream", .bool false) :: rest) ∧
      (rest = [] ∨ rest = [(utf8 "tools", .arr (tools.map Json.mend))]) := by
    have hfields : ∀ {rest rest'}, mendFields rest = rest' →
        Json.mend (.obj ((utf8 "messages", .arr (buildMessagesJson fmt msgs)) ::
          (utf8 "model", .str model) :: (utf8 "stream", .bool false) :: rest)) =
        .obj ((utf8 "messages", .arr ((buildMessagesJson fmt msgs).map Json.mend)) ::
          (utf8 "model", .str model.mend) :: (utf8 "stream", .bool false) :: rest') := by
      rintro rest _ rfl
      rw [mend_obj, mendFields_cons (by decide), mendFields_cons (by decide),
        mendFields_cons (by decide), mend_arr, mend_str]
      rfl
    unfold chatBody
    split
    · exact ⟨[], hfields rfl, .inl rfl⟩
    · refine ⟨[(utf8 "tools", .arr (tools.map Json.mend))], hfields ?_, .inr rfl⟩
      show mendFields [(utf8 "tools", .arr tools)] = _
      rw [mendFields_cons (by decide), mend_arr]
      rfl
  obtain ⟨rest, hbody, hrest⟩ := hbody
  have hnames : ([utf8 "messages", utf8 "model", utf8 "stream", utf8 "tools"] :
      List Bytes).Pairwise (· < ·) := by decide
  have hmend : Canonical fmt (chatBody model (buildMessagesJson fmt msgs) tools).mend := by
    rw [hbody]
    rcases hrest with rfl | rfl
    · exact ⟨⟨by decide, hall hcanonical, by decide, validUtf8_mend model, by decide, trivial,
        trivial⟩, hnames.sublist (List.sublist_append_left _ [utf8 "tools"])⟩
    · exact ⟨⟨by decide, hall hcanonical, by decide, validUtf8_mend model, by decide, trivial,
        by decide, hall htools, trivial⟩, hnames⟩
  rw [readText, parse_dumpReplace hmend, hbody]
  exact hread

/-- A request is read from its text as the messages it was made of. -/
theorem readText_requestText {r : ModelRequest} {api : List ApiMessage}
    (h : List.Forall₂ Carries (requestMessages now r) api)
    (htools : ∀ j ∈ r.tools, Canonical fmt j.mend) :
    readText fmt (requestText fmt model now r) = some api := by
  cases r with
  | complete prompt => exact readText_chatBody h htools
  | completeMessages msgs =>
    rw [requestText, requestBody, insertTime_eq]
    exact readText_chatBody h htools
  | completeWithTools round msgs tools =>
    rw [requestText, requestBody, insertTime_eq]
    exact readText_chatBody h htools

/-- **Every request of a run** is read as the messages it is made of, and accepted, as long as no
`clear` comes in the middle of a turn and no summary cuts inside a round. -/
theorem requests_accepted {agent : AgentController}
    {tr : List (Conversations × ConversationEvent)} {s : Conversations}
    (h : (completeConversations agent).Run tr s) (hagent : agent.SystemPrompts)
    (hkeeps : ∀ p ∈ tr, Conversations.KeepsRounds p.1 p.2) (fmt : FloatText) (model now : Bytes)
    {t : Conversations} {c : Bytes} {r : ModelRequest}
    (hev : (t, .perform c (.request r) ()) ∈ tr) (htools : ∀ j ∈ r.tools, Canonical fmt j.mend) :
    ∃ api, readText fmt (requestText fmt model now r) = some api ∧ Accepted api ∧
      List.Forall₂ Carries (requestMessages now r) api := by
  have hsends : SendsRounds (.request r) := sent_complete h hagent hkeeps hev
  -- the request of a summary has two texts; the others add the time in front
  have hrounds : Rounds CallIds (requestMessages now r) := by
    cases r with
    | complete prompt => exact .plain ⟨nofun, nofun⟩ (.plain ⟨nofun, nofun⟩ .nil)
    | completeMessages msgs => exact rounds_withTime now (hsends msgs rfl)
    | completeWithTools round msgs tools => exact rounds_withTime now (hsends msgs rfl)
  -- whole rounds are what the service accepts
  obtain ⟨api, haccepted, hcarries⟩ := accepted_of_rounds hrounds
  exact ⟨api, readText_requestText hcarries htools, haccepted, hcarries⟩

end Requests

/-! ### A run -/

open Conversations

/-- The second request of a turn with a tool call, which carries the call and its result. -/
def toolTurnRequest : ModelRequest :=
  .completeWithTools 1
    [{ role := .system, content := utf8 "当前时间: " }, { role := .user, content := utf8 "hi" },
      { role := .assistant,
        toolCallsJson := utf8 "[" ++ toolCallText ⟨utf8 "c1", utf8 "t", utf8 "1"⟩ ++ utf8 "]" },
      { role := .tool, content := utf8 "1", toolCallId := utf8 "c1" }]
    (buildToolsJson [[⟨utf8 "t", [], .null⟩]])

/-- `hi` of the user `v`, and the conversation. -/
def hiOfV : MessageEvent := { hiMessage with userOpenid := utf8 "v" }

theorem Conversations.StepsOf.keepsRounds {c : Bytes} {events : List (Prog.Event TurnSig World)}
    {steps : List (Conversations × ConversationEvent)} (h : StepsOf c events steps)
    (hcut : ∀ ev ∈ events, CutsBetweenRounds ev) : ∀ q ∈ steps, KeepsRounds q.1 q.2 := by
  intro q hq
  obtain ⟨ev, hev, hworld, heq⟩ := h.event q hq
  rw [heq]
  show CutsBetweenRounds ⟨q.1.world, ev.eff, ev.ans⟩
  rw [hworld]
  exact hcut ev hev

/-- Some run of the program has this event. -/
def CanPerform (w : World) (p : Turn TurnEnd) (e : TurnEff) (x : e.Ans) : Prop :=
  ∃ events w' r, Prog.Exec World.machine w p events w' r ∧ ∃ t, ⟨t, e, x⟩ ∈ events

theorem CanPerform.now {w : World} {e : TurnEff} {x : e.Ans} {k : e.Ans → Turn TurnEnd}
    (hx : w.Admits e x) : CanPerform w (.op e k) e x :=
  ⟨_, _, _, .op hx (Prog.exec_simulate (World.admits_answer { model := fun _ => .ok {} }) _ _),
    w, List.mem_cons_self⟩

theorem CanPerform.later {w : World} {e e' : TurnEff} {x : e.Ans} {x' : e'.Ans}
    {k : e.Ans → Turn TurnEnd} (hx : w.Admits e x) (h : CanPerform (w.next e x) (k x) e' x') :
    CanPerform w (.op e k) e' x' := by
  obtain ⟨events, w', r, hexec, t, ht⟩ := h
  exact ⟨_, w', r, .op hx hexec, t, List.mem_cons_of_mem _ ht⟩

/-- A turn that begins with a summary by the model. -/
theorem canPerform_summary {w : World} {message : MessageEvent} {l : List ChatMessage}
    (hload : w.store.load (conversationOf message) ++ [userMessage message] = l)
    (hbig : ¬ totalBytes l ≤ kMaxTotalBytes) :
    CanPerform w (processAgentMessage (plainAgent {}) message)
      (.commit (conversationOf message) l.length (.ok (utf8 "s"))) () := by
  let snap : Snapshot := ⟨l.length, summaryPrompt l⟩
  let w₁ := (w.next .countMessage ()).next (.append (conversationOf message) (userMessage message))
    ()
  -- with the new message the conversation is too long
  have hdue : some snap = takeSnapshot (w₁.store.load (conversationOf message)) := by
    rw [show w₁.store.load (conversationOf message) = l from hload ▸
      ListStore.load_appendMessage ..]
    exact (if_neg hbig).symm
  -- the turn goes on up to the commit of its summary
  refine CanPerform.later (e := .countMessage) (x := ()) trivial ?_
  refine CanPerform.later (e := .append _ (userMessage message)) (x := ()) trivial ?_
  refine CanPerform.later (e := .snapshot _) (x := some snap) hdue ?_
  refine CanPerform.later (e := .request _) (x := ()) trivial ?_
  refine CanPerform.later (e := .response _) (x := .ok { content := utf8 "s" }) trivial ?_
  exact CanPerform.now (e := .commit _ _ _) (x := ()) trivial

/-- `u ≠ v` -/
theorem conversationOf_hiOfV_ne : conversationOf hiOfV ≠ conversationOf hiMessage := by decide

/-- A store with one message of `v`. -/
def storeOfV (long : ChatMessage) : ListStore :=
  ListStore.empty.save (conversationOf hiOfV) [long]

theorem load_storeOfV (long : ChatMessage) :
    (storeOfV long).load (conversationOf hiOfV) = [long] :=
  ListStore.load_save ..

theorem load_storeOfV_of_ne {long : ChatMessage} {c : Bytes} (hc : c ≠ conversationOf hiOfV) :
    (storeOfV long).load c = [] :=
  ListStore.load_exec_ne ListStore.empty (.save (conversationOf hiOfV) [long]) hc

/-- While a turn of `v` waits, one of `u` that calls a tool runs to its end, and `u` is cleared. -/
theorem run_beside_waiting {long : ChatMessage} (hplain : Plain long) :
    ∃ tr s, (completeConversations (plainAgent {})).Run tr s ∧
      (∀ q ∈ tr, KeepsRounds q.1 q.2) ∧
      (∃ t q, (t, .clear clearMessage) ∈ tr ∧ t.current (conversationOf hiOfV) = some q) ∧
      (∃ t, (t, .perform (conversationOf hiMessage) (.request toolTurnRequest) ()) ∈ tr) ∧
      s.current (conversationOf hiOfV) = some (1, processAgentMessage (plainAgent {}) hiOfV) ∧
      s.world.store.load (conversationOf hiOfV) = [long] := by
  let agent := plainAgent {}
  let u := conversationOf hiMessage
  let v := conversationOf hiOfV
  let w : World := { store := storeOfV long }
  have hcomplete : w.Complete := by
    intro c
    show Rounds CallIds ((storeOfV long).load c)
    by_cases hc : c = v
    · rw [hc, load_storeOfV]
      exact .plain hplain .nil
    · rw [load_storeOfV_of_ne hc]
      exact .nil
  -- both turns begin
  have hrun := TransitionSystem.Run.start (A := completeConversations agent) (s := { world := w })
    ⟨⟨w, rfl⟩, hcomplete⟩
  have hrun := hrun.step (Step.enqueue (m := hiMessage) (by decide))
  have hrun := hrun.step (Step.enqueue (m := hiOfV) (by decide))
  have hrun := hrun.step (show Step agent _ (.start u) _ from .start rfl rfl)
  have hrun := hrun.step (show Step agent _ (.start v) _ from .start rfl rfl)
  -- the turn of `u`
  have hturn := exec_simulateTurn (toolScenario (utf8 "done") (utf8 "1")) agent hiMessage w
  obtain ⟨steps, s₁, p₁, hrun, hsteps, hworld, hcurrent, hover, hothers, -⟩ :=
    Conversations.run_exec rfl hrun (c := u) rfl hturn
  obtain ⟨ev, hev, t₀, rfl⟩ : ∃ ev, (simulateTurn (toolScenario (utf8 "done") (utf8 "1")) agent
      hiMessage w).1[13]? = some ev ∧ ∃ t, ev = ⟨t, .request toolTurnRequest, ()⟩ :=
        ⟨_, rfl, _, rfl⟩
  obtain ⟨t₁, ht₁⟩ := hsteps.step _ (List.mem_of_getElem? hev)
  have hrun := hrun.step (Step.finish hcurrent hover)
  have hquiet : (s₁.finish u).current (actorIdOf clearMessage) = none := current_finish s₁ u
  have hwaiting : (s₁.finish u).current v = some (1, processAgentMessage agent hiOfV) :=
    (Function.update_of_ne conversationOf_hiOfV_ne none s₁.current).trans
      (hothers v conversationOf_hiOfV_ne)
  have hrun := hrun.step (Step.clear (m := clearMessage) (by decide))
  have hload : ((s₁.finish u).clear clearMessage).world.store.load v = [long] := by
    have hclear : ((s₁.finish u).clear clearMessage).world.store.load v =
        s₁.world.store.load v :=
      ListStore.load_exec_ne s₁.world.store (.clearMessages (actorIdOf clearMessage))
        conversationOf_hiOfV_ne
    rw [hclear, hworld, load_of_turn hturn conversationOf_hiOfV_ne]
    exact load_storeOfV long
  -- where the turn may cut there are no tool results
  have hnoTool : ∀ m ∈ w.store.load u ++ [userMessage hiMessage], m.role ≠ .tool := by
    rw [show w.store.load u = [] from load_storeOfV_of_ne conversationOf_hiOfV_ne.symm]
    intro m hm
    rw [List.mem_singleton.mp hm]
    decide
  have hkeeps := hsteps.keepsRounds
    (cutsBetweenRounds_of_turn hturn (cutBetweenRounds_of_no_tool hnoTool))
  refine ⟨_, _, hrun, ?_, ⟨s₁.finish u, _, by simp, hwaiting⟩, ⟨t₁, ?_⟩, hwaiting, hload⟩
  · simp only [List.nil_append, List.forall_mem_append, List.forall_mem_singleton]
    exact ⟨⟨⟨⟨⟨⟨trivial, trivial⟩, trivial⟩, trivial⟩, hkeeps⟩, trivial⟩, hquiet⟩
  · simp only [List.mem_append]
    exact .inl (.inl (.inr ht₁))

/-- Behind that the turn of `v` makes a summary, as its conversation is too long. -/
theorem run_two_turns :
    ∃ tr s, (completeConversations (plainAgent {})).Run tr s ∧
      (∀ q ∈ tr, KeepsRounds q.1 q.2) ∧
      (∃ t q, (t, .clear clearMessage) ∈ tr ∧ t.current (conversationOf hiOfV) = some q) ∧
      (∃ t, (t, .perform (conversationOf hiOfV)
        (.commit (conversationOf hiOfV) 2 (.ok (utf8 "s"))) ()) ∈ tr) ∧
      ∃ t, (t, .perform (conversationOf hiMessage) (.request toolTurnRequest) ()) ∈ tr := by
  obtain ⟨text, hlong⟩ : ∃ text : Bytes, text.length = 70000 :=
    ⟨List.replicate 70000 97, List.length_replicate⟩
  let long : ChatMessage := { role := .user, content := text }
  have hplain : Plain long := by
    refine ⟨?_, ?_⟩
    · intro hrole
      cases hrole
    · intro hrole
      cases hrole
  obtain ⟨tr, s, hrun, hkeeps, ⟨t, q, hclear, hwaiting⟩, ⟨t₁, hsent⟩, hcurrent, hload⟩ :=
    run_beside_waiting hplain
  let l : List ChatMessage := [long, userMessage hiOfV]
  have hwhole : s.world.store.load (conversationOf hiOfV) ++ [userMessage hiOfV] = l := by
    rw [hload]
    rfl
  have hbig : ¬ totalBytes l ≤ kMaxTotalBytes := by
    rw [kMaxTotalBytes]
    simp only [l, long, totalBytes_cons, totalBytes_nil, hlong]
    omega
  obtain ⟨events, w', r, hexec, t₀, hcommit⟩ := canPerform_summary hwhole hbig
  obtain ⟨steps, s', p, hrun', hsteps, -⟩ := Conversations.run_exec rfl hrun hcurrent hexec
  obtain ⟨t₂, ht₂⟩ := hsteps.step _ hcommit
  have hnoTool : ∀ m ∈ s.world.store.load (conversationOf hiOfV) ++ [userMessage hiOfV],
      m.role ≠ .tool := by
    rw [hwhole]
    intro m hm
    rcases List.mem_cons.mp hm with rfl | hm
    · exact hplain.not_tool
    · rw [List.mem_singleton.mp hm]
      decide
  have hkeeps' := hsteps.keepsRounds
    (cutsBetweenRounds_of_turn hexec (cutBetweenRounds_of_no_tool hnoTool))
  exact ⟨_, s', hrun', List.forall_mem_append.mpr ⟨hkeeps, hkeeps'⟩,
    ⟨t, q, List.mem_append_left _ hclear, hwaiting⟩, ⟨t₂, List.mem_append_right _ ht₂⟩,
    ⟨t₁, List.mem_append_left _ hsent⟩⟩

/-- In that run the request of `u` with the result of its tool is accepted. -/
theorem toolTurn_request_accepted :
    ∃ tr s, (completeConversations (plainAgent {})).Run tr s ∧
      (∃ t q, (t, .clear clearMessage) ∈ tr ∧ t.current (conversationOf hiOfV) = some q) ∧
      (∃ t, (t, .perform (conversationOf hiOfV)
        (.commit (conversationOf hiOfV) 2 (.ok (utf8 "s"))) ()) ∈ tr) ∧
      (∃ t, (t, .perform (conversationOf hiMessage) (.request toolTurnRequest) ()) ∈ tr) ∧
      ∃ api, readText ⟨fun _ => [], fun _ => none⟩ (requestText ⟨fun _ => [], fun _ => none⟩
          (utf8 "deepseek-chat") (utf8 "2026-01-01 00:00:00") toolTurnRequest) = some api ∧
        Accepted api ∧
        List.Forall₂ Carries (requestMessages (utf8 "2026-01-01 00:00:00") toolTurnRequest)
          api := by
  obtain ⟨tr, s, hrun, hkeeps, hclear, hcommit, t, hsent⟩ := run_two_turns
  have htools : ∀ j ∈ toolTurnRequest.tools, Canonical ⟨fun _ => [], fun _ => none⟩ j.mend :=
    canonical_buildToolsJson fun td htd => by
      rw [List.mem_singleton.mp htd]
      trivial
  exact ⟨tr, s, hrun, hclear, hcommit, ⟨t, hsent⟩,
    requests_accepted hrun (fun _ hm => absurd hm List.not_mem_nil) hkeeps _ _ _ hsent htools⟩

end Aestival
