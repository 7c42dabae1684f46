import Aestival.Agent.McpResponses

/-!
# Whether a server survives the calls of its tools

A server that answers every request should stay connected, whatever the model asks it to do: each
call writes one request, gets the answer to this request, be it a result or an error, and leaves the
client connected (`ServerKept`).

`execute_tool` catches every exception alike and gives the server up. An error response arrives as
an exception, and so the first call that a tool refuses is the last one of the server. Arguments
that are not JSON make a line that is not JSON either, to which the server owes no answer.
`serverKept_iff` says what is left: every call must have JSON arguments and be answered with a
result that can be read.
-/

namespace Aestival

open Json McpClient

/-! ### What should hold -/

/-- The id of the request a call has written. -/
def requestId (r : CallRecord) : Option Int :=
  match r.written with
  | some (.document d) =>
    match d.json.find? (utf8 "id") with
    | some (.int id) => some id
    | _ => none
  | _ => none

/-- The text is the answer: the content of the result, or the error of the response. -/
def AnswersWith (cfg : McpConfig) (x : Exchange) (text : Bytes) : Prop :=
  match x.reply with
  | .result r => ∃ content, extractContent r.json = .ok content ∧ text = shownContent content
  | .error e => ∃ code message, serverError e.json = .server code message ∧
      text = cfg.failedText x.toolName (.server code message)

/-- What should hold of a call. -/
structure CallKept (cfg : McpConfig) (x : Exchange) (r : CallRecord) : Prop where
  /-- the line is a request with the name of the tool and arguments -/
  written : ∃ d params, r.written = some (.document d) ∧ (requestId r).isSome = true ∧
    d.json.find? (utf8 "method") = some (.str (utf8 "tools/call")) ∧
    d.json.find? (utf8 "params") = some params ∧
    params.find? (utf8 "name") = some (.str x.toolName) ∧
    (params.find? (utf8 "arguments")).isSome = true
  answered : ∃ text, r.ended = .returned text ∧ AnswersWith cfg x text
  connected : r.connected = true

/-- What should hold of the calls to a server, and that the ids of the requests are fresh. -/
structure ServerKept (cfg : McpConfig) (s : McpClient) (xs : List Exchange) : Prop where
  calls : List.Forall₂ (CallKept cfg) xs (s.executeTools cfg xs)
  fresh : (s.executeTools cfg xs).Pairwise fun r r' => requestId r ≠ requestId r'
  later : ∀ r ∈ s.executeTools cfg xs, ∀ id, requestId r = some id → s.nextId ≤ id

/-! ### When it does -/

/-- A block that can be read: an object whose type, if any, is a string, with a text if that is its
type. -/
def IsBlock (block : Json) : Prop :=
  block.isObject = true ∧ ∀ v, block.find? (utf8 "type") = some v →
    ∃ type, v = .str type ∧ (type = utf8 "text" → block.find? (utf8 "text") ≠ none)

/-- A result that can be read: an object with a content, whose blocks can be read. -/
def IsToolResult (result : Json) : Prop :=
  ∃ content, result.find? (utf8 "content") = some content ∧
    ∀ blocks, content = .arr blocks → ∀ block ∈ blocks, IsBlock block

/-- The call is unproblematic: its arguments are JSON, and it is answered with a result that can be
read. -/
def Exchange.Plain (x : Exchange) : Prop :=
  (∃ d, x.args = .document d) ∧ ∃ r, x.reply = .result r ∧ IsToolResult r.json

theorem blockText_ok_iff (block : Json) : (∃ t, blockText block = .ok t) ↔ IsBlock block := by
  unfold blockText IsBlock
  cases block with
  | obj fields =>
    cases htype : fields.lookup (utf8 "type") with
    -- no `type`: no text block, and nothing is read
    | none =>
      have hvalue : (Json.obj fields).value getStr (utf8 "type") [] = .ok [] := by
        simp only [value, htype]
      have hne : ([] : Bytes) ≠ utf8 "text" := by decide
      simp [hvalue, hne, find?, htype, isObject]
    | some v =>
      have hvalue : (Json.obj fields).value getStr (utf8 "type") [] = getStr v :=
        value_of_find? htype
      have hfind : (Json.obj fields).find? (utf8 "type") = some v := htype
      cases v with
      | str type =>
        simp only [hvalue, getStr, hfind, isObject, true_and]
        -- a text block needs a text that is a string
        by_cases htext : type = utf8 "text"
        · simp only [htext, if_true]
          cases (Json.obj fields).find? (utf8 "text") with
          | none => simp
          | some t => cases t <;> simp
        · simp [htext]
      | _ => simp [hvalue, getStr, hfind]
  | _ => simp [value, isObject]

/-- Reading blocks fails exactly if one of them cannot be read. -/
theorem mapM_blockText_ok_iff (blocks : List Json) :
    (∃ texts, blocks.mapM blockText = .ok texts) ↔ ∀ block ∈ blocks, IsBlock block := by
  induction blocks with
  | nil => simp [pure, Except.pure]
  | cons block blocks ih =>
    rw [List.forall_mem_cons, ← ih, ← blockText_ok_iff, List.mapM_cons]
    -- the first block that cannot be read ends it
    cases blockText block with
    | error e => simp [bind, Except.bind]
    | ok t =>
      cases blocks.mapM blockText with
      | error e => simp [bind, Except.bind]
      | ok texts => simp [bind, Except.bind, pure, Except.pure]

theorem extractContent_ok_iff (result : Json) :
    (∃ content, extractContent result = .ok content) ↔ IsToolResult result := by
  unfold extractContent IsToolResult
  cases result with
  | obj fields =>
    simp only [isObject, if_true]
    cases (Json.obj fields).find? (utf8 "content") with
    | none => simp
    | some content =>
      cases content with
      | arr blocks =>
        have hmap : (∃ content, (blocks.mapM blockText).map List.flatten = .ok content) ↔
            ∃ texts, blocks.mapM blockText = .ok texts := by
          cases blocks.mapM blockText <;> simp [Except.map]
        simp only [hmap, mapM_blockText_ok_iff, Option.some.injEq]
        simp
      | _ => simp
  | _ => simp [isObject, find?]

/-! ### One call -/

section Call

variable (cfg : McpConfig) (id : Int) {x : Exchange}

/-- The request of a call with JSON arguments can be written. -/
theorem validUtf8_toolsCall {toolName : Bytes} (hname : toolName.validUtf8 = true) (d : Document) :
    (toolsCall id toolName d.json).validUtf8 = true := by
  have hkeys : (utf8 "id").validUtf8 ∧ (utf8 "jsonrpc").validUtf8 ∧ (utf8 "2.0").validUtf8 ∧
      (utf8 "method").validUtf8 ∧ (utf8 "tools/call").validUtf8 ∧ (utf8 "params").validUtf8 ∧
      (utf8 "arguments").validUtf8 ∧ (utf8 "name").validUtf8 := by decide
  simp [toolsCall, toolsCallParams, validUtf8, validFields, hkeys, hname, d.utf8]

/-- So can the message with the answer. -/
theorem validUtf8_message (reply : McpReply) : (reply.message (.int id)).validUtf8 = true := by
  have hkeys : (utf8 "id").validUtf8 ∧ (utf8 "jsonrpc").validUtf8 ∧ (utf8 "2.0").validUtf8 ∧
      (utf8 "result").validUtf8 ∧ (utf8 "error").validUtf8 := by decide
  cases reply with
  | result r => simp [McpReply.message, validUtf8, validFields, hkeys, r.utf8]
  | error e => simp [McpReply.message, validUtf8, validFields, hkeys, e.utf8]

/-- The response to the request is the one that is read, and nothing is left over. -/
theorem readResponse_reply (reply : McpReply) (h : (reply.message (.int id)).validUtf8 = true) :
    readResponse (.ofInt id) [.text (.document ⟨reply.message (.int id), h⟩)] =
      (match reply with
        | .result r => .ok r
        | .error e => .error (serverError e.json), []) := by
  cases reply with
  | result r =>
    have herror : (McpReply.message (.int id) (.result r)).find? (utf8 "error") = none := rfl
    have hid : (McpReply.message (.int id) (.result r)).value getInt64 (utf8 "id") (-1) =
        .ok (.ofInt id) := rfl
    have hresult : (McpReply.message (.int id) (.result r)).find? (utf8 "result") =
        some r.json := rfl
    simp [readResponse, readLine, checkMessage, herror, hid, hresult, dump_of_valid r.utf8]
  | error e =>
    have herror : (McpReply.message (.int id) (.error e)).find? (utf8 "error") =
        some e.json := rfl
    simp [readResponse, readLine, checkMessage, herror]

/-- The record of a call with JSON arguments, from a pipe where nothing waits. -/
theorem executeTool_of_document {d : Document} (hargs : x.args = .document d) :
    ∃ line, line.json = toolsCall id x.toolName d.json ∧
      McpClient.executeTool cfg ⟨true, id, []⟩ x =
        match x.reply with
        | .error e => (⟨some (.document line),
            .returned (cfg.failedText x.toolName (serverError e.json)), false⟩, ⟨false, id + 1, []⟩)
        | .result r =>
          match extractContent r.json with
          | .error (.thrown e) => (⟨some (.document line),
              .returned (cfg.failedText x.toolName (.json e)), false⟩, ⟨false, id + 1, []⟩)
          | .error .undefined => (⟨some (.document line), .undefined, true⟩, ⟨true, id + 1, []⟩)
          | .ok content => (⟨some (.document line),
              .returned (shownContent content), true⟩, ⟨true, id + 1, []⟩) := by
  have hvalid := validUtf8_toolsCall id x.validName d
  have hline : toolsCallLine id x.toolName x.args = .ok (.document ⟨_, hvalid⟩) := by
    rw [hargs, toolsCallLine, dump_of_valid hvalid]
  -- the server finds its request in the line, and answers under the same id
  have hlines : x.serverLines (.document ⟨_, hvalid⟩) =
      [.text (.document ⟨x.reply.message (.int id), validUtf8_message id x.reply⟩)] := by
    have hid : (toolsCall id x.toolName d.json).find? (utf8 "id") = some (.int id) := rfl
    rw [Exchange.serverLines, hid, Option.bind_some, dump_of_valid (validUtf8_message id x.reply)]
  refine ⟨⟨_, hvalid⟩, rfl, ?_⟩
  rw [McpClient.executeTool, if_pos rfl]
  simp only [hline, List.nil_append, hlines, readResponse_reply]
  cases x.reply <;> rfl

/-- An unproblematic call writes a request under the next id, gets its answer, and leaves the
client as it was. -/
theorem executeTool_of_plain (h : x.Plain) :
    CallKept cfg x (McpClient.executeTool cfg ⟨true, id, []⟩ x).1 ∧
      requestId (McpClient.executeTool cfg ⟨true, id, []⟩ x).1 = some id ∧
      (McpClient.executeTool cfg ⟨true, id, []⟩ x).2 = ⟨true, id + 1, []⟩ := by
  obtain ⟨⟨d, hargs⟩, r, hreply, hresult⟩ := h
  obtain ⟨content, hcontent⟩ := (extractContent_ok_iff r.json).mpr hresult
  -- the request is written with the next id
  obtain ⟨line, hline, hcall⟩ := executeTool_of_document cfg id hargs
  rw [hreply] at hcall
  simp only [hcontent] at hcall
  rw [hcall]
  -- which is the id of its trade
  have hid : requestId ⟨some (.document line), .returned (shownContent content), true⟩ =
      some id := by
    simp only [requestId, hline]
    rfl
  refine ⟨⟨?_, ?_, rfl⟩, hid, rfl⟩
  · refine ⟨line, toolsCallParams x.toolName d.json, rfl, by rw [hid]; rfl, ?_, ?_, rfl, rfl⟩
    · rw [hline]
      rfl
    · rw [hline]
      rfl
  · refine ⟨_, rfl, ?_⟩
    simp only [AnswersWith, hreply]
    exact ⟨content, hcontent, rfl⟩

/-- Any other call fails in one of the respects. -/
theorem not_callKept_of_not_plain (h : ¬ x.Plain) :
    ¬ CallKept cfg x (McpClient.executeTool cfg ⟨true, id, []⟩ x).1 := by
  intro hkept
  cases hargs : x.args with
  | malformed =>
    -- the line is not JSON
    obtain ⟨d, params, hwritten, -⟩ := hkept.written
    have hline : toolsCallLine id x.toolName x.args = .ok .malformed := by rw [hargs]; rfl
    rw [McpClient.executeTool, if_pos rfl] at hwritten
    simp only [hline] at hwritten
    split at hwritten
    · simp at hwritten
    · split at hwritten <;> simp at hwritten
  | document d =>
    obtain ⟨line, -, hcall⟩ := executeTool_of_document cfg id hargs
    -- an error response disconnects the client
    cases hreply : x.reply with
    | error e =>
      rw [hreply] at hcall
      have hconnected := hkept.connected
      rw [hcall] at hconnected
      exact Bool.false_ne_true hconnected
    | result r =>
      rw [hreply] at hcall
      cases hcontent : extractContent r.json with
      | ok content =>
        exact h ⟨⟨d, hargs⟩, r, hreply, (extractContent_ok_iff r.json).mp ⟨content, hcontent⟩⟩
      | error e =>
        cases e with
        -- a result that cannot be read disconnects it too
        | thrown e =>
          simp only [hcontent] at hcall
          have hconnected := hkept.connected
          rw [hcall] at hconnected
          exact Bool.false_ne_true hconnected
        -- a constant object is read at a member it does not have
        | undefined =>
          simp only [hcontent] at hcall
          obtain ⟨text, hended, -⟩ := hkept.answered
          rw [hcall] at hended
          cases hended

end Call

/-! ### All calls -/

/-- Unproblematic calls, from a pipe where nothing waits. -/
theorem executeTools_of_plain (cfg : McpConfig) (id : Int) {xs : List Exchange}
    (h : ∀ x ∈ xs, x.Plain) :
    List.Forall₂ (CallKept cfg) xs (McpClient.executeTools cfg ⟨true, id, []⟩ xs) ∧
      (McpClient.executeTools cfg ⟨true, id, []⟩ xs).Pairwise
        (fun r r' => requestId r ≠ requestId r') ∧
      ∀ r ∈ McpClient.executeTools cfg ⟨true, id, []⟩ xs, ∀ n, requestId r = some n → id ≤ n := by
  -- each call leaves the client as it was, but for the next id
  induction xs generalizing id with
  | nil => exact ⟨.nil, .nil, fun r hr => absurd hr List.not_mem_nil⟩
  | cons x xs ih =>
    obtain ⟨hkept, hid, hnext⟩ := executeTool_of_plain cfg id (h x (List.mem_cons_self ..))
    obtain ⟨hcalls, hfresh, hlater⟩ := ih (id + 1) fun y hy => h y (List.mem_cons_of_mem _ hy)
    rw [McpClient.executeTools, hnext]
    refine ⟨.cons hkept hcalls, List.pairwise_cons.mpr ⟨?_, hfresh⟩, ?_⟩
    · -- the later requests have later ids
      intro r hr heq
      have := hlater r hr id (heq ▸ hid)
      omega
    · intro r hr n hn
      rcases List.mem_cons.mp hr with rfl | hr
      · rw [hid] at hn
        exact (Option.some.inj hn).le
      · have := hlater r hr n hn
        omega

/-- **When a server survives.** The calls are all kept exactly if each of them has JSON arguments
and is answered with a result that can be read. -/
theorem serverKept_iff (cfg : McpConfig) (id : Int) (xs : List Exchange) :
    ServerKept cfg ⟨true, id, []⟩ xs ↔ ∀ x ∈ xs, x.Plain := by
  constructor
  · intro h
    have hcalls := h.calls
    -- induction on the calls; each one that is kept leaves the client as it was
    clear h
    induction xs generalizing id with
    | nil => exact fun x hx => absurd hx List.not_mem_nil
    | cons x xs ih =>
      rw [McpClient.executeTools, List.forall₂_cons] at hcalls
      have hplain : x.Plain := by
        by_contra hnot
        exact not_callKept_of_not_plain cfg id hnot hcalls.1
      have hrest := hcalls.2
      rw [(executeTool_of_plain cfg id hplain).2.2] at hrest
      exact List.forall_mem_cons.mpr ⟨hplain, ih (id + 1) hrest⟩
  · intro h
    obtain ⟨hcalls, hfresh, hlater⟩ := executeTools_of_plain cfg id h
    exact ⟨hcalls, hfresh, hlater⟩

/-- **A refused call takes the server away.** The tool answers with an error. -/
theorem error_response_disconnects :
    ¬ ∀ (cfg : McpConfig) (id : Int) (xs : List Exchange), ServerKept cfg ⟨true, id, []⟩ xs := by
  intro h
  let refused : Exchange :=
    { toolName := utf8 "search", validName := by decide, args := .document ⟨.obj [], rfl⟩
      reply := .error ⟨.obj [(utf8 "code", .int (-32602))], by decide +kernel⟩ }
  have hplain := (serverKept_iff ⟨utf8 "web", fun _ => [], []⟩ 3 [refused]).mp (h _ _ _) refused
    (List.mem_singleton_self _)
  obtain ⟨-, r, hreply, -⟩ := hplain
  exact absurd hreply (by simp [refused])

end Aestival
