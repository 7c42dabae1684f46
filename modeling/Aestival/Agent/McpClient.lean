import Aestival.Library.Json
import Mathlib.Data.Rat.Lemmas
import Mathlib.Tactic.Linarith

/-!
# The client of an MCP server

`mcp_client` speaks JSON-RPC with a server it has launched, one message a line. It writes a request
to the server's input and reads the merged output and error streams of the server until the response
comes (`readResponse`). `execute_tool` is a `tools/call` request; whatever goes wrong in it is
caught, and the client counts as disconnected from then on.

Nothing times out here. Where no line comes any more, the pipe has ended, which the reader cannot
tell from a server that is silent for too long.
-/

namespace Aestival

open Json

/-! ### Lines and exceptions -/

/-- A line of the server's output, without its end. A line of blanks is a text that is not JSON. -/
inductive PipeLine where
  | empty
  | text (t : Json.Text)

/-- What an exception of the client says. -/
inductive McpError where
  | connectionLost (expectedId : Int64)
  | server (code : Int32) (message : Bytes)
  | json (e : AccessError)
  /-- the writer has met a string that is not UTF-8 -/
  | notUtf8
  deriving DecidableEq, Repr

namespace McpClient

/-- `read_line`, given the line that comes. An empty one is taken for the end of the connection. -/
def readLine : PipeLine → Option Json.Text
  | .empty => none
  | .text t => some t

/-! ### Responses -/

/-- The error of a response, as the exception that is thrown for it. -/
def serverError (err : Json) : McpError :=
  match err.value getInt32 (utf8 "code") 0 with
  | .error e => .json e
  | .ok code =>
    match err.value getStr (utf8 "message") (utf8 "unknown error") with
    | .error e => .json e
    | .ok message => .server code message

/-- What `read_response` does with a message: it throws, or returns the text of the result, or goes
on. -/
def checkMessage (expectedId : Int64) (msg : Json) : Except McpError (Option Document) :=
  match msg.find? (utf8 "error") with
  -- an error ends the search, whatever id it has
  | some err => .error (serverError err)
  | none =>
    match msg.value getInt64 (utf8 "id") (-1) with
    | .error e => .error (.json e)
    | .ok id =>
      if id = expectedId then
        match msg.find? (utf8 "result") with
        | some result =>
          match result.dump with
          | some d => .ok (some d)
          | none => .error .notUtf8
        -- the id is there without a result: the search goes on
        | none => .ok none
      else .ok none

/-- `read_response`, given the lines that come. The result, and the lines that are left. -/
def readResponse (expectedId : Int64) : List PipeLine → Except McpError Document × List PipeLine
  | [] => (.error (.connectionLost expectedId), [])
  | line :: rest =>
    match readLine line with
    | none => (.error (.connectionLost expectedId), rest)
    | some .malformed => readResponse expectedId rest
    | some (.document msg) =>
      match checkMessage expectedId msg.json with
      | .error e => (.error e, rest)
      | .ok (some result) => (.ok result, rest)
      | .ok none => readResponse expectedId rest

/-! ### Results of tools -/

/-- Why a result cannot be read: an exception, or a look at a member that is not there, which in a
constant object is undefined. -/
inductive ContentError where
  | thrown (e : AccessError)
  | undefined
  deriving DecidableEq, Repr

/-- The text of a block of the content. -/
def blockText (block : Json) : Except ContentError Bytes :=
  match block.value getStr (utf8 "type") [] with
  | .error e => .error (.thrown e)
  | .ok type =>
    if type = utf8 "text" then
      match block.find? (utf8 "text") with
      | none => .error .undefined
      | some (.str t) => .ok t
      | some _ => .ok []
    else .ok []

/-- `extract_content`. -/
def extractContent (result : Json) : Except ContentError Bytes :=
  if result.isObject then
    match result.find? (utf8 "content") with
    | none => .error .undefined
    | some (.arr blocks) => (blocks.mapM blockText).map List.flatten
    | some _ => .ok []
  else .error (.thrown .wrongType)

def kMaxToolContent : Nat := 8000

/-- `truncate_utf8`: cut at the last line end, if it is in the second half, or else behind the last
octet that starts a character. -/
def truncateUtf8 (s : Bytes) (maxLen : Nat) : Bytes :=
  if s.length ≤ maxLen then s
  else
    let cut := s.take maxLen
    let beforeLine := (cut.reverse.dropWhile (· ≠ 10)).drop 1
    if beforeLine.length > maxLen / 2 then beforeLine.reverse ++ utf8 "\n..."
    else (cut.reverse.dropWhile fun c => 0x80 ≤ c && c < 0xC0).reverse ++ utf8 "..."

/-- What the agent gets of a content. -/
def shownContent (content : Bytes) : Bytes :=
  if content = [] then utf8 "(tool returned no content)" else truncateUtf8 content kMaxToolContent

end McpClient

/-! ### Calls of tools -/

open McpClient

/-- The name of the server in the configuration, and the texts of the JSON library's exceptions. -/
structure McpConfig where
  name : Bytes
  accessText : AccessError → Bytes
  utf8Text : Bytes

/-- `what` of an exception. -/
def McpConfig.what (cfg : McpConfig) : McpError → Bytes
  | .connectionLost expectedId => utf8 "[mcp:" ++ cfg.name ++
      utf8 "] connection lost while waiting for id=" ++ utf8 (toString expectedId)
  | .server code message =>
    utf8 "[mcp:" ++ cfg.name ++ utf8 "] error " ++ utf8 (toString code) ++ utf8 ": " ++ message
  | .json e => cfg.accessText e
  | .notUtf8 => cfg.utf8Text

/-- `mcp_client`: whether it counts as connected, the id of its next request, and the lines that
wait in the pipe. Fewer than 2^63 requests are made. -/
structure McpClient where
  connected : Bool
  nextId : Int
  pipe : List PipeLine

/-- The answer to a request. -/
inductive McpReply where
  | result (r : Document)
  | error (e : Document)

/-- A call of a tool, and what the server has to say to it: its answer, and what it does about a
line that is not JSON. The name is one of `tools/list`, so it can be written; the arguments are what
`nlohmann::json::parse` has made of the text of the model. -/
structure Exchange where
  toolName : Bytes
  validName : toolName.validUtf8 = true
  args : Json.Text
  reply : McpReply
  stray : List PipeLine := []

/-- The parameters of a call. -/
def toolsCallParams (toolName : Bytes) (args : Json) : Json :=
  .obj [(utf8 "arguments", args), (utf8 "name", .str toolName)]

/-- The request of a call with these arguments. -/
def toolsCall (id : Int) (toolName : Bytes) (args : Json) : Json :=
  .obj [(utf8 "id", .int id), (utf8 "jsonrpc", .str (utf8 "2.0")),
    (utf8 "method", .str (utf8 "tools/call")), (utf8 "params", toolsCallParams toolName args)]

/-- The line of a call. Arguments that are not JSON are a discarded value, for which the writer
writes `<discarded>`. -/
def toolsCallLine (id : Int) (toolName : Bytes) : Json.Text → Except McpError Json.Text
  | .malformed => .ok .malformed
  | .document args =>
    match (toolsCall id toolName args.json).dump with
    | some d => .ok (.document d)
    | none => .error .notUtf8

/-- The message with an answer. -/
def McpReply.message (id : Json) : McpReply → Json
  | .result r => .obj [(utf8 "id", id), (utf8 "jsonrpc", .str (utf8 "2.0")),
    (utf8 "result", r.json)]
  | .error e => .obj [(utf8 "error", e.json), (utf8 "id", id), (utf8 "jsonrpc", .str (utf8 "2.0"))]

/-- What the server writes for a line: the answer to a request, under the id of the request. -/
def Exchange.serverLines (x : Exchange) : Json.Text → List PipeLine
  | .malformed => x.stray
  | .document request =>
    match (request.json.find? (utf8 "id")).bind fun id => (x.reply.message id).dump with
    | some d => [.text (.document d)]
    | none => []

/-- How a call ends. -/
inductive CallEnd where
  | returned (text : Bytes)
  | undefined
  deriving DecidableEq, Repr

/-- A call as it is seen from outside: the line that was written, if any, how it has ended, and what
`connected` says afterwards. -/
structure CallRecord where
  written : Option Json.Text
  ended : CallEnd
  connected : Bool

/-- The text of a call that has failed. -/
def McpConfig.failedText (cfg : McpConfig) (toolName : Bytes) (e : McpError) : Bytes :=
  utf8 "Error: MCP tool '" ++ toolName ++ utf8 "' failed: " ++ cfg.what e

/-- `execute_tool`. -/
def McpClient.executeTool (cfg : McpConfig) (s : McpClient) (x : Exchange) :
    CallRecord × McpClient :=
  if s.connected then
    match toolsCallLine s.nextId x.toolName x.args with
    -- every failure leaves the client unconnected
    | .error e =>
      (⟨none, .returned (cfg.failedText x.toolName e), false⟩,
        { s with connected := false, nextId := s.nextId + 1 })
    | .ok line =>
      let (response, pipe) := readResponse (.ofInt s.nextId) (s.pipe ++ x.serverLines line)
      match response with
      | .error e =>
        (⟨some line, .returned (cfg.failedText x.toolName e), false⟩,
          { connected := false, nextId := s.nextId + 1, pipe })
      | .ok result =>
        match extractContent result.json with
        | .error (.thrown e) =>
          (⟨some line, .returned (cfg.failedText x.toolName (.json e)), false⟩,
            { connected := false, nextId := s.nextId + 1, pipe })
        -- `operator[]` of a constant object without the key: nothing is known of the call
        | .error .undefined =>
          (⟨some line, .undefined, true⟩, { connected := true, nextId := s.nextId + 1, pipe })
        | .ok content =>
          (⟨some line, .returned (shownContent content), true⟩,
            { connected := true, nextId := s.nextId + 1, pipe })
  else
    (⟨none, .returned (utf8 "Error: MCP server '" ++ cfg.name ++ utf8 "' is not connected"),
      false⟩, s)

/-- The calls one after the other. -/
def McpClient.executeTools (cfg : McpConfig) (s : McpClient) : List Exchange → List CallRecord
  | [] => []
  | x :: xs => (s.executeTool cfg x).1 :: (s.executeTool cfg x).2.executeTools cfg xs

end Aestival
