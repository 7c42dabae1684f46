import Aestival.Agent.Effects
import Aestival.Agent.McpClient

/-!
# The session with an MCP server

An `mcp_client` launches its server, performs the handshake in its constructor, and from then on
calls tools. The calls of one response of the model run side by side and share the pipes of the
server. A request has `io_mutex_` while it writes its line and reads on until its response comes;
`connected_` is looked at before and cleared afterwards, without the lock.

The client is a program here. The lines that come from the server are the answers to `.readLine`,
whatever they are, and `.deadline` is answered with the number of lines that can be read before
`call_timeout` is over. Next to the members of the client the world keeps a record of the pipes
(`Pipes`), one `Trade` for each line that was written, with the lines that were read for it.
-/

namespace Aestival

open Json McpClient

/-! ### Effects -/

inductive McpEff where
  | launch
  | terminate
  | lock
  | unlock
  /-- `next_id_++` -/
  | takeId
  | write (line : Json.Text)
  | deadline
  /-- `read_line`; an empty line stands for everything it throws for -/
  | readLine
  | isConnected
  | setConnected (connected : Bool)

/-- A line that could not be written is answered with the reason. -/
abbrev McpEff.Ans : McpEff → Type
  | .launch => Bool
  | .takeId => Int
  | .write _ => Option Bytes
  | .deadline => Nat
  | .readLine => PipeLine
  | .isConnected => Bool
  | _ => Unit

abbrev McpSig : Signature := ⟨McpEff, McpEff.Ans⟩

/-- What an exception of a session says. -/
inductive McpFailure where
  | reader (e : McpError)
  | responseTimeout (expectedId : Int64)
  | writeFailed (why : Bytes)

/-- `what` of an exception. -/
def McpConfig.whatFailure (cfg : McpConfig) : McpFailure → Bytes
  | .reader e => cfg.what e
  | .responseTimeout expectedId => utf8 "[mcp:" ++ cfg.name ++
      utf8 "] response timeout for id=" ++ utf8 (toString expectedId)
  | .writeFailed why => utf8 "[mcp:" ++ cfg.name ++ utf8 "] write failed: " ++ why

abbrev Mcp (α : Type) := Prog McpSig McpFailure α

namespace McpSession

def doing (e : McpEff) : Mcp (e.Ans) := Prog.perform (S := McpSig) e

/-- What the JSON library throws. -/
def access {α : Type} : Except AccessError α → Mcp α
  | .error e => .throw (.reader (.json e))
  | .ok a => pure a

/-- `std::lock_guard`: the lock is given back however the scope is left. -/
def withLock {α : Type} (p : Mcp α) : Mcp α := do
  let _ : Unit ← doing .lock
  let a ← p.tryCatch fun e => do
    let _ : Unit ← doing .unlock
    .throw e
  let _ : Unit ← doing .unlock
  pure a

/-! ### Requests -/

/-- `write_line`. -/
def writeLine (line : Json.Text) : Mcp Unit := do
  let failed : Option Bytes ← doing (.write line)
  match failed with
  | none => pure ()
  | some why => .throw (.writeFailed why)

/-- `read_response`, while there is time for so many lines. -/
def receive (expectedId : Int64) : Nat → Mcp Document
  | 0 => .throw (.responseTimeout expectedId)
  | n + 1 => do
    let line : PipeLine ← doing .readLine
    match readLine line with
    | none => .throw (.reader (.connectionLost expectedId))
    -- lines that are no JSON are skipped
    | some .malformed => receive expectedId n
    | some (.document msg) =>
      match checkMessage expectedId msg.json with
      | .error e => .throw (.reader e)
      | .ok (some result) => pure result
      | .ok none => receive expectedId n

/-- `send_request`, for a request that becomes a line once it has its id. -/
def sendRequest (line : Int → Except McpError Json.Text) : Mcp Document :=
  withLock do
    let id : Int ← doing .takeId
    match line id with
    | .error e => .throw (.reader e)
    | .ok text => do
      writeLine text
      let lines : Nat ← doing .deadline
      receive (.ofInt id) lines

/-- A notification. -/
def notification (method : Bytes) (params : Json) : Json :=
  .obj [(utf8 "jsonrpc", .str (utf8 "2.0")), (utf8 "method", .str method), (utf8 "params", params)]

/-- `send_notification`. -/
def sendNotification (method : Bytes) (params : Json) : Mcp Unit :=
  withLock do
    match (notification method params).dump with
    | none => .throw (.reader .notUtf8)
    | some d => writeLine (.document d)

/-- A request. -/
def request (method : Bytes) (params : Json) (id : Int) : Json :=
  .obj [(utf8 "id", .int id), (utf8 "jsonrpc", .str (utf8 "2.0")), (utf8 "method", .str method),
    (utf8 "params", params)]

/-- The line of a request. -/
def requestLine (method : Bytes) (params : Json) (id : Int) : Except McpError Json.Text :=
  match (request method params id).dump with
  | some d => .ok (.document d)
  | none => .error .notUtf8

/-! ### The handshake -/

def initParams : Json :=
  .obj [(utf8 "capabilities", .obj []),
    (utf8 "clientInfo",
      .obj [(utf8 "name", .str (utf8 "aestival")), (utf8 "version", .str (utf8 "1.0.0"))]),
    (utf8 "protocolVersion", .str (utf8 "2024-11-05"))]

/-- `server_name_` and `server_version_`, from the result of `initialize`. -/
def serverInfo (cfg : McpConfig) (initResult : Json) : Except AccessError (Bytes × Bytes) := do
  let info ← initResult.value .ok (utf8 "serverInfo") (.obj [])
  let name ← info.value getStr (utf8 "name") cfg.name
  let version ← info.value getStr (utf8 "version") (utf8 "unknown")
  pure (name, version)

/-- The schema of a tool that has none. -/
def noParameters : Json := .obj [(utf8 "properties", .obj []), (utf8 "type", .str (utf8 "object"))]

/-- `convert_tool`. -/
def convertTool (mcpTool : Json) : Except AccessError ToolDefinition := do
  let name ← mcpTool.value getStr (utf8 "name") []
  let description ← mcpTool.value getStr (utf8 "description") []
  pure { name, description, parameters := (mcpTool.find? (utf8 "inputSchema")).getD noParameters }

/-- The tools of the result of `tools/list`. What is no array counts as none; a result of another
type than object and null has no members. -/
def listedTools (toolsResult : Json) : Except AccessError (List ToolDefinition) :=
  match toolsResult with
  | .obj _ | .null =>
    match toolsResult.find? (utf8 "tools") with
    | some (.arr tools) => tools.mapM convertTool
    | _ => .ok []
  | _ => .error .wrongType

/-- What the client knows of its server. -/
structure Server where
  name : Bytes
  version : Bytes
  tools : List ToolDefinition

/-- `perform_handshake`. -/
def performHandshake (cfg : McpConfig) : Mcp (Option Server) :=
  Prog.tryCatch (do
    let initResult ← sendRequest (requestLine (utf8 "initialize") initParams)
    let (name, version) ← access (serverInfo cfg initResult.json)
    sendNotification (utf8 "notifications/initialized") (.obj [])
    let toolsResult ← sendRequest (requestLine (utf8 "tools/list") (.obj []))
    let tools ← access (listedTools toolsResult.json)
    pure (some { name, version, tools })) fun _ => pure none

/-- The constructor of `mcp_client`. -/
def construct (cfg : McpConfig) : Mcp (Option Server) := do
  let launched : Bool ← doing .launch
  if launched then
    let server ← performHandshake cfg
    match server with
    | some server =>
      let _ : Unit ← doing (.setConnected true)
      pure (some server)
    -- a handshake that fails ends the process
    | none =>
      let _ : Unit ← doing .terminate
      pure none
  else
    pure none

/-! ### Calls of tools -/

/-- A call the tool loop makes. -/
structure ToolRequest where
  toolName : Bytes
  args : Json.Text

/-- The line of the call. -/
def ToolRequest.line (call : ToolRequest) (id : Int) : Except McpError Json.Text :=
  toolsCallLine id call.toolName call.args

/-- What the result of a call becomes. -/
def endOf (result : Document) : Mcp CallEnd :=
  match extractContent result.json with
  | .error (.thrown e) => .throw (.reader (.json e))
  | .error .undefined => pure .undefined
  | .ok content => pure (.returned (shownContent content))

/-- The text of a call to a server that is not connected. -/
def notConnected (cfg : McpConfig) : Bytes :=
  utf8 "Error: MCP server '" ++ cfg.name ++ utf8 "' is not connected"

/-- The text of a call that has failed. -/
def failedText (cfg : McpConfig) (toolName : Bytes) (e : McpFailure) : Bytes :=
  utf8 "Error: MCP tool '" ++ toolName ++ utf8 "' failed: " ++ cfg.whatFailure e

/-- `execute_tool`. -/
def executeTool (cfg : McpConfig) (call : ToolRequest) : Mcp CallEnd := do
  let connected : Bool ← doing .isConnected
  if connected then
    Prog.tryCatch (do
      let result ← sendRequest call.line
      endOf result) fun e => do
        let _ : Unit ← doing (.setConnected false)
        pure (.returned (failedText cfg call.toolName e))
  else
    pure (.returned (notConnected cfg))

/-! ### The pipes -/

/-- A line that was written, and the lines that were read for it. -/
structure Trade where
  line : Json.Text
  read : List PipeLine

/-- The id of a request. -/
def idOf (msg : Json) : Option Int :=
  match msg.find? (utf8 "id") with
  | some (.int id) => some id
  | _ => none

/-- The id of the request, if it is one. -/
def Trade.requestId (t : Trade) : Option Int :=
  match t.line with
  | .malformed => none
  | .document d => idOf d.json

def Trade.reads (t : Trade) (line : PipeLine) : Trade := { t with read := t.read ++ [line] }

/-- A record of the use of the pipes: whether they are locked, the id that was taken since, the
trade that is under way, and the ones that are over. -/
structure Pipes where
  locked : Bool := false
  id : Option Int := none
  current : Option Trade := none
  log : List Trade := []

def Pipes.next (p : Pipes) : (e : McpEff) → e.Ans → Pipes
  | .lock, _ => { p with locked := true }
  | .unlock, _ => { log := p.log ++ p.current.toList }
  | .takeId, id => { p with id := some id }
  | .write line, none => { p with current := some ⟨line, []⟩ }
  | .readLine, line => { p with current := p.current.map (·.reads line) }
  | _, _ => p

/-- What a program does with the pipes, whatever is answered. -/
def Pipes.machine : Machine McpSig Pipes where
  admits := fun _ _ _ => True
  next := Pipes.next

/-- The members of the client, and the record of its pipes. -/
structure World where
  connected : Bool := false
  nextId : Int := 1
  pipes : Pipes := {}

def World.next (w : World) (e : McpEff) (x : e.Ans) : World where
  connected :=
    match e with
    | .setConnected connected => connected
    | _ => w.connected
  nextId :=
    match e with
    | .takeId => w.nextId + 1
    | _ => w.nextId
  pipes := w.pipes.next e x

/-- The client with a server that writes whatever it wants. -/
def World.machine : Machine McpSig World where
  admits := fun w e x =>
    match e, x with
    | .lock, _ => w.pipes.locked = false
    | .takeId, id => id = w.nextId
    | .isConnected, connected => connected = w.connected
    | _, _ => True
  next := World.next

instance (w : World) (e : McpEff) (x : e.Ans) : Decidable (World.machine.admits w e x) :=
  match e, x with
  | .lock, _ => inferInstanceAs (Decidable (w.pipes.locked = false))
  | .takeId, id => inferInstanceAs (Decidable (id = w.nextId))
  | .isConnected, connected => inferInstanceAs (Decidable (connected = w.connected))
  | .launch, _ | .terminate, _ | .unlock, _ | .write _, _ | .deadline, _ | .readLine, _
  | .setConnected _, _ => .isTrue trivial

end McpSession

end Aestival
