import Aestival.Agent.Plugins
import Aestival.Management.Api

/-!
# The routes of the management API

`management_api::handle`, behind `authenticate`: the method and the target of a request select a
handler, and what a handler throws is answered with the status 500 and the text of the exception. A
text that is not UTF-8 cannot be written, and then there is no answer and the thread of the API
ends.

Handlers that only read the process answer with what they read; what they end with is left open
(`BotSurroundings.reads`). The others are those of `Server.handle` and the two about one plugin.
-/

namespace Aestival

open Bytes Json

/-! ### Requests -/

/-- `http::verb`. -/
inductive Verb where
  | get
  | post
  | put
  | delete
  | other
  deriving DecidableEq, Repr

structure ApiRequest where
  method : Verb
  target : Bytes
  body : Text

/-- The handlers that only read. -/
inductive Reading where
  | health
  | agents
  | logs
  | conversations
  | conversation (id : Bytes)
  | metrics
  | agentMetrics (id : Bytes)
  | tokenStats
  | pluginConfig (name : Bytes)
  deriving DecidableEq, Repr

/-- A handler with its arguments. -/
inductive Route where
  | read (what : Reading)
  | change (q : Request)
  | listPlugins (agentId : Bytes)
  | togglePlugin (name : Bytes) (body : Text)
  | setPluginConfig (name : Bytes) (body : Text)
  | notFound

/-! ### Parts of the target -/

def agentsPrefix : Bytes := utf8 "/api/v1/agents/"
def conversationsPrefix : Bytes := utf8 "/api/v1/conversations/"
def pluginsPrefix : Bytes := utf8 "/api/v1/plugins/"

/-- `extract_id`. The length is a `size_t`: where suffix and prefix overlap it wraps around, and
everything behind the prefix is taken. -/
def extractId (target suffix : Bytes) : Except Failure Bytes :=
  let behind := target.drop agentsPrefix.length
  -- `/api/v1/agents/start` is such a target: the slash belongs to both
  let id := if target.length < agentsPrefix.length + suffix.length then behind
    else behind.take (target.length - agentsPrefix.length - suffix.length)
  if isValidAgentId id then .ok id
  else .error (.runtime (utf8 "invalid agent id in URL: " ++ id))

/-- `extract_id_raw`. -/
def extractIdRaw (target : Bytes) : Except Failure Bytes :=
  let id := target.drop agentsPrefix.length
  if isValidAgentId id then .ok id
  else .error (.runtime (utf8 "invalid agent id in URL: " ++ id))

/-- `is_valid_conversation_id`. -/
def isValidConversationId (id : Bytes) : Bool :=
  id ≠ [] && id.length ≤ kMaxPath && id.all (fun c => Registry.isIdChar c || c = 58) &&
    !id.contains (utf8 "..") && (0 : UInt8) ∉ id

/-- `extract_conversation_id`. -/
def extractConversationId (target : Bytes) : Except Failure Bytes :=
  let id := target.drop conversationsPrefix.length
  if isValidConversationId id then .ok id
  else .error (.runtime (utf8 "invalid conversation id in URL: " ++ id))

/-- `extract_plugin_name`, on a target with this suffix. -/
def extractPluginName (target suffix : Bytes) : Bytes :=
  (target.take (target.length - suffix.length)).drop pluginsPrefix.length

/-- `extract_plugin_name_raw`. -/
def extractPluginNameRaw (target : Bytes) : Bytes :=
  -- a name with a slash is refused, and the handler answers 400 to the empty one
  let name := target.drop pluginsPrefix.length
  if (47 : UInt8) ∈ name then [] else name

/-- The agent of `handle_plugins_list`. -/
def pluginsAgentId (target : Bytes) : Bytes :=
  match target.dropWhile (· ≠ 63) with
  | [] => utf8 "default"
  | _ :: qs => if utf8 "agent=" <+: qs then qs.drop 6 else utf8 "default"

/-! ### The dispatcher -/

/-- `handle`, up to the handler. An id of the URL that is not valid is an exception. -/
def ApiRequest.route (req : ApiRequest) : Except Failure Route :=
  let target := req.target
  -- in the order of the source, where the first test that succeeds decides
  if target = utf8 "/api/v1/health" ∧ req.method = .get then .ok (.read .health)
  else if target = utf8 "/api/v1/agents" ∧ req.method = .get then .ok (.read .agents)
  else if target = utf8 "/api/v1/agents" ∧ req.method = .post then .ok (.change (.create req.body))
  else if agentsPrefix <+: target ∧ utf8 "/start" <:+ target ∧ req.method = .post then do
    return .change (.start (← extractId target (utf8 "/start")))
  else if agentsPrefix <+: target ∧ utf8 "/stop" <:+ target ∧ req.method = .post then do
    return .change (.stop (← extractId target (utf8 "/stop")))
  else if agentsPrefix <+: target ∧ utf8 "/config" <:+ target ∧ req.method = .put then do
    return .change (.config (← extractId target (utf8 "/config")) req.body)
  else if agentsPrefix <+: target ∧ req.method = .delete then do
    return .change (.remove (← extractIdRaw target))
  else if utf8 "/api/v1/logs" <+: target ∧ req.method = .get then .ok (.read .logs)
  else if target = utf8 "/api/v1/conversations" ∧ req.method = .get then .ok (.read .conversations)
  else if conversationsPrefix <+: target ∧ req.method = .get then do
    return .read (.conversation (← extractConversationId target))
  else if target = utf8 "/api/v1/metrics" ∧ req.method = .get then .ok (.read .metrics)
  else if agentsPrefix <+: target ∧ utf8 "/metrics" <:+ target ∧ req.method = .get then do
    return .read (.agentMetrics (← extractId target (utf8 "/metrics")))
  else if target = utf8 "/api/v1/tokens/stats" ∧ req.method = .get then .ok (.read .tokenStats)
  else if pluginsPrefix <+: target ∧ utf8 "/config" <:+ target ∧ req.method = .get then
    .ok (.read (.pluginConfig (extractPluginName target (utf8 "/config"))))
  else if pluginsPrefix <+: target ∧ utf8 "/config" <:+ target ∧ req.method = .put then
    .ok (.setPluginConfig (extractPluginName target (utf8 "/config")) req.body)
  else if pluginsPrefix <+: target ∧ req.method = .put then
    .ok (.togglePlugin (extractPluginNameRaw target) req.body)
  else if utf8 "/api/v1/plugins" <+: target ∧ req.method = .get then
    .ok (.listPlugins (pluginsAgentId target))
  else .ok .notFound

/-- The part of the process that the management API works on. -/
structure Bot where
  server : Server
  plugins : PluginManager
  /-- The thread of the API runs. -/
  serving : Bool := true

/-- What a request meets besides: what a handler that reads ends with, whether the database of the
plugins takes a write, and whether the text of a parse error, which quotes the body, is UTF-8. -/
structure BotSurroundings extends Surroundings where
  reads : Reading → Except Failure Nat := fun _ => .ok 200
  writes : Bool := true
  quotesUtf8 : Bool := true

/-- The text of the exception can be written into the answer. -/
def Failure.isUtf8 (env : BotSurroundings) : Failure → Bool
  | .runtime what => what.validUtf8
  | .parse => env.quotesUtf8
  | .access _ | .notUtf8 => true

namespace Bot

/-- The object of a body, as the handlers about plugins parse it. -/
def pluginBody : Text → Option Json
  | .document d => if d.json.isObject then some d.json else none
  | .malformed => none

/-- The answer of the handlers about plugins, which repeats the name. -/
def answerName (name : Bytes) : Except Failure Nat :=
  if name.validUtf8 then .ok 200 else .error .notUtf8

/-- `handle_plugin_toggle`. -/
def togglePlugin (b : Bot) (env : BotSurroundings) (name : Bytes) (body : Text) :
    Bot × Except Failure Nat :=
  if name = [] then (b, .ok 400)
  else match pluginBody body with
    | none => (b, .ok 400)
    | some j =>
      match j.value getBool (utf8 "enabled") true with
      -- the handler of the server answers what is thrown
      | .error e => (b, .error (.access e))
      | .ok enabled =>
        -- the flag is that of the agent `default`
        let plugins := if enabled then b.plugins.enablePluginForAgent env.writes name
          (utf8 "default")
          else b.plugins.disablePluginForAgent env.writes name (utf8 "default")
        ({ b with plugins }, answerName name)

/-- `handle_plugin_set_config`, which stores nothing. -/
def setPluginConfig (name : Bytes) (body : Text) : Except Failure Nat :=
  if name = [] then .ok 400
  else match pluginBody body with
    | none => .ok 400
    | some _ => answerName name

/-- A handler: the status of its answer, or what it throws. The list of the plugins remembers which
of them are disabled. -/
def run (b : Bot) (env : BotSurroundings) : Route → Bot × Except Failure Nat
  | .read what => (b, env.reads what)
  | .change q =>
    let (server, result) := b.server.handle env.toSurroundings q
    ({ b with server }, result.map fun _ => 200)
  | .listPlugins agentId => ({ b with plugins := (b.plugins.listPlugins agentId).2 }, .ok 200)
  | .togglePlugin name body => b.togglePlugin env name body
  | .setPluginConfig name body => (b, setPluginConfig name body)
  | .notFound => (b, .ok 404)

/-- What the dispatcher makes of the end of a handler. An exception whose text is not UTF-8 throws
again where the answer is written, and ends the thread. -/
def answer (env : BotSurroundings) (b : Bot) : Except Failure Nat → Bot × Option Nat
  | .ok status => (b, some status)
  | .error e => if e.isUtf8 env then (b, some 500) else ({ b with serving := false }, none)

/-- `handle`: the process after a request, and the status of the answer, if there is one. -/
def handle (b : Bot) (env : BotSurroundings) (req : ApiRequest) : Bot × Option Nat :=
  if b.serving then
    match req.route with
    | .error e => b.answer env (.error e)
    | .ok route =>
      let (b, result) := b.run env route
      b.answer env result
  else (b, none)

section Frame

variable {b : Bot} {env : BotSurroundings} {req : ApiRequest}

@[simp] theorem server_answer (result : Except Failure Nat) :
    (b.answer env result).1.server = b.server := by
  rw [answer.eq_def]
  split
  · rfl
  split
  · rfl
  · rfl

@[simp] theorem server_togglePlugin (name : Bytes) (body : Text) :
    (b.togglePlugin env name body).1.server = b.server := by
  rw [togglePlugin]
  split
  · rfl
  split
  · rfl
  split
  · rfl
  · rfl

/-- Only a request that changes an agent gets to the registry and to the file. -/
theorem server_handle_of_not_change (h : ∀ q, req.route ≠ .ok (.change q)) :
    (b.handle env req).1.server = b.server := by
  rw [handle]
  split
  · split
    · rw [server_answer]
    next route hroute =>
    rw [server_answer]
    cases route with
    | change q => exact absurd hroute (h q)
    | togglePlugin name body => exact server_togglePlugin name body
    | read what => rfl
    | listPlugins agentId => rfl
    | setPluginConfig name body => rfl
    | notFound => rfl
  · rfl

/-- A request that changes an agent is one of `Server.handle`. -/
theorem handle_of_change (hserving : b.serving = true) {q : Request}
    (h : req.route = .ok (.change q)) :
    b.handle env req = answer env { b with server := (b.server.handle env.toSurroundings q).1 }
      ((b.server.handle env.toSurroundings q).2.map fun _ => 200) := by
  rw [handle, if_pos hserving, h]
  rfl

end Frame

end Bot

/-- `POST /api/v1/agents/start` starts the agent `start`. -/
example : (ApiRequest.mk .post (utf8 "/api/v1/agents/start") .malformed).route =
    .ok (.change (.start (utf8 "start"))) := by
  rfl

end Aestival
