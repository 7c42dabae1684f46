import Aestival.Library.Json

/-!
# The bot configuration and its file

`bot_config.json` lists the agents and a global section. `parseAgent` and `parseGlobal` read them,
with a default for every field that is missing; `toJson` writes them. The writer replaces a secret
that is set by the sentinel `***`, and `safeString` reads the sentinel back as an empty text, so no
secret ever reaches the file.

`loadBotConfig` and `saveBotConfig` are the two operations on the file. The file is a
`Json.Text`: `saveBotConfig` opens it, which empties it, before it serializes.
-/

namespace Aestival

open Bytes Json

/-! ### The configuration -/

inductive RuntimeMode where
  | plugin
  | agent
  deriving DecidableEq, Repr

/-- `to_string`. -/
def RuntimeMode.text : RuntimeMode → Bytes
  | .agent => utf8 "agent"
  | .plugin => utf8 "plugin"

/-- `mcp_server_config`. `env` lists the variables, each name once; timeouts are in seconds. -/
structure McpServerConfig where
  name : Bytes := []
  command : Bytes := []
  args : List Bytes := []
  startupTimeout : Int32 := 30
  callTimeout : Int32 := 60
  env : List (Bytes × Bytes) := []
  deriving DecidableEq, Repr

/-- `agent_config`. -/
structure AgentConfig where
  id : Bytes := []
  name : Bytes := []
  enabled : Bool := true
  platform : Bytes := utf8 "qq"
  qqAppId : Bytes := []
  qqAppSecret : Bytes := []
  llmProvider : Bytes := utf8 "deepseek"
  deepseekApiKey : Bytes := []
  deepseekModel : Bytes := utf8 "deepseek-chat"
  deepseekUserToken : Bytes := []
  deepseekWafCookie : Bytes := []
  openaiApiKey : Bytes := []
  openaiModel : Bytes := utf8 "gpt-4o"
  openaiBaseUrl : Bytes := utf8 "https://api.openai.com"
  workspace : Bytes := utf8 "./workspace"
  storageDir : Bytes := utf8 "./contexts"
  adminUserIds : List Bytes := []
  defaultMode : RuntimeMode := .agent
  agentReachEnabled : Bool := true
  mcpServers : List McpServerConfig := []
  maxMessagesPerMinute : Int32 := 10
  dailyTokenBudget : Int64 := 0
  selfIterateEnabled : Bool := false
  selfIterateIntervalHours : Int32 := 24
  selfIterateMinConversations : Int32 := 10
  claudeCodePath : Bytes := utf8 "claude"
  deriving DecidableEq, Repr

/-- `global_config`. -/
structure GlobalConfig where
  verifyTls : Bool := true
  logFile : Bytes := []
  managementApiEnabled : Bool := false
  managementListen : Bytes := utf8 "127.0.0.1:9090"
  jwtSecret : Bytes := []
  deriving DecidableEq, Repr

/-- `bot_config`. -/
structure BotConfig where
  agents : List AgentConfig := []
  global : GlobalConfig := {}
  isLegacy : Bool := false
  deriving DecidableEq, Repr

/-! ### Reading -/

/-- The value a secret is shown as. -/
def redacted : Bytes := utf8 "***"

/-- `safe_string`: a text field, where the sentinel counts as missing. -/
def safeString (obj : Json) (key : Bytes) (fallback : Bytes := []) : Bytes :=
  match obj.find? key with
  | some (.str s) => if s = redacted then fallback else s
  | _ => fallback

/-- `parse_mode`. -/
def parseMode (value : Bytes) : RuntimeMode := if value = utf8 "agent" then .agent else .plugin

/-- The texts of an array; other elements are skipped. -/
def stringElems (elems : List Json) : List Bytes :=
  elems.filterMap fun item => match item with
    | .str s => some s
    | _ => none

/-- `parse_string_array`. -/
def parseStringArray (obj : Json) (key : Bytes) : List Bytes :=
  match obj.find? key with
  | some (.arr elems) => stringElems elems
  | _ => []

/-- The field `key` if it is an object. -/
def objectField? (j : Json) (key : Bytes) : Option Json :=
  match j.find? key with
  | some v => if v.isObject then some v else none
  | none => none

/-- `env[k] = v`. -/
def setEnv (env : List (Bytes × Bytes)) (k v : Bytes) : List (Bytes × Bytes) :=
  if k ∈ env.map Prod.fst then env.map fun p => if p.1 = k then (k, v) else p
  else env ++ [(k, v)]

/-- One field of the `env` object; other values than texts are skipped. -/
def parseEnvField (env : List (Bytes × Bytes)) : Bytes × Json → List (Bytes × Bytes)
  | (k, .str v) => setEnv env k v
  | _ => env

def parseEnv (s : Json) : List (Bytes × Bytes) :=
  match s.find? (utf8 "env") with
  | some (.obj fields) => fields.foldl parseEnvField []
  | _ => []

/-- A timeout in seconds, if the field is a number. -/
def parseTimeout (s : Json) (key : Bytes) (default : Int32) : Except AccessError Int32 :=
  match s.find? key with
  | some v => if v.isNumber then v.getInt32 else .ok default
  | none => .ok default

/-- One entry of `mcp_servers`. -/
def parseMcpServer (s : Json) : Except AccessError McpServerConfig := do
  let name ← s.value getStr (utf8 "name") []
  let command ← s.value getStr (utf8 "command") []
  let args := parseStringArray s (utf8 "args")
  let startupTimeout ← parseTimeout s (utf8 "startup_timeout") 30
  let callTimeout ← parseTimeout s (utf8 "call_timeout") 60
  return { name, command, args, startupTimeout, callTimeout, env := parseEnv s }

/-- The loop over `mcp_servers`: entries that are not objects are skipped, and so are servers
without a name or a command. -/
def parseMcpServers : List Json → Except AccessError (List McpServerConfig)
  | [] => .ok []
  | s :: l =>
    if s.isObject then do
      let mcp ← parseMcpServer s
      let rest ← parseMcpServers l
      return if mcp.name ≠ [] ∧ mcp.command ≠ [] then mcp :: rest else rest
    else parseMcpServers l

/-- The section `qq` of an agent. -/
def parseQq (a : AgentConfig) (j : Json) : AgentConfig :=
  match objectField? j (utf8 "qq") with
  | some qq =>
    { a with qqAppId := safeString qq (utf8 "app_id")
             qqAppSecret := safeString qq (utf8 "app_secret") }
  | none => a

/-- The section `deepseek`. -/
def parseDeepseek (a : AgentConfig) (j : Json) : Except AccessError AgentConfig :=
  match objectField? j (utf8 "deepseek") with
  | some ds => do
    let model ← ds.value getStr (utf8 "model") a.deepseekModel
    return { a with deepseekApiKey := safeString ds (utf8 "api_key")
                    deepseekModel := model
                    deepseekUserToken := safeString ds (utf8 "user_token")
                    deepseekWafCookie := safeString ds (utf8 "waf_cookie") }
  | none => .ok a

/-- The section `openai`. -/
def parseOpenai (a : AgentConfig) (j : Json) : Except AccessError AgentConfig :=
  match objectField? j (utf8 "openai") with
  | some oa => do
    let model ← oa.value getStr (utf8 "model") a.openaiModel
    let baseUrl ← oa.value getStr (utf8 "base_url") a.openaiBaseUrl
    return { a with openaiApiKey := safeString oa (utf8 "api_key")
                    openaiModel := model
                    openaiBaseUrl := baseUrl }
  | none => .ok a

/-- The section `self_iteration`. -/
def parseSelfIteration (a : AgentConfig) (j : Json) : Except AccessError AgentConfig :=
  match objectField? j (utf8 "self_iteration") with
  | some si => do
    let enabled ← si.value getBool (utf8 "enabled") a.selfIterateEnabled
    let hours ← si.value getInt32 (utf8 "interval_hours") a.selfIterateIntervalHours
    let conversations ←
      si.value getInt32 (utf8 "min_conversations") a.selfIterateMinConversations
    let path ← si.value getStr (utf8 "claude_path") a.claudeCodePath
    return { a with selfIterateEnabled := enabled
                    selfIterateIntervalHours := hours
                    selfIterateMinConversations := conversations
                    claudeCodePath := path }
  | none => .ok a

/-- The section `mcp_servers`. -/
def parseMcp (a : AgentConfig) (j : Json) : Except AccessError AgentConfig :=
  match j.find? (utf8 "mcp_servers") with
  | some (.arr elems) => do
    let servers ← parseMcpServers elems
    return { a with mcpServers := a.mcpServers ++ servers }
  | _ => .ok a

/-- `parse_agent`. -/
def parseAgent (j : Json) : Except AccessError AgentConfig := do
  let a : AgentConfig := {}
  let id ← j.value getStr (utf8 "id") []
  let name ← j.value getStr (utf8 "name") []
  let enabled ← j.value getBool (utf8 "enabled") true
  let platform ← j.value getStr (utf8 "platform") (utf8 "qq")
  let a := parseQq { a with id, name, enabled, platform } j
  let llmProvider ← j.value getStr (utf8 "llm_provider") (utf8 "deepseek")
  -- the sections of both providers are read, whichever is chosen
  let a ← parseDeepseek { a with llmProvider } j
  let a ← parseOpenai a j
  let workspace ← j.value getStr (utf8 "workspace") a.workspace
  let storageDir ← j.value getStr (utf8 "storage_dir") a.storageDir
  let adminUserIds := parseStringArray j (utf8 "admins")
  let mode ← j.value getStr (utf8 "mode") (utf8 "agent")
  let agentReachEnabled ← j.value getBool (utf8 "agent_reach_enabled") a.agentReachEnabled
  let perMinute ← j.value getInt32 (utf8 "max_messages_per_minute") a.maxMessagesPerMinute
  let budget ← j.value getInt64 (utf8 "daily_token_budget") a.dailyTokenBudget
  let a := { a with workspace, storageDir, adminUserIds, defaultMode := parseMode mode,
                    agentReachEnabled, maxMessagesPerMinute := perMinute,
                    dailyTokenBudget := budget }
  -- members that are missing keep the default of the record
  let a ← parseSelfIteration a j
  parseMcp a j

/-- `parse_global`, from the object `global` or, in the flat format, from the root. -/
def parseGlobal (root : Json) : Except AccessError GlobalConfig := do
  let g : GlobalConfig := {}
  -- a file without `global` has these members at its top
  let src := (objectField? root (utf8 "global")).getD root
  let verifyTls ← src.value getBool (utf8 "verify_tls") true
  let logFile ← src.value getStr (utf8 "log_file") []
  let g := { g with verifyTls, logFile }
  match objectField? src (utf8 "management_api") with
  | some mgmt => do
    let enabled ← mgmt.value getBool (utf8 "enabled") false
    let listen ← mgmt.value getStr (utf8 "listen") g.managementListen
    return { g with managementApiEnabled := enabled
                    managementListen := listen
                    jwtSecret := safeString mgmt (utf8 "jwt_secret") }
  | none => return g

/-- The loop over `agents`: entries that are not objects or have no id are skipped. -/
def parseAgents : List Json → Except AccessError (List AgentConfig)
  | [] => .ok []
  | item :: l =>
    if item.isObject then do
      let a ← parseAgent item
      let rest ← parseAgents l
      return if a.id = [] then rest else a :: rest
    else parseAgents l

/-- The one agent of the flat format gets an id and a name if it has none. -/
def fillIdentity (a : AgentConfig) : AgentConfig :=
  { a with id := if a.id = [] then utf8 "default" else a.id
           name := if a.name = [] then utf8 "Default" else a.name }

/-- What a request or the loading of a file fails with. -/
inductive Failure where
  | parse
  | access (e : AccessError)
  | notUtf8
  | runtime (what : Bytes)
  deriving DecidableEq, Repr

/-- The configuration a document lists, before anything is asked of it. -/
def parseBotConfig (root : Json) : Except AccessError BotConfig := do
  let global ← parseGlobal root
  match root.find? (utf8 "agents") with
  | some (.arr elems) => do
    let agents ← parseAgents elems
    return { agents, global, isLegacy := false }
  | _ => do
    -- the flat format: one agent, read from the root
    let a ← parseAgent root
    return { agents := [fillIdentity a], global, isLegacy := true }

/-- `load_bot_config` on a file that exists. -/
def loadBotConfig (text : Text) : Except Failure BotConfig :=
  match text with
  | .malformed => .error .parse
  | .document d =>
    match parseBotConfig d.json with
    | .error e => .error (.access e)
    | .ok cfg =>
      if cfg.agents = [] then .error (.runtime (utf8 "no agents defined in config")) else .ok cfg

/-! ### Writing -/

/-- What a secret is written as. -/
def redact (secret : Bytes) : Json := .str (if secret = [] then [] else redacted)

/-- One entry of `mcp_servers`. -/
def mcpServerJson (mcp : McpServerConfig) : Json :=
  .obj ([(utf8 "name", .str mcp.name), (utf8 "command", .str mcp.command)] ++
    (if mcp.args = [] then [] else [(utf8 "args", .arr (mcp.args.map .str))]) ++
    (if mcp.env = [] then []
      else [(utf8 "env", .obj (mcp.env.map fun p => (p.1, .str p.2)))]))

/-- The section `self_iteration`, written only when it differs from the defaults. -/
def selfIterationFields (a : AgentConfig) : List (Bytes × Json) :=
  if a.selfIterateEnabled ∨ a.selfIterateIntervalHours ≠ 24 ∨ a.selfIterateMinConversations ≠ 10 ∨
      a.claudeCodePath ≠ utf8 "claude" then
    [(utf8 "self_iteration", .obj [
      (utf8 "enabled", .bool a.selfIterateEnabled),
      (utf8 "interval_hours", .int a.selfIterateIntervalHours.toInt),
      (utf8 "min_conversations", .int a.selfIterateMinConversations.toInt),
      (utf8 "claude_path", .str a.claudeCodePath)])]
  else []

/-- The section `mcp_servers`, written only when there are any. -/
def mcpServersFields (a : AgentConfig) : List (Bytes × Json) :=
  if a.mcpServers = [] then []
  else [(utf8 "mcp_servers", .arr (a.mcpServers.map mcpServerJson))]

/-- One entry of `agents`. -/
def agentJson (a : AgentConfig) : Json :=
  .obj ([
    (utf8 "id", .str a.id),
    (utf8 "name", .str a.name),
    (utf8 "enabled", .bool a.enabled),
    (utf8 "platform", .str a.platform),
    (utf8 "qq", .obj [(utf8 "app_id", .str a.qqAppId), (utf8 "app_secret", redact a.qqAppSecret)]),
    (utf8 "llm_provider", .str a.llmProvider),
    (utf8 "deepseek", .obj [
      (utf8 "api_key", redact a.deepseekApiKey),
      (utf8 "model", .str a.deepseekModel),
      (utf8 "user_token", redact a.deepseekUserToken),
      (utf8 "waf_cookie", redact a.deepseekWafCookie)]),
    (utf8 "openai", .obj [
      (utf8 "api_key", redact a.openaiApiKey),
      (utf8 "model", .str a.openaiModel),
      (utf8 "base_url", .str a.openaiBaseUrl)]),
    (utf8 "workspace", .str a.workspace),
    (utf8 "storage_dir", .str a.storageDir),
    (utf8 "admins", .arr (a.adminUserIds.map .str)),
    (utf8 "mode", .str a.defaultMode.text),
    (utf8 "agent_reach_enabled", .bool a.agentReachEnabled),
    (utf8 "max_messages_per_minute", .int a.maxMessagesPerMinute.toInt),
    (utf8 "daily_token_budget", .int a.dailyTokenBudget.toInt)] ++
    (selfIterationFields a ++ mcpServersFields a))

/-- The section `global`. -/
def globalJson (g : GlobalConfig) : Json :=
  .obj [
    (utf8 "verify_tls", .bool g.verifyTls),
    (utf8 "log_file", .str g.logFile),
    (utf8 "management_api", .obj [
      (utf8 "enabled", .bool g.managementApiEnabled),
      (utf8 "listen", .str g.managementListen),
      (utf8 "jwt_secret", redact g.jwtSecret)])]

/-- The value `to_json` serializes. -/
def botConfigJson (cfg : BotConfig) : Json :=
  .obj [(utf8 "agents", .arr (cfg.agents.map agentJson)), (utf8 "global", globalJson cfg.global)]

/-- `to_json`. -/
def toJson (cfg : BotConfig) : Except Failure Document :=
  match (botConfigJson cfg).dump with
  | some d => .ok d
  | none => .error .notUtf8

/-- `save_bot_config`: the file afterwards, and the exception if there is one. `opens` says whether
the file at `path` can be opened for writing. -/
def saveBotConfig (path : Bytes) (opens : Bool) (file : Text) (cfg : BotConfig) :
    Text × Except Failure Unit :=
  if opens then
    -- opening the stream has truncated the file
    match toJson cfg with
    | .ok d => (.document d, .ok ())
    | .error e => (.malformed, .error e)
  else (file, .error (.runtime (utf8 "failed to open config file for writing: " ++ path)))

end Aestival
