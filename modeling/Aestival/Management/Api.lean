import Aestival.Management.Registry

/-!
# Requests of the management API

The requests that change an agent: creating, editing, starting, stopping and removing one. A
handler reads its JSON body, checks it, calls one operation of the registry, and then `persist`.
`Request.apply` is everything up to `persist`, and `Server.handle` the whole handler, so that a
handler throws either before the file is touched or out of `persist`.

Text fields of a body are cut to a maximal number of bytes by `truncateStr`, which looks at
lengths only.
-/

namespace Aestival

open Bytes Json

/-! ### Checks -/

def kMaxAgentId : Nat := 64
def kMaxAgentName : Nat := 128
def kMaxAppId : Nat := 256
def kMaxApiKey : Nat := 512
def kMaxPath : Nat := 1024

/-- `truncate_str`. -/
def truncateStr (s : Bytes) (maxLen : Nat) : Bytes := s.take maxLen

/-- `is_valid_agent_id`. -/
def isValidAgentId (id : Bytes) : Bool :=
  id ≠ [] && id.length ≤ kMaxAgentId && id.all Registry.isIdChar

/-- `is_safe_path_component`. -/
def isSafePathComponent (path : Bytes) : Bool :=
  path ≠ [] && path.length ≤ kMaxPath && path.head? ≠ some 47 && path.head? ≠ some 92 &&
    !path.contains (utf8 "..") && (0 : UInt8) ∉ path

/-- `is_valid_platform`. -/
def isValidPlatform (p : Bytes) : Bool := p = utf8 "qq" || p = utf8 "console"

/-- `is_valid_llm_provider`. -/
def isValidLlmProvider (p : Bytes) : Bool := p = utf8 "deepseek" || p = utf8 "openai"

/-- A failed check. -/
def require (ok : Bool) (what : Bytes) : Except Failure Unit :=
  if ok then .ok () else .error (.runtime what)

/-! ### Creating an agent -/

/-- A failed access to the body. -/
def liftAccess {α : Type} (x : Except AccessError α) : Except Failure α := x.mapError .access

/-- A text field of the body, cut to `maxLen` bytes. -/
def truncatedField (j : Json) (key default : Bytes) (maxLen : Nat) : Except Failure Bytes := do
  return truncateStr (← liftAccess (j.value getStr key default)) maxLen

/-- A text field that is looked up in a section when the body has it, and under a key of its own
otherwise, as the forms of the web interface send it. -/
def nestedField (j : Json) (sect key flatKey default : Bytes) (maxLen : Nat) :
    Except Failure Bytes :=
  match j.find? sect with
  | some v => truncatedField v key default maxLen
  | none => truncatedField j flatKey default maxLen

/-- The admins of the body; other elements than texts are skipped. -/
def truncatedAdmins (j : Json) : List Bytes :=
  (parseStringArray j (utf8 "admins")).map fun a => truncateStr a kMaxAppId

/-- The part of `handle_agents_create` that reads the body. -/
def createConfig (j : Json) : Except Failure AgentConfig := do
  let id ← truncatedField j (utf8 "id") [] kMaxAgentId
  require (isValidAgentId id)
    (utf8 "invalid agent id: must be 1-64 alphanumeric, hyphens, or underscores")
  let name ← truncatedField j (utf8 "name") [] kMaxAgentName
  let platform ← liftAccess (j.value getStr (utf8 "platform") (utf8 "qq"))
  require (isValidPlatform platform) (utf8 "invalid platform: must be 'qq' or 'console'")
  let enabled ← liftAccess (j.value getBool (utf8 "enabled") true)
  -- nested members have a flat name beside them
  let qqAppId ← nestedField j (utf8 "qq") (utf8 "app_id") (utf8 "qq_app_id") [] kMaxAppId
  let qqAppSecret ←
    nestedField j (utf8 "qq") (utf8 "app_secret") (utf8 "qq_app_secret") [] kMaxApiKey
  let llmProvider ← liftAccess (j.value getStr (utf8 "llm_provider") (utf8 "deepseek"))
  require (isValidLlmProvider llmProvider)
    (utf8 "invalid llm_provider: must be 'deepseek' or 'openai'")
  let deepseekApiKey ←
    nestedField j (utf8 "deepseek") (utf8 "api_key") (utf8 "deepseek_api_key") [] kMaxApiKey
  let deepseekModel ← nestedField j (utf8 "deepseek") (utf8 "model") (utf8 "deepseek_model")
    (utf8 "deepseek-chat") kMaxAppId
  let openaiApiKey ←
    nestedField j (utf8 "openai") (utf8 "api_key") (utf8 "openai_api_key") [] kMaxApiKey
  let openaiModel ← nestedField j (utf8 "openai") (utf8 "model") (utf8 "openai_model")
    (utf8 "gpt-4o") kMaxAppId
  let workspace ← truncatedField j (utf8 "workspace") (utf8 "./workspace") kMaxPath
  require (isSafePathComponent workspace) (utf8 "invalid workspace path")
  let storageDir ← truncatedField j (utf8 "storage_dir") (utf8 "./contexts") kMaxPath
  require (isSafePathComponent storageDir) (utf8 "invalid storage_dir path")
  -- any text but `agent` is the mode of plugins
  let mode ← liftAccess (j.value getStr (utf8 "mode") (utf8 "agent"))
  return { id, name, enabled, platform, qqAppId, qqAppSecret, llmProvider, deepseekApiKey,
           deepseekModel, openaiApiKey, openaiModel, workspace, storageDir,
           adminUserIds := truncatedAdmins j
           defaultMode := parseMode mode }

/-! ### Editing an agent -/

/-- A field that is changed only when the body has it. -/
def editField {α : Type} (j : Json) (key : Bytes) (get : Json → Except AccessError α)
    (use : α → Except Failure AgentConfig) (cfg : AgentConfig) : Except Failure AgentConfig :=
  match j.find? key with
  | some v => do
    use (← liftAccess (get v))
  | none => .ok cfg

/-- The part of `handle_agent_config` that reads the body. -/
def editConfig (cfg : AgentConfig) (j : Json) : Except Failure AgentConfig := do
  let cfg ← editField j (utf8 "name") getStr
    (fun s => .ok { cfg with name := truncateStr s kMaxAgentName }) cfg
  let cfg ← editField j (utf8 "enabled") getBool (fun b => .ok { cfg with enabled := b }) cfg
  -- the provider is cut before it is checked, the workspace after
  let cfg ← editField j (utf8 "llm_provider") getStr (fun s => do
    let prov := truncateStr s kMaxAppId
    require (isValidLlmProvider prov)
      (utf8 "invalid llm_provider: must be 'deepseek' or 'openai'")
    return { cfg with llmProvider := prov }) cfg
  let cfg ← editField j (utf8 "workspace") getStr (fun ws => do
    require (isSafePathComponent ws) (utf8 "invalid workspace path")
    return { cfg with workspace := truncateStr ws kMaxPath }) cfg
  editField j (utf8 "mode") getStr (fun s => .ok { cfg with defaultMode := parseMode s }) cfg

/-! ### Handling a request -/

/-- A request that is followed by `persist`. The ids are those of the URL. -/
inductive Request where
  | create (body : Text)
  | config (id : Bytes) (body : Text)
  | start (id : Bytes)
  | stop (id : Bytes)
  | remove (id : Bytes)

/-- What a request meets: how launching an agent ends, and whether the configuration file can be
opened for writing. -/
structure Surroundings where
  launch : Launch
  opens : Bool

/-- The body of a request, parsed. -/
def parseBody : Text → Except Failure Json
  | .document d => .ok d.json
  | .malformed => .error .parse

/-- A handler up to `persist`: the registry it leaves, and the exception if there is one. -/
def Request.apply (launch : Launch) (r : Registry) : Request → Registry × Except Failure Unit
  | .create body =>
    match parseBody body >>= createConfig with
    | .error e => (r, .error e)
    | .ok cfg => r.addAgent launch cfg
  -- the body is parsed before the agent is looked up
  | .config id body =>
    match parseBody body with
    | .error e => (r, .error e)
    | .ok j =>
      match r.getAgent id with
      | none => (r, .error (.runtime (utf8 "agent not found: " ++ id)))
      | some inst =>
        match editConfig inst.config j with
        | .error e => (r, .error e)
        | .ok cfg => r.updateAgentConfig id cfg
  | .start id => r.startAgent launch id
  | .stop id => r.stopAgent id
  | .remove id => r.removeAgent id

/-- The process: its registry, the global section it was started with, and the file at
`config_path`. -/
structure Server where
  registry : Registry
  global : GlobalConfig
  file : Text

namespace Server

/-- The process after it has loaded its configuration and started the agents. -/
def start (launch : Launch) (configPath : Bytes) (file : Text) (cfg : BotConfig) : Server :=
  ⟨.startAll launch configPath cfg, cfg.global, file⟩

/-- A handler of the management API. -/
def handle (s : Server) (env : Surroundings) (q : Request) : Server × Except Failure Unit :=
  match q.apply env.launch s.registry with
  | (r, .error e) => ({ s with registry := r }, .error e)
  | (r, .ok ()) =>
    let (file, result) := r.persist env.opens s.file s.global
    ({ s with registry := r, file }, result)

end Server

end Aestival
