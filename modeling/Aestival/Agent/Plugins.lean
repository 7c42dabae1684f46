import Aestival.Agent.Effects
import Aestival.EncodeUtils
import Mathlib.Data.Finset.Basic

/-!
# Plugins

`plugin_manager` knows the plugins of the process and, for each agent, which of them are disabled.
What is disabled is kept in a database, by agent and plugin; names that were found disabled are also
remembered in a cache, under a key made of both ids (`cacheKey`). A look-up asks the cache first.

Plugins act in two ways: `dispatch_message` offers a message to each plugin in turn, and the tool
loop of a controller executes the tools of the providers that were registered when the controller
was built. The database takes every write unless said otherwise.
-/

namespace Aestival

open Bytes

/-! ### Plugins and providers -/

/-- `plugin_descriptor`, without the schema of its configuration. -/
structure PluginDescriptor where
  name : Bytes := []
  displayName : Bytes := []
  description : Bytes := []
  version : Bytes := utf8 "1.0"
  defaultEnabled : Bool := true

/-- `plugin`. What `handle` and `execute_tool` do is open. -/
structure Plugin where
  name : Bytes
  descriptor : PluginDescriptor := {}
  priority : Int := 0
  /-- whether it has the capability `request_stop` -/
  mayStop : Bool := false
  canHandle : MessageEvent → Bool
  tools : List ToolDefinition := []

/-- `simple_test_plugin`. -/
def simpleTestPlugin : Plugin where
  name := utf8 "simple_test"
  descriptor :=
    { name := utf8 "simple_test", displayName := utf8 "Simple Test"
      description := utf8 "Responds to hello/ping with a basic greeting." }
  priority := -100
  canHandle m := m.content = utf8 "hello" || m.content = utf8 "你好" || m.content = utf8 "ping"

/-- `agent_reach_plugin`. -/
def agentReachPlugin : Plugin where
  name := utf8 "agent_reach"
  descriptor :=
    { name := utf8 "agent_reach", displayName := utf8 "Agent Reach"
      description :=
        utf8 "Handles the help command, showing available system commands and backends." }
  priority := 100
  canHandle m :=
    let c := trim m.content
    c = utf8 "帮助" || c = utf8 "help" || c = utf8 "/help"

/-- The plugins `main` registers, if an agent has `agent_reach` enabled. -/
def mainPlugins : List Plugin := [agentReachPlugin, simpleTestPlugin]

/-- How a call of `handle` ends. -/
inductive HandleEnd where
  | thrown
  | returned (handled stopProcessing stopRequested : Bool)
  deriving DecidableEq, Repr

/-- `tool_provider`: a plugin, or the client of an MCP server with the tools it offers. -/
inductive ToolProvider where
  | plugin (p : Plugin)
  | mcp (offered : List ToolDefinition)

/-- `get_tools`. -/
def ToolProvider.getTools : ToolProvider → List ToolDefinition
  | .plugin p => p.tools
  | .mcp offered => offered

/-! ### The database -/

/-- `plugin_config_sqlite`: the column `enabled` of the rows of both tables. -/
structure PluginConfigSqlite where
  agentPlugins : Bytes → Bytes → Option Bool := fun _ _ => none
  userPlugins : Bytes → Bytes → Option Bool := fun _ _ => none

namespace PluginConfigSqlite

/-- `is_plugin_enabled_for_agent`. -/
def isPluginEnabledForAgent (db : PluginConfigSqlite) (agentId pluginName : Bytes) : Bool :=
  (db.agentPlugins (cStr agentId) (cStr pluginName)).getD true

/-- `is_plugin_enabled_for_user`. -/
def isPluginEnabledForUser (db : PluginConfigSqlite) (userId pluginName : Bytes) : Bool :=
  (db.userPlugins (cStr userId) (cStr pluginName)).getD true

/-- `set_plugin_enabled_for_agent`. A statement that fails is logged, and nothing is written. -/
def setPluginEnabledForAgent (db : PluginConfigSqlite) (writes : Bool)
    (agentId pluginName : Bytes) (enabled : Bool) : PluginConfigSqlite :=
  if writes then
    { db with
      agentPlugins := Function.update db.agentPlugins (cStr agentId)
        (Function.update (db.agentPlugins (cStr agentId)) (cStr pluginName) (some enabled)) }
  else db

end PluginConfigSqlite

/-! ### The manager -/

/-- `plugin_manager`. The plugins are in the order of their priorities. -/
structure PluginManager where
  plugins : List Plugin
  configBackend : Option PluginConfigSqlite := none
  disabledCache : Finset Bytes := ∅

/-- `cache_key`. -/
def cacheKey (agent plugin : Bytes) : Bytes := agent ++ utf8 "::" ++ plugin

namespace PluginManager

/-- What `is_plugin_enabled` answers. -/
def enabled (m : PluginManager) (pluginName agentId : Bytes) : Bool :=
  if cacheKey agentId pluginName ∈ m.disabledCache then false
  else match m.configBackend with
    | none => true
    | some db => db.isPluginEnabledForAgent agentId pluginName

/-- `is_plugin_enabled`, with what it remembers. -/
def isPluginEnabled (m : PluginManager) (pluginName agentId : Bytes) : Bool × PluginManager :=
  -- only what is disabled is remembered; an enabled plugin is looked up again
  if m.enabled pluginName agentId then (true, m)
  else (false, { m with disabledCache := insert (cacheKey agentId pluginName) m.disabledCache })

/-- `is_plugin_enabled_for_user`. -/
def isPluginEnabledForUser (m : PluginManager) (pluginName userId : Bytes) : Bool :=
  match m.configBackend with
  | none => true
  | some db => db.isPluginEnabledForUser userId pluginName

/-- `enable_plugin_for_agent`. -/
def enablePluginForAgent (m : PluginManager) (writes : Bool) (pluginName agentId : Bytes) :
    PluginManager :=
  { m with
    disabledCache := m.disabledCache.erase (cacheKey agentId pluginName)
    configBackend := m.configBackend.map
      fun db => db.setPluginEnabledForAgent writes agentId pluginName true }

/-- `disable_plugin_for_agent`. -/
def disablePluginForAgent (m : PluginManager) (writes : Bool) (pluginName agentId : Bytes) :
    PluginManager :=
  { m with
    disabledCache := insert (cacheKey agentId pluginName) m.disabledCache
    configBackend := m.configBackend.map
      fun db => db.setPluginEnabledForAgent writes agentId pluginName false }

/-- `list_plugins` over the plugins from some point on. -/
def listFrom (agentId : Bytes) : List Plugin → PluginManager →
    List (PluginDescriptor × Bool) × PluginManager
  | [], m => ([], m)
  | p :: rest, m =>
    let (enabled, m) := m.isPluginEnabled p.name agentId
    let (listed, m) := listFrom agentId rest m
    ((p.descriptor, enabled) :: listed, m)

/-- `list_plugins`. -/
def listPlugins (m : PluginManager) (agentId : Bytes) :
    List (PluginDescriptor × Bool) × PluginManager :=
  listFrom agentId m.plugins m

/-- `find_plugin`. -/
def findPlugin (m : PluginManager) (name : Bytes) : Option Plugin :=
  m.plugins.find? fun p => p.name = name

/-- `derive_user_id`. -/
def deriveUserId (msg : MessageEvent) : Bytes :=
  -- a message in a group may have no sender, and then stands for its group
  if msg.userOpenid ≠ [] then msg.userOpenid
  else if msg.senderId ≠ [] then msg.senderId
  else msg.groupId

end PluginManager

/-! ### Dispatching a message -/

/-- What `dispatch_message` did: the plugins whose `handle` was called, how often `bot.stop` was,
and its result. -/
structure Dispatched where
  manager : PluginManager
  called : List Plugin := []
  stops : Nat := 0
  handledAny : Bool := false

/-- `current` has been called before the rest of the loop. -/
def Dispatched.after (rest : Dispatched) (current : Plugin) (handled stopRequested : Bool) :
    Dispatched :=
  { rest with
    called := current :: rest.called
    stops := rest.stops + if stopRequested && current.mayStop then 1 else 0
    handledAny := handled || rest.handledAny }

/-- The loop of `dispatch_message` from some plugin on. `ends` says how each `handle` ends. -/
def dispatchFrom (message : MessageEvent) (agentId : Bytes) (ends : Plugin → HandleEnd) :
    List Plugin → PluginManager → Dispatched
  | [], m => { manager := m }
  | current :: rest, m =>
    if !current.canHandle message then dispatchFrom message agentId ends rest m
    else
      -- the empty id stands for no agent, and is not filtered
      let (agentOk, m) :=
        if agentId ≠ [] then m.isPluginEnabled current.name agentId else (true, m)
      let userId := PluginManager.deriveUserId message
      if !agentOk then dispatchFrom message agentId ends rest m
      else if userId ≠ [] && !m.isPluginEnabledForUser current.name userId then
        dispatchFrom message agentId ends rest m
      else match ends current with
        -- an exception of a plugin is logged, and the next one gets the message
        | .thrown => (dispatchFrom message agentId ends rest m).after current false false
        | .returned handled true stopRequested =>
          -- `stop_processing`: the plugins behind `current` do not see the message
          Dispatched.after { manager := m } current handled stopRequested
        | .returned handled false stopRequested =>
          (dispatchFrom message agentId ends rest m).after current handled stopRequested

/-- `dispatch_message`. -/
def PluginManager.dispatchMessage (m : PluginManager) (message : MessageEvent) (agentId : Bytes)
    (ends : Plugin → HandleEnd) : Dispatched :=
  dispatchFrom message agentId ends m.plugins m

/-! ### Tools -/

/-- The plugins that the constructor of `agent_controller` registers as providers. -/
def registerFrom (agentId : Bytes) : List Plugin → PluginManager →
    List ToolProvider × PluginManager
  | [], m => ([], m)
  | p :: rest, m =>
    let (enabled, m) := m.isPluginEnabled p.name agentId
    let (providers, m) := registerFrom agentId rest m
    (if enabled then .plugin p :: providers else providers, m)

/-- The providers of a new controller: the plugins that are enabled for its agent, and the MCP
servers that connected. -/
def buildProviders (m : PluginManager) (agentId : Bytes) (mcpClients : List (List ToolDefinition)) :
    List ToolProvider × PluginManager :=
  let (providers, m) := registerFrom agentId m.plugins m
  (providers ++ mcpClients.map .mcp, m)

/-- `tool_registry::execute`: the provider whose `execute_tool` is called. -/
def executingProvider (providers : List ToolProvider) (toolName : Bytes) : Option ToolProvider :=
  providers.find? fun p => p.getTools.any fun td => td.name = toolName

end Aestival
