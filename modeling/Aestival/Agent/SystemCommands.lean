import Aestival.Agent.Controller
import Aestival.Agent.Plugins
import Aestival.EncodeUtils
import Aestival.Management.Registry

/-!
# System commands

`system_command_handler::handle` compares the normalized text of a message with one command after
the other. Commands that change what all users share ask `is_admin` first; the others answer
anybody. `handle` is the chain of comparisons, and each command is a function of its own.

The report of `usage` is left open: its text is made from the answer of the model's provider and
the statistics of the database, and nothing is changed by it.
-/

namespace Aestival

open Bytes

/-! ### Administrators -/

/-- `is_admin`. A private message is known by the openid of its user, every other one by its
sender; a direct message inside a guild may be known by either. -/
def isAdmin (msg : MessageEvent) (adminIds : List Bytes) : Bool :=
  -- an empty id is never an administrator's, also where the list has an empty entry
  let id := if msg.isPrivate && !msg.isGuild then msg.userOpenid else msg.senderId
  (id ≠ [] && id ∈ adminIds) ||
    (msg.isGuild && msg.isPrivate && msg.userOpenid ≠ [] && msg.userOpenid ∈ adminIds)

/-- The ids `is_admin` consults. -/
def consultedIds (msg : MessageEvent) : List Bytes :=
  if msg.isPrivate && !msg.isGuild then [msg.userOpenid]
  else if msg.isGuild && msg.isPrivate then [msg.senderId, msg.userOpenid]
  else [msg.senderId]

/-- A sender none of whose ids is listed is no administrator. -/
theorem isAdmin_eq_false {msg : MessageEvent} {adminIds : List Bytes}
    (h : ∀ id ∈ consultedIds msg, id ∉ adminIds) : isAdmin msg adminIds = false := by
  unfold consultedIds at h
  unfold isAdmin
  -- the two flags decide which ids are asked for
  cases hp : msg.isPrivate <;> cases hg : msg.isGuild <;> simp_all

/-! ### The state of the commands -/

/-- What `system_command_deps` gives the commands access to. `database` says whether
`conversations.db` exists; the registry and the plugin manager may be missing. -/
structure CommandState where
  mode : RuntimeMode := .agent
  contexts : ListStore := ListStore.empty
  database : Bool := true
  registry : Option Registry := none
  plugins : Option PluginManager := none

/-- The rest of `system_command_deps`, and how the surroundings answer: the result of self-iteration
where there is a callback for it, the report of `usage`, how launching an agent ends, whether the
plugin database takes a write. -/
structure CommandDeps where
  adminIds : List Bytes := []
  onStop : Bool := true
  onSelfIterate : Option (Bool → Bytes) := none
  usage : Bytes := []
  launch : Launch := fun _ => none
  writes : Bool := true

/-- What a command does besides changing the state. -/
inductive CommandEffect where
  | reply (content : Bytes)
  | onStop
  | onSelfIterate (dryRun : Bool)
  deriving DecidableEq, Repr

/-- The outcome of `handle`: its result, the state afterwards, and what was done in order. -/
structure CommandEnd where
  matched : Bool
  state : CommandState
  effects : List CommandEffect

/-- A command that only answers. -/
def answer (s : CommandState) (content : Bytes) : CommandEnd := ⟨true, s, [.reply content]⟩

/-- `if (!is_admin(…)) { reply("Permission denied."); return true; }` -/
def adminOnly (d : CommandDeps) (msg : MessageEvent) (s : CommandState) (command : CommandEnd) :
    CommandEnd :=
  if isAdmin msg d.adminIds then command else answer s (utf8 "Permission denied.")

/-! ### Modes, conversations, the process -/

def switchMode (v : Bytes) (s : CommandState) : CommandEnd :=
  if v = utf8 "agent" then answer { s with mode := .agent } (utf8 "Mode -> agent")
  else if v = utf8 "plugin" then answer { s with mode := .plugin } (utf8 "Mode -> plugin")
  else answer s (utf8 "Usage: switch mode plugin|agent")

def clearCommand (msg : MessageEvent) (s : CommandState) : CommandEnd :=
  answer { s with contexts := s.contexts.clearMessages (actorIdOf msg) } (utf8 "ok")

/-- An agent that is running or starting, if there is one. -/
def activeAgent (r : Registry) : Option Bytes :=
  (r.agents.entries.find? fun e => e.2.status.isActive).map (·.1)

def deleteDatabase (s : CommandState) : CommandEnd :=
  -- a registry that is missing has no active agents, so nothing holds the deletion up
  match s.registry.bind activeAgent with
  | some id =>
    answer s (utf8 "存在活跃 Agent ('" ++ id ++ utf8 "')，请先停止所有 Agent 后再删除数据库。")
  | none =>
    if s.database then
      answer { s with database := false } (utf8 "数据库已删除，请重启 Bot 以重建。")
    else answer s (utf8 "数据库文件不存在。")

def stopCommand (d : CommandDeps) (s : CommandState) : CommandEnd :=
  -- the callback may be unset; the reply comes first in either case
  ⟨true, s, .reply (utf8 "Shutting down...") :: if d.onStop then [.onStop] else []⟩

def selfIterate (d : CommandDeps) (dry : Bool) (s : CommandState) : CommandEnd :=
  match d.onSelfIterate with
  | some run =>
    let label := if dry then utf8 "评估(dry-run)" else []
    ⟨true, s, [.reply (utf8 "自迭代" ++ label ++ utf8 "运行中，请稍候..."), .onSelfIterate dry,
      .reply (run dry)]⟩
  | none => answer s (utf8 "自迭代模块未配置。")

/-! ### Agents -/

/-- `to_string`. -/
def AgentStatus.text : AgentStatus → Bytes
  | .stopped => utf8 "stopped"
  | .starting => utf8 "starting"
  | .running => utf8 "running"
  | .stopping => utf8 "stopping"
  | .error => utf8 "error"

def agentList (s : CommandState) : CommandEnd :=
  match s.registry with
  | none => answer s (utf8 "Agent 管理未启用。")
  | some r =>
    if r.agents.entries = [] then answer s (utf8 "无 Agent。")
    else answer s (utf8 "## Agent 列表\n\n| ID | 状态 |\n|----|------|\n" ++
      r.agents.entries.flatMap (fun e =>
        utf8 "| " ++ e.1 ++ utf8 " | " ++ e.2.status.text ++ utf8 " |\n") ++
      utf8 "\n共 " ++ utf8 (toString r.agents.entries.length) ++ utf8 " 个")

/-- The text of an exception of the registry. -/
def Failure.what : Failure → Bytes
  | .runtime what => what
  | _ => []

/-- `agent stop`, `agent start` and `agent remove`: an operation of the registry on the agent that
is named behind the command. -/
def agentCommand (verb done arg : Bytes)
    (op : Registry → Bytes → Registry × Except Failure Unit) (s : CommandState) : CommandEnd :=
  match s.registry with
  | none => answer s (utf8 "Agent 管理未启用。")
  | some r =>
    let id := trim arg
    if id = [] then answer s (utf8 "用法: agent " ++ verb ++ utf8 " <id>")
    else match op r id with
      | (r, .ok ()) =>
        answer { s with registry := some r } (utf8 "Agent '" ++ id ++ utf8 "' " ++ done)
      | (r, .error e) => answer { s with registry := some r } (utf8 "错误: " ++ e.what)

/-! ### Plugins -/

def pluginsDisabled (s : CommandState) : CommandEnd := answer s (utf8 "插件管理未启用。")

/-- The agent whose plugins the commands are about. -/
def commandAgent : Bytes := utf8 "default"

def pluginList (s : CommandState) : CommandEnd :=
  match s.plugins with
  | none => pluginsDisabled s
  | some m =>
    let (listed, m) := m.listPlugins commandAgent
    let s := { s with plugins := some m }
    if listed = [] then answer s (utf8 "当前无已注册插件。")
    else answer s (utf8 "## 插件状态\n\n| 名称 | 显示名 | 状态 | 说明 |\n" ++
      utf8 "|------|--------|------|------|\n" ++
      listed.flatMap (fun e => utf8 "| `" ++ e.1.name ++ utf8 "` | " ++ e.1.displayName ++
        utf8 " | " ++ (if e.2 then utf8 "✅ 启用" else utf8 "⛔ 禁用") ++ utf8 " | " ++
        e.1.description ++ utf8 " |\n") ++
      utf8 "\n管理员可用 `plugin enable <name>` / `plugin disable <name>` 切换。")

def noSuchPlugin (s : CommandState) (pname : Bytes) : CommandEnd :=
  answer s (utf8 "插件 '" ++ pname ++ utf8 "' 不存在。用 `plugin list` 查看可用插件。")

/-- `plugin enable` and `plugin disable`, of the plugin that is named behind the command. -/
def pluginToggle (d : CommandDeps) (enable : Bool) (arg : Bytes) (s : CommandState) : CommandEnd :=
  match s.plugins with
  | none => pluginsDisabled s
  | some m =>
    let pname := trim arg
    if pname = [] then
      -- the flag is that of the agent `default`
      answer s (utf8 "用法: plugin " ++ (if enable then utf8 "enable" else utf8 "disable") ++
        utf8 " <name>")
    else match m.findPlugin pname with
      | none => noSuchPlugin s pname
      | some _ =>
        if enable then
          answer { s with plugins := some (m.enablePluginForAgent d.writes pname commandAgent) }
            (utf8 "插件 '" ++ pname ++ utf8 "' 已启用。")
        else
          answer { s with plugins := some (m.disablePluginForAgent d.writes pname commandAgent) }
            (utf8 "插件 '" ++ pname ++ utf8 "' 已禁用。")

def pluginInfo (arg : Bytes) (s : CommandState) : CommandEnd :=
  match s.plugins with
  | none => pluginsDisabled s
  | some m =>
    let pname := trim arg
    if pname = [] then answer s (utf8 "用法: plugin info <name>")
    else match m.findPlugin pname with
      | none => noSuchPlugin s pname
      | some p =>
        let desc := p.descriptor
        answer s (utf8 "## " ++ desc.displayName ++
          utf8 "\n\n| 属性 | 值 |\n|------|----|\n| 名称 | `" ++ desc.name ++ utf8 "` |\n| 版本 | " ++
            desc.version ++ utf8 " |\n| 优先级 | " ++
          utf8 (toString p.priority) ++ utf8 " |\n| 默认启用 | " ++
          (if desc.defaultEnabled then utf8 "是" else utf8 "否") ++ utf8 " |\n\n" ++
          desc.description ++ utf8 "\n")

/-! ### The handler -/

/-- What stands behind the prefix of a command. -/
def afterPrefix (n pre : Bytes) : Option Bytes :=
  if pre.isPrefixOf n then some (n.drop pre.length) else none

/-- `system_command_handler::handle`, for the normalized text `n` of a message. -/
def handleCommand (d : CommandDeps) (n : Bytes) (msg : MessageEvent) (s : CommandState) :
    CommandEnd :=
  -- asking for the mode is for everybody, setting it for administrators
  if n = utf8 "switch mode" then answer s (utf8 "Current mode: " ++ s.mode.text) else
  if let some v := afterPrefix n (utf8 "switch mode ") then
    adminOnly d msg s (switchMode (trim v) s) else
  if n = utf8 "clear" then clearCommand msg s else
  if n = utf8 "usage" then answer s d.usage else
  if n = utf8 "delete database" then adminOnly d msg s (deleteDatabase s) else
  if n = utf8 "stop" then adminOnly d msg s (stopCommand d s) else
  if n = utf8 "self-iterate" then adminOnly d msg s (selfIterate d false s) else
  if n = utf8 "self-iterate dry-run" then adminOnly d msg s (selfIterate d true s) else
  if n = utf8 "agent list" then agentList s else
  if let some arg := afterPrefix n (utf8 "agent stop ") then
    adminOnly d msg s (agentCommand (utf8 "stop") (utf8 "已停止。") arg Registry.stopAgent s) else
  if let some arg := afterPrefix n (utf8 "agent start ") then
    adminOnly d msg s (agentCommand (utf8 "start") (utf8 "已启动。") arg
      (Registry.startAgent d.launch) s) else
  if let some arg := afterPrefix n (utf8 "agent remove ") then
    adminOnly d msg s
      (agentCommand (utf8 "remove") (utf8 "已移除。") arg Registry.removeAgent s) else
  if n = utf8 "plugin list" then pluginList s else
  if let some arg := afterPrefix n (utf8 "plugin enable ") then
    adminOnly d msg s (pluginToggle d true arg s) else
  if let some arg := afterPrefix n (utf8 "plugin disable ") then
    adminOnly d msg s (pluginToggle d false arg s) else
  if let some arg := afterPrefix n (utf8 "plugin info ") then pluginInfo arg s else
  -- no command: the message goes on to the plugins
  ⟨false, s, []⟩

/-- The text a message is compared with. -/
def normalizedCommand (msg : MessageEvent) : Bytes := toAsciiLower (trim msg.content)

end Aestival
