import Aestival.Agent.PluginSpecs
import Aestival.Library.Runs

/-!
# Enabling and disabling plugins

An administrator disables a plugin with a message to an agent. `PluginHost` is the controller of one
agent beside the manager that all agents share, and a run interleaves the messages the controller
handles, the tools its turns execute, and what others do with the manager.

`Obeyed` says what the commands are for: between `plugin disable p` and the next command that
enables `p` the controller does not call `p`, and behind `plugin enable p` it can. A command is
lower-cased and trimmed, it is about the agent `default`, and tools are registered when a controller
is built; so this holds in runs whose commands are all `Effective` (`plugin_commands_obeyed`).
-/

namespace Aestival

open Bytes

/-! ### The host -/

/-- A controller, the manager of the process, and the providers of tools that were registered when
the controller was built. -/
structure PluginHost where
  mode : RuntimeMode := .agent
  contexts : ListStore := ListStore.empty
  database : Bool := true
  manager : PluginManager
  providers : List ToolProvider

/-- What a message meets: whether the policy lets it pass, the surroundings of the commands, and
how the plugins that are called end. -/
structure MessageEnv where
  allowed : Bool := true
  deps : CommandDeps := {}
  ends : Plugin → HandleEnd := fun _ => .returned true true false

/-- What `handle_message` did: the plugins that were called, and whether a turn was queued. -/
structure MessageEnd where
  host : PluginHost
  called : List Plugin := []
  enqueued : Bool := false

namespace PluginHost

/-- The constructor of `agent_controller`. -/
def build (agentId : Bytes) (m : PluginManager) (mcpClients : List (List ToolDefinition)) :
    PluginHost :=
  let (providers, m) := buildProviders m agentId mcpClients
  { manager := m, providers }

/-- The part the commands have access to. A controller gives them no registry. -/
def commandState (h : PluginHost) : CommandState where
  mode := h.mode
  contexts := h.contexts
  database := h.database
  registry := none
  plugins := some h.manager

def afterCommand (h : PluginHost) (s : CommandState) : PluginHost :=
  { h with
    mode := s.mode
    contexts := s.contexts
    database := s.database
    manager := s.plugins.getD h.manager }

/-- `agent_controller::handle_message`. -/
def handleMessage (h : PluginHost) (agentId : Bytes) (env : MessageEnv) (msg : MessageEvent) :
    MessageEnd :=
  if !env.allowed then { host := h }
  else
    -- system commands come first, also in the mode `plugin`
    let r := handleCommand env.deps (normalizedCommand msg) msg h.commandState
    let h := h.afterCommand r.state
    if r.matched then { host := h }
    else
      let out := h.manager.dispatchMessage msg agentId env.ends
      { host := { h with manager := out.manager }
        called := out.called
        -- a turn of the agent is queued only for what no plugin has handled
        enqueued := !out.handledAny && h.mode = .agent }

end PluginHost

/-! ### Events -/

/-- What happens to the host of an agent. Others (the management API, other controllers) toggle and
look up plugins of the manager, and the controller may be built anew. -/
inductive PluginEvent where
  | message (env : MessageEnv) (msg : MessageEvent)
  | toolCall (toolName : Bytes)
  | toggle (writes : Bool) (pluginName : Bytes) (enabled : Bool)
  | lookUp (pluginName agentId : Bytes)
  | rebuild (mcpClients : List (List ToolDefinition))

namespace PluginHost

def step (agentId : Bytes) (h : PluginHost) : PluginEvent → PluginHost
  | .message env msg => (h.handleMessage agentId env msg).host
  | .toolCall _ => h
  | .toggle writes pluginName true =>
    { h with manager := h.manager.enablePluginForAgent writes pluginName commandAgent }
  | .toggle writes pluginName false =>
    { h with manager := h.manager.disablePluginForAgent writes pluginName commandAgent }
  | .lookUp pluginName a => { h with manager := (h.manager.isPluginEnabled pluginName a).2 }
  | .rebuild mcpClients => build agentId h.manager mcpClients

/-- The plugins whose `handle` the controller calls. -/
def called (agentId : Bytes) (h : PluginHost) : PluginEvent → List Plugin
  | .message env msg => (h.handleMessage agentId env msg).called
  | _ => []

/-- The provider whose `execute_tool` the controller calls. -/
def executed (h : PluginHost) : PluginEvent → Option ToolProvider
  | .toolCall toolName => executingProvider h.providers toolName
  | _ => none

end PluginHost

/-- The host of an agent, from its construction on. -/
def pluginHosts (agentId : Bytes) (plugins : List Plugin) :
    TransitionSystem PluginHost PluginEvent where
  init h := ∃ db mcpClients, h = .build agentId ⟨plugins, db, ∅⟩ mcpClients
  step h e h' := h' = h.step agentId e

/-! ### Commands -/

/-- The message `plugin disable p` of an administrator is handled. -/
def PluginEvent.Disables (p : Plugin) : PluginEvent → Prop
  | .message env msg => env.allowed = true ∧ isAdmin msg env.deps.adminIds = true ∧
      msg.content = toggleText false p.name
  | _ => False

/-- The message `plugin enable p` of an administrator is handled, with these surroundings. -/
def PluginEvent.EnablesWith (p : Plugin) (d : CommandDeps) : PluginEvent → Prop
  | .message env msg => env.deps = d ∧ env.allowed = true ∧ isAdmin msg d.adminIds = true ∧
      msg.content = toggleText true p.name
  | _ => False

/-- The event enables the plugin `name`, by whatever way. -/
def PluginEvent.Enables (name : Bytes) : PluginEvent → Prop
  | .message env msg => env.allowed = true ∧
      CommandEnables env.deps (normalizedCommand msg) msg name
  | .toggle _ pluginName true => pluginName = name
  | _ => False

/-- The controller offers messages to `p`, and its tools are at hand. -/
structure PluginHost.Offers (agentId : Bytes) (p : Plugin) (h : PluginHost) : Prop where
  handle : agentId ≠ [] → h.manager.enabled p.name agentId = true
  tools : p.tools ≠ [] → .plugin p ∈ h.providers

/-- The commands about `p` have taken effect throughout the run. -/
structure Obeyed (agentId : Bytes) (p : Plugin) (tr : List (PluginHost × PluginEvent)) : Prop where
  disabled : ∀ pre h e mid h' e' post, tr = pre ++ (h, e) :: (mid ++ (h', e') :: post) →
    e.Disables p → (∀ x ∈ mid, ¬ x.2.Enables p.name) →
    p ∉ h'.called agentId e' ∧ h'.executed e' ≠ some (.plugin p)
  enabled : ∀ h e d, (h, e) ∈ tr → e.EnablesWith p d → (h.step agentId e).Offers agentId p

/-- No name of a tool leads to `p`. -/
def Unresolved (p : Plugin) (providers : List ToolProvider) : Prop :=
  ∀ toolName, executingProvider providers toolName ≠ some (.plugin p)

/-- The database has a row that disables `p` for another agent than the one of the commands. -/
def PluginManager.HasOwnRow (m : PluginManager) (agentId name : Bytes) : Prop :=
  agentId ≠ [] ∧ cStr agentId ≠ commandAgent ∧ ∃ db, m.configBackend = some db ∧
    db.agentPlugins (cStr agentId) (cStr name) = some false

/-- The commands about `p` reach the agent. For disabling, the agent is the one of the commands and
the name can be spelled, or the plugin is disabled for the agent anyway; and no tool of the plugin
is registered. For enabling, the agent is the one of the commands, the name can be spelled and the
database follows, or the plugin is enabled for the agent anyway; and the tools of the plugin, if
there are any, are registered. -/
structure Effective (agentId : Bytes) (p : Plugin) (h : PluginHost) (e : PluginEvent) : Prop where
  disable : e.Disables p →
    (agentId = commandAgent ∧ Typable p.name ∨ h.manager.HasOwnRow agentId p.name) ∧
      Unresolved p h.providers
  enable : ∀ d, e.EnablesWith p d →
    (agentId = commandAgent ∧ Typable p.name ∧ h.manager.Clears d.writes p.name ∨
      agentId = [] ∨ h.manager.enabled p.name agentId = true) ∧
      (p.tools ≠ [] → .plugin p ∈ h.providers)

/-! ### Steps -/

namespace PluginHost

variable {agentId : Bytes} {h : PluginHost} {p : Plugin}

/-- A message leaves the providers alone, and operates on the manager. If it calls plugins then its
text was no command, and the manager that dispatches it is the one before. -/
theorem handleMessage_cases (h : PluginHost) (agentId : Bytes) (env : MessageEnv)
    (msg : MessageEvent) :
    (h.handleMessage agentId env msg).host.providers = h.providers ∧
      (∃ ops, (h.handleMessage agentId env msg).host.manager = h.manager.execAll ops ∧
        ∀ w q, .enable w q ∈ ops → (PluginEvent.message env msg).Enables q) ∧
      ((h.handleMessage agentId env msg).called = [] ∨
        (h.handleMessage agentId env msg).called =
          (h.manager.dispatchMessage msg agentId env.ends).called) := by
  rw [handleMessage]
  split
  · exact ⟨rfl, ⟨[], rfl, by simp⟩, .inl rfl⟩
  · next hallowed =>
    have hcommand := operates_handleCommand (d := env.deps) (s := h.commandState)
      (m := h.manager) rfl (normalizedCommand msg) msg
    rcases hcommand with hnone | ⟨hmatched, ops, hops, henables⟩
    -- no command: the message is dispatched, and that only looks plugins up
    · rw [hnone]
      obtain ⟨ops, hops, hm⟩ :=
        dispatchFrom_eq_execAll msg agentId env.ends h.manager.plugins h.manager
      refine ⟨rfl, ⟨ops, hm, fun w q hq => ?_⟩, .inr rfl⟩
      obtain ⟨q', hq'⟩ := hops _ hq
      exact nomatch hq'
    -- a command: it operates on the manager, and no plugin is called
    · dsimp only
      rw [hmatched, if_pos rfl]
      refine ⟨rfl, ⟨ops, ?_, fun w q hq => ⟨by simpa using hallowed, henables w q hq⟩⟩, .inl rfl⟩
      rw [afterCommand]
      dsimp only
      rw [hops, Option.getD_some]

/-- What a step does with the manager. -/
theorem manager_step (agentId : Bytes) (h : PluginHost) (e : PluginEvent) :
    ∃ ops, (h.step agentId e).manager = h.manager.execAll ops ∧
      ∀ w q, .enable w q ∈ ops → e.Enables q := by
  cases e with
  | message env msg => exact (h.handleMessage_cases agentId env msg).2.1
  | toolCall toolName => exact ⟨[], rfl, by simp⟩
  | toggle w q enabled =>
    cases enabled with
    | true =>
      refine ⟨[.enable w q], rfl, fun w' q' hq => ?_⟩
      exact (ManagerOp.enable.inj (List.mem_singleton.mp hq)).2.symm
    | false => exact ⟨[.disable w q], rfl, by simp⟩
  | lookUp q a => exact ⟨[.lookUp q a], rfl, by simp⟩
  | rebuild mcpClients =>
    -- the constructor looks up every plugin before it registers tools
    refine ⟨h.manager.plugins.map fun p => .lookUp p.name agentId, ?_, by simp⟩
    exact registerFrom_eq_execAll agentId h.manager.plugins h.manager

theorem plugins_step (agentId : Bytes) (h : PluginHost) (e : PluginEvent) :
    (h.step agentId e).manager.plugins = h.manager.plugins := by
  obtain ⟨ops, hops, -⟩ := manager_step agentId h e
  rw [hops, PluginManager.plugins_execAll]

/-! ### Between disabling and enabling -/

/-- The controller neither calls `p` nor executes its tools. -/
structure Silent (agentId : Bytes) (p : Plugin) (h : PluginHost) : Prop where
  agent : agentId ≠ []
  blocks : h.manager.Blocks agentId p.name
  tools : Unresolved p h.providers

theorem Silent.notMem_called (hs : Silent agentId p h) (e : PluginEvent) :
    p ∉ h.called agentId e ∧ h.executed e ≠ some (.plugin p) := by
  cases e with
  -- a message is dispatched or is a command
  | message env msg =>
    refine ⟨?_, nofun⟩
    rw [called]
    rcases (h.handleMessage_cases agentId env msg).2.2 with hcalled | hcalled
    · rw [hcalled]
      exact List.not_mem_nil
    · rw [hcalled]
      exact Aestival.notMem_called hs.agent _ hs.blocks
  -- a tool call asks one plugin
  | toolCall toolName => exact ⟨List.not_mem_nil, hs.tools toolName⟩
  | toggle => exact ⟨List.not_mem_nil, nofun⟩
  | lookUp => exact ⟨List.not_mem_nil, nofun⟩
  | rebuild => exact ⟨List.not_mem_nil, nofun⟩

theorem blocks_step (hb : h.manager.Blocks agentId p.name) {e : PluginEvent}
    (he : ¬ e.Enables p.name) : (h.step agentId e).manager.Blocks agentId p.name := by
  obtain ⟨ops, hops, henables⟩ := manager_step agentId h e
  rw [hops]
  -- a step that does not enable `p` is made of operations that do not
  refine PluginManager.execAll_induction (I := fun m => m.Blocks agentId p.name)
    (P := fun op => ∀ w, op ≠ .enable w p.name) (fun m op hop hm => hm.exec hop) ?_ hb
  rintro op hop w rfl
  exact he (henables w p.name hop)

/-- A blocked plugin gets no tools registered when the controller is built anew. -/
theorem unresolved_build {m : PluginManager} (hb : m.Blocks agentId p.name)
    (mcpClients : List (List ToolDefinition)) :
    Unresolved p (build agentId m mcpClients).providers := by
  intro toolName hfind
  have hmem := List.mem_of_find?_eq_some hfind
  -- the providers of MCP servers are never `p`
  rcases List.mem_append.mp hmem with hmem | hmem
  · exact notMem_registerFrom m.plugins hb hmem
  · obtain ⟨offered, -, heq⟩ := List.mem_map.mp hmem
    exact nomatch heq

/-- **Silence lasts until the plugin is enabled.** -/
theorem Silent.step (hs : Silent agentId p h) {e : PluginEvent} (he : ¬ e.Enables p.name) :
    Silent agentId p (h.step agentId e) := by
  -- providers change only when the controller is built anew
  refine ⟨hs.agent, blocks_step hs.blocks he, ?_⟩
  cases e with
  | message env msg =>
    rw [PluginHost.step, (h.handleMessage_cases agentId env msg).1]
    exact hs.tools
  | toolCall => exact hs.tools
  | toggle w q enabled => cases enabled <;> exact hs.tools
  | lookUp => exact hs.tools
  | rebuild mcpClients => exact unresolved_build hs.blocks mcpClients

/-! ### The effect of the commands -/

/-- The command for a name it can spell does what it says. -/
theorem manager_of_toggle {env : MessageEnv} {msg : MessageEvent} {enable : Bool}
    (hp : p ∈ h.manager.plugins) (hallowed : env.allowed = true)
    (hadmin : isAdmin msg env.deps.adminIds = true) (hname : Typable p.name)
    (hcontent : msg.content = toggleText enable p.name) :
    (h.handleMessage agentId env msg).host.manager = h.manager.exec
      (if enable then .enable env.deps.writes p.name else .disable env.deps.writes p.name) := by
  have hplugins : h.commandState.plugins = some h.manager := rfl
  obtain ⟨hmatched, hstate⟩ := pluginToggle_of_mem (d := env.deps) hplugins hp hname enable
  rw [handleMessage, hallowed]
  dsimp only
  -- the name stands in the command as it is
  rw [normalized_of_typable hcontent hname, handleCommand_toggleText, adminOnly, if_pos hadmin,
    hmatched]
  rw [afterCommand]
  dsimp only
  rw [hstate]
  rfl

theorem not_enables_of_disables {e : PluginEvent} (he : e.Disables p) (name : Bytes) :
    ¬ e.Enables name := by
  cases e with
  | message env msg =>
    rintro ⟨-, -, arg, harg, -⟩
    rcases normalized_toggle_cases he.2.2 with hn | ⟨arg', hn⟩
    · rw [hn] at harg
      exact nomatch harg
    · rw [hn] at harg
      exact nomatch harg
  | toolCall => exact he.elim
  | toggle => exact he.elim
  | lookUp => exact he.elim
  | rebuild => exact he.elim

/-- **An effective command silences the plugin.** -/
theorem silent_of_disables {e : PluginEvent} (hp : p ∈ h.manager.plugins) (he : e.Disables p)
    (heff : Effective agentId p h e) : Silent agentId p (h.step agentId e) := by
  obtain ⟨hcond, htools⟩ := heff.disable he
  have hno := not_enables_of_disables he p.name
  cases e with
  | message env msg =>
    have hproviders : Unresolved p (h.step agentId (.message env msg)).providers := by
      rw [step, (h.handleMessage_cases agentId env msg).1]
      exact htools
    obtain ⟨hallowed, hadmin, hcontent⟩ := he
    rcases hcond with ⟨rfl, hname⟩ | ⟨hagent, hcstr, hrow⟩
    -- the agent of the commands: the cache has the plugin now
    · refine ⟨by decide, ?_, hproviders⟩
      rw [step, manager_of_toggle hp hallowed hadmin hname hcontent]
      exact .inl ⟨rfl, Finset.mem_insert_self _ _⟩
    -- another agent: it is blocked by a row from before, which the command does not touch
    · exact ⟨hagent, blocks_step (.inr ⟨hcstr, hrow⟩) hno, hproviders⟩
  | toolCall => exact he.elim
  | toggle => exact he.elim
  | lookUp => exact he.elim
  | rebuild => exact he.elim

/-- A plugin that is enabled for the agent stays so under a command that enables something. -/
theorem enabled_of_enabled {env : MessageEnv} {msg : MessageEvent} {name : Bytes}
    (hon : h.manager.enabled p.name agentId = true)
    (hcontent : msg.content = toggleText true name) :
    (h.handleMessage agentId env msg).host.manager.enabled p.name agentId = true := by
  rw [handleMessage]
  split
  -- the plugin handles the message, and no flag changes
  · exact hon
  -- the mention is cut off, with or without the command
  rcases normalized_toggle_cases hcontent with hn | ⟨arg, hn⟩
  · -- the text is cut down to no command, and is dispatched
    rw [hn, handleCommand_toggleWords]
    obtain ⟨ops, hops, hm⟩ :=
      dispatchFrom_eq_execAll msg agentId env.ends h.manager.plugins h.manager
    show (dispatchFrom msg agentId env.ends h.manager.plugins h.manager).manager.enabled
      p.name agentId = true
    rw [hm]
    refine PluginManager.execAll_induction (I := fun m => m.enabled p.name agentId = true)
      (P := fun op => ∃ q, op = .lookUp q agentId) ?_ hops hon
    rintro m op ⟨q, rfl⟩ hm
    exact PluginManager.enabled_lookUp hm q
  -- the command is an admin's, and enables
  · rw [hn, handleCommand_toggleText, adminOnly]
    split
    · have hplugins : h.commandState.plugins = some h.manager := rfl
      obtain ⟨hmatched, hstate⟩ := pluginToggle_enable_cases (d := env.deps) hplugins arg
      dsimp only
      rw [hmatched, if_pos rfl, afterCommand]
      dsimp only
      rcases hstate with hstate | hstate
      · rw [hstate]
        exact hon
      · rw [hstate]
        exact PluginManager.enabled_enable hon env.deps.writes (trim arg)
    · exact hon

/-- **An effective command makes the plugin available.** -/
theorem offers_of_enables {e : PluginEvent} {d : CommandDeps} (hp : p ∈ h.manager.plugins)
    (he : e.EnablesWith p d) (heff : Effective agentId p h e) :
    (h.step agentId e).Offers agentId p := by
  obtain ⟨hcond, htools⟩ := heff.enable d he
  cases e with
  | message env msg =>
    obtain ⟨rfl, hallowed, hadmin, hcontent⟩ := he
    refine ⟨fun hagent => ?_, fun hne => ?_⟩
    -- the agent is that of the command, or the flag is on already
    · rcases hcond with ⟨rfl, hname, hclears⟩ | hnil | hon
      · rw [step, manager_of_toggle hp hallowed hadmin hname hcontent]
        exact PluginManager.enabled_of_enable hclears
      · exact absurd hnil hagent
      · exact enabled_of_enabled hon hcontent
    · rw [step, (h.handleMessage_cases agentId env msg).1]
      exact htools hne
  | toolCall => exact he.elim
  | toggle => exact he.elim
  | lookUp => exact he.elim
  | rebuild => exact he.elim

end PluginHost

/-! ### Runs -/

/-- The plugins of the process are the ones it was started with. -/
theorem plugins_of_run {agentId : Bytes} {plugins : List Plugin}
    {tr : List (PluginHost × PluginEvent)} {h : PluginHost}
    (hrun : (pluginHosts agentId plugins).Run tr h) : h.manager.plugins = plugins := by
  refine hrun.invariant (I := fun h => h.manager.plugins = plugins) ?_ ?_
  · rintro h ⟨db, mcpClients, rfl⟩
    show (registerFrom agentId plugins ⟨plugins, db, ∅⟩).2.plugins = plugins
    rw [registerFrom_eq_execAll, PluginManager.plugins_execAll]
  · rintro h e h' hplugins rfl
    rw [PluginHost.plugins_step, hplugins]

/-- **Commands about plugins are obeyed** in every run in which they are effective. -/
theorem plugin_commands_obeyed {agentId : Bytes} {plugins : List Plugin} {p : Plugin}
    (hp : p ∈ plugins) {tr : List (PluginHost × PluginEvent)} {h : PluginHost}
    (hrun : (pluginHosts agentId plugins).Run tr h)
    (heff : ∀ x ∈ tr, Effective agentId p x.1 x.2) : Obeyed agentId p tr where
  disabled := by
    rintro pre h₁ e₁ mid h₂ e₂ post rfl hdis hno
    -- silent behind the command, and kept so by everything between the two events
    have hsilent : h₂.Silent agentId p := by
      rw [← List.cons_append, ← List.append_assoc] at hrun
      refine hrun.upTo.since (I := PluginHost.Silent agentId p) ?_ ?_
      · rintro h' rfl
        have hmem : p ∈ h₁.manager.plugins := by
          rw [List.append_assoc, List.cons_append] at hrun
          rwa [plugins_of_run hrun.upTo]
        exact PluginHost.silent_of_disables hmem hdis (heff (h₁, e₁) (by simp))
      · rintro y hy h' hs rfl
        exact hs.step (hno y hy)
    exact hsilent.notMem_called e₂
  enabled := by
    intro h₁ e₁ d hmem hen
    obtain ⟨pre, post, rfl⟩ := List.append_of_mem hmem
    have hplugins : p ∈ h₁.manager.plugins := by rwa [plugins_of_run hrun.upTo]
    exact PluginHost.offers_of_enables hplugins hen (heff _ hmem)

/-! ### Two agents -/

/-- A plugin without tools is never executed. -/
theorem unresolved_of_tools_nil {p : Plugin} (h : p.tools = []) (providers : List ToolProvider) :
    Unresolved p providers := by
  intro toolName hfind
  have hany := List.find?_some hfind
  rw [ToolProvider.getTools, h] at hany
  exact Bool.false_ne_true hany

/-- An administrator writes to the agent in private. -/
def adminSays (content : Bytes) : PluginEvent :=
  .message { deps := { adminIds := [utf8 "admin"] } }
    { isPrivate := true, userOpenid := utf8 "admin", content }

/-- The controller of an agent in a process that was just started. -/
def freshHost (agentId : Bytes) : PluginHost := .build agentId ⟨mainPlugins, some {}, ∅⟩ []

/-- `plugin disable simple_test`, and then a message this plugin handles. -/
def disabledThenPinged (agentId : Bytes) : List (PluginHost × PluginEvent) :=
  let disable := adminSays (toggleText false simpleTestPlugin.name)
  [(freshHost agentId, disable),
    ((freshHost agentId).step agentId disable, adminSays (utf8 "ping"))]

theorem run_disabledThenPinged (agentId : Bytes) :
    ∃ h, (pluginHosts agentId mainPlugins).Run (disabledThenPinged agentId) h := by
  have hstart : (pluginHosts agentId mainPlugins).Run [] (freshHost agentId) :=
    .start ⟨some {}, [], rfl⟩
  exact ⟨_, (hstart.step rfl).step rfl⟩

/-- The agent `default` obeys. -/
theorem plugin_commands_obeyed_default :
    Obeyed (utf8 "default") simpleTestPlugin (disabledThenPinged (utf8 "default")) := by
  obtain ⟨h, hrun⟩ := run_disabledThenPinged (utf8 "default")
  refine plugin_commands_obeyed (by simp [mainPlugins]) hrun fun x hx => ?_
  have hname : Typable simpleTestPlugin.name := ⟨by decide, by decide, by decide⟩
  have hnone : ∀ d content, content ≠ toggleText true simpleTestPlugin.name →
      ¬ (adminSays content).EnablesWith simpleTestPlugin d :=
    fun _ _ hne hen => hne hen.2.2.2
  rcases List.mem_cons.mp hx with rfl | hx
  · refine ⟨fun _ => ⟨.inl ⟨rfl, hname⟩, unresolved_of_tools_nil rfl _⟩, fun d hen => ?_⟩
    exact absurd hen (hnone d _ (by decide))
  · obtain rfl := List.mem_singleton.mp hx
    refine ⟨fun hdis => absurd hdis.2.2 (by decide), fun d hen => ?_⟩
    exact absurd hen (hnone d _ (by decide))

/-- Another agent answers as if nothing had been said. -/
theorem plugin_disable_ignored :
    ∃ tr h, (pluginHosts (utf8 "bot1") mainPlugins).Run tr h ∧
      ¬ Obeyed (utf8 "bot1") simpleTestPlugin tr := by
  obtain ⟨h, hrun⟩ := run_disabledThenPinged (utf8 "bot1")
  refine ⟨_, h, hrun, fun hobeyed => ?_⟩
  obtain ⟨hcalled, -⟩ := hobeyed.disabled [] _ _ [] _ _ [] rfl ⟨rfl, by decide, rfl⟩
    fun x hx => absurd hx List.not_mem_nil
  -- `simple_test` answers, since it was disabled for the agent `default` only
  have hping : PluginHost.called (utf8 "bot1")
      ((freshHost (utf8 "bot1")).step (utf8 "bot1")
        (adminSays (toggleText false simpleTestPlugin.name))) (adminSays (utf8 "ping")) =
      [simpleTestPlugin] := by rfl
  rw [hping] at hcalled
  exact hcalled (List.mem_singleton_self _)

end Aestival
