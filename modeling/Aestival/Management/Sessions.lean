import Aestival.Agent.SystemCommands
import Aestival.Library.Runs
import Aestival.Management.Reachable

/-!
# Sessions of the agents

Every agent instance owns a session with the platform, on a thread of its own. The operations of the
registry start and stop it, and it may be stopped behind the registry's back, by a chat command
that the controller of the agent handles. `SessionRegistry` is the registry together with the
session under each id; its operations do to the registry what those of `Registry` do.

The destructor of a session joins its thread without stopping it. So an operation that destroys a
running session never returns; the model records what is destroyed and goes on.
-/

namespace Aestival

open Bytes

/-! ### Sessions -/

/-- `session`, as far as it runs: `start` sets `running_`, `stop` clears it. -/
structure QqSession where
  running : Bool := false
  deriving DecidableEq, Repr

/-- `session::start`. -/
def QqSession.start (_ : QqSession) : QqSession := { running := true }

/-- `session::stop`. -/
def QqSession.stop (_ : QqSession) : QqSession := { running := false }

/-- How `build_agent` and `launch_agent` end: well, or with an exception, before the session is
stored or after it has been started. -/
inductive LaunchEnd where
  | started
  | notBuilt (what : Bytes)
  | startFailed (what : Bytes)
  deriving DecidableEq, Repr

def LaunchEnd.failure : LaunchEnd → Option Bytes
  | .started => none
  | .notBuilt what => some what
  | .startFailed what => some what

/-- How launching each agent ends. -/
abbrev Launches := AgentConfig → LaunchEnd

def Launches.launch (ends : Launches) : Launch := fun cfg => (ends cfg).failure

/-- The session of an instance after `build_agent` and `launch_agent`. Only agents of the platform
`qq` get that far. -/
def builtSession (ends : Launches) (cfg : AgentConfig) : Option QqSession :=
  -- the session is stored before it is started, so a start that fails leaves a session
  if cfg.platform = utf8 "qq" then
    match ends cfg with
    | .notBuilt _ => none
    | _ => some (QqSession.start {})
  else none

/-! ### The registry with its sessions -/

structure SessionRegistry where
  registry : Registry
  sessions : Bytes → Option QqSession := fun _ => none

/-- The controller asks the process to stop: the message is the command `stop` of an
administrator. -/
def AsksToStop (d : CommandDeps) (s : CommandState) (msg : MessageEvent) : Prop :=
  .onStop ∈ (handleCommand d (normalizedCommand msg) msg s).effects

instance (d : CommandDeps) (s : CommandState) (msg : MessageEvent) :
    Decidable (AsksToStop d s msg) :=
  inferInstanceAs (Decidable (_ ∈ _))

namespace SessionRegistry

/-- Whether the session of the agent is running. -/
def running (r : SessionRegistry) (id : Bytes) : Bool := (r.sessions id).any (·.running)

/-- `inst.im->stop()`, which stops the session. -/
def stopSession (r : SessionRegistry) (id : Bytes) : Bytes → Option QqSession :=
  Function.update r.sessions id ((r.sessions id).map QqSession.stop)

/-- What an operation leaves, its outcome, and the sessions it has destroyed. -/
structure OpEnd where
  left : SessionRegistry
  result : Except Failure Unit := .ok ()
  destroyed : List QqSession := []

/-- One agent of `start_all`. An instance that was stored under the id is destroyed. -/
def startOne (ends : Launches) (r : SessionRegistry) (ac : AgentConfig) : OpEnd :=
  if ac.enabled then
    -- `start_all` looks neither for an instance with this id nor at its session
    { left := ⟨r.registry.startOne ends.launch ac,
        Function.update r.sessions ac.id (builtSession ends ac)⟩
      destroyed := (r.sessions ac.id).toList }
  else { left := r }

/-- `start_all`, over the agents from some point on. -/
def startFrom (ends : Launches) : List AgentConfig → SessionRegistry → OpEnd
  | [], r => { left := r }
  | ac :: rest, r =>
    let first := startOne ends r ac
    let others := startFrom ends rest first.left
    { others with destroyed := first.destroyed ++ others.destroyed }

/-- `start_all`. -/
def startAll (ends : Launches) (cfg : BotConfig) (r : SessionRegistry) : OpEnd :=
  startFrom ends cfg.agents r

/-- `add_agent`. -/
def addAgent (ends : Launches) (r : SessionRegistry) (cfg : AgentConfig) : OpEnd :=
  let (registry, result) := r.registry.addAgent ends.launch cfg
  match r.registry.checkNewId cfg.id with
  | .error _ => { left := r, result }
  | .ok () =>
    { left := ⟨registry, Function.update r.sessions cfg.id (builtSession ends cfg)⟩, result }

/-- `remove_agent`. -/
def removeAgent (r : SessionRegistry) (id : Bytes) : OpEnd :=
  let (registry, result) := r.registry.removeAgent id
  match r.registry.getAgent id with
  | none => { left := r, result }
  | some inst =>
    -- an agent in the state `error` is not stopped before its session is destroyed
    let stopped := if inst.status.isActive then r.stopSession id else r.sessions
    { left := ⟨registry, Function.update stopped id none⟩, result
      destroyed := (stopped id).toList }

/-- The part of `start_agent` behind its checks: the old resources are reset, and the agent is built
and launched anew. -/
def relaunch (ends : Launches) (r : SessionRegistry) (id : Bytes) (inst : AgentInstance) : OpEnd :=
  let sessions := Function.update r.sessions id (builtSession ends inst.config)
  match buildAgent ends.launch inst.config with
  | none =>
    { left := ⟨r.registry.set id { inst with status := .starting, lastError := [] }, sessions⟩
      destroyed := (r.sessions id).toList }
  | some what =>
    { left := ⟨r.registry.set id { inst with status := .error, lastError := what }, sessions⟩
      result := .error (.runtime what)
      destroyed := (r.sessions id).toList }

/-- `start_agent`. -/
def startAgent (ends : Launches) (r : SessionRegistry) (id : Bytes) : OpEnd :=
  match r.registry.getAgent id with
  | none => { left := r, result := .error (Registry.notFound id) }
  | some inst =>
    match inst.status with
    -- by its status alone; the session is not asked
    | .running => { left := r }
    | .starting =>
      { left := r
        result := .error (.runtime (utf8 "agent '" ++ id ++ utf8 "' is already starting")) }
    | _ => relaunch ends r id inst

/-- `stop_agent`. -/
def stopAgent (r : SessionRegistry) (id : Bytes) : OpEnd :=
  let (registry, result) := r.registry.stopAgent id
  match r.registry.getAgent id with
  | none => { left := r, result }
  | some inst =>
    { left := ⟨registry, if inst.status.isActive then r.stopSession id else r.sessions⟩, result }

/-- `stop_all`: what `stop_agent` does, for every agent. -/
def stopAll (r : SessionRegistry) : SessionRegistry :=
  r.registry.agents.keys.foldl (fun r id => (r.stopAgent id).left) r

/-- `update_agent_config`. -/
def updateAgentConfig (r : SessionRegistry) (id : Bytes) (cfg : AgentConfig) : OpEnd :=
  let (registry, result) := r.registry.updateAgentConfig id cfg
  { left := ⟨registry, r.sessions⟩, result }

/-- The handler of `on_connect`, called by a session that has connected. -/
def connected (r : SessionRegistry) (id : Bytes) : SessionRegistry :=
  -- a session that was stopped does not connect any more
  if r.running id then { r with registry := r.registry.connected id } else r

/-- The controller of an agent handles a message; `on_stop` stops the session. -/
def message (r : SessionRegistry) (id : Bytes) (d : CommandDeps) (s : CommandState)
    (msg : MessageEvent) : SessionRegistry :=
  if AsksToStop d s msg then
    { r with sessions := r.stopSession id }
  else r

end SessionRegistry

/-! ### Runs -/

/-- What happens to the registry. -/
inductive LifecycleOp where
  | startAll (ends : Launches) (cfg : BotConfig)
  | stopAll
  | add (ends : Launches) (cfg : AgentConfig)
  | remove (id : Bytes)
  | start (ends : Launches) (id : Bytes)
  | stop (id : Bytes)
  | update (id : Bytes) (cfg : AgentConfig)
  | connected (id : Bytes)
  | message (id : Bytes) (d : CommandDeps) (s : CommandState) (msg : MessageEvent)

/-- What a step does. -/
def SessionRegistry.exec (r : SessionRegistry) : LifecycleOp → SessionRegistry.OpEnd
  | .startAll ends cfg => r.startAll ends cfg
  | .stopAll => { left := r.stopAll }
  | .add ends cfg => r.addAgent ends cfg
  | .remove id => r.removeAgent id
  | .start ends id => r.startAgent ends id
  | .stop id => r.stopAgent id
  | .update id cfg => r.updateAgentConfig id cfg
  | .connected id => { left := r.connected id }
  | .message id d s msg => { left := r.message id d s msg }

/-- The registry of a process, from its construction on. -/
def sessionRegistries : TransitionSystem SessionRegistry LifecycleOp where
  init r := ∃ configPath, r = { registry := ⟨∅, configPath⟩ }
  step r op r' := r' = (r.exec op).left

end Aestival
