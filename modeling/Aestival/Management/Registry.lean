import Aestival.Config.RoundTrip
import Mathlib.Data.List.AList

/-!
# The agent registry

`agent_registry` owns the agent instances of the process. It is filled once by `startAll`; the
management API adds, removes, starts, stops and reconfigures single agents, and after each of these
operations `persist` rewrites the configuration file from the instances in memory.

Every operation returns the registry it leaves behind together with its outcome, because an
operation that throws may have changed the registry before: `addAgent` keeps an agent that could
not be built, in the state `error`. What building and launching an agent ends with is not decided
here but by a `Launch`.
-/

namespace Aestival

open Bytes Json

/-! ### Instances -/

/-- `agent_status`. -/
inductive AgentStatus where
  | stopped
  | starting
  | running
  | stopping
  | error
  deriving DecidableEq, Repr

/-- The agent is running or about to. -/
def AgentStatus.isActive (s : AgentStatus) : Bool := s = .running || s = .starting

/-- What the registry keeps of an `agent_instance`. -/
structure AgentInstance where
  config : AgentConfig
  status : AgentStatus := .stopped
  lastError : Bytes := []
  deriving DecidableEq, Repr

/-- How setting up a session, a model client and a database for an agent and starting it ends: with
the text of an exception, or well. -/
abbrev Launch := AgentConfig → Option Bytes

/-- `build_agent` and `launch_agent`: the text of the exception, if one is thrown. -/
def buildAgent (launch : Launch) (cfg : AgentConfig) : Option Bytes :=
  if cfg.platform = utf8 "console" then
    some (utf8 "console agents are not supported via registry yet — use --console flag")
  else if cfg.platform ≠ utf8 "qq" then
    some (utf8 "unsupported platform: '" ++ cfg.platform ++ utf8 "'")
  else launch cfg

/-! ### The registry -/

/-- `agent_registry`: the instances by id, and the path `persist` writes to. -/
structure Registry where
  agents : AList fun _ : Bytes => AgentInstance
  configPath : Bytes
  deriving DecidableEq

namespace Registry

/-- `agents_[id] = inst`. -/
def set (r : Registry) (id : Bytes) (inst : AgentInstance) : Registry :=
  { r with agents := r.agents.insert id inst }

/-- `get_agent`. -/
def getAgent (r : Registry) (id : Bytes) : Option AgentInstance := r.agents.lookup id

/-- The configurations of all instances, in the order of the map. -/
def configs (r : Registry) : List AgentConfig := r.agents.entries.map fun e => e.2.config

def notFound (id : Bytes) : Failure := .runtime (utf8 "agent '" ++ id ++ utf8 "' not found")

/-- One agent of `start_all`: disabled agents are skipped, failed ones are kept. -/
def startOne (launch : Launch) (r : Registry) (ac : AgentConfig) : Registry :=
  if ac.enabled then
    match buildAgent launch ac with
    | none => r.set ac.id { config := ac, status := .starting }
    | some what => r.set ac.id { config := ac, status := .error, lastError := what }
  else r

/-- `start_all`. -/
def startAll (launch : Launch) (configPath : Bytes) (cfg : BotConfig) : Registry :=
  cfg.agents.foldl (startOne launch) ⟨∅, configPath⟩

/-- The characters of an agent id. -/
def isIdChar (c : UInt8) : Bool :=
  (97 ≤ c && c ≤ 122) || (65 ≤ c && c ≤ 90) || (48 ≤ c && c ≤ 57) || c = 95 || c = 45

/-- The checks of `add_agent`, in the order they are made. -/
def checkNewId (r : Registry) (id : Bytes) : Except Failure Unit :=
  if id = [] then .error (.runtime (utf8 "agent id must not be empty"))
  else match List.find? (fun c => !isIdChar c) id with
    | some c => .error (.runtime (utf8 "agent id contains invalid character: " ++ [c]))
    | none =>
      if Bytes.contains id (utf8 "..") then
        .error (.runtime (utf8 "agent id must not contain path traversal"))
      else if id.length > 64 then .error (.runtime (utf8 "agent id too long (max 64)"))
      else if id ∈ r.agents then
        .error (.runtime (utf8 "agent '" ++ id ++ utf8 "' already exists"))
      else .ok ()

/-- `add_agent`. -/
def addAgent (launch : Launch) (r : Registry) (cfg : AgentConfig) :
    Registry × Except Failure Unit :=
  match r.checkNewId cfg.id with
  | .error e => (r, .error e)
  | .ok () =>
    match buildAgent launch cfg with
    | none => (r.set cfg.id { config := cfg, status := .starting }, .ok ())
    | some what =>
      -- the agent stays in the map, and the exception is thrown again
      (r.set cfg.id { config := cfg, status := .error, lastError := what },
        .error (.runtime what))

/-- `remove_agent`. -/
def removeAgent (r : Registry) (id : Bytes) : Registry × Except Failure Unit :=
  match r.getAgent id with
  | none => (r, .error (notFound id))
  | some _ => ({ r with agents := r.agents.erase id }, .ok ())

/-- `start_agent`. -/
def startAgent (launch : Launch) (r : Registry) (id : Bytes) : Registry × Except Failure Unit :=
  match r.getAgent id with
  | none => (r, .error (notFound id))
  | some inst =>
    match inst.status with
    -- a running agent is left alone
    | .running => (r, .ok ())
    | .starting =>
      (r, .error (.runtime (utf8 "agent '" ++ id ++ utf8 "' is already starting")))
    -- an agent that cannot be built keeps the reason
    | _ =>
      match buildAgent launch inst.config with
      | none => (r.set id { inst with status := .starting, lastError := [] }, .ok ())
      | some what =>
        (r.set id { inst with status := .error, lastError := what }, .error (.runtime what))

/-- `stop_agent`. -/
def stopAgent (r : Registry) (id : Bytes) : Registry × Except Failure Unit :=
  match r.getAgent id with
  | none => (r, .error (notFound id))
  | some inst =>
    if inst.status.isActive then (r.set id { inst with status := .stopped }, .ok ())
    else (r, .ok ())

/-- `update_agent_config`. -/
def updateAgentConfig (r : Registry) (id : Bytes) (cfg : AgentConfig) :
    Registry × Except Failure Unit :=
  match r.getAgent id with
  | none => (r, .error (notFound id))
  | some inst =>
    if inst.status.isActive then
      (r, .error (.runtime
        (utf8 "agent '" ++ id ++ utf8 "' must be stopped before updating config")))
    else (r.set id { inst with config := cfg }, .ok ())

/-- The session of the agent has connected. -/
def connected (r : Registry) (id : Bytes) : Registry :=
  match r.getAgent id with
  | none => r
  | some inst => r.set id { inst with status := .running }

/-- What `persist` serializes. -/
def botConfig (r : Registry) (global : GlobalConfig) : BotConfig :=
  { agents := r.configs, global }

/-- `persist`: the file afterwards, and the exception if there is one. -/
def persist (opens : Bool) (r : Registry) (file : Text) (global : GlobalConfig) :
    Text × Except Failure Unit :=
  saveBotConfig r.configPath opens file (r.botConfig global)

end Registry

end Aestival
