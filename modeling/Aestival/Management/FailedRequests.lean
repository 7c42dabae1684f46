import Aestival.Management.ApiRoutes
import Aestival.Management.FileLoadable

/-!
# Requests that fail

A request that is answered with an error should leave the agents, their configurations and the
configuration file alone (`FailsUnchanged`). A handler checks first, and a check that fails leaves
everything alone. There are two later points at which it can throw:

* `add_agent` keeps an agent that cannot be built or launched, in the state `error`, and throws on;
* `persist` runs behind the operation, which is not taken back when it throws.

`failed_request` is what holds of every request: nothing has changed, or it failed at one of these
points. `failed_requests_change` is a request for each of them.
-/

namespace Aestival

open Bytes Json

/-! ### What should hold -/

/-- The configuration that is registered under an id. -/
def Registry.configOf (r : Registry) (id : Bytes) : Option AgentConfig :=
  (r.getAgent id).map AgentInstance.config

/-- The same agents with the same configurations, and the same file. -/
structure Unchanged (s s' : Server) : Prop where
  configs : s'.registry.configOf = s.registry.configOf
  file : s'.file = s.file

/-- If the request is answered with an error, nothing has changed. -/
def FailsUnchanged (b : Bot) (env : BotSurroundings) (req : ApiRequest) : Prop :=
  ∀ status, (b.handle env req).2 = some status → 400 ≤ status →
    Unchanged b.server (b.handle env req).1.server

/-! ### What holds -/

/-- The operation of the request succeeds, and `after` is what it registers under `id`. -/
def CarriedOut (s : Server) (env : Surroundings) : Request → Bytes → Option AgentConfig → Prop
  | .create body, id, after =>
    ∃ cfg, (parseBody body >>= createConfig) = .ok cfg ∧ s.registry.checkNewId cfg.id = .ok () ∧
      buildAgent env.launch cfg = none ∧ id = cfg.id ∧ after = some cfg
  -- only an idle agent is edited
  | .config id' body, id, after =>
    id = id' ∧ ∃ inst cfg, s.registry.getAgent id = some inst ∧ inst.status.isActive = false ∧
      (parseBody body >>= editConfig inst.config) = .ok cfg ∧ after = some cfg
  -- starting a running agent succeeds, and does nothing
  | .start id', id, after =>
    id = id' ∧ ∃ inst, s.registry.getAgent id = some inst ∧
      (inst.status = .running ∨
        inst.status ≠ .starting ∧ buildAgent env.launch inst.config = none) ∧
      after = some inst.config
  | .stop id', id, after =>
    id = id' ∧ ∃ inst, s.registry.getAgent id = some inst ∧ after = some inst.config
  | .remove id', id, after => id = id' ∧ id ∈ s.registry.agents ∧ after = none

/-- The process behind a request that was answered with an error. -/
inductive FailedEnd (s : Server) (env : Surroundings) (req : ApiRequest) (s' : Server) : Prop
  | unchanged (h : Unchanged s s')
  /-- A new agent passed the checks and could not be launched. It stays. -/
  | notLaunched {body : Text} {cfg : AgentConfig} {what : Bytes}
      (hroute : req.route = .ok (.change (.create body)))
      (hparsed : (parseBody body >>= createConfig) = .ok cfg)
      (hnew : s.registry.checkNewId cfg.id = .ok ())
      (hbuild : buildAgent env.launch cfg = some what)
      (hkept : s'.registry = s.registry.set cfg.id ⟨cfg, .error, what⟩)
      (hfile : s'.file = s.file)
  /-- The operation was carried out, and then `persist` could not open the file, which is as before,
  or found a text that is not UTF-8. -/
  | notPersisted {q : Request} {id : Bytes} {after : Option AgentConfig}
      (hroute : req.route = .ok (.change q))
      (hdone : CarriedOut s env q id after)
      (hconfigs : s'.registry.configOf = Function.update s.registry.configOf id after)
      (hwrite : env.opens = false ∧ s'.file = s.file ∨
        env.opens = true ∧ ¬ (s'.registry.botConfig s.global).Utf8)

/-! ### The operations -/

namespace Registry

variable {r : Registry} {id : Bytes} {inst : AgentInstance}

@[simp] theorem configOf_set :
    (r.set id inst).configOf = Function.update r.configOf id (some inst.config) := by
  funext id'
  by_cases hid : id' = id
  · subst hid
    rw [Function.update_self, configOf, getAgent_set_self, Option.map_some]
  · rw [Function.update_of_ne hid, configOf, getAgent_set_of_ne hid, configOf]

theorem configOf_erase :
    configOf { r with agents := r.agents.erase id } = Function.update r.configOf id none := by
  funext id'
  by_cases hid : id' = id
  · subst hid
    rw [Function.update_self]
    exact Option.map_eq_none_iff.mpr (AList.lookup_erase id' r.agents)
  · rw [Function.update_of_ne hid]
    exact congrArg (Option.map AgentInstance.config) (AList.lookup_erase_ne hid)

/-- Storing an instance with the configuration that is registered. -/
theorem configOf_set_of_getAgent {inst' : AgentInstance} (hget : r.getAgent id = some inst)
    (hconfig : inst'.config = inst.config) : (r.set id inst').configOf = r.configOf := by
  rw [configOf_set, hconfig]
  refine Function.update_eq_self_iff.mpr ?_
  rw [configOf, hget, Option.map_some]

/-- Registering what is registered. -/
theorem update_configOf (hget : r.getAgent id = some inst) :
    Function.update r.configOf id (some inst.config) = r.configOf := by
  rw [← configOf_set, configOf_set_of_getAgent hget rfl]

end Registry

/-- How the part of a handler before `persist` ends. -/
inductive ApplyEnd (s : Server) (env : Surroundings) (q : Request) :
    Registry × Except Failure Unit → Prop
  | refused {r : Registry} {e : Failure} (hconfigs : r.configOf = s.registry.configOf) :
      ApplyEnd s env q (r, .error e)
  | notLaunched {body : Text} {cfg : AgentConfig} {what : Bytes} (hq : q = .create body)
      (hparsed : (parseBody body >>= createConfig) = .ok cfg)
      (hnew : s.registry.checkNewId cfg.id = .ok ())
      (hbuild : buildAgent env.launch cfg = some what) :
      ApplyEnd s env q (s.registry.set cfg.id ⟨cfg, .error, what⟩, .error (.runtime what))
  | done {r : Registry} {id : Bytes} {after : Option AgentConfig}
      (hdone : CarriedOut s env q id after)
      (hconfigs : r.configOf = Function.update s.registry.configOf id after) :
      ApplyEnd s env q (r, .ok ())

section Operations

variable (s : Server) (env : Surroundings)

theorem applyEnd_create (body : Text) :
    ApplyEnd s env (.create body) ((Request.create body).apply env.launch s.registry) := by
  -- first the body, then the id, then the launch
  rw [Request.apply]
  split
  · exact .refused rfl
  next cfg hparsed =>
  rw [Registry.addAgent]
  split
  · exact .refused rfl
  next hnew =>
  split
  · next hbuild =>
    exact .done ⟨cfg, hparsed, hnew, hbuild, rfl, rfl⟩ Registry.configOf_set
  · next what hbuild => exact .notLaunched rfl hparsed hnew hbuild

theorem applyEnd_config (id : Bytes) (body : Text) :
    ApplyEnd s env (.config id body) ((Request.config id body).apply env.launch s.registry) := by
  rw [Request.apply]
  split
  -- in the order of the source: the body, the agent, its values, and that it is stopped
  · exact .refused rfl
  next j hj =>
  split
  · exact .refused rfl
  next inst hget =>
  split
  · exact .refused rfl
  next cfg hedit =>
  rw [Registry.updateAgentConfig, hget]
  dsimp only
  split
  · exact .refused rfl
  -- only then is anything stored
  · next hidle =>
    refine .done ⟨rfl, inst, cfg, hget, by simpa using hidle, ?_, rfl⟩ Registry.configOf_set
    rw [hj]
    exact hedit

theorem applyEnd_start (id : Bytes) :
    ApplyEnd s env (.start id) ((Request.start id).apply env.launch s.registry) := by
  rw [Request.apply, Registry.startAgent]
  split
  · exact .refused rfl
  -- a start registers no other configuration, so the map of them is updated by what it has
  next inst hget =>
  have hsame := (Registry.update_configOf hget).symm
  split
  · next hrunning => exact .done ⟨rfl, inst, hget, Or.inl hrunning, rfl⟩ hsame
  · exact .refused rfl
  · next hstarting =>
    split
    · next hbuild =>
      exact .done ⟨rfl, inst, hget, Or.inr ⟨hstarting, hbuild⟩, rfl⟩ Registry.configOf_set
    · -- the status and the last error of the agent change, not its configuration
      exact .refused (Registry.configOf_set_of_getAgent hget rfl)

theorem applyEnd_stop (id : Bytes) :
    ApplyEnd s env (.stop id) ((Request.stop id).apply env.launch s.registry) := by
  rw [Request.apply, Registry.stopAgent]
  split
  · exact .refused rfl
  next inst hget =>
  split
  · exact .done ⟨rfl, inst, hget, rfl⟩ Registry.configOf_set
  · exact .done ⟨rfl, inst, hget, rfl⟩ (Registry.update_configOf hget).symm

theorem applyEnd_remove (id : Bytes) :
    ApplyEnd s env (.remove id) ((Request.remove id).apply env.launch s.registry) := by
  rw [Request.apply, Registry.removeAgent]
  split
  · exact .refused rfl
  · next inst hget =>
    exact .done ⟨rfl, Registry.mem_agents_iff.mpr ⟨inst, hget⟩, rfl⟩ Registry.configOf_erase

/-- Every request ends in one of the three ways. -/
theorem applyEnd (q : Request) : ApplyEnd s env q (q.apply env.launch s.registry) := by
  cases q with
  | create body => exact applyEnd_create s env body
  | config id body => exact applyEnd_config s env id body
  | start id => exact applyEnd_start s env id
  | stop id => exact applyEnd_stop s env id
  | remove id => exact applyEnd_remove s env id

end Operations

/-! ### The whole request -/

/-- A handler that throws. -/
theorem failedEnd_of_handle {s : Server} {env : Surroundings} {req : ApiRequest} {q : Request}
    {e : Failure} (hroute : req.route = .ok (.change q)) (hfails : (s.handle env q).2 = .error e) :
    FailedEnd s env req (s.handle env q).1 := by
  have hend := applyEnd s env q
  generalize happly : q.apply env.launch s.registry = left at hend
  cases hend with
  | refused hconfigs =>
    rw [Server.handle_of_error happly]
    exact .unchanged ⟨hconfigs, rfl⟩
  | notLaunched hq hparsed hnew hbuild =>
    subst hq
    rw [Server.handle_of_error happly]
    exact .notLaunched hroute hparsed hnew hbuild rfl rfl
  -- the operation is done, so it is `persist` that has thrown
  | @done r id after hdone hconfigs =>
    rw [Server.handle_of_ok happly] at hfails ⊢
    refine .notPersisted hroute hdone hconfigs ?_
    cases hopens : env.opens with
    | false => exact Or.inl ⟨rfl, by rw [persist_of_not_opens]⟩
    | true =>
      refine Or.inr ⟨rfl, fun hutf8 => ?_⟩
      rw [hopens, persist_of_utf8 hutf8] at hfails
      cases hfails

/-- **A failed request** has changed nothing, or it is one of the two kinds that fail late. -/
theorem failed_request (b : Bot) (env : BotSurroundings) (req : ApiRequest) (status : Nat)
    (hanswer : (b.handle env req).2 = some status) (herror : 400 ≤ status) :
    FailedEnd b.server env.toSurroundings req (b.handle env req).1.server := by
  by_cases hchange : ∃ q, req.route = .ok (.change q)
  · obtain ⟨q, hroute⟩ := hchange
    cases hserving : b.serving with
    | false =>
      rw [Bot.handle, hserving] at hanswer
      cases hanswer
    | true =>
      rw [Bot.handle_of_change hserving hroute] at hanswer ⊢
      rw [Bot.server_answer]
      cases hresult : (b.server.handle env.toSurroundings q).2 with
      | error e => exact failedEnd_of_handle hroute hresult
      | ok _ =>
        rw [hresult] at hanswer
        -- a handler that succeeds answers 200, which is no error
        obtain rfl : 200 = status := Option.some.inj hanswer
        omega
  · rw [Bot.server_handle_of_not_change fun q hroute => hchange ⟨q, hroute⟩]
    exact .unchanged ⟨rfl, rfl⟩

/-! ### The process of one agent -/

/-- The process of `sampleServer`. -/
def sampleBot : Bot := { server := sampleServer, plugins := { plugins := mainPlugins } }

/-- Every agent launches, and the file can be opened. -/
def sampleSurroundings : BotSurroundings := { launch := fun _ => none, opens := true }

/-- A request for an agent that does not exist. -/
def stopMissing : ApiRequest := ⟨.post, utf8 "/api/v1/agents/b/stop", .malformed⟩

theorem failed_request_stop_missing :
    FailedEnd sampleServer sampleSurroundings.toSurroundings stopMissing
      (sampleBot.handle sampleSurroundings stopMissing).1.server :=
  failed_request sampleBot sampleSurroundings stopMissing 500 (by decide +kernel) (by decide)

/-- A request to create the agent `b`. -/
def createB : ApiRequest :=
  ⟨.post, utf8 "/api/v1/agents", .document ⟨.obj [(utf8 "id", .str (utf8 "b"))], by decide⟩⟩

/-- A request to remove the agent `a`. -/
def removeA : ApiRequest := ⟨.delete, utf8 "/api/v1/agents/a", .malformed⟩

/-- No agent launches. -/
def launchFails : BotSurroundings :=
  { sampleSurroundings with launch := fun _ => some (utf8 "no connection") }

/-- The file cannot be opened. -/
def fileLocked : BotSurroundings := { sampleSurroundings with opens := false }

/-- A new agent whose launch fails is registered, and an agent is removed although the file cannot
be opened. Both requests are answered with 500. -/
theorem failed_requests_change :
    sampleBot.server.Reachable ∧ ¬ FailsUnchanged sampleBot launchFails createB ∧
      ¬ FailsUnchanged sampleBot fileLocked removeA := by
  refine ⟨sampleServer_reachable, fun h => ?_, fun h => ?_⟩
  -- the new agent `b` is registered, in the state `error`
  · have hconfigs := (h 500 (by decide +kernel) (by decide)).configs
    exact absurd (congrFun hconfigs (utf8 "b")) (by decide +kernel)
  · have hconfigs := (h 500 (by decide +kernel) (by decide)).configs
    exact absurd (congrFun hconfigs (utf8 "a")) (by decide +kernel)

end Aestival
