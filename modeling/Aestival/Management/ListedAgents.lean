import Aestival.Management.FileLoadable
import Mathlib.Data.Set.Insert

/-!
# Which agents the file lists

After a start from a file `F` and any requests, the file should list the ids of `F` and those of
the agents that were added, without those that were removed. The file is rewritten from the map of
instances, so this needs the map to hold those agents, and every rewriting to succeed.

`lists_run_iff` proves it for every run under three conditions: no id of `F` belongs to disabled
agents only, because `start_all` leaves those out of the map; no added agent fails to build, because
it then stays in the map although the request fails and does not persist; and every `persist` finds
a file it can open and texts it can write. `disabled_agent_lost` is a run without the first.
-/

namespace Aestival

open Bytes Json

/-! ### Runs -/

/-- What happens to the process after its start. -/
inductive Event where
  | request (env : Surroundings) (q : Request)
  | connected (id : Bytes)

/-- The process and the ids its file should list. -/
structure Tracked where
  server : Server
  ids : Set Bytes

/-- The ids after a request that was carried out. -/
def Request.track (ids : Set Bytes) : Request → Set Bytes
  | .create body =>
    match parseBody body >>= createConfig with
    | .ok cfg => insert cfg.id ids
    | .error _ => ids
  | .remove id => ids \ {id}
  | _ => ids

/-- One event. Only a request whose operation succeeds adds or removes an id. -/
def Tracked.step (t : Tracked) : Event → Tracked
  | .request env q =>
    { server := (t.server.handle env q).1
      ids := match (q.apply env.launch t.server.registry).2 with
        | .ok () => q.track t.ids
        | .error _ => t.ids }
  | .connected id =>
    { t with server := { t.server with registry := t.server.registry.connected id } }

def Tracked.run (t : Tracked) (events : List Event) : Tracked := events.foldl Tracked.step t

/-- The file lists an agent with this id. -/
def Lists : Text → Bytes → Prop
  | .document d, id => ∃ cfg, parseBotConfig d.json = .ok cfg ∧ ∃ a ∈ cfg.agents, a.id = id
  | .malformed, _ => False

/-! ### The conditions -/

/-- What an event must satisfy in the state it meets: a request that is carried out finds a file it
can open and UTF-8 texts to write, and an agent that passes the checks of `add_agent` can be
built. -/
def StepOk (s : Server) : Event → Prop
  | .request env q =>
    ((q.apply env.launch s.registry).2 = .ok () →
      env.opens = true ∧ ((q.apply env.launch s.registry).1.botConfig s.global).Utf8) ∧
    ∀ body cfg, q = .create body → (parseBody body >>= createConfig) = .ok cfg →
      s.registry.checkNewId cfg.id = .ok () → buildAgent env.launch cfg = none
  | .connected _ => True

/-- Every event of the run satisfies `StepOk` in the state it meets. -/
def EveryStepOk : Tracked → List Event → Prop
  | _, [] => True
  | t, e :: events => StepOk t.server e ∧ EveryStepOk (t.step e) events

/-- Every id belongs to an agent that is enabled. -/
def EveryIdEnabled (cfg : BotConfig) : Prop :=
  ∀ a ∈ cfg.agents, ∃ b ∈ cfg.agents, b.id = a.id ∧ b.enabled = true

instance (cfg : BotConfig) : Decidable (EveryIdEnabled cfg) :=
  inferInstanceAs (Decidable (∀ a ∈ cfg.agents, ∃ b ∈ cfg.agents, b.id = a.id ∧ b.enabled = true))

/-! ### The ids in the map -/

namespace Registry

variable {r : Registry} {launch : Launch}

theorem mem_startOne {ac : AgentConfig} {id : Bytes} :
    id ∈ (startOne launch r ac).agents ↔ (ac.enabled = true ∧ id = ac.id) ∨ id ∈ r.agents := by
  rw [startOne]
  cases ac.enabled with
  | false => simp
  | true =>
    simp only [if_true, true_and]
    split
    · exact mem_set
    · exact mem_set

/-- Exactly the enabled agents are in the map after the start. -/
theorem mem_startAll {configPath : Bytes} {cfg : BotConfig} {id : Bytes} :
    id ∈ (startAll launch configPath cfg).agents ↔
      ∃ a ∈ cfg.agents, a.enabled = true ∧ a.id = id := by
  -- each agent of the list is added, or passed over
  have hfold : ∀ (agents : List AgentConfig) (r : Registry),
      id ∈ (agents.foldl (startOne launch) r).agents ↔
        (∃ a ∈ agents, a.enabled = true ∧ a.id = id) ∨ id ∈ r.agents := by
    intro agents
    induction agents with
    | nil => simp
    | cons a agents ih =>
      intro r
      rw [List.foldl_cons, ih, mem_startOne, List.exists_mem_cons_iff, @eq_comm _ id a.id,
        or_left_comm, or_assoc]
  rw [startAll, hfold]
  exact or_iff_left (AList.notMem_empty id)

/-- The ids in the map. -/
def ids (r : Registry) : Set Bytes := {id | id ∈ r.agents}

theorem ids_set (id : Bytes) (inst : AgentInstance) : (r.set id inst).ids = insert id r.ids := by
  ext id'
  exact mem_set

theorem ids_set_of_getAgent {id : Bytes} {inst inst' : AgentInstance}
    (hget : r.getAgent id = some inst) : (r.set id inst').ids = r.ids := by
  rw [ids_set]
  exact Set.insert_eq_of_mem (mem_agents_iff.mpr ⟨inst, hget⟩)

theorem ids_updateAgentConfig (id : Bytes) (cfg : AgentConfig) :
    (r.updateAgentConfig id cfg).1.ids = r.ids := by
  rw [updateAgentConfig]
  split
  · rfl
  next inst hget =>
  split
  · rfl
  · exact ids_set_of_getAgent hget

theorem ids_startAgent (id : Bytes) : (startAgent launch r id).1.ids = r.ids := by
  rw [startAgent]
  split
  · rfl
  next inst hget =>
  split
  · rfl
  · rfl
  split
  · exact ids_set_of_getAgent hget
  · exact ids_set_of_getAgent hget

theorem ids_stopAgent (id : Bytes) : (r.stopAgent id).1.ids = r.ids := by
  rw [stopAgent]
  split
  · rfl
  next inst hget =>
  split
  · exact ids_set_of_getAgent hget
  · rfl

theorem ids_connected (id : Bytes) : (r.connected id).ids = r.ids := by
  rw [connected]
  split
  · rfl
  next inst hget => exact ids_set_of_getAgent hget

/-- **A request changes the ids as it should**, if no new agent fails to build. -/
theorem ids_apply (q : Request)
    (hbuild : ∀ body cfg, q = .create body → (parseBody body >>= createConfig) = .ok cfg →
      r.checkNewId cfg.id = .ok () → buildAgent launch cfg = none) :
    (q.apply launch r).1.ids = match (q.apply launch r).2 with
      | .ok () => q.track r.ids
      | .error _ => r.ids := by
  -- for these three, both outcomes leave the ids alone
  have hkeep : (q.apply launch r).1.ids = r.ids → q.track r.ids = r.ids →
      (q.apply launch r).1.ids = match (q.apply launch r).2 with
        | .ok () => q.track r.ids
        | .error _ => r.ids := by
    intro hids htrack
    rw [hids, htrack]
    split <;> rfl
  cases q with
  | create body =>
    cases hcfg : parseBody body >>= createConfig with
    | error e => simp only [Request.apply, hcfg]
    | ok cfg =>
      cases hcheck : r.checkNewId cfg.id with
      | error e => simp only [Request.apply, hcfg, addAgent, hcheck]
      | ok u =>
        simp only [Request.apply, hcfg, addAgent, hcheck, hbuild body cfg rfl hcfg hcheck,
          Request.track]
        exact ids_set ..
  | config id body =>
    refine hkeep ?_ rfl
    rw [Request.apply]
    split
    · rfl
    split
    · rfl
    split
    · rfl
    · exact ids_updateAgentConfig ..
  | start id => exact hkeep (ids_startAgent id) rfl
  | stop id => exact hkeep (ids_stopAgent id) rfl
  | remove id =>
    cases hget : r.getAgent id with
    | none => simp only [Request.apply, removeAgent, hget]
    | some inst =>
      simp only [Request.apply, removeAgent, hget, Request.track]
      ext id'
      exact AList.mem_erase.trans and_comm

end Registry

/-! ### The ids in the file -/

/-- A written file lists the ids of the map. -/
theorem lists_botConfigJson {r : Registry} (hkeyed : r.WellKeyed) {global : GlobalConfig}
    (h : (botConfigJson (r.botConfig global)).validUtf8 = true) (id : Bytes) :
    Lists (.document ⟨botConfigJson (r.botConfig global), h⟩) id ↔ id ∈ r.ids := by
  -- reading the file back keeps the ids
  have hids : Lists (.document ⟨botConfigJson (r.botConfig global), h⟩) id ↔
      ∃ a ∈ r.configs, a.id ≠ [] ∧ a.id = id := by
    simp only [Lists, parseBotConfig_botConfigJson, Except.ok.injEq, exists_eq_left',
      Registry.botConfig, List.mem_filter, List.mem_map]
    constructor
    · rintro ⟨a, ⟨⟨b, hb, rfl⟩, hne⟩, hid⟩
      exact ⟨b, hb, of_decide_eq_true hne, hid⟩
    · rintro ⟨b, hb, hne, hid⟩
      exact ⟨b.reload, ⟨⟨b, hb, rfl⟩, decide_eq_true hne⟩, hid⟩
  rw [hids]
  constructor
  -- a configuration stands under its own id
  · rintro ⟨a, ha, -, hid⟩
    obtain ⟨id', inst, hget, rfl⟩ := Registry.mem_configs.mp ha
    rw [← hid, (hkeyed id' inst hget).1]
    exact Registry.mem_agents_iff.mpr ⟨inst, hget⟩
  · intro hid
    obtain ⟨inst, hget⟩ := Registry.mem_agents_iff.mp hid
    obtain ⟨hkey, hne⟩ := hkeyed id inst hget
    exact ⟨inst.config, Registry.mem_configs.mpr ⟨id, inst, hget, rfl⟩, hkey ▸ hne, hkey⟩

/-- A loaded file lists the ids of its agents. -/
theorem lists_of_loadBotConfig {text : Text} {cfg : BotConfig}
    (h : loadBotConfig text = .ok cfg) (id : Bytes) :
    Lists text id ↔ ∃ a ∈ cfg.agents, a.id = id := by
  obtain ⟨d, rfl, hparse, -⟩ := loadBotConfig_eq_ok h
  simp only [Lists, hparse, Except.ok.injEq, exists_eq_left']

/-! ### The invariant -/

/-- The map and the file hold the tracked ids. -/
structure Tracked.Ok (t : Tracked) : Prop where
  keyed : t.server.registry.WellKeyed
  /-- The map has exactly the tracked ids. -/
  map : t.server.registry.ids = t.ids
  /-- So does the file. -/
  file : ∀ id, Lists t.server.file id ↔ id ∈ t.ids

namespace Tracked.Ok

theorem start {launch : Launch} {configPath : Bytes} {text : Text} {cfg : BotConfig}
    (hload : loadBotConfig text = .ok cfg) (henabled : EveryIdEnabled cfg) :
    Tracked.Ok ⟨.start launch configPath text cfg, {id | ∃ a ∈ cfg.agents, a.id = id}⟩ where
  keyed := Registry.WellKeyed.startAll (loaded_of_loadBotConfig hload).1.ids configPath
  map := by
    ext id
    refine Registry.mem_startAll.trans ⟨?_, ?_⟩
    · rintro ⟨a, ha, -, hid⟩
      exact ⟨a, ha, hid⟩
    · rintro ⟨a, ha, hid⟩
      obtain ⟨b, hb, hbid, hon⟩ := henabled a ha
      exact ⟨b, hb, hon, hbid.trans hid⟩
  file := lists_of_loadBotConfig hload

/-- **One event.** -/
theorem step {t : Tracked} (h : t.Ok) {e : Event} (hok : StepOk t.server e) : (t.step e).Ok := by
  cases e with
  | connected id => exact ⟨h.keyed.connected id, (Registry.ids_connected id).trans h.map, h.file⟩
  | request env q =>
    obtain ⟨hpersist, hbuild⟩ := hok
    have hids := Registry.ids_apply q hbuild
    have hkeyed := h.keyed.apply env.launch q
    rw [h.map] at hids
    cases hout : (q.apply env.launch t.server.registry).2 with
    | error err =>
      -- nothing is written, and the ids stay
      have hhandle := Server.handle_of_error (Prod.ext rfl hout)
      rw [hout] at hids
      rw [Tracked.step, hhandle, hout]
      exact ⟨hkeyed, hids, h.file⟩
    | ok u =>
      obtain ⟨hopens, hutf8⟩ := hpersist hout
      have hhandle := Server.handle_of_ok (Prod.ext rfl hout)
      rw [hout] at hids
      rw [Tracked.step, hhandle, hout, hopens, persist_of_utf8 hutf8]
      refine ⟨hkeyed, hids, fun id => ?_⟩
      rw [← hids]
      exact lists_botConfigJson hkeyed _ id

/-- **A run.** -/
theorem run {events : List Event} {t : Tracked} (h : t.Ok) (hok : EveryStepOk t events) :
    (t.run events).Ok := by
  induction events generalizing t with
  | nil => exact h
  | cons e events ih => exact ih (h.step hok.1) hok.2

end Tracked.Ok

/-! ### Every run -/

/-- The process started from a loaded file, with the ids of that file. -/
def Tracked.start (launch : Launch) (configPath : Bytes) (text : Text) (cfg : BotConfig) :
    Tracked :=
  ⟨.start launch configPath text cfg, {id | ∃ a ∈ cfg.agents, a.id = id}⟩

/-- **No agent is lost** in a run whose events all satisfy their condition, from a file each of
whose ids belongs to an enabled agent: the file lists the ids of that file and the added ones,
without the removed ones. -/
theorem lists_run_iff {text : Text} {cfg : BotConfig} (hload : loadBotConfig text = .ok cfg)
    (henabled : EveryIdEnabled cfg) (launch : Launch) (configPath : Bytes) (events : List Event)
    (hok : EveryStepOk (.start launch configPath text cfg) events) (id : Bytes) :
    Lists ((Tracked.start launch configPath text cfg).run events).server.file id ↔
      id ∈ ((Tracked.start launch configPath text cfg).run events).ids :=
  ((Tracked.Ok.start hload henabled).run hok).file id

/-- A file with two agents, of which the second is enabled or not. -/
def twoAgentsJson (enabled : Bool) : Json :=
  .obj [(utf8 "agents", .arr [.obj [(utf8 "id", .str (utf8 "a"))],
    .obj [(utf8 "id", .str (utf8 "b")), (utf8 "enabled", .bool enabled)]])]

def twoAgents (enabled : Bool) : BotConfig where
  agents := [{ id := utf8 "a" }, { id := utf8 "b", enabled }]

theorem loadBotConfig_twoAgentsJson (enabled : Bool) :
    loadBotConfig (.document ⟨twoAgentsJson enabled, rfl⟩) = .ok (twoAgents enabled) := rfl

/-- The run in which the agent `a` is stopped. -/
def stopFirst (enabled : Bool) : Tracked :=
  (Tracked.start (fun _ => none) (utf8 "config.json")
    (.document ⟨twoAgentsJson enabled, rfl⟩) (twoAgents enabled)).run
    [.request ⟨fun _ => none, true⟩ (.stop (utf8 "a"))]

/-- When both agents are enabled, the file still lists the other one. -/
theorem lists_stopFirst_enabled :
    Lists (stopFirst true).server.file (utf8 "b") ↔ utf8 "b" ∈ (stopFirst true).ids := by
  refine lists_run_iff (loadBotConfig_twoAgentsJson true) (by decide) (fun _ => none)
    (utf8 "config.json") [.request ⟨fun _ => none, true⟩ (.stop (utf8 "a"))] ?_ (utf8 "b")
  refine ⟨⟨fun _ => ⟨rfl, ⟨by decide, by decide, by decide⟩⟩, ?_⟩, trivial⟩
  intro body cfg hq
  exact nomatch hq

/-- **A disabled agent is lost** when another agent is stopped: the file is rewritten without
it. -/
theorem disabled_agent_lost :
    ¬ ∀ (text : Text) (cfg : BotConfig) (launch : Launch) (configPath : Bytes)
      (events : List Event) (id : Bytes), loadBotConfig text = .ok cfg →
      (Lists ((Tracked.start launch configPath text cfg).run events).server.file id ↔
        id ∈ ((Tracked.start launch configPath text cfg).run events).ids) := by
  intro hall
  have hiff : Lists (stopFirst false).server.file (utf8 "b") ↔ utf8 "b" ∈ (stopFirst false).ids :=
    hall _ _ _ _ _ _ (loadBotConfig_twoAgentsJson false)
  have hin : utf8 "b" ∈ (stopFirst false).ids :=
    ⟨_, List.mem_cons_of_mem _ (List.mem_cons_self ..), rfl⟩
  obtain ⟨cfg, hparse, a, ha, hid⟩ := hiff.mpr hin
  obtain rfl := Except.ok.inj hparse
  exact absurd hid ((by decide : ∀ a ∈ _, a.id ≠ utf8 "b") a ha)

end Aestival
