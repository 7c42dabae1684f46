import Aestival.Agent.Privileges
import Aestival.Library.FlagCache

/-!
# What was set for a plugin

`enable_plugin_for_agent` and `disable_plugin_for_agent` write a row of the database and the cache
in front of it, and `is_plugin_enabled` reads both. With a database whose statements succeed the
manager is a store of flags behind a cache (`store_call`): the item is the pair of an agent and a
plugin, its key in the cache is `cacheKey`, and its row has the two texts up to their first NUL.

Neither tells all pairs apart. The ids of agents come from a file, where any text may be one, and
the key of the pair `a`, `b::c` is that of the pair `a::b`, `c`.
-/

namespace Aestival

open Bytes Json

/-- A call about a plugin of an agent. -/
inductive EnablementCall where
  | isPluginEnabled (pluginName agentId : Bytes)
  | enablePluginForAgent (pluginName agentId : Bytes)
  | disablePluginForAgent (pluginName agentId : Bytes)

namespace EnablementCall

/-- The pair a call is about, the agent first. -/
def pair : EnablementCall → Bytes × Bytes
  | isPluginEnabled p a => (a, p)
  | enablePluginForAgent p a => (a, p)
  | disablePluginForAgent p a => (a, p)

/-- What a call sets for a pair. -/
def sets (x : Bytes × Bytes) : EnablementCall → Option Bool
  | isPluginEnabled _ _ => none
  | enablePluginForAgent p a => if (a, p) = x then some true else none
  | disablePluginForAgent p a => if (a, p) = x then some false else none

/-- The call, as one on the store of flags. -/
def onFlags : EnablementCall → FlagCache.Call (Bytes × Bytes)
  | isPluginEnabled p a => .get (a, p)
  | enablePluginForAgent p a => .set (a, p) true
  | disablePluginForAgent p a => .set (a, p) false

@[simp] theorem item_onFlags (c : EnablementCall) : c.onFlags.item = c.pair := by cases c <;> rfl

@[simp] theorem sets_onFlags (x : Bytes × Bytes) (c : EnablementCall) :
    FlagCache.Call.sets x c.onFlags = c.sets x := by cases c <;> rfl

end EnablementCall

/-- The value that was set last for a pair; true if none was set. -/
def lastSet (calls : List EnablementCall) (x : Bytes × Bytes) : Bool :=
  (latest (EnablementCall.sets x) calls).getD true

/-- The key of a pair in the cache. -/
def pairKey (x : Bytes × Bytes) : Bytes := cacheKey x.1 x.2

/-- The row of a pair in the database. -/
def pairRow (x : Bytes × Bytes) : Bytes × Bytes := (cStr x.1, cStr x.2)

namespace PluginManager

/-- What a call leaves, with a database whose statements succeed. -/
def call (m : PluginManager) : EnablementCall → PluginManager
  | .isPluginEnabled p a => (m.isPluginEnabled p a).2
  | .enablePluginForAgent p a => m.enablePluginForAgent true p a
  | .disablePluginForAgent p a => m.disablePluginForAgent true p a

/-- The manager of a new process with an empty database, after `calls`. -/
def afterCalls (plugins : List Plugin) (calls : List EnablementCall) : PluginManager :=
  calls.foldl call { plugins, configBackend := some {} }

/-- `m` has the cache and the rows of the store `s`. -/
def Stores (m : PluginManager) (s : FlagCache Bytes (Bytes × Bytes)) : Prop :=
  m.disabledCache = s.off ∧ ∃ db, m.configBackend = some db ∧
    ∀ r : Bytes × Bytes, db.agentPlugins r.1 r.2 = s.table r

variable {m : PluginManager} {s : FlagCache Bytes (Bytes × Bytes)}

theorem Stores.enabled_eq (h : m.Stores s) (p a : Bytes) :
    m.enabled p a = s.flag pairKey pairRow (a, p) := by
  obtain ⟨hoff, db, hdb, htable⟩ := h
  rw [enabled, FlagCache.flag, hoff, hdb]
  dsimp only
  rw [PluginConfigSqlite.isPluginEnabledForAgent, ← htable (pairRow (a, p))]
  rfl

/-- The row that is written is one cell of the table. -/
theorem agentPlugins_set (db : PluginConfigSqlite) (a p : Bytes) (v : Bool) (r : Bytes × Bytes) :
    (db.setPluginEnabledForAgent true a p v).agentPlugins r.1 r.2 =
      Function.update (fun r : Bytes × Bytes => db.agentPlugins r.1 r.2) (pairRow (a, p))
        (some v) r := by
  obtain ⟨ra, rp⟩ := r
  simp only [PluginConfigSqlite.setPluginEnabledForAgent, if_true, pairRow]
  -- a cell of the nested table is a cell of the flat one
  by_cases ha : ra = cStr a
  · by_cases hp : rp = cStr p
    · rw [ha, hp, Function.update_self, Function.update_self, Function.update_self]
    · have hne : (cStr a, rp) ≠ (cStr a, cStr p) := fun heq => hp (Prod.mk.inj heq).2
      rw [ha, Function.update_self, Function.update_of_ne hp, Function.update_of_ne hne]
  · have hne : (ra, rp) ≠ (cStr a, cStr p) := fun heq => ha (Prod.mk.inj heq).1
    rw [Function.update_of_ne ha, Function.update_of_ne hne]

/-- **Every call does to the manager what it does to the store.** -/
theorem store_call (h : m.Stores s) (c : EnablementCall) :
    (m.call c).Stores (s.exec pairKey pairRow c.onFlags) := by
  obtain ⟨hoff, db, hdb, htable⟩ := h
  have hwritten : ∀ a p v r, (db.setPluginEnabledForAgent true a p v).agentPlugins r.1 r.2 =
      Function.update s.table (pairRow (a, p)) (some v) r := by
    intro a p v r
    rw [agentPlugins_set, funext htable]
  cases c with
  | isPluginEnabled p a =>
    -- only a question that is answered `false` changes the cache
    have hflag := Stores.enabled_eq ⟨hoff, db, hdb, htable⟩ p a
    rw [call, PluginManager.isPluginEnabled, EnablementCall.onFlags, FlagCache.exec, hflag]
    split
    · exact ⟨hoff, db, hdb, htable⟩
    · exact ⟨congrArg (insert (pairKey (a, p))) hoff, db, hdb, htable⟩
  | enablePluginForAgent p a =>
    refine ⟨congrArg (Finset.erase · (pairKey (a, p))) hoff, _, ?_, hwritten a p true⟩
    exact congrArg (Option.map _) hdb
  | disablePluginForAgent p a =>
    refine ⟨congrArg (insert (pairKey (a, p))) hoff, _, ?_, hwritten a p false⟩
    exact congrArg (Option.map _) hdb

theorem store_afterCalls (plugins : List Plugin) (calls : List EnablementCall) :
    (afterCalls plugins calls).Stores
      (FlagCache.empty.execAll pairKey pairRow (calls.map EnablementCall.onFlags)) := by
  induction calls using List.reverseRecOn with
  | nil => exact ⟨rfl, {}, rfl, fun _ => rfl⟩
  | append_singleton calls c ih =>
    rw [afterCalls, List.foldl_append, List.map_append]
    exact FlagCache.execAll_concat pairKey pairRow .. ▸ store_call ih c

end PluginManager

theorem expected_map_onFlags (calls : List EnablementCall) :
    FlagCache.expected (calls.map EnablementCall.onFlags) = lastSet calls := by
  funext x
  rw [FlagCache.expected, lastSet, latest, latest, ← List.map_reverse, List.findSome?_map]
  congr 2
  funext c
  exact EnablementCall.sets_onFlags x c

theorem onFlags_surjective : Function.Surjective EnablementCall.onFlags
  | .get (a, p) => ⟨.isPluginEnabled p a, rfl⟩
  | .set (a, p) true => ⟨.enablePluginForAgent p a, rfl⟩
  | .set (a, p) false => ⟨.disablePluginForAgent p a, rfl⟩

namespace PluginManager

theorem isPluginEnabled_fst (m : PluginManager) (pluginName agentId : Bytes) :
    (m.isPluginEnabled pluginName agentId).1 = m.enabled pluginName agentId := by
  rw [isPluginEnabled]
  split
  · next hon => exact hon.symm
  · next hoff => exact (Bool.eq_false_of_not_eq_true hoff).symm

/-- The answer after any calls is that of the store. -/
theorem isPluginEnabled_afterCalls (plugins : List Plugin) (calls : List EnablementCall)
    (x : Bytes × Bytes) :
    ((afterCalls plugins calls).isPluginEnabled x.2 x.1).1 =
      (FlagCache.empty.execAll pairKey pairRow (calls.map EnablementCall.onFlags)).flag
        pairKey pairRow x := by
  rw [isPluginEnabled_fst]
  exact (store_afterCalls plugins calls).enabled_eq x.2 x.1

/-- **What is read of a pair is what was set for it last, for the pairs that are told apart.** Calls
about the pairs of a set are all answered like this if, and only if, no two different pairs of the
set have one key in the cache or one row in the database. -/
theorem isPluginEnabled_eq_lastSet_iff (plugins : List Plugin) (S : Set (Bytes × Bytes)) :
    (∀ calls : List EnablementCall, (∀ c ∈ calls, c.pair ∈ S) → ∀ x ∈ S,
      ((afterCalls plugins calls).isPluginEnabled x.2 x.1).1 = lastSet calls x) ↔
    S.InjOn pairKey ∧ S.InjOn pairRow := by
  rw [← FlagCache.answers_iff]
  constructor
  · intro h flagCalls hflagCalls x hx
    -- any calls of the store are calls of the manager
    obtain ⟨calls, rfl⟩ := onFlags_surjective.list_map flagCalls
    rw [← isPluginEnabled_afterCalls plugins, expected_map_onFlags]
    refine h calls (fun c hc => ?_) x hx
    rw [← EnablementCall.item_onFlags]
    exact hflagCalls _ (List.mem_map_of_mem hc)
  · intro h calls hcalls x hx
    rw [isPluginEnabled_afterCalls, ← expected_map_onFlags]
    refine h _ (fun c hc => ?_) x hx
    obtain ⟨call, hcall, rfl⟩ := List.mem_map.mp hc
    rw [EnablementCall.item_onFlags]
    exact hcalls call hcall

/-- A file with the agents `a` and `a::b`. -/
def collidingAgentsJson : Json :=
  .obj [(utf8 "agents", .arr [.obj [(utf8 "id", .str (utf8 "a"))],
    .obj [(utf8 "id", .str (utf8 "a::b"))]])]

def collidingAgents : BotConfig where
  agents := [{ id := utf8 "a" }, { id := utf8 "a::b" }]

theorem loadBotConfig_collidingAgentsJson :
    loadBotConfig (.document ⟨collidingAgentsJson, rfl⟩) = .ok collidingAgents := rfl

/-- **A plugin is disabled for another agent**: after `b::c` is disabled for `a`, so is `c` for
`a::b`. -/
theorem disabled_for_other_agent :
    ¬ ∀ (text : Text) (cfg : BotConfig), loadBotConfig text = .ok cfg →
      ∀ (plugins : List Plugin) (calls : List EnablementCall),
        (∀ c ∈ calls, c.pair.1 ∈ cfg.agents.map AgentConfig.id) →
        ∀ x : Bytes × Bytes, x.1 ∈ cfg.agents.map AgentConfig.id →
          ((afterCalls plugins calls).isPluginEnabled x.2 x.1).1 = lastSet calls x := by
  intro hall
  have hagents : utf8 "a" ∈ collidingAgents.agents.map AgentConfig.id ∧
      utf8 "a::b" ∈ collidingAgents.agents.map AgentConfig.id := by decide
  have heq := hall _ _ loadBotConfig_collidingAgentsJson []
    [.disablePluginForAgent (utf8 "b::c") (utf8 "a")]
    (fun c hc => by rw [List.mem_singleton.mp hc]; exact hagents.1) (utf8 "a::b", utf8 "c")
    hagents.2
  exact absurd heq (by decide)

end PluginManager

/-- Plugins without a colon and without a NUL in their names are told apart, for all agents whose
ids have no NUL. -/
theorem injOn_of_plain {S : Set (Bytes × Bytes)}
    (hS : ∀ x ∈ S, (0 : UInt8) ∉ x.1 ∧ (0 : UInt8) ∉ x.2 ∧ (58 : UInt8) ∉ x.2) :
    S.InjOn pairKey ∧ S.InjOn pairRow := by
  constructor
  · intro x hx y hy heq
    obtain ⟨ha, hp⟩ := cacheKey_inj (hS x hx).2.2 (hS y hy).2.2 heq
    exact Prod.ext ha hp
  · intro x hx y hy heq
    obtain ⟨ha, hp⟩ := Prod.mk.inj heq
    rw [cStr_eq_self (hS x hx).1, cStr_eq_self (hS y hy).1] at ha
    rw [cStr_eq_self (hS x hx).2.1, cStr_eq_self (hS y hy).2.1] at hp
    exact Prod.ext ha hp

end Aestival
