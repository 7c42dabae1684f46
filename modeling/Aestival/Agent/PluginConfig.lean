import Aestival.Agent.Plugins
import Aestival.Library.JsonText
import Aestival.Library.KeyedTable
import Aestival.Library.Runs
import Aestival.Library.Tally
import Mathlib.Data.List.Sort

/-!
# The database of the plugins

`plugin_config_sqlite` keeps two tables: one row for each plugin of an agent, with its flag and its
configuration as a JSON text, and one for each plugin of a user. Whatever calls were made before,
and whichever statements of theirs have failed, the getters return what was written last
(`answers_afterCalls`); a configuration comes back as the value it was set to, through its text.

`set_plugin_config_for_agent` reads the flag first to write it back. Where this query fails and the
write succeeds, the plugin is enabled (`PluginConfigCall.setsEnabled`).

The flags alone are the database of `PluginConfigSqlite`, which the plugin manager is verified with
(`flags_setPluginEnabledForAgent`).
-/

namespace Aestival

open Bytes Json

/-! ### Tables -/

/-- A row of `agent_plugins`, without the time of its update. -/
structure AgentPluginRow where
  agentId : Bytes
  pluginName : Bytes
  enabled : Bool
  configJson : Bytes

def AgentPluginRow.key (r : AgentPluginRow) : Bytes × Bytes := (r.agentId, r.pluginName)

/-- A row of `user_plugins`. Nothing reads or writes its configuration. -/
structure UserPluginRow where
  userId : Bytes
  pluginName : Bytes
  enabled : Bool

def UserPluginRow.key (r : UserPluginRow) : Bytes × Bytes := (r.userId, r.pluginName)

structure PluginConfigDb where
  agentPlugins : KeyedTable AgentPluginRow.key := ∅
  userPlugins : KeyedTable UserPluginRow.key := ∅

/-- How the statements of a call go: whether the row is found, and whether it is written. -/
structure StatementIo where
  reads : Bool := true
  writes : Bool := true

/-- What the statements are given of two texts. -/
def boundKey (id pluginName : Bytes) : Bytes × Bytes := (cStr id, cStr pluginName)

namespace PluginConfigDb

variable (fmt : FloatText)

/-! ### Statements -/

/-- `query_enabled_agent`. -/
def queryEnabledAgent (db : PluginConfigDb) (reads : Bool) (agentId pluginName : Bytes)
    (fallback : Bool) : Bool :=
  if reads then
    ((db.agentPlugins.find? (boundKey agentId pluginName)).map (·.enabled)).getD fallback
  else fallback

/-- `query_enabled_user`. -/
def queryEnabledUser (db : PluginConfigDb) (reads : Bool) (userId pluginName : Bytes)
    (fallback : Bool) : Bool :=
  if reads then
    ((db.userPlugins.find? (boundKey userId pluginName)).map (·.enabled)).getD fallback
  else fallback

/-- The configuration of a row: an object, or else an empty one. -/
def configOfText (text : Bytes) : Json :=
  if cStr text = [] then .obj []
  else
    match parse fmt (cStr text) with
    | some (.obj fields) => .obj fields
    | _ => .obj []

/-- `query_config_agent`. -/
def queryConfigAgent (db : PluginConfigDb) (reads : Bool) (agentId pluginName : Bytes) : Json :=
  if reads then
    match db.agentPlugins.find? (boundKey agentId pluginName) with
    | some row => configOfText fmt row.configJson
    | none => .obj []
  else .obj []

/-- The row that `upsert_agent` makes. The configuration that is there stays, unless there is a new
one. -/
def upsertedAgent (key : Bytes × Bytes) (enabled : Bool) (config : Option Bytes)
    (old : Option AgentPluginRow) : AgentPluginRow where
  agentId := key.1
  pluginName := key.2
  enabled := enabled
  configJson :=
    match config, old with
    | some text, _ => cStr text
    | none, some row => row.configJson
    | none, none => utf8 "{}"

theorem key_upsertedAgent (key : Bytes × Bytes) (enabled : Bool) (config : Option Bytes)
    (old : Option AgentPluginRow) : (upsertedAgent key enabled config old).key = key := rfl

/-- The row that `upsert_user` makes. -/
def upsertedUser (key : Bytes × Bytes) (enabled : Bool) : UserPluginRow :=
  ⟨key.1, key.2, enabled⟩

theorem key_upsertedUser (key : Bytes × Bytes) (enabled : Bool) :
    (upsertedUser key enabled).key = key := rfl

/-- `upsert_agent`. A statement that fails writes nothing. -/
def upsertAgent (db : PluginConfigDb) (writes : Bool) (agentId pluginName : Bytes) (enabled : Bool)
    (config : Option Bytes) : PluginConfigDb :=
  if writes then
    { db with
      agentPlugins := db.agentPlugins.upsert (boundKey agentId pluginName)
        (upsertedAgent (boundKey agentId pluginName) enabled config)
        (key_upsertedAgent _ enabled config) }
  else db

/-- `upsert_user`. -/
def upsertUser (db : PluginConfigDb) (writes : Bool) (userId pluginName : Bytes) (enabled : Bool) :
    PluginConfigDb :=
  if writes then
    { db with
      userPlugins := db.userPlugins.upsert (boundKey userId pluginName)
        (fun _ => upsertedUser (boundKey userId pluginName) enabled)
        fun _ => key_upsertedUser _ enabled }
  else db

/-! ### Calls -/

/-- `is_plugin_enabled_for_agent`. -/
def isPluginEnabledForAgent (db : PluginConfigDb) (reads : Bool) (agentId pluginName : Bytes) :
    Bool :=
  db.queryEnabledAgent reads agentId pluginName true

/-- `set_plugin_enabled_for_agent`. -/
def setPluginEnabledForAgent (db : PluginConfigDb) (io : StatementIo) (agentId pluginName : Bytes)
    (enabled : Bool) : PluginConfigDb :=
  db.upsertAgent io.writes agentId pluginName enabled none

/-- `get_plugin_config_for_agent`. -/
def getPluginConfigForAgent (db : PluginConfigDb) (reads : Bool) (agentId pluginName : Bytes) :
    Json :=
  db.queryConfigAgent fmt reads agentId pluginName

/-- `set_plugin_config_for_agent`. A configuration with a string that is not UTF-8 is not written
but thrown for. -/
def setPluginConfigForAgent (db : PluginConfigDb) (io : StatementIo) (agentId pluginName : Bytes)
    (config : Json) : PluginConfigDb :=
  let current := db.queryEnabledAgent io.reads agentId pluginName true
  if config.validUtf8 then
    db.upsertAgent io.writes agentId pluginName current (some (print fmt config))
  else db

/-- `is_plugin_enabled_for_user`. -/
def isPluginEnabledForUser (db : PluginConfigDb) (reads : Bool) (userId pluginName : Bytes) :
    Bool :=
  db.queryEnabledUser reads userId pluginName true

/-- `set_plugin_enabled_for_user`. -/
def setPluginEnabledForUser (db : PluginConfigDb) (io : StatementIo) (userId pluginName : Bytes)
    (enabled : Bool) : PluginConfigDb :=
  db.upsertUser io.writes userId pluginName enabled

/-- The rows by the names of their plugins. -/
def byName (r s : AgentPluginRow) : Bool :=
  decide ((⟨r.pluginName⟩ : TextKey) ≤ ⟨s.pluginName⟩)

/-- `list_agent_plugins`. -/
def listAgentPlugins (db : PluginConfigDb) (reads : Bool) (agentId : Bytes) :
    List (Bytes × Bool × Bytes) :=
  if reads then
    ((db.agentPlugins.rows.filter fun r => r.agentId = cStr agentId).mergeSort byName).map fun r =>
      (r.pluginName, r.enabled, cStr r.configJson)
  else []

end PluginConfigDb

/-! ### What was set -/

/-- A call that writes. -/
inductive PluginConfigCall where
  | setEnabledForAgent (io : StatementIo) (agentId pluginName : Bytes) (enabled : Bool)
  | setConfigForAgent (io : StatementIo) (agentId pluginName : Bytes) (config : Json)
  | setEnabledForUser (io : StatementIo) (userId pluginName : Bytes) (enabled : Bool)

namespace PluginConfigCall

variable (fmt : FloatText)

/-- What a call leaves. -/
def after (db : PluginConfigDb) : PluginConfigCall → PluginConfigDb
  | setEnabledForAgent io a p enabled => db.setPluginEnabledForAgent io a p enabled
  | setConfigForAgent io a p config => db.setPluginConfigForAgent fmt io a p config
  | setEnabledForUser io u p enabled => db.setPluginEnabledForUser io u p enabled

/-- The flag a call sets for the plugin of an agent. A configuration sets none, unless the flag that
is there cannot be read. -/
def setsEnabled (k : Bytes × Bytes) : PluginConfigCall → Option Bool
  | setEnabledForAgent io a p enabled =>
    if io.writes = true ∧ k = boundKey a p then some enabled else none
  | setConfigForAgent io a p config =>
    if io.writes = true ∧ config.validUtf8 = true ∧ io.reads = false ∧ k = boundKey a p then
      some true
    else none
  | setEnabledForUser .. => none

/-- A configuration, as far as it is an object. -/
def asObject : Json → Json
  | .obj fields => .obj fields
  | _ => .obj []

/-- The configuration a call sets for the plugin of an agent. -/
def setsConfig (k : Bytes × Bytes) : PluginConfigCall → Option Json
  | setConfigForAgent io a p config =>
    if io.writes = true ∧ config.validUtf8 = true ∧ k = boundKey a p then some (asObject config)
    else none
  | _ => none

/-- The flag a call sets for the plugin of a user. -/
def setsUser (k : Bytes × Bytes) : PluginConfigCall → Option Bool
  | setEnabledForUser io u p enabled =>
    if io.writes = true ∧ k = boundKey u p then some enabled else none
  | _ => none

/-- Whether a call writes the row of a plugin of an agent. -/
def writesRow (k : Bytes × Bytes) : PluginConfigCall → Bool
  | setEnabledForAgent io a p _ => io.writes && k = boundKey a p
  | setConfigForAgent io a p config => io.writes && config.validUtf8 && k = boundKey a p
  | setEnabledForUser .. => false

/-- A configuration that can be written is read as it was written. -/
def Storable : PluginConfigCall → Prop
  | setConfigForAgent _ _ _ config => config.validUtf8 = true → Canonical fmt config
  | _ => True

end PluginConfigCall

namespace PluginConfigDb

variable (fmt : FloatText)

/-- The database after some calls. -/
def afterCalls (calls : List PluginConfigCall) : PluginConfigDb :=
  calls.foldl (PluginConfigCall.after fmt) {}

/-- The getters return what was set last, if their statements succeed. -/
structure Answers (calls : List PluginConfigCall) (db : PluginConfigDb) : Prop where
  enabled : ∀ a p, db.isPluginEnabledForAgent true a p =
    (latest (PluginConfigCall.setsEnabled (boundKey a p)) calls).getD true
  config : ∀ a p, db.getPluginConfigForAgent fmt true a p =
    (latest (PluginConfigCall.setsConfig (boundKey a p)) calls).getD (.obj [])
  user : ∀ u p, db.isPluginEnabledForUser true u p =
    (latest (PluginConfigCall.setsUser (boundKey u p)) calls).getD true
  /-- a list has the plugins that were written -/
  complete : ∀ a p, cStr p ∈ (db.listAgentPlugins true a).map (·.1) ↔
    ∃ c ∈ calls, c.writesRow (boundKey a p) = true
  /-- each once, by name -/
  ascending : ∀ a, ((db.listAgentPlugins true a).map fun x => (⟨x.1⟩ : TextKey)).Pairwise (· < ·)
  /-- and says of it what the getters say -/
  listed : ∀ a x, x ∈ db.listAgentPlugins true a →
    db.isPluginEnabledForAgent true a x.1 = x.2.1 ∧
      db.getPluginConfigForAgent fmt true a x.1 = configOfText fmt x.2.2

section After

variable {fmt} {db : PluginConfigDb} {k : Bytes × Bytes}

/-- The flag in a row, or the one of a plugin without a row. -/
def flagOf (db : PluginConfigDb) (k : Bytes × Bytes) : Bool :=
  ((db.agentPlugins.find? k).map (·.enabled)).getD true

/-- The configuration in a row, or the one of a plugin without a row. -/
def objectOf (fmt : FloatText) (db : PluginConfigDb) (k : Bytes × Bytes) : Json :=
  ((db.agentPlugins.find? k).map fun row => configOfText fmt row.configJson).getD (.obj [])

def userFlagOf (db : PluginConfigDb) (k : Bytes × Bytes) : Bool :=
  ((db.userPlugins.find? k).map (·.enabled)).getD true

theorem getPluginConfigForAgent_eq (db : PluginConfigDb) (a p : Bytes) :
    db.getPluginConfigForAgent fmt true a p = objectOf fmt db (boundKey a p) := by
  rw [getPluginConfigForAgent, queryConfigAgent, objectOf, if_pos rfl]
  cases db.agentPlugins.find? (boundKey a p) <;> rfl

theorem flagOf_upsertAgent (a p : Bytes) (enabled : Bool) (config : Option Bytes) :
    (db.upsertAgent true a p enabled config).flagOf k =
      if k = boundKey a p then enabled else db.flagOf k := by
  rw [upsertAgent, if_pos rfl, flagOf]
  dsimp only
  rw [KeyedTable.find?_upsert]
  split <;> rfl

theorem objectOf_upsertAgent (a p : Bytes) (enabled : Bool) (config : Option Bytes) :
    objectOf fmt (db.upsertAgent true a p enabled config) k =
      if k = boundKey a p then
        configOfText fmt (upsertedAgent k enabled config (db.agentPlugins.find? k)).configJson
      else objectOf fmt db k := by
  rw [upsertAgent, if_pos rfl, objectOf]
  dsimp only
  rw [KeyedTable.find?_upsert]
  split
  case isTrue h => rw [h]; rfl
  case isFalse => rfl

/-- A configuration is read back from its text. -/
theorem configOfText_print {config : Json} (h : Canonical fmt config) :
    configOfText fmt (cStr (print fmt config)) = PluginConfigCall.asObject config := by
  obtain ⟨b, t, hprint, -⟩ := print_first h
  have hne : print fmt config ≠ [] := hprint ▸ List.cons_ne_nil b t
  have hplain : cStr (print fmt config) = print fmt config := cStr_eq_self (noNul_print config h)
  rw [configOfText, hplain, hplain, if_neg hne, parse_print h]
  cases config <;> rfl

/-- The text of a row that was made for its flag. -/
theorem configOfText_default : configOfText fmt (utf8 "{}") = .obj [] := by
  have htext : print fmt (.obj []) = utf8 "{}" := by
    rw [print]
    decide
  have h : configOfText fmt (cStr (print fmt (.obj []))) = .obj [] :=
    configOfText_print ⟨trivial, .nil⟩
  rwa [htext] at h

/-! ### One call -/

theorem setPluginConfigForAgent_of_valid {config : Json} (h : config.validUtf8 = true)
    (io : StatementIo) (a p : Bytes) :
    db.setPluginConfigForAgent fmt io a p config =
      db.upsertAgent io.writes a p (db.queryEnabledAgent io.reads a p true)
        (some (print fmt config)) := if_pos h

theorem setPluginConfigForAgent_of_not_valid {config : Json} (h : config.validUtf8 = false)
    (io : StatementIo) (a p : Bytes) : db.setPluginConfigForAgent fmt io a p config = db :=
  if_neg (by rw [h]; exact Bool.false_ne_true)

/-- The flag behind a call. -/
theorem flagOf_after (c : PluginConfigCall) :
    (c.after fmt db).flagOf k = (c.setsEnabled k).getD (db.flagOf k) := by
  cases c with
  | setEnabledForAgent io a p enabled =>
    obtain ⟨reads, writes⟩ := io
    cases writes with
    | false => rfl
    | true =>
      show (db.upsertAgent true a p enabled none).flagOf k = _
      rw [flagOf_upsertAgent, PluginConfigCall.setsEnabled]
      by_cases hk : k = boundKey a p <;> simp [hk]
  | setConfigForAgent io a p config =>
    obtain ⟨reads, writes⟩ := io
    show (db.setPluginConfigForAgent fmt ⟨reads, writes⟩ a p config).flagOf k = _
    cases hvalid : config.validUtf8 with
    | false =>
      rw [setPluginConfigForAgent_of_not_valid hvalid]
      simp [PluginConfigCall.setsEnabled, hvalid]
    | true =>
      rw [setPluginConfigForAgent_of_valid hvalid]
      cases writes with
      | false => simp [PluginConfigCall.setsEnabled, upsertAgent]
      | true =>
        rw [flagOf_upsertAgent]
        -- the flag that is written back is the one that is there, if it can be read
        cases reads with
        | false =>
          by_cases hk : k = boundKey a p <;>
            simp [PluginConfigCall.setsEnabled, hk, hvalid, queryEnabledAgent]
        | true =>
          have hcurrent : db.queryEnabledAgent true a p true = db.flagOf (boundKey a p) := rfl
          by_cases hk : k = boundKey a p <;> simp [PluginConfigCall.setsEnabled, hk, hcurrent]
  | setEnabledForUser io u p enabled =>
    show (db.upsertUser io.writes u p enabled).flagOf k = _
    unfold upsertUser
    split <;> rfl

/-- The configuration behind a call. -/
theorem objectOf_after {c : PluginConfigCall} (hc : c.Storable fmt) :
    objectOf fmt (c.after fmt db) k = (c.setsConfig k).getD (objectOf fmt db k) := by
  cases c with
  -- the UPSERT of the flag keeps the text; a new row has the default
  | setEnabledForAgent io a p enabled =>
    obtain ⟨reads, writes⟩ := io
    cases writes with
    | false => rfl
    | true =>
      show objectOf fmt (db.upsertAgent true a p enabled none) k = objectOf fmt db k
      rw [objectOf_upsertAgent, objectOf]
      split
      case isTrue =>
        cases db.agentPlugins.find? k with
        | none => exact configOfText_default
        | some row => rfl
      case isFalse => rfl
  -- an object that cannot be dumped throws before the statement
  | setConfigForAgent io a p config =>
    obtain ⟨reads, writes⟩ := io
    show objectOf fmt (db.setPluginConfigForAgent fmt ⟨reads, writes⟩ a p config) k = _
    cases hvalid : config.validUtf8 with
    | false =>
      rw [setPluginConfigForAgent_of_not_valid hvalid]
      simp [PluginConfigCall.setsConfig, hvalid]
    | true =>
      rw [setPluginConfigForAgent_of_valid hvalid]
      cases writes with
      | false => simp [PluginConfigCall.setsConfig, upsertAgent]
      | true =>
        rw [objectOf_upsertAgent]
        -- the text of the row reads back as the object
        have htext : ∀ current old, configOfText fmt
            (upsertedAgent k current (some (print fmt config)) old).configJson =
              PluginConfigCall.asObject config := fun _ _ => configOfText_print (hc hvalid)
        rw [htext]
        by_cases hk : k = boundKey a p <;> simp [PluginConfigCall.setsConfig, hk, hvalid]
  -- the other table
  | setEnabledForUser io u p enabled =>
    show objectOf fmt (db.upsertUser io.writes u p enabled) k = _
    unfold upsertUser
    split <;> rfl

/-- The flag of a user behind a call. -/
theorem userFlagOf_after (c : PluginConfigCall) :
    (c.after fmt db).userFlagOf k = (c.setsUser k).getD (db.userFlagOf k) := by
  -- the statements of the agents touch the other table
  have hagent : ∀ writes a p enabled config,
      (db.upsertAgent writes a p enabled config).userFlagOf k = db.userFlagOf k := by
    intro writes a p enabled config
    unfold upsertAgent
    split <;> rfl
  cases c with
  | setEnabledForAgent io a p enabled => exact hagent ..
  | setConfigForAgent io a p config =>
    show (db.setPluginConfigForAgent fmt io a p config).userFlagOf k = db.userFlagOf k
    cases hvalid : config.validUtf8 with
    | false => rw [setPluginConfigForAgent_of_not_valid hvalid]
    | true =>
      rw [setPluginConfigForAgent_of_valid hvalid]
      exact hagent ..
  -- the row of this user and plugin has the new flag
  | setEnabledForUser io u p enabled =>
    obtain ⟨reads, writes⟩ := io
    cases writes with
    | false => rfl
    | true =>
      show (db.upsertUser true u p enabled).userFlagOf k = _
      rw [upsertUser, if_pos rfl, userFlagOf]
      dsimp only
      rw [KeyedTable.find?_upsert, PluginConfigCall.setsUser]
      by_cases hk : k = boundKey u p
      · simp [hk, upsertedUser]
      · simp [hk, userFlagOf]

theorem isSome_upsertAgent (a p : Bytes) (enabled : Bool) (config : Option Bytes) :
    ((db.upsertAgent true a p enabled config).agentPlugins.find? k).isSome =
      (decide (k = boundKey a p) || (db.agentPlugins.find? k).isSome) := by
  rw [upsertAgent, if_pos rfl]
  dsimp only
  rw [KeyedTable.find?_upsert]
  by_cases hk : k = boundKey a p <;> simp [hk]

/-- The rows behind a call. -/
theorem isSome_after (c : PluginConfigCall) :
    ((c.after fmt db).agentPlugins.find? k).isSome =
      (c.writesRow k || (db.agentPlugins.find? k).isSome) := by
  cases c with
  -- a statement that succeeds leaves a row
  | setEnabledForAgent io a p enabled =>
    obtain ⟨reads, writes⟩ := io
    cases writes with
    | false => rfl
    | true => exact isSome_upsertAgent a p enabled none
  | setConfigForAgent io a p config =>
    obtain ⟨reads, writes⟩ := io
    show ((db.setPluginConfigForAgent fmt ⟨reads, writes⟩ a p config).agentPlugins.find? k).isSome
      = _
    cases hvalid : config.validUtf8 with
    | false =>
      rw [setPluginConfigForAgent_of_not_valid hvalid]
      simp [PluginConfigCall.writesRow, hvalid]
    | true =>
      rw [setPluginConfigForAgent_of_valid hvalid]
      cases writes with
      | false => simp [PluginConfigCall.writesRow, upsertAgent]
      | true =>
        rw [isSome_upsertAgent]
        simp [PluginConfigCall.writesRow, hvalid]
  -- the other table
  | setEnabledForUser io u p enabled =>
    show ((db.upsertUser io.writes u p enabled).agentPlugins.find? k).isSome = _
    unfold upsertUser
    split <;> rfl

/-- The texts in the rows are ones that statements are given. -/
def PlainNames (db : PluginConfigDb) : Prop :=
  ∀ r ∈ db.agentPlugins.rows, cStr r.pluginName = r.pluginName

theorem PlainNames.upsertAgent (h : db.PlainNames) (writes : Bool) (a p : Bytes) (enabled : Bool)
    (config : Option Bytes) : (db.upsertAgent writes a p enabled config).PlainNames := by
  unfold PluginConfigDb.upsertAgent
  split
  · intro r hr
    have hr' : r ∈ (db.agentPlugins.upsert (boundKey a p)
        (upsertedAgent (boundKey a p) enabled config) (key_upsertedAgent _ enabled config)).rows :=
          hr
    rcases KeyedTable.mem_upsert.mp hr' with rfl | ⟨hr, -⟩
    · exact List.takeWhile_idem
    · exact h r hr
  · exact h

theorem PlainNames.after (h : db.PlainNames) (c : PluginConfigCall) :
    (c.after fmt db).PlainNames := by
  cases c with
  | setEnabledForAgent io a p enabled => exact h.upsertAgent _ _ _ _ _
  | setConfigForAgent io a p config =>
    show PlainNames (db.setPluginConfigForAgent fmt io a p config)
    cases hvalid : config.validUtf8 with
    | false => rwa [setPluginConfigForAgent_of_not_valid hvalid]
    | true =>
      rw [setPluginConfigForAgent_of_valid hvalid]
      exact h.upsertAgent _ _ _ _ _
  | setEnabledForUser io u p enabled =>
    show PlainNames (db.upsertUser io.writes u p enabled)
    unfold upsertUser
    split <;> exact h

/-! ### Lists -/

theorem byName_trans (r s t : AgentPluginRow) (h : byName r s = true) (h' : byName s t = true) :
    byName r t = true :=
  decide_eq_true (le_trans (of_decide_eq_true h) (of_decide_eq_true h'))

theorem byName_total (r s : AgentPluginRow) : (byName r s || byName s r) = true := by
  rw [Bool.or_eq_true]
  exact (le_total (⟨r.pluginName⟩ : TextKey) ⟨s.pluginName⟩).imp decide_eq_true decide_eq_true

/-- A list has the plugins with a row. -/
theorem mem_listAgentPlugins (db : PluginConfigDb) (a p : Bytes) :
    cStr p ∈ (db.listAgentPlugins true a).map (·.1) ↔
      (db.agentPlugins.find? (boundKey a p)).isSome = true := by
  rw [listAgentPlugins, if_pos rfl, List.map_map, List.mem_map, Option.isSome_iff_exists]
  constructor
  · rintro ⟨r, hr, hname⟩
    obtain ⟨hr, hagent⟩ := List.mem_filter.mp (List.mem_mergeSort.mp hr)
    exact ⟨r, KeyedTable.find?_eq_some.mpr ⟨hr, Prod.ext (of_decide_eq_true hagent) hname⟩⟩
  · rintro ⟨r, hfind⟩
    obtain ⟨hr, hkey⟩ := KeyedTable.find?_eq_some.mp hfind
    obtain ⟨hagent, hname⟩ := Prod.mk.inj hkey
    exact ⟨r, List.mem_mergeSort.mpr (List.mem_filter.mpr ⟨hr, decide_eq_true hagent⟩), hname⟩

/-- The rows of an agent have different names. -/
theorem names_ne (db : PluginConfigDb) (a : Bytes) :
    (db.agentPlugins.rows.filter fun r => r.agentId = cStr a).Pairwise
      fun r s => r.pluginName ≠ s.pluginName := by
  have hkeys : db.agentPlugins.rows.Pairwise fun r s => r.key ≠ s.key :=
    List.pairwise_map.mp db.agentPlugins.nodup
  refine (hkeys.filter _).imp_of_mem fun {r s} hr hs hne hname => hne ?_
  have hr' := of_decide_eq_true (List.mem_filter.mp hr).2
  have hs' := of_decide_eq_true (List.mem_filter.mp hs).2
  exact Prod.ext (hr'.trans hs'.symm) hname

theorem ascending_listAgentPlugins (db : PluginConfigDb) (a : Bytes) :
    ((db.listAgentPlugins true a).map fun x => (⟨x.1⟩ : TextKey)).Pairwise (· < ·) := by
  rw [listAgentPlugins, if_pos rfl, List.map_map, List.pairwise_map]
  have hsorted := List.pairwise_mergeSort byName_trans byName_total
    (db.agentPlugins.rows.filter fun r => r.agentId = cStr a)
  have hne := (List.mergeSort_perm (db.agentPlugins.rows.filter fun r => r.agentId = cStr a)
    byName).symm.pairwise (db.names_ne a) fun {_ _} h => h.symm
  refine (hsorted.and hne).imp fun {r s} h => lt_of_le_of_ne (of_decide_eq_true h.1) ?_
  exact fun heq => h.2 (congrArg TextKey.text heq)

theorem configOfText_cStr (text : Bytes) : configOfText fmt (cStr text) =
    configOfText fmt text := by
  have hidem : cStr (cStr text) = cStr text := List.takeWhile_idem
  rw [configOfText, hidem, ← configOfText]

/-- What a list says of a plugin the getters say as well. -/
theorem listed_listAgentPlugins (h : db.PlainNames) {a : Bytes} {x : Bytes × Bool × Bytes}
    (hx : x ∈ db.listAgentPlugins true a) :
    db.isPluginEnabledForAgent true a x.1 = x.2.1 ∧
      db.getPluginConfigForAgent fmt true a x.1 = configOfText fmt x.2.2 := by
  rw [listAgentPlugins, if_pos rfl, List.mem_map] at hx
  obtain ⟨r, hr, rfl⟩ := hx
  obtain ⟨hr, hagent⟩ := List.mem_filter.mp (List.mem_mergeSort.mp hr)
  -- the row is found under its own key, as its name has no NUL
  have hkey : r.key = boundKey a r.pluginName :=
    Prod.ext (of_decide_eq_true hagent) (h r hr).symm
  have hfind : db.agentPlugins.find? (boundKey a r.pluginName) = some r :=
    KeyedTable.find?_eq_some.mpr ⟨hr, hkey⟩
  constructor
  · show db.flagOf (boundKey a r.pluginName) = r.enabled
    rw [flagOf, hfind]
    rfl
  · rw [getPluginConfigForAgent_eq, objectOf, hfind, configOfText_cStr]
    rfl

/-! ### Runs -/

theorem plainNames_afterCalls (calls : List PluginConfigCall) :
    (afterCalls fmt calls).PlainNames := by
  have hempty : PlainNames {} := fun r hr => nomatch hr
  exact List.foldlRecOn calls _ hempty fun _ h c _ => h.after c

theorem flagOf_afterCalls (calls : List PluginConfigCall) (k : Bytes × Bytes) :
    (afterCalls fmt calls).flagOf k =
      (latest (PluginConfigCall.setsEnabled k) calls).getD true :=
  @foldl_eq_latest _ _ _ (PluginConfigCall.after fmt) (flagOf · k) _ calls
    (fun c _ _ => flagOf_after c) {}

theorem objectOf_afterCalls {calls : List PluginConfigCall} (h : ∀ c ∈ calls, c.Storable fmt)
    (k : Bytes × Bytes) :
    objectOf fmt (afterCalls fmt calls) k =
      (latest (PluginConfigCall.setsConfig k) calls).getD (.obj []) :=
  @foldl_eq_latest _ _ _ (PluginConfigCall.after fmt) (objectOf fmt · k) _ calls
    (fun c hc _ => objectOf_after (h c hc)) {}

theorem userFlagOf_afterCalls (calls : List PluginConfigCall) (k : Bytes × Bytes) :
    (afterCalls fmt calls).userFlagOf k =
      (latest (PluginConfigCall.setsUser k) calls).getD true :=
  @foldl_eq_latest _ _ _ (PluginConfigCall.after fmt) (userFlagOf · k) _ calls
    (fun c _ _ => userFlagOf_after c) {}

theorem isSome_afterCalls (calls : List PluginConfigCall) (k : Bytes × Bytes) :
    ((afterCalls fmt calls).agentPlugins.find? k).isSome =
      calls.any (PluginConfigCall.writesRow k) :=
  (@foldl_or _ _ (PluginConfigCall.after fmt) (fun db => (db.agentPlugins.find? k).isSome) _
    (fun _ c => isSome_after c) calls {}).trans (Bool.or_false _)

/-- **The database answers with what was set last**, whichever statements of the calls before have
failed, and for configurations that are read as they are written. -/
theorem answers_afterCalls {calls : List PluginConfigCall} (h : ∀ c ∈ calls, c.Storable fmt) :
    Answers fmt calls (afterCalls fmt calls) where
  enabled a p := flagOf_afterCalls calls (boundKey a p)
  config a p := by
    rw [getPluginConfigForAgent_eq]
    exact objectOf_afterCalls h (boundKey a p)
  user u p := userFlagOf_afterCalls calls (boundKey u p)
  complete a p := by
    rw [mem_listAgentPlugins, isSome_afterCalls, List.any_eq_true]
  ascending := ascending_listAgentPlugins _
  listed _ _ hx := listed_listAgentPlugins (plainNames_afterCalls calls) hx

/-- A configuration is set, the plugin is disabled, and the next configuration is set while the flag
cannot be read. -/
def configuredPlugin : List PluginConfigCall :=
  [.setConfigForAgent {} (utf8 "a") (utf8 "p") (.obj [(utf8 "k", .int 1)]),
    .setEnabledForAgent {} (utf8 "a") (utf8 "p") false,
    .setConfigForAgent { reads := false } (utf8 "a") (utf8 "p") (.obj [(utf8 "k", .int 2)])]

theorem configuredPlugin_answers :
    Answers ⟨fun _ => [], fun _ => none⟩ configuredPlugin
      (afterCalls ⟨fun _ => [], fun _ => none⟩ configuredPlugin) := by
  have hobject : ∀ n : Int, -2 ^ 63 ≤ n → n < 2 ^ 64 →
      Canonical ⟨fun _ => [], fun _ => none⟩ (.obj [(utf8 "k", .int n)]) := fun n hlow hhigh =>
    ⟨⟨by decide +kernel, ⟨hlow, hhigh⟩, trivial⟩, List.pairwise_singleton _ _⟩
  refine answers_afterCalls fun c hc => ?_
  rcases List.mem_cons.mp hc with rfl | hc
  · exact fun _ => hobject 1 (by decide) (by decide)
  rcases List.mem_cons.mp hc with rfl | hc
  · trivial
  obtain rfl := List.mem_singleton.mp hc
  exact fun _ => hobject 2 (by decide) (by decide)

/-! ### The flags alone -/

/-- The column `enabled` of both tables. -/
def flags (db : PluginConfigDb) : PluginConfigSqlite where
  agentPlugins agentId pluginName := (db.agentPlugins.find? (agentId, pluginName)).map (·.enabled)
  userPlugins userId pluginName := (db.userPlugins.find? (userId, pluginName)).map (·.enabled)

theorem flags_isPluginEnabledForAgent (db : PluginConfigDb) (a p : Bytes) :
    db.flags.isPluginEnabledForAgent a p = db.isPluginEnabledForAgent true a p := rfl

theorem flags_isPluginEnabledForUser (db : PluginConfigDb) (u p : Bytes) :
    db.flags.isPluginEnabledForUser u p = db.isPluginEnabledForUser true u p := rfl

/-- Setting a flag is what it is for the plugin manager. -/
theorem flags_setPluginEnabledForAgent (db : PluginConfigDb) (io : StatementIo) (a p : Bytes)
    (enabled : Bool) :
    (db.setPluginEnabledForAgent io a p enabled).flags =
      db.flags.setPluginEnabledForAgent io.writes a p enabled := by
  rw [setPluginEnabledForAgent, upsertAgent, PluginConfigSqlite.setPluginEnabledForAgent]
  split
  case isFalse => rfl
  case isTrue =>
    refine PluginConfigSqlite.mk.injEq .. ▸ ⟨?_, rfl⟩
    funext a' p'
    dsimp only [flags]
    rw [KeyedTable.find?_upsert]
    by_cases ha : a' = cStr a
    -- the row of this key, and any other
    · by_cases hp : p' = cStr p
      · have hk : (a', p') = boundKey a p := Prod.ext ha hp
        rw [if_pos hk, ha, hp, Function.update_self, Function.update_self]
        rfl
      · have hk : (a', p') ≠ boundKey a p := fun h => hp (Prod.mk.inj h).2
        rw [if_neg hk, ha, Function.update_self, Function.update_of_ne hp]
    · have hk : (a', p') ≠ boundKey a p := fun h => ha (Prod.mk.inj h).1
      rw [if_neg hk, Function.update_of_ne ha]

end After

end PluginConfigDb

end Aestival
