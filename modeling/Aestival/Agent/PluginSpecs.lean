import Aestival.Agent.SystemCommands

/-!
# What is done with the plugin manager

All uses of the plugin manager come down to three operations: looking a plugin up, enabling it and
disabling it, the last two for the agent of the commands (`ManagerOp`). Listing, registering and
dispatching are sequences of look-ups.

`PluginManager.Blocks` is the form in which a plugin is disabled for good: every operation but
enabling this plugin keeps it, and a blocked plugin is neither called by `dispatchFrom` nor
registered as a provider of tools.
-/

namespace Aestival

open Bytes

/-! ### Operations of the manager -/

/-- What is done with the plugin manager. -/
inductive ManagerOp where
  | lookUp (pluginName agentId : Bytes)
  | enable (writes : Bool) (pluginName : Bytes)
  | disable (writes : Bool) (pluginName : Bytes)

namespace PluginManager

def exec (m : PluginManager) : ManagerOp → PluginManager
  | .lookUp pluginName agentId => (m.isPluginEnabled pluginName agentId).2
  | .enable writes pluginName => m.enablePluginForAgent writes pluginName commandAgent
  | .disable writes pluginName => m.disablePluginForAgent writes pluginName commandAgent

/-- One operation after the other. -/
def execAll (m : PluginManager) (ops : List ManagerOp) : PluginManager := ops.foldl exec m

@[simp] theorem execAll_nil (m : PluginManager) : m.execAll [] = m := rfl

theorem execAll_append (m : PluginManager) (ops ops' : List ManagerOp) :
    m.execAll (ops ++ ops') = (m.execAll ops).execAll ops' :=
  List.foldl_append

@[simp] theorem plugins_exec (m : PluginManager) (op : ManagerOp) :
    (m.exec op).plugins = m.plugins := by
  cases op with
  | lookUp pluginName agentId =>
    rw [exec, isPluginEnabled]
    split <;> rfl
  | enable => rfl
  | disable => rfl

@[simp] theorem plugins_execAll (m : PluginManager) (ops : List ManagerOp) :
    (m.execAll ops).plugins = m.plugins := by
  induction ops generalizing m with
  | nil => rfl
  | cons op ops ih => rw [execAll, List.foldl_cons, ← execAll, ih, plugins_exec]

/-- What every operation of a list keeps is kept by all of them. -/
theorem execAll_induction {I : PluginManager → Prop} {P : ManagerOp → Prop}
    (hkeep : ∀ m op, P op → I m → I (m.exec op)) {ops : List ManagerOp} (hops : ∀ op ∈ ops, P op)
    {m : PluginManager} (h : I m) : I (m.execAll ops) := by
  induction ops generalizing m with
  | nil => exact h
  | cons op ops ih =>
    refine ih (fun o ho => hops o (List.mem_cons_of_mem op ho)) ?_
    exact hkeep m op (hops op (List.mem_cons_self ..)) h

end PluginManager

theorem listFrom_eq_execAll (agentId : Bytes) (l : List Plugin) (m : PluginManager) :
    (PluginManager.listFrom agentId l m).2 =
      m.execAll (l.map fun p => .lookUp p.name agentId) := by
  induction l generalizing m with
  | nil => rfl
  | cons p rest ih => exact ih _

theorem registerFrom_eq_execAll (agentId : Bytes) (l : List Plugin) (m : PluginManager) :
    (registerFrom agentId l m).2 = m.execAll (l.map fun p => .lookUp p.name agentId) := by
  induction l generalizing m with
  | nil => rfl
  | cons p rest ih => exact ih _

/-- Dispatching looks plugins up for the agent, and does nothing else with the manager. -/
theorem dispatchFrom_eq_execAll (message : MessageEvent) (agentId : Bytes)
    (ends : Plugin → HandleEnd) (l : List Plugin) (m : PluginManager) :
    ∃ ops : List ManagerOp, (∀ op ∈ ops, ∃ q, op = .lookUp q agentId) ∧
      (dispatchFrom message agentId ends l m).manager = m.execAll ops := by
  induction l generalizing m with
  | nil => exact ⟨[], fun _ h => absurd h List.not_mem_nil, rfl⟩
  | cons p rest ih =>
    unfold dispatchFrom
    split
    · exact ih m
    · -- the look-up of the agent, if it has an id
      have hlook : ∃ ops : List ManagerOp, (∀ op ∈ ops, ∃ q, op = .lookUp q agentId) ∧
          (if agentId ≠ [] then m.isPluginEnabled p.name agentId else (true, m)).2 =
            m.execAll ops := by
        split
        · exact ⟨[.lookUp p.name agentId], by simp, rfl⟩
        · exact ⟨[], by simp, rfl⟩
      obtain ⟨ops, hops, hm⟩ := hlook
      generalize (if agentId ≠ [] then m.isPluginEnabled p.name agentId else (true, m)) = looked
        at hm ⊢
      obtain ⟨agentOk, m'⟩ := looked
      replace hm : m' = m.execAll ops := hm
      obtain ⟨ops', hops', hm'⟩ := ih m'
      have hrest : ∃ ops : List ManagerOp, (∀ op ∈ ops, ∃ q, op = .lookUp q agentId) ∧
          (dispatchFrom message agentId ends rest m').manager = m.execAll ops := by
        refine ⟨ops ++ ops', ?_, ?_⟩
        · exact fun op hop => (List.mem_append.mp hop).elim (hops op) (hops' op)
        · rw [hm', hm, PluginManager.execAll_append]
      -- whatever becomes of `p`, the rest of the loop comes behind the look-up, or nothing does
      dsimp only
      split
      · exact hrest
      split
      · exact hrest
      split
      · exact hrest
      · exact ⟨ops, hops, hm⟩
      · exact hrest

/-! ### Commands -/

/-- The command of `n` enables the plugin `name`. -/
def CommandEnables (d : CommandDeps) (n : Bytes) (msg : MessageEvent) (name : Bytes) : Prop :=
  isAdmin msg d.adminIds = true ∧
    ∃ arg, afterPrefix n (utf8 "plugin enable ") = some arg ∧ trim arg = name

section Commands

variable {d : CommandDeps} {msg : MessageEvent} {s : CommandState} {m : PluginManager}

/-- What a command may do with the manager: a sequence of operations, of which those that enable a
plugin come from a command that says so. -/
def Operates (d : CommandDeps) (n : Bytes) (msg : MessageEvent) (m : PluginManager)
    (r : CommandEnd) :
    Prop :=
  r.matched = true ∧ ∃ ops : List ManagerOp, r.state.plugins = some (m.execAll ops) ∧
    ∀ w q, .enable w q ∈ ops → CommandEnables d n msg q

variable {n : Bytes}

theorem operates_idle {r : CommandEnd} (hr : r.matched = true) (hm : r.state.plugins = some m) :
    Operates d n msg m r :=
  ⟨hr, [], hm, fun _ _ h => absurd h List.not_mem_nil⟩

theorem operates_answer (hm : s.plugins = some m) (content : Bytes) :
    Operates d n msg m (answer s content) :=
  operates_idle rfl hm

theorem operates_adminOnly (hm : s.plugins = some m) {command : CommandEnd}
    (h : isAdmin msg d.adminIds = true → Operates d n msg m command) :
    Operates d n msg m (adminOnly d msg s command) := by
  rw [adminOnly]
  split
  · next hadmin => exact h hadmin
  · exact operates_answer hm _

theorem operates_switchMode (hm : s.plugins = some m) (v : Bytes) :
    Operates d n msg m (switchMode v s) := by
  rw [switchMode]
  split
  · exact operates_idle rfl hm
  · split
    · exact operates_idle rfl hm
    · exact operates_answer hm _

theorem operates_deleteDatabase (hm : s.plugins = some m) :
    Operates d n msg m (deleteDatabase s) := by
  rw [deleteDatabase]
  split
  · exact operates_answer hm _
  · split
    · exact operates_idle rfl hm
    · exact operates_answer hm _

theorem operates_selfIterate (hm : s.plugins = some m) (dry : Bool) :
    Operates d n msg m (selfIterate d dry s) := by
  rw [selfIterate]
  split
  · exact operates_idle rfl hm
  · exact operates_answer hm _

theorem operates_agentList (hm : s.plugins = some m) : Operates d n msg m (agentList s) := by
  rw [agentList]
  split
  · exact operates_answer hm _
  · split
    · exact operates_answer hm _
    · exact operates_answer hm _

theorem operates_agentCommand (hm : s.plugins = some m) (verb done arg : Bytes)
    (op : Registry → Bytes → Registry × Except Failure Unit) :
    Operates d n msg m (agentCommand verb done arg op s) := by
  rw [agentCommand]
  split
  · exact operates_answer hm _
  · dsimp only
    split
    · exact operates_answer hm _
    · split
      · exact operates_idle rfl hm
      · exact operates_idle rfl hm

theorem operates_pluginList (hm : s.plugins = some m) : Operates d n msg m (pluginList s) := by
  have hlisted : ∀ content, Operates d n msg m
      (answer { s with plugins := some (m.listPlugins commandAgent).2 } content) := by
    -- both answers of `plugin list` come behind the same look-ups
    refine fun content => ⟨rfl, m.plugins.map fun p => .lookUp p.name commandAgent, ?_, by simp⟩
    exact congrArg some (listFrom_eq_execAll commandAgent m.plugins m)
  rw [pluginList, hm]
  dsimp only
  split
  · exact hlisted _
  · exact hlisted _

theorem operates_pluginInfo (hm : s.plugins = some m) (arg : Bytes) :
    Operates d n msg m (pluginInfo arg s) := by
  rw [pluginInfo, hm]
  dsimp only
  split
  · exact operates_answer hm _
  · split
    · exact operates_answer hm _
    · exact operates_answer hm _

theorem operates_pluginToggle (hm : s.plugins = some m) {enable : Bool} {arg : Bytes}
    (henable : enable = true → CommandEnables d n msg (trim arg)) :
    Operates d n msg m (pluginToggle d enable arg s) := by
  rw [pluginToggle, hm]
  dsimp only
  split
  · exact operates_answer hm _
  split
  · exact operates_answer hm _
  split
  -- the only command that enables, and it enables what it names
  · next hon =>
    refine ⟨rfl, [.enable d.writes (trim arg)], rfl, fun w q hq => ?_⟩
    obtain ⟨-, rfl⟩ := ManagerOp.enable.inj (List.mem_singleton.mp hq)
    exact henable hon
  · exact ⟨rfl, [.disable d.writes (trim arg)], rfl, by simp⟩

/-- **A message is no command, and then nothing happens, or it operates on the manager.** -/
theorem operates_handleCommand (hm : s.plugins = some m) (n : Bytes) (msg : MessageEvent) :
    handleCommand d n msg s = ⟨false, s, []⟩ ∨ Operates d n msg m (handleCommand d n msg s) := by
  -- one command after the other; the last is no command
  unfold handleCommand
  split; · exact .inr (operates_answer hm _)
  split; · exact .inr (operates_adminOnly hm fun _ => operates_switchMode hm _)
  split; · exact .inr (operates_idle rfl hm)
  split; · exact .inr (operates_answer hm _)
  split; · exact .inr (operates_adminOnly hm fun _ => operates_deleteDatabase hm)
  split; · exact .inr (operates_adminOnly hm fun _ => operates_idle rfl hm)
  split; · exact .inr (operates_adminOnly hm fun _ => operates_selfIterate hm _)
  split; · exact .inr (operates_adminOnly hm fun _ => operates_selfIterate hm _)
  split; · exact .inr (operates_agentList hm)
  split; · exact .inr (operates_adminOnly hm fun _ => operates_agentCommand hm ..)
  split; · exact .inr (operates_adminOnly hm fun _ => operates_agentCommand hm ..)
  split; · exact .inr (operates_adminOnly hm fun _ => operates_agentCommand hm ..)
  split; · exact .inr (operates_pluginList hm)
  split
  · next arg harg =>
    exact .inr (operates_adminOnly hm fun hadmin =>
      operates_pluginToggle hm fun _ => ⟨hadmin, arg, harg, rfl⟩)
  split; · exact .inr (operates_adminOnly hm fun _ => operates_pluginToggle hm nofun)
  split; · exact .inr (operates_pluginInfo hm _)
  exact .inl rfl

end Commands

/-! ### The text of a command -/

/-- Trimming does not reach into a text whose ends are no spaces. -/
theorem trim_append {v x : Bytes} {b e : UInt8} {l : Bytes} (hv : v = b :: l)
    (hb : isSpace b = false)
    (hlast : v.reverse.head? = some e) (he : isSpace e = false) :
    trim (v ++ x) = v ++ x.rdropWhile isSpace := by
  have hfront : (v ++ x).dropWhile isSpace = v ++ x := by
    rw [hv, List.cons_append, List.dropWhile_cons_of_neg (by simp [hb])]
  have hback : v.reverse.dropWhile isSpace = v.reverse := by
    cases hr : v.reverse with
    | nil => rfl
    | cons c r =>
      rw [hr, List.head?_cons] at hlast
      rw [Option.some.inj hlast, List.dropWhile_cons_of_neg (by simp [he])]
  -- seen from the end, `x` is dropped as far as it is space; if all of it is, `v` stops there
  rw [trim, hfront, List.rdropWhile, List.reverse_append, List.dropWhile_append]
  split
  · next hnil =>
    rw [hback, List.reverse_reverse, List.rdropWhile, List.isEmpty_iff.mp hnil]
    exact (List.append_nil v).symm
  · rw [List.reverse_append, List.reverse_reverse, List.rdropWhile]

/-- A text that trimming leaves alone does not end with a space. -/
theorem rdropWhile_of_trim {s : Bytes} (h : trim s = s) : s.rdropWhile isSpace = s := by
  -- trimming drops at both ends, so a text it leaves alone loses nothing at either
  have hfront : s.dropWhile isSpace = s := by
    refine (List.dropWhile_suffix isSpace).eq_of_length ?_
    refine le_antisymm (List.dropWhile_suffix isSpace).length_le ?_
    calc s.length = (trim s).length := by rw [h]
      _ ≤ (s.dropWhile isSpace).length := (List.rdropWhile_prefix isSpace _).length_le
  rwa [trim, hfront] at h

/-- A name that a command can spell: nothing of it is lost when the text is trimmed and
lower-cased. -/
structure Typable (name : Bytes) : Prop where
  ne_nil : name ≠ []
  trim_eq : trim name = name
  lower_eq : toAsciiLower name = name

/-- The words in front of the name of a plugin. -/
def toggleWords (enable : Bool) : Bytes :=
  if enable then utf8 "plugin enable" else utf8 "plugin disable"

/-- The text of the command that toggles the plugin `name`. -/
def toggleText (enable : Bool) (name : Bytes) : Bytes := toggleWords enable ++ 32 :: name

/-- What the text of the command is compared as. -/
theorem normalized_toggleText {msg : MessageEvent} {enable : Bool} {name : Bytes}
    (h : msg.content = toggleText enable name) :
    normalizedCommand msg =
      toggleWords enable ++ toAsciiLower ((32 :: name).rdropWhile isSpace) := by
  rw [normalizedCommand, h, toggleText]
  cases enable with
  | true =>
    rw [trim_append (v := toggleWords true) rfl (by decide) rfl (by decide), toAsciiLower,
      List.map_append]
    rfl
  | false =>
    rw [trim_append (v := toggleWords false) rfl (by decide) rfl (by decide), toAsciiLower,
      List.map_append]
    rfl

theorem normalized_of_typable {msg : MessageEvent} {enable : Bool} {name : Bytes}
    (h : msg.content = toggleText enable name) (hname : Typable name) :
    normalizedCommand msg = toggleText enable name := by
  -- the space in front of the name is kept, since the name does not end with one
  have hend : (32 :: name).rdropWhile isSpace = 32 :: name := by
    have hback := rdropWhile_of_trim hname.trim_eq
    rw [List.rdropWhile_eq_self_iff] at hback ⊢
    intro hne
    rw [List.getLast_cons hname.ne_nil]
    exact hback hname.ne_nil
  rw [normalized_toggleText h, hend]
  show toggleWords enable ++ 32 :: toAsciiLower name = toggleText enable name
  rw [hname.lower_eq]
  rfl

/-- The text is cut down to the words, or the command has an argument. -/
theorem normalized_toggle_cases {msg : MessageEvent} {enable : Bool} {name : Bytes}
    (h : msg.content = toggleText enable name) :
    normalizedCommand msg = toggleWords enable ∨
      ∃ arg, normalizedCommand msg = toggleText enable arg := by
  rw [normalized_toggleText h]
  cases hy : (32 :: name).rdropWhile isSpace with
  | nil => exact .inl (List.append_nil _)
  | cons c y =>
    -- what is left begins like ` name`, so the command keeps its space
    have hpre : c :: y <+: 32 :: name := hy ▸ List.rdropWhile_prefix isSpace _
    obtain rfl : c = 32 := (List.cons_prefix_cons.mp hpre).1
    exact .inr ⟨toAsciiLower y, rfl⟩

theorem handleCommand_toggleText (d : CommandDeps) (enable : Bool) (arg : Bytes)
    (msg : MessageEvent) (s : CommandState) :
    handleCommand d (toggleText enable arg) msg s =
      adminOnly d msg s (pluginToggle d enable arg s) := by
  cases enable with
  | true => rfl
  | false => rfl

theorem handleCommand_toggleWords (d : CommandDeps) (enable : Bool) (msg : MessageEvent)
    (s : CommandState) : handleCommand d (toggleWords enable) msg s = ⟨false, s, []⟩ := by
  cases enable with
  | true => rfl
  | false => rfl

/-- A command toggles the plugin it names. -/
theorem pluginToggle_of_mem {d : CommandDeps} {s : CommandState} {m : PluginManager} {p : Plugin}
    (hm : s.plugins = some m) (hp : p ∈ m.plugins) (hname : Typable p.name) (enable : Bool) :
    (pluginToggle d enable p.name s).matched = true ∧
      (pluginToggle d enable p.name s).state.plugins =
        some (m.exec (if enable then .enable d.writes p.name else .disable d.writes p.name)) := by
  have hfind : (m.findPlugin p.name).isSome = true :=
    List.find?_isSome.mpr ⟨p, hp, decide_eq_true rfl⟩
  obtain ⟨q, hq⟩ := Option.isSome_iff_exists.mp hfind
  rw [pluginToggle, hm]
  dsimp only
  rw [hname.trim_eq, if_neg hname.ne_nil, hq]
  cases enable with
  | true => exact ⟨rfl, rfl⟩
  | false => exact ⟨rfl, rfl⟩

/-- A command that enables leaves the manager alone, or enables what it names. -/
theorem pluginToggle_enable_cases {d : CommandDeps} {s : CommandState} {m : PluginManager}
    (hm : s.plugins = some m) (arg : Bytes) :
    (pluginToggle d true arg s).matched = true ∧
      ((pluginToggle d true arg s).state.plugins = some m ∨
        (pluginToggle d true arg s).state.plugins =
          some (m.exec (.enable d.writes (trim arg)))) := by
  rw [pluginToggle, hm]
  dsimp only
  split
  · exact ⟨rfl, .inl hm⟩
  split
  · exact ⟨rfl, .inl hm⟩
  · exact ⟨rfl, .inr rfl⟩

/-! ### Enabled plugins -/

namespace PluginManager

variable {m : PluginManager} {name agentId : Bytes}

theorem enabled_eq_true_iff : m.enabled name agentId = true ↔
    cacheKey agentId name ∉ m.disabledCache ∧
      ∀ db, m.configBackend = some db → db.isPluginEnabledForAgent agentId name = true := by
  rw [enabled]
  split
  · next hcache => simp [hcache]
  · next hcache =>
    cases m.configBackend with
    | none => simp [hcache]
    | some db => simp [hcache]

/-- Looking plugins up for an agent disables none of them. -/
theorem enabled_lookUp (h : m.enabled name agentId = true) (q : Bytes) :
    (m.exec (.lookUp q agentId)).enabled name agentId = true := by
  rw [exec, isPluginEnabled]
  split
  · exact h
  · next hoff =>
    obtain ⟨hcache, hdb⟩ := enabled_eq_true_iff.mp h
    refine enabled_eq_true_iff.mpr ⟨fun hmem => ?_, hdb⟩
    rcases Finset.mem_insert.mp hmem with hkey | hmem
    -- the key that was added is the plugin's own: then it was disabled before
    · rw [← List.append_cancel_left hkey, h] at hoff
      exact hoff rfl
    · exact hcache hmem

/-- Setting a row to `true` disables nothing. -/
theorem isPluginEnabledForAgent_set {db : PluginConfigSqlite} {agentId a q name : Bytes}
    (writes : Bool) (h : db.isPluginEnabledForAgent agentId name = true) :
    (db.setPluginEnabledForAgent writes a q true).isPluginEnabledForAgent agentId name = true := by
  rw [PluginConfigSqlite.setPluginEnabledForAgent]
  split
  · rw [PluginConfigSqlite.isPluginEnabledForAgent] at h ⊢
    dsimp only
    -- the row that is set is the one that is read, or it is another one
    by_cases ha : cStr agentId = cStr a
    · rw [ha, Function.update_self]
      by_cases hq : cStr name = cStr q
      · rw [hq, Function.update_self]
        rfl
      · rwa [Function.update_of_ne hq, ← ha]
    · rwa [Function.update_of_ne ha]
  · exact h

/-- Enabling a plugin disables none. -/
theorem enabled_enable (h : m.enabled name agentId = true) (w : Bool) (q : Bytes) :
    (m.exec (.enable w q)).enabled name agentId = true := by
  obtain ⟨hcache, hdb⟩ := enabled_eq_true_iff.mp h
  refine enabled_eq_true_iff.mpr ⟨fun hmem => hcache (Finset.mem_of_mem_erase hmem), ?_⟩
  intro db' hdb'
  obtain ⟨db, hsome, rfl⟩ := Option.map_eq_some_iff.mp hdb'
  exact isPluginEnabledForAgent_set w (hdb db hsome)

/-- The database is not left with a row that disables the plugin for the agent of the commands. -/
def Clears (m : PluginManager) (writes : Bool) (name : Bytes) : Prop :=
  writes = true ∨ ∀ db, m.configBackend = some db →
    db.agentPlugins commandAgent (cStr name) ≠ some false

/-- A plugin is enabled by the command, if the database follows. -/
theorem enabled_of_enable {w : Bool} (h : m.Clears w name) :
    (m.exec (.enable w name)).enabled name commandAgent = true := by
  -- the cache forgets the plugin in any case; the row depends on the write
  refine enabled_eq_true_iff.mpr ⟨fun hmem => (Finset.mem_erase.mp hmem).1 rfl, ?_⟩
  intro db' hdb'
  obtain ⟨db, hsome, rfl⟩ := Option.map_eq_some_iff.mp hdb'
  have hcmd : cStr commandAgent = commandAgent := by decide
  rw [PluginConfigSqlite.setPluginEnabledForAgent, PluginConfigSqlite.isPluginEnabledForAgent, hcmd]
  split
  · dsimp only
    rw [Function.update_self, Function.update_self]
    rfl
  · next hw =>
    have hrow := h.resolve_left hw db hsome
    cases hcol : db.agentPlugins commandAgent (cStr name) with
    | none => rfl
    | some b =>
      cases b with
      | true => rfl
      | false => exact absurd hcol hrow

end PluginManager

/-! ### Disabled plugins -/

/-- The plugin of this name is disabled for the agent, in a way only a command that enables it
undoes: the manager remembers that it is disabled for the agent of the commands, or the database
has a row for another agent. -/
def PluginManager.Blocks (m : PluginManager) (agentId name : Bytes) : Prop :=
  (agentId = commandAgent ∧ cacheKey agentId name ∈ m.disabledCache) ∨
    (cStr agentId ≠ commandAgent ∧ ∃ db, m.configBackend = some db ∧
      db.agentPlugins (cStr agentId) (cStr name) = some false)

namespace PluginManager.Blocks

variable {m : PluginManager} {agentId name : Bytes}

theorem enabled (h : m.Blocks agentId name) : m.enabled name agentId = false := by
  rw [PluginManager.enabled]
  split
  · rfl
  · next hcache =>
    rcases h with ⟨-, hmem⟩ | ⟨-, db, hdb, hrow⟩
    · exact absurd hmem hcache
    · rw [hdb]
      simp [PluginConfigSqlite.isPluginEnabledForAgent, hrow]

theorem setRow {db : PluginConfigSqlite} {agentId name q : Bytes} {b : Bool} (writes enabled : Bool)
    (hne : cStr agentId ≠ commandAgent)
    (hrow : db.agentPlugins (cStr agentId) (cStr name) = some b) :
    (db.setPluginEnabledForAgent writes commandAgent q enabled).agentPlugins (cStr agentId)
      (cStr name) = some b := by
  rw [PluginConfigSqlite.setPluginEnabledForAgent]
  split
  · have hcmd : cStr commandAgent = commandAgent := by decide
    dsimp only
    rw [hcmd, Function.update_of_ne hne]
    exact hrow
  · exact hrow

theorem lookUp (h : m.Blocks agentId name) (q a : Bytes) :
    (m.exec (.lookUp q a)).Blocks agentId name := by
  rw [exec, isPluginEnabled]
  split
  · exact h
  · exact h.imp (fun ⟨ha, hmem⟩ => ⟨ha, Finset.mem_insert_of_mem hmem⟩) id

/-- What is blocked stays so under everything but a command that enables it. -/
theorem exec (h : m.Blocks agentId name) {op : ManagerOp} (hop : ∀ w, op ≠ .enable w name) :
    (m.exec op).Blocks agentId name := by
  cases op with
  | lookUp q a => exact h.lookUp q a
  | enable w q =>
    -- enabling another plugin erases another key, and sets a row of another agent
    have hne : q ≠ name := fun heq => hop w (heq ▸ rfl)
    rcases h with ⟨ha, hmem⟩ | ⟨ha, db, hdb, hrow⟩
    · subst ha
      refine .inl ⟨rfl, Finset.mem_erase.mpr ⟨fun heq => hne ?_, hmem⟩⟩
      exact (List.append_cancel_left heq).symm
    · refine .inr ⟨ha, db.setPluginEnabledForAgent w commandAgent q true, ?_,
        setRow w true ha hrow⟩
      simp [PluginManager.exec, enablePluginForAgent, hdb]
  | disable w q =>
    rcases h with ⟨ha, hmem⟩ | ⟨ha, db, hdb, hrow⟩
    · exact .inl ⟨ha, Finset.mem_insert_of_mem hmem⟩
    -- a row of this agent is out of reach for every command
    · refine .inr ⟨ha, db.setPluginEnabledForAgent w commandAgent q false, ?_,
        setRow w false ha hrow⟩
      simp [PluginManager.exec, disablePluginForAgent, hdb]

end PluginManager.Blocks

/-- A plugin that is blocked for the agent is not called. -/
theorem notMem_called {message : MessageEvent} {agentId : Bytes} {ends : Plugin → HandleEnd}
    (hagent : agentId ≠ []) {p : Plugin} (l : List Plugin) {m : PluginManager}
    (h : m.Blocks agentId p.name) : p ∉ (dispatchFrom message agentId ends l m).called := by
  induction l generalizing m with
  | nil => exact List.not_mem_nil
  | cons q rest ih =>
    unfold dispatchFrom
    split
    · exact ih h
    · have hnext : (m.isPluginEnabled q.name agentId).2.Blocks agentId p.name :=
        h.lookUp q.name agentId
      -- if `q` is called then it is enabled, so it is not `p`
      have hq : (m.isPluginEnabled q.name agentId).1 = true → p ≠ q := by
        rintro hon rfl
        rw [PluginManager.isPluginEnabled, h.enabled, if_neg Bool.false_ne_true] at hon
        exact Bool.false_ne_true hon
      dsimp only
      split
      · exact ih hnext
      next hok =>
      have hpq := hq (by simpa using hok)
      split
      · exact ih hnext
      split
      · exact List.not_mem_cons_of_ne_of_not_mem hpq (ih hnext)
      · exact List.not_mem_cons_of_ne_of_not_mem hpq List.not_mem_nil
      · exact List.not_mem_cons_of_ne_of_not_mem hpq (ih hnext)

/-- A plugin that is blocked for the agent is not registered. -/
theorem notMem_registerFrom {agentId : Bytes} {p : Plugin} (l : List Plugin) {m : PluginManager}
    (h : m.Blocks agentId p.name) : .plugin p ∉ (registerFrom agentId l m).1 := by
  induction l generalizing m with
  | nil => exact List.not_mem_nil
  | cons q rest ih =>
    -- looking `q` up keeps `p` blocked, so the induction is on the manager behind it
    have hrest := ih (h.lookUp q.name agentId)
    rw [registerFrom]
    dsimp only
    split
    · next hon =>
      refine List.not_mem_cons_of_ne_of_not_mem ?_ hrest
      rintro heq
      obtain rfl := ToolProvider.plugin.inj heq
      rw [PluginManager.isPluginEnabled, h.enabled, if_neg Bool.false_ne_true] at hon
      exact Bool.false_ne_true hon
    · exact hrest

end Aestival
