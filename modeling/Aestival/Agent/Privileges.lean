import Aestival.Agent.SystemCommands

/-!
# What non-administrators can do

A message of a sender who is no administrator leaves everything all users share as it is: mode,
registry, plugins, the database file, and the conversations of others. Every command is of one of
two kinds. Those behind `adminOnly` do nothing for such a sender, and the others answer, clear the
sender's own conversation, or list the plugins.

Listing is not quite idle: it remembers the disabled plugins it meets in the cache of the manager.
The cache finds them again by a key that joins agent and plugin with colons, so the rest depends on
names without a colon, as the plugins of the program have them (`cacheKey_inj`).
-/

namespace Aestival

open Bytes

/-! ### Remembering what is disabled -/

/-- A key tells agent and plugin apart. -/
theorem cacheKey_inj {a a' p p' : Bytes} (hp : (58 : UInt8) ∉ p) (hp' : (58 : UInt8) ∉ p')
    (h : cacheKey a p = cacheKey a' p') : a = a' ∧ p = p' := by
  -- read backwards, the key is the name of the plugin, a colon, and the rest
  have hrev := congrArg List.reverse h
  simp only [cacheKey, List.append_assoc, List.reverse_append] at hrev
  obtain ⟨hpp, haa⟩ :=
    separator_inj (mt List.mem_reverse.mp hp) (mt List.mem_reverse.mp hp') hrev
  exact ⟨List.reverse_injective (List.cons.inj haa).2, List.reverse_injective hpp⟩

namespace PluginManager

/-- `m'` enables what `m` does, for every agent. -/
structure SameEnablement (m m' : PluginManager) : Prop where
  plugins : m'.plugins = m.plugins
  configBackend : m'.configBackend = m.configBackend
  enabled : ∀ p ∈ m.plugins, ∀ a, m'.enabled p.name a = m.enabled p.name a

variable {m m' m'' : PluginManager}

theorem SameEnablement.refl (m : PluginManager) : SameEnablement m m :=
  ⟨rfl, rfl, fun _ _ _ => rfl⟩

theorem SameEnablement.symm (h : SameEnablement m m') : SameEnablement m' m :=
  ⟨h.plugins.symm, h.configBackend.symm,
    fun p hp a => (h.enabled p (h.plugins ▸ hp) a).symm⟩

theorem SameEnablement.trans (h : SameEnablement m m') (h' : SameEnablement m' m'') :
    SameEnablement m m'' where
  plugins := h'.plugins.trans h.plugins
  configBackend := h'.configBackend.trans h.configBackend
  enabled p hp a := (h'.enabled p (h.plugins ▸ hp) a).trans (h.enabled p hp a)

/-- The names of the plugins have no colon. The names are constants of the program. -/
def PlainNames (m : PluginManager) : Prop := ∀ p ∈ m.plugins, (58 : UInt8) ∉ p.name

theorem plainNames_main (db : Option PluginConfigSqlite) (cache : Finset Bytes) :
    PlainNames ⟨mainPlugins, db, cache⟩ := by
  intro p hp
  rcases List.mem_cons.mp hp with rfl | hp
  · decide
  · obtain rfl := List.mem_singleton.mp hp
    decide

/-- A look-up changes nothing but what is remembered. -/
theorem sameEnablement_isPluginEnabled (hplain : m.PlainNames) {q : Plugin} (hq : q ∈ m.plugins)
    (agentId : Bytes) : SameEnablement m (m.isPluginEnabled q.name agentId).2 := by
  rw [isPluginEnabled]
  split
  · exact .refl m
  · next hoff =>
    refine ⟨rfl, rfl, fun p hp a => ?_⟩
    by_cases hkey : cacheKey a p.name = cacheKey agentId q.name
    · -- the plugin that was looked up: it was disabled before
      obtain ⟨rfl, hname⟩ := cacheKey_inj (hplain p hp) (hplain q hq) hkey
      rw [hname]
      rw [Bool.not_eq_true] at hoff
      rw [hoff]
      simp [enabled]
    · simp [enabled, hkey]

theorem sameEnablement_listFrom (agentId : Bytes) {l : List Plugin} {m : PluginManager}
    (hplain : m.PlainNames) (hl : ∀ p ∈ l, p ∈ m.plugins) :
    SameEnablement m (listFrom agentId l m).2 := by
  induction l generalizing m with
  | nil => exact .refl m
  | cons p rest ih =>
    -- the look-ups behind the first one meet a manager with the same plugins
    have hstep := sameEnablement_isPluginEnabled hplain (hl p (List.mem_cons_self ..)) agentId
    refine hstep.trans (ih ?_ ?_)
    · exact fun q hq => hplain q (hstep.plugins ▸ hq)
    · exact fun q hq => hstep.plugins ▸ hl q (List.mem_cons_of_mem p hq)

end PluginManager

/-! ### Commands -/

/-- `s'` has everything that all users share as in `s`. -/
structure SamePrivileges (s s' : CommandState) : Prop where
  mode : s'.mode = s.mode
  registry : s'.registry = s.registry
  database : s'.database = s.database
  -- up to what the manager remembers, since listing the plugins adds to it
  plugins : Option.Rel PluginManager.SameEnablement s.plugins s'.plugins

theorem SamePrivileges.refl (s : CommandState) : SamePrivileges s s := by
  refine ⟨rfl, rfl, rfl, ?_⟩
  cases s.plugins with
  | none => exact .none
  | some m => exact .some (.refl m)

theorem SamePrivileges.symm {s s' : CommandState} (h : SamePrivileges s s') :
    SamePrivileges s' s := by
  refine ⟨h.mode.symm, h.registry.symm, h.database.symm, ?_⟩
  have hplugins := h.plugins
  revert hplugins
  generalize s.plugins = x
  generalize s'.plugins = y
  rintro (hm | -)
  · exact .some hm.symm
  · exact .none

theorem SamePrivileges.trans {s s' s'' : CommandState} (h : SamePrivileges s s')
    (h' : SamePrivileges s' s'') : SamePrivileges s s'' := by
  refine ⟨h'.mode.trans h.mode, h'.registry.trans h.registry, h'.database.trans h.database, ?_⟩
  have hplugins := h.plugins
  have hplugins' := h'.plugins
  revert hplugins hplugins'
  generalize s.plugins = x
  generalize s'.plugins = y
  generalize s''.plugins = z
  rintro (hm | -) h'
  · cases h' with
    | some hm' => exact .some (hm.trans hm')
  · cases h'
    exact .none

/-- An effect anybody may cause. -/
def CommandEffect.isReply : CommandEffect → Bool
  | .reply _ => true
  | _ => false

/-- What may come of a message of a sender who is no administrator. -/
structure Unprivileged (msg : MessageEvent) (s : CommandState) (r : CommandEnd) : Prop where
  privileges : SamePrivileges s r.state
  others : ∀ c, c ≠ actorIdOf msg → r.state.contexts.load c = s.contexts.load c
  effects : ∀ e ∈ r.effects, e.isReply = true

section Commands

variable {d : CommandDeps} {msg : MessageEvent} {s : CommandState}

theorem unprivileged_answer (content : Bytes) : Unprivileged msg s (answer s content) :=
  ⟨.refl s, fun _ _ => rfl, by simp [answer, CommandEffect.isReply]⟩

theorem unprivileged_adminOnly (h : isAdmin msg d.adminIds = false) (command : CommandEnd) :
    Unprivileged msg s (adminOnly d msg s command) := by
  rw [adminOnly, h, if_neg Bool.false_ne_true]
  exact unprivileged_answer _

theorem unprivileged_clearCommand : Unprivileged msg s (clearCommand msg s) where
  privileges := ⟨rfl, rfl, rfl, (SamePrivileges.refl s).plugins⟩
  -- `clear` empties the conversation of the sender
  others _ hc := ListStore.load_exec_ne s.contexts (.clearMessages (actorIdOf msg)) hc
  effects := by simp [clearCommand, answer, CommandEffect.isReply]

theorem unprivileged_agentList : Unprivileged msg s (agentList s) := by
  rw [agentList]
  split
  · exact unprivileged_answer _
  · split
    · exact unprivileged_answer _
    · exact unprivileged_answer _

theorem unprivileged_pluginInfo (arg : Bytes) : Unprivileged msg s (pluginInfo arg s) := by
  rw [pluginInfo]
  split
  · exact unprivileged_answer _
  · dsimp only
    split
    · exact unprivileged_answer _
    · split
      · exact unprivileged_answer _
      · exact unprivileged_answer _

theorem unprivileged_pluginList (hplain : ∀ m, s.plugins = some m → m.PlainNames) :
    Unprivileged msg s (pluginList s) := by
  rw [pluginList]
  split
  · exact unprivileged_answer _
  · next m hm =>
    have hsame : SamePrivileges s { s with plugins := some (m.listPlugins commandAgent).2 } := by
      refine ⟨rfl, rfl, rfl, ?_⟩
      rw [hm]
      exact .some (PluginManager.sameEnablement_listFrom _ (hplain m hm) fun _ hp => hp)
    -- both answers come with the same state
    dsimp only
    split
    · exact ⟨hsame, fun _ _ => rfl, by simp [answer, CommandEffect.isReply]⟩
    · exact ⟨hsame, fun _ _ => rfl, by simp [answer, CommandEffect.isReply]⟩

/-- Each command is harmless, and so is a text that is none. -/
theorem unprivileged_handleCommand (hplain : ∀ m, s.plugins = some m → m.PlainNames)
    (h : isAdmin msg d.adminIds = false) (n : Bytes) :
    Unprivileged msg s (handleCommand d n msg s) := by
  -- the commands in their order; those for administrators are denied
  unfold handleCommand
  split; · exact unprivileged_answer _
  split; · exact unprivileged_adminOnly h _
  split; · exact unprivileged_clearCommand
  split; · exact unprivileged_answer _
  split; · exact unprivileged_adminOnly h _
  split; · exact unprivileged_adminOnly h _
  split; · exact unprivileged_adminOnly h _
  split; · exact unprivileged_adminOnly h _
  split; · exact unprivileged_agentList
  split; · exact unprivileged_adminOnly h _
  split; · exact unprivileged_adminOnly h _
  split; · exact unprivileged_adminOnly h _
  split; · exact unprivileged_pluginList hplain
  split; · exact unprivileged_adminOnly h _
  split; · exact unprivileged_adminOnly h _
  split; · exact unprivileged_pluginInfo _
  exact ⟨.refl s, fun _ _ => rfl, by simp⟩

end Commands

/-- **Non-administrators cause no privileged effects**, whatever they send: mode, registry,
plugins, database file and the conversations of others stay as they are, and neither the process
nor self-iteration is asked to run. Two of them cannot be told apart by what they leave behind. -/
theorem nonadmin_unprivileged {d : CommandDeps} {s : CommandState} {msg msg' : MessageEvent}
    (hplain : ∀ m, s.plugins = some m → m.PlainNames)
    (h : ∀ id ∈ consultedIds msg, id ∉ d.adminIds)
    (h' : ∀ id ∈ consultedIds msg', id ∉ d.adminIds) (n n' : Bytes) :
    Unprivileged msg s (handleCommand d n msg s) ∧
      SamePrivileges (handleCommand d n msg s).state (handleCommand d n' msg' s).state := by
  have hone := unprivileged_handleCommand hplain (isAdmin_eq_false h) n
  have hother := unprivileged_handleCommand hplain (isAdmin_eq_false h') n'
  -- both leave what was there, so they leave the same
  exact ⟨hone, hone.privileges.symm.trans hother.privileges⟩

/-- The user `u` lists the plugins of the program, and the user `v` asks to stop the process, which
only `w` may. -/
theorem nonadmin_unprivileged_list :
    let d : CommandDeps := { adminIds := [utf8 "w"] }
    let s : CommandState := { plugins := some { plugins := mainPlugins } }
    let u : MessageEvent := { isPrivate := true, userOpenid := utf8 "u" }
    let v : MessageEvent := { isPrivate := true, userOpenid := utf8 "v" }
    Unprivileged u s (handleCommand d (utf8 "plugin list") u s) ∧
      SamePrivileges (handleCommand d (utf8 "plugin list") u s).state
        (handleCommand d (utf8 "stop") v s).state := by
  intro d s u v
  refine nonadmin_unprivileged ?_ (by decide) (by decide) _ _
  rintro m hm
  rw [← Option.some.inj hm]
  exact PluginManager.plainNames_main none ∅

end Aestival
