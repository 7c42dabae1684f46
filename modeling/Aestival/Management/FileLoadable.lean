import Aestival.Management.Reachable

/-!
# The configuration file stays loadable

A request that creates or edits an agent ends with `persist`, which opens the file before it
serializes. Opening empties the file, and serializing throws when some text is not UTF-8. Texts of
a body are UTF-8, but `truncate_str` may cut one inside a character.

`fileKept_iff` is the exact condition on a request in a reachable state: if it passes all checks and
the file can be opened, then everything that is about to be written is UTF-8.
`name_cut_in_character` is a request that violates it.
-/

namespace Aestival

open Bytes Json

/-! ### What should hold -/

/-- The file is accepted by `load_bot_config`. -/
def Loadable (text : Text) : Prop := ∃ cfg, loadBotConfig text = .ok cfg

/-- A request that creates or edits an agent. -/
inductive AgentEdit where
  | create (body : Text)
  | config (id : Bytes) (body : Text)

def AgentEdit.request : AgentEdit → Request
  | .create body => .create body
  | .config id body => .config id body

/-- After the request the file is loadable, and if an exception was thrown it is the file from
before. -/
structure FileKept (s : Server) (env : Surroundings) (q : AgentEdit) : Prop where
  loadable : Loadable (s.handle env q.request).1.file
  unchanged : ∀ e, (s.handle env q.request).2 = .error e →
    (s.handle env q.request).1.file = s.file

/-! ### The condition -/

/-- The request passes every check, and `cfg` is the agent it asks to store. -/
def Accepts (s : Server) (env : Surroundings) : AgentEdit → AgentConfig → Prop
  | .create body, cfg =>
    (parseBody body >>= createConfig) = .ok cfg ∧ s.registry.checkNewId cfg.id = .ok () ∧
      buildAgent env.launch cfg = none
  | .config id body, cfg =>
    ∃ inst, s.registry.getAgent id = some inst ∧ inst.status.isActive = false ∧
      (parseBody body >>= editConfig inst.config) = .ok cfg

/-- The texts of the agent, of all other agents and of the global section are UTF-8. -/
structure WritesUtf8 (s : Server) (cfg : AgentConfig) : Prop where
  stored : cfg.Utf8
  others : ∀ id inst, s.registry.getAgent id = some inst → id ≠ cfg.id → inst.config.Utf8
  logFile : s.global.logFile.validUtf8 = true
  managementListen : s.global.managementListen.validUtf8 = true

/-! ### What the request does to the registry -/

/-- An accepted request stores the agent it asks for. -/
theorem apply_of_accepts {s : Server} (hkeyed : s.registry.WellKeyed) {env : Surroundings}
    {q : AgentEdit} {cfg : AgentConfig} (h : Accepts s env q cfg) :
    ∃ inst, q.request.apply env.launch s.registry = (s.registry.set cfg.id inst, .ok ()) ∧
      inst.config = cfg ∧ cfg.id ≠ [] := by
  cases q with
  -- a new agent has an id that is not empty
  | create body =>
    obtain ⟨hcfg, hcheck, hbuild⟩ := h
    have hne : cfg.id ≠ [] := by
      intro hnil
      rw [Registry.checkNewId, if_pos hnil] at hcheck
      cases hcheck
    refine ⟨{ config := cfg, status := .starting }, ?_, rfl, hne⟩
    simp only [AgentEdit.request, Request.apply, hcfg, Registry.addAgent, hcheck, hbuild]
  -- an edit keeps the id of its agent
  | config id body =>
    obtain ⟨inst, hget, hstopped, hcfg⟩ := h
    obtain ⟨j, hj, hedit⟩ := Except.bind_eq_ok_iff.mp hcfg
    have hid : cfg.id = id := (editConfig_id hedit).trans (hkeyed id inst hget).1
    refine ⟨{ inst with config := cfg }, ?_, rfl, hid ▸ (hkeyed id inst hget).2⟩
    simp only [AgentEdit.request, Request.apply, hj, hget, hedit, Registry.updateAgentConfig,
      hstopped, hid, Bool.false_eq_true, if_false]

/-- Any other request is refused before `persist`. -/
theorem apply_of_not_accepts {s : Server} {env : Surroundings} {q : AgentEdit}
    (h : ∀ cfg, ¬ Accepts s env q cfg) :
    ∃ e, (q.request.apply env.launch s.registry).2 = .error e := by
  cases q with
  | create body =>
    rw [AgentEdit.request, Request.apply]
    split
    · next e _ => exact ⟨e, rfl⟩
    -- refused by the parser, by the registry, or by the factory
    next cfg hcfg =>
    rw [Registry.addAgent]
    split
    · next e _ => exact ⟨e, rfl⟩
    next hcheck =>
    split
    · next hbuild => exact absurd ⟨hcfg, hcheck, hbuild⟩ (h cfg)
    · next what _ => exact ⟨.runtime what, rfl⟩
  | config id body =>
    rw [AgentEdit.request, Request.apply]
    split
    · next e _ => exact ⟨e, rfl⟩
    next j hj =>
    split
    · exact ⟨_, rfl⟩
    -- unknown, not editable, or active
    next inst hget =>
    split
    · next e _ => exact ⟨e, rfl⟩
    next cfg hedit =>
    rw [Registry.updateAgentConfig, hget]
    cases hactive : inst.status.isActive with
    | true => exact ⟨_, by simp only [hactive, if_true]; rfl⟩
    | false =>
      refine absurd ⟨inst, hget, hactive, ?_⟩ (h cfg)
      rw [hj, ok_bind, hedit]

/-- A request asks for one agent. -/
theorem Accepts.unique {s : Server} {env : Surroundings} {q : AgentEdit} {cfg cfg' : AgentConfig}
    (h : Accepts s env q cfg) (h' : Accepts s env q cfg') : cfg' = cfg := by
  cases q with
  | create body => exact Except.ok.inj (h'.1.symm.trans h.1)
  | config id body =>
    obtain ⟨inst, hget, -, hcfg⟩ := h
    obtain ⟨inst', hget', -, hcfg'⟩ := h'
    obtain rfl := Option.some.inj (hget'.symm.trans hget)
    exact Except.ok.inj (hcfg'.symm.trans hcfg)

/-! ### What `persist` does to the file -/

/-- What is about to be written is UTF-8 exactly when its parts are. -/
theorem utf8_botConfig_set_iff {s : Server} {cfg : AgentConfig} {inst : AgentInstance}
    (hinst : inst.config = cfg) :
    ((s.registry.set cfg.id inst).botConfig s.global).Utf8 ↔ WritesUtf8 s cfg := by
  constructor
  · intro h
    -- the file has the agent that was set, and the others as they were
    have hget := fun id inst' hget => h.agents _ (Registry.mem_configs.mpr ⟨id, inst', hget, rfl⟩)
    refine ⟨?_, fun id inst' hother hne => ?_, h.logFile, h.managementListen⟩
    · rw [← hinst]
      exact hget cfg.id inst Registry.getAgent_set_self
    · exact hget id inst' ((Registry.getAgent_set_of_ne hne).trans hother)
  · rintro ⟨hstored, hothers, hlog, hlisten⟩
    refine ⟨fun a ha => ?_, hlog, hlisten⟩
    obtain ⟨id, inst', hget, rfl⟩ := Registry.mem_configs.mp ha
    -- each agent of the registry is the one that was set or another
    by_cases hid : id = cfg.id
    · subst hid
      rw [Registry.getAgent_set_self] at hget
      rw [← Option.some.inj hget, hinst]
      exact hstored
    · rw [Registry.getAgent_set_of_ne hid] at hget
      exact hothers id inst' hget hid

section Persist

variable {r : Registry} {file : Text} {global : GlobalConfig}

theorem persist_of_not_opens :
    r.persist false file global =
      (file, .error (.runtime (utf8 "failed to open config file for writing: " ++ r.configPath))) :=
  rfl

theorem persist_of_utf8 (h : (r.botConfig global).Utf8) :
    r.persist true file global =
      (.document ⟨botConfigJson (r.botConfig global), validUtf8_botConfigJson.mpr h⟩, .ok ()) := by
  simp only [Registry.persist, saveBotConfig, if_true, toJson_of_utf8 h]

/-- Serializing throws after the file has been emptied. -/
theorem persist_of_not_utf8 (h : ¬ (r.botConfig global).Utf8) :
    r.persist true file global = (.malformed, .error .notUtf8) := by
  simp only [Registry.persist, saveBotConfig, if_true, toJson_of_not_utf8 h]

/-- A written file with an agent is loadable. -/
theorem loadable_of_utf8 (hkeyed : r.WellKeyed) (h : (r.botConfig global).Utf8)
    (hne : r.configs ≠ []) :
    Loadable (.document ⟨botConfigJson (r.botConfig global), validUtf8_botConfigJson.mpr h⟩) := by
  refine ⟨_, loadBotConfig_botConfigJson _ _ (fun a ha => ?_) hne⟩
  obtain ⟨id, inst, hget, rfl⟩ := Registry.mem_configs.mp ha
  rw [(hkeyed id inst hget).1]
  exact (hkeyed id inst hget).2

end Persist

theorem not_loadable_malformed : ¬ Loadable .malformed := fun ⟨_, h⟩ => nomatch h

/-! ### When the file stays loadable -/

/-- **The file survives a request** exactly when everything that is about to be written is UTF-8,
should the request be accepted and the file be opened. -/
theorem fileKept_iff {s : Server} (hs : s.Reachable) (hfile : Loadable s.file)
    (env : Surroundings) (q : AgentEdit) :
    FileKept s env q ↔
      ∀ cfg, Accepts s env q cfg → env.opens = true → WritesUtf8 s cfg := by
  have hkeyed := hs.wellKeyed
  by_cases hacc : ∃ cfg, Accepts s env q cfg
  swap
  · -- refused: the file is not touched
    rw [not_exists] at hacc
    obtain ⟨e, happly⟩ := apply_of_not_accepts hacc
    have hhandle := Server.handle_of_error (Prod.ext rfl happly)
    refine ⟨fun _ cfg h => absurd h (hacc cfg), fun _ => ⟨?_, fun _ _ => ?_⟩⟩
    · rw [hhandle]
      exact hfile
    · rw [hhandle]
  obtain ⟨cfg, hcfg⟩ := hacc
  obtain ⟨inst, happly, hinst, hne⟩ := apply_of_accepts hkeyed hcfg
  -- a request is accepted with one configuration only
  have hcond : (∀ cfg, Accepts s env q cfg → env.opens = true → WritesUtf8 s cfg) ↔
      (env.opens = true → WritesUtf8 s cfg) :=
    ⟨fun h => h cfg hcfg, fun h cfg' hcfg' => hcfg.unique hcfg' ▸ h⟩
  rw [hcond, ← utf8_botConfig_set_iff hinst]
  have hhandle := Server.handle_of_ok happly
  have hfile' : (s.handle env q.request).1.file =
      ((s.registry.set cfg.id inst).persist env.opens s.file s.global).1 := by rw [hhandle]
  have hresult : (s.handle env q.request).2 =
      ((s.registry.set cfg.id inst).persist env.opens s.file s.global).2 := by rw [hhandle]
  cases hopens : env.opens with
  -- the file cannot be opened, and stays
  | false =>
    rw [hopens, persist_of_not_opens] at hfile'
    refine ⟨fun _ h => absurd h Bool.false_ne_true, fun _ => ⟨?_, fun _ _ => hfile'⟩⟩
    rw [hfile']
    exact hfile
  | true =>
    rw [hopens] at hfile' hresult
    -- it is opened, which empties it, before the text is formed
    by_cases hutf8 : ((s.registry.set cfg.id inst).botConfig s.global).Utf8
    · rw [persist_of_utf8 hutf8] at hfile' hresult
      refine ⟨fun _ _ => hutf8, fun _ => ⟨?_, fun e he => ?_⟩⟩
      · rw [hfile']
        refine loadable_of_utf8 (hkeyed.set (hinst ▸ rfl) hne) hutf8 ?_
        exact List.ne_nil_of_mem
          (Registry.mem_configs.mpr ⟨cfg.id, inst, Registry.getAgent_set_self, rfl⟩)
      · rw [hresult] at he
        exact nomatch he
    · rw [persist_of_not_utf8 hutf8] at hfile'
      refine ⟨fun h => ?_, fun h => absurd (h rfl) hutf8⟩
      have := h.loadable
      rw [hfile'] at this
      exact absurd this not_loadable_malformed

/-- A process started from a file with one agent, `a`. -/
def sampleServer : Server :=
  .start (fun _ => none) (utf8 "config.json")
    (.document ⟨.obj [(utf8 "agents", .arr [.obj [(utf8 "id", .str (utf8 "a"))]])], rfl⟩)
    { agents := [{ id := utf8 "a" }] }

theorem sampleServer_reachable : sampleServer.Reachable := .start rfl

theorem sampleServer_loadable : Loadable sampleServer.file := ⟨_, rfl⟩

/-- A request to create the agent `b` under the name `name`. -/
def createNamed (name : Bytes) (h : name.validUtf8 = true) : AgentEdit :=
  .create (.document ⟨.obj [(utf8 "id", .str (utf8 "b")), (utf8 "name", .str name)], by
    simp +decide [Json.validUtf8, validFields, h]⟩)

/-- A short name does no harm. -/
theorem fileKept_short_name :
    FileKept sampleServer ⟨fun _ => none, true⟩ (createNamed (utf8 "绯") rfl) := by
  refine (fileKept_iff sampleServer_reachable sampleServer_loadable _ _).mpr ?_
  intro cfg hcfg _
  obtain rfl := Except.ok.inj hcfg.1
  have hothers : ∀ a ∈ sampleServer.registry.configs, a.Utf8 := by decide
  refine ⟨by decide, fun id inst hget _ => ?_, by decide, by decide⟩
  exact hothers _ (Registry.mem_configs.mpr ⟨id, inst, hget, rfl⟩)

/-- **A name cut inside a character.** A name of 43 three-byte characters is cut to 128 bytes, and
the file is empty after the request. -/
theorem name_cut_in_character :
    ¬ ∀ (s : Server) (env : Surroundings) (q : AgentEdit),
      s.Reachable → Loadable s.file → FileKept s env q := by
  intro hall
  have hkept := hall sampleServer ⟨fun _ => none, true⟩
    (createNamed (List.replicate 43 (utf8 "绯")).flatten (by decide))
    sampleServer_reachable sampleServer_loadable
  have hwrites := (fileKept_iff sampleServer_reachable sampleServer_loadable _ _).mp hkept
    _ ⟨rfl, rfl, rfl⟩ rfl
  exact absurd hwrites.stored.name (by decide)

end Aestival
