import Aestival.Config.Reload

/-!
# What a loaded configuration satisfies

A configuration that was read from a document has passed the filters of the reader: every MCP
server has a name and a command, every variable is set once, no app id is the sentinel of a secret,
no id is empty, and all texts are UTF-8 because the document's are. `BotConfig.Loaded` collects
this, and `parseBotConfig_loaded` establishes it, section by section.
-/

namespace Aestival

open Bytes Json

/-- A server as the reader builds it: named, with a command, each variable once. -/
structure McpServerConfig.Loaded (mcp : McpServerConfig) : Prop where
  name_ne : mcp.name ≠ []
  command_ne : mcp.command ≠ []
  env_nodup : (mcp.env.map Prod.fst).Nodup
  utf8 : mcp.Utf8

/-- An agent as the reader builds it from a document. -/
structure AgentConfig.Loaded (a : AgentConfig) : Prop where
  /-- The sentinel is never an app id. -/
  appId_ne : a.qqAppId ≠ redacted
  servers : ∀ mcp ∈ a.mcpServers, mcp.Loaded
  utf8 : a.Utf8

/-- A configuration as `load_bot_config` returns it. -/
structure BotConfig.Loaded (cfg : BotConfig) : Prop where
  agents : ∀ a ∈ cfg.agents, a.Loaded
  ids : ∀ a ∈ cfg.agents, a.id ≠ []
  utf8 : cfg.Utf8

theorem map_fst_setEnv (env : List (Bytes × Bytes)) (k v : Bytes) :
    (setEnv env k v).map Prod.fst =
      if k ∈ env.map Prod.fst then env.map Prod.fst else env.map Prod.fst ++ [k] := by
  rw [setEnv]
  split
  · rw [List.map_map]
    refine List.map_congr_left fun p _ => ?_
    show (if p.1 = k then (k, v) else p).1 = p.1
    split
    · next h => exact h.symm
    · rfl
  · rw [List.map_append]
    rfl

/-- Setting a variable keeps each name once. -/
theorem nodup_setEnv {env : List (Bytes × Bytes)} (h : (env.map Prod.fst).Nodup) (k v : Bytes) :
    ((setEnv env k v).map Prod.fst).Nodup := by
  rw [map_fst_setEnv]
  split
  · exact h
  · next hk =>
    refine List.nodup_append.mpr ⟨h, List.pairwise_singleton .., fun a ha b hb => ?_⟩
    rw [List.mem_singleton.mp hb]
    rintro rfl
    exact hk ha

theorem mem_setEnv {env : List (Bytes × Bytes)} {k v : Bytes} {p : Bytes × Bytes}
    (h : p ∈ setEnv env k v) : p ∈ env ∨ p = (k, v) := by
  rw [setEnv] at h
  split at h
  · obtain ⟨q, hq, hqp⟩ := List.mem_map.mp h
    split at hqp
    · exact Or.inr hqp.symm
    · exact Or.inl (hqp ▸ hq)
  · exact (List.mem_append.mp h).imp_right List.mem_singleton.mp

/-- Variables with distinct names are set as they are. -/
theorem foldl_setEnv {env acc : List (Bytes × Bytes)}
    (h : ((acc ++ env).map Prod.fst).Nodup) :
    env.foldl (fun env p => setEnv env p.1 p.2) acc = acc ++ env := by
  induction env generalizing acc with
  | nil => exact (List.append_nil acc).symm
  | cons p env ih =>
    have hp : p.1 ∉ acc.map Prod.fst := by
      intro hmem
      rw [List.map_append, List.map_cons] at h
      exact (List.nodup_append.mp h).2.2 _ hmem _ (List.mem_cons_self ..) rfl
    have hset : setEnv acc p.1 p.2 = acc ++ [p] := if_neg hp
    have hassoc : acc ++ p :: env = acc ++ [p] ++ env := by rw [List.append_assoc]; rfl
    rw [List.foldl_cons, hset, hassoc]
    exact ih (hassoc ▸ h)

/-- The reader drops nothing of a loaded server but the timeouts. -/
theorem McpServerConfig.Loaded.reload_eq {mcp : McpServerConfig} (h : mcp.Loaded) :
    mcp.reload = { mcp with startupTimeout := 30, callTimeout := 60 } := by
  have henv : mcp.env.foldl (fun env p => setEnv env p.1 p.2) [] = [] ++ mcp.env :=
    foldl_setEnv h.env_nodup
  rw [McpServerConfig.reload, henv, List.nil_append]

section Reader

variable {j : Json} {key : Bytes}

theorem validUtf8_safeString (hj : j.validUtf8 = true) (key : Bytes) :
    (safeString j key).validUtf8 = true := by
  rw [safeString]
  split
  · next s hs =>
    split
    · rfl
    · exact validUtf8_of_find? hj hs
  · rfl

/-- The sentinel is never read as a text. -/
theorem safeString_ne_redacted (j : Json) (key : Bytes) : safeString j key ≠ redacted := by
  rw [safeString]
  split
  · split
    · decide
    · next h => exact h
  · decide

theorem validUtf8_parseStringArray (hj : j.validUtf8 = true) {s : Bytes}
    (hs : s ∈ parseStringArray j key) : s.validUtf8 = true := by
  rw [parseStringArray] at hs
  split at hs
  · next elems helems =>
    obtain ⟨item, hitem, hstr⟩ := List.mem_filterMap.mp hs
    have hvalid := validElems_iff.mp (validUtf8_of_find? hj helems) item hitem
    split at hstr
    · rw [← Option.some.inj hstr]
      exact hvalid
    · exact nomatch hstr
  · exact absurd hs List.not_mem_nil

theorem validUtf8_of_objectField? (hj : j.validUtf8 = true) {v : Json}
    (h : objectField? j key = some v) : v.validUtf8 = true := by
  rw [objectField?] at h
  split at h
  · next w hw =>
    split at h
    · rw [← Option.some.inj h]
      exact validUtf8_of_find? hj hw
    · cases h
  · cases h

/-- What the loop over the variables keeps: no name is set twice, and every text is UTF-8. -/
theorem foldl_parseEnvField_loaded {l : List (Bytes × Json)} {env : List (Bytes × Bytes)}
    (hl : ∀ p ∈ l, p.1.validUtf8 = true ∧ p.2.validUtf8 = true)
    (hnodup : (env.map Prod.fst).Nodup)
    (henv : ∀ p ∈ env, p.1.validUtf8 = true ∧ p.2.validUtf8 = true) :
    ((l.foldl parseEnvField env).map Prod.fst).Nodup ∧
      ∀ p ∈ l.foldl parseEnvField env, p.1.validUtf8 = true ∧ p.2.validUtf8 = true := by
  induction l generalizing env with
  | nil => exact ⟨hnodup, henv⟩
  | cons q l ih =>
    have hq := hl q (List.mem_cons_self ..)
    have hrest := fun p hp => hl p (List.mem_cons_of_mem _ hp)
    obtain ⟨k, v⟩ := q
    rw [List.foldl_cons]
    cases v with
    | str v =>
      -- only a text sets a variable; any other value is skipped
      refine ih hrest (nodup_setEnv hnodup k v) fun p hp => ?_
      rcases mem_setEnv hp with h | rfl
      · exact henv p h
      · exact hq
    | _ => exact ih hrest hnodup henv

/-- Every variable is set once, and its name and value are UTF-8. -/
theorem parseEnv_loaded (hj : j.validUtf8 = true) :
    ((parseEnv j).map Prod.fst).Nodup ∧
      ∀ p ∈ parseEnv j, p.1.validUtf8 = true ∧ p.2.validUtf8 = true := by
  unfold parseEnv
  split
  · next fields hfields =>
    have hvalid := validFields_iff.mp (validUtf8_of_find? hj hfields)
    exact foldl_parseEnvField_loaded hvalid List.Pairwise.nil
      fun p hp => absurd hp List.not_mem_nil
  · exact ⟨List.Pairwise.nil, fun p hp => absurd hp List.not_mem_nil⟩

theorem parseMcpServer_loaded (hj : j.validUtf8 = true) {mcp : McpServerConfig}
    (h : parseMcpServer j = .ok mcp) : mcp.Utf8 ∧ (mcp.env.map Prod.fst).Nodup := by
  obtain ⟨name, hname, h⟩ := Except.bind_eq_ok_iff.mp h
  obtain ⟨command, hcommand, h⟩ := Except.bind_eq_ok_iff.mp h
  obtain ⟨startup, -, h⟩ := Except.bind_eq_ok_iff.mp h
  obtain ⟨call, -, h⟩ := Except.bind_eq_ok_iff.mp h
  rw [← Except.ok.inj h]
  obtain ⟨hnodup, henv⟩ := parseEnv_loaded hj
  exact ⟨⟨validUtf8_of_value hj rfl hname, validUtf8_of_value hj rfl hcommand,
    fun s hs => validUtf8_parseStringArray hj hs, henv⟩, hnodup⟩

theorem parseMcpServers_loaded {l : List Json} (hl : ∀ s ∈ l, s.validUtf8 = true)
    {servers : List McpServerConfig} (h : parseMcpServers l = .ok servers) :
    ∀ mcp ∈ servers, mcp.Loaded := by
  induction l generalizing servers with
  | nil =>
    rw [← Except.ok.inj h]
    exact fun mcp hmcp => absurd hmcp List.not_mem_nil
  | cons s l ih =>
    have hrest := fun s hs => hl s (List.mem_cons_of_mem _ hs)
    rw [parseMcpServers] at h
    split at h
    · obtain ⟨mcp, hmcp, h⟩ := Except.bind_eq_ok_iff.mp h
      obtain ⟨rest, hr, h⟩ := Except.bind_eq_ok_iff.mp h
      have ih := ih hrest hr
      rw [← Except.ok.inj h]
      split
      -- a server without a name or a command is left out
      · next hkept =>
        obtain ⟨hutf8, hnodup⟩ := parseMcpServer_loaded (hl s (List.mem_cons_self ..)) hmcp
        exact List.forall_mem_cons.mpr ⟨⟨hkept.1, hkept.2, hnodup, hutf8⟩, ih⟩
      · exact ih
    · exact ih hrest h

/-! Each section keeps what has been established of the agent so far. -/

variable {a b : AgentConfig}

theorem parseQq_loaded (hj : j.validUtf8 = true) (ha : a.Loaded) : (parseQq a j).Loaded := by
  rw [parseQq]
  split
  · next qq hqq =>
    have hvalid := validUtf8_of_objectField? hj hqq
    exact ⟨safeString_ne_redacted _ _, ha.servers,
      { ha.utf8 with qqAppId := validUtf8_safeString hvalid _ }⟩
  · exact ha

theorem parseDeepseek_loaded (hj : j.validUtf8 = true) (ha : a.Loaded)
    (h : parseDeepseek a j = .ok b) : b.Loaded := by
  rw [parseDeepseek] at h
  split at h
  · next ds hds =>
    obtain ⟨model, hmodel, h⟩ := Except.bind_eq_ok_iff.mp h
    have hvalid := validUtf8_of_value (validUtf8_of_objectField? hj hds)
      ha.utf8.deepseekModel hmodel
    rw [← Except.ok.inj h]
    exact ⟨ha.appId_ne, ha.servers, { ha.utf8 with deepseekModel := hvalid }⟩
  · exact Except.ok.inj h ▸ ha

theorem parseOpenai_loaded (hj : j.validUtf8 = true) (ha : a.Loaded)
    (h : parseOpenai a j = .ok b) : b.Loaded := by
  rw [parseOpenai] at h
  split at h
  · next oa hoa =>
    have hsection := validUtf8_of_objectField? hj hoa
    obtain ⟨model, hmodel, h⟩ := Except.bind_eq_ok_iff.mp h
    obtain ⟨url, hurl, h⟩ := Except.bind_eq_ok_iff.mp h
    rw [← Except.ok.inj h]
    exact ⟨ha.appId_ne, ha.servers,
      { ha.utf8 with
        openaiModel := validUtf8_of_value hsection ha.utf8.openaiModel hmodel
        openaiBaseUrl := validUtf8_of_value hsection ha.utf8.openaiBaseUrl hurl }⟩
  · exact Except.ok.inj h ▸ ha

theorem parseSelfIteration_loaded (hj : j.validUtf8 = true) (ha : a.Loaded)
    (h : parseSelfIteration a j = .ok b) : b.Loaded := by
  rw [parseSelfIteration] at h
  split at h
  · next si hsi =>
    obtain ⟨enabled, -, h⟩ := Except.bind_eq_ok_iff.mp h
    obtain ⟨hours, -, h⟩ := Except.bind_eq_ok_iff.mp h
    obtain ⟨conversations, -, h⟩ := Except.bind_eq_ok_iff.mp h
    obtain ⟨path, hpath, h⟩ := Except.bind_eq_ok_iff.mp h
    have hvalid := validUtf8_of_value (validUtf8_of_objectField? hj hsi)
      ha.utf8.claudeCodePath hpath
    rw [← Except.ok.inj h]
    exact ⟨ha.appId_ne, ha.servers, { ha.utf8 with claudeCodePath := hvalid }⟩
  · exact Except.ok.inj h ▸ ha

theorem parseMcp_loaded (hj : j.validUtf8 = true) (ha : a.Loaded) (h : parseMcp a j = .ok b) :
    b.Loaded := by
  rw [parseMcp] at h
  split at h
  · next elems helems =>
    obtain ⟨servers, hservers, h⟩ := Except.bind_eq_ok_iff.mp h
    have hnew := parseMcpServers_loaded (validElems_iff.mp (validUtf8_of_find? hj helems)) hservers
    -- the servers of the file come behind those that are there
    have hall : ∀ mcp ∈ a.mcpServers ++ servers, mcp.Loaded := by
      intro mcp hmcp
      rcases List.mem_append.mp hmcp with hm | hm
      · exact ha.servers mcp hm
      · exact hnew mcp hm
    rw [← Except.ok.inj h]
    exact ⟨ha.appId_ne, hall, { ha.utf8 with mcpServers := fun mcp hm => (hall mcp hm).utf8 }⟩
  · exact Except.ok.inj h ▸ ha

/-- **An agent read from a document is a loaded agent.** -/
theorem parseAgent_loaded (hj : j.validUtf8 = true) (h : parseAgent j = .ok a) : a.Loaded := by
  obtain ⟨id, hid, h⟩ := Except.bind_eq_ok_iff.mp h
  obtain ⟨name, hname, h⟩ := Except.bind_eq_ok_iff.mp h
  obtain ⟨enabled, -, h⟩ := Except.bind_eq_ok_iff.mp h
  obtain ⟨platform, hplatform, h⟩ := Except.bind_eq_ok_iff.mp h
  obtain ⟨provider, hprovider, h⟩ := Except.bind_eq_ok_iff.mp h
  obtain ⟨a₁, h₁, h⟩ := Except.bind_eq_ok_iff.mp h
  obtain ⟨a₂, h₂, h⟩ := Except.bind_eq_ok_iff.mp h
  obtain ⟨workspace, hworkspace, h⟩ := Except.bind_eq_ok_iff.mp h
  obtain ⟨storage, hstorage, h⟩ := Except.bind_eq_ok_iff.mp h
  obtain ⟨mode, -, h⟩ := Except.bind_eq_ok_iff.mp h
  obtain ⟨reach, -, h⟩ := Except.bind_eq_ok_iff.mp h
  obtain ⟨perMinute, -, h⟩ := Except.bind_eq_ok_iff.mp h
  obtain ⟨budget, -, h⟩ := Except.bind_eq_ok_iff.mp h
  obtain ⟨a₃, h₃, h⟩ := Except.bind_eq_ok_iff.mp h
  -- the defaults are loadable, and each section keeps them so
  have hstart : ({ id, name, enabled, platform } : AgentConfig).Loaded :=
    ⟨(by decide : ([] : Bytes) ≠ redacted), fun mcp hmcp => absurd hmcp List.not_mem_nil,
      { id := validUtf8_of_value hj rfl hid
        name := validUtf8_of_value hj rfl hname
        platform := validUtf8_of_value hj rfl hplatform
        qqAppId := rfl
        llmProvider := rfl
        deepseekModel := rfl
        openaiModel := rfl
        openaiBaseUrl := rfl
        workspace := rfl
        storageDir := rfl
        adminUserIds := fun s hs => absurd hs List.not_mem_nil
        mcpServers := fun mcp hmcp => absurd hmcp List.not_mem_nil
        claudeCodePath := rfl }⟩
  have hqq := parseQq_loaded hj hstart
  have hl₁ : a₁.Loaded := by
    refine parseDeepseek_loaded hj ?_ h₁
    exact ⟨hqq.appId_ne, hqq.servers,
      { hqq.utf8 with llmProvider := validUtf8_of_value hj rfl hprovider }⟩
  have hl₂ := parseOpenai_loaded hj hl₁ h₂
  have hl₃ : a₃.Loaded := by
    refine parseSelfIteration_loaded hj ?_ h₃
    exact ⟨hl₂.appId_ne, hl₂.servers,
      { hl₂.utf8 with
        workspace := validUtf8_of_value hj hl₂.utf8.workspace hworkspace
        storageDir := validUtf8_of_value hj hl₂.utf8.storageDir hstorage
        adminUserIds := fun s hs => validUtf8_parseStringArray hj hs }⟩
  exact parseMcp_loaded hj hl₃ h

theorem parseAgents_loaded {l : List Json} (hl : ∀ item ∈ l, item.validUtf8 = true)
    {agents : List AgentConfig} (h : parseAgents l = .ok agents) :
    ∀ a ∈ agents, a.Loaded ∧ a.id ≠ [] := by
  induction l generalizing agents with
  | nil =>
    rw [← Except.ok.inj h]
    exact fun a ha => absurd ha List.not_mem_nil
  | cons item l ih =>
    have hrest := fun s hs => hl s (List.mem_cons_of_mem _ hs)
    rw [parseAgents] at h
    split at h
    · obtain ⟨a, ha, h⟩ := Except.bind_eq_ok_iff.mp h
      obtain ⟨rest, hr, h⟩ := Except.bind_eq_ok_iff.mp h
      have ih := ih hrest hr
      rw [← Except.ok.inj h]
      split
      · exact ih
      -- so is an agent without an id
      · next hid =>
        have hloaded := parseAgent_loaded (hl item (List.mem_cons_self ..)) ha
        exact List.forall_mem_cons.mpr ⟨⟨hloaded, hid⟩, ih⟩
    · exact ih hrest h

theorem parseGlobal_loaded (hj : j.validUtf8 = true) {g : GlobalConfig}
    (h : parseGlobal j = .ok g) :
    g.logFile.validUtf8 = true ∧ g.managementListen.validUtf8 = true := by
  -- the members stand in `global` or at the top
  have hsrc : ((objectField? j (utf8 "global")).getD j).validUtf8 = true := by
    cases hglobal : objectField? j (utf8 "global") with
    | none => exact hj
    | some v => exact validUtf8_of_objectField? hj hglobal
  obtain ⟨tls, -, h⟩ := Except.bind_eq_ok_iff.mp h
  obtain ⟨log, hlog, h⟩ := Except.bind_eq_ok_iff.mp h
  have hlog := validUtf8_of_value hsrc rfl hlog
  dsimp only at h
  split at h
  · next mgmt hmgmt =>
    obtain ⟨enabled, -, h⟩ := Except.bind_eq_ok_iff.mp h
    obtain ⟨listen, hlisten, h⟩ := Except.bind_eq_ok_iff.mp h
    rw [← Except.ok.inj h]
    exact ⟨hlog, validUtf8_of_value (validUtf8_of_objectField? hsrc hmgmt) (by decide) hlisten⟩
  · rw [← Except.ok.inj h]
    exact ⟨hlog, (by decide : (utf8 "127.0.0.1:9090").validUtf8 = true)⟩

theorem fillIdentity_loaded (ha : a.Loaded) : (fillIdentity a).Loaded ∧
    (fillIdentity a).id ≠ [] := by
  -- the two names that are filled in are plain text
  have hid : (if a.id = [] then utf8 "default" else a.id).validUtf8 = true := by
    split
    · decide
    · exact ha.utf8.id
  have hname : (if a.name = [] then utf8 "Default" else a.name).validUtf8 = true := by
    split
    · decide
    · exact ha.utf8.name
  refine ⟨⟨ha.appId_ne, ha.servers, { ha.utf8 with id := hid, name := hname }⟩, ?_⟩
  show (if a.id = [] then utf8 "default" else a.id) ≠ []
  split
  · decide
  · next hne => exact hne

/-- **A configuration read from a document is a loaded configuration.** -/
theorem parseBotConfig_loaded (hj : j.validUtf8 = true) {cfg : BotConfig}
    (h : parseBotConfig j = .ok cfg) : cfg.Loaded := by
  obtain ⟨g, hg, h⟩ := Except.bind_eq_ok_iff.mp h
  obtain ⟨hlog, hlisten⟩ := parseGlobal_loaded hj hg
  have hall : (∀ a ∈ cfg.agents, a.Loaded ∧ a.id ≠ []) ∧ cfg.global = g := by
    split at h
    · next elems helems =>
      obtain ⟨agents, hagents, h⟩ := Except.bind_eq_ok_iff.mp h
      rw [← Except.ok.inj h]
      exact ⟨parseAgents_loaded (validElems_iff.mp (validUtf8_of_find? hj helems)) hagents, rfl⟩
    · -- the flat format: an empty id and an empty name are replaced
      obtain ⟨a, ha, h⟩ := Except.bind_eq_ok_iff.mp h
      rw [← Except.ok.inj h]
      exact ⟨List.forall_mem_singleton.mpr (fillIdentity_loaded (parseAgent_loaded hj ha)), rfl⟩
  refine ⟨fun a ha => (hall.1 a ha).1, fun a ha => (hall.1 a ha).2, ?_⟩
  exact ⟨fun a ha => (hall.1 a ha).1.utf8, hall.2 ▸ hlog, hall.2 ▸ hlisten⟩

end Reader

end Aestival
