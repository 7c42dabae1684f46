import Aestival.Config.Loaded

/-!
# The configuration round trip

Writing a loaded configuration and reading it back should change nothing but the secrets
(`RoundTrips`). `roundTrips_iff` is the exact condition: every MCP server has the default timeouts.
The reader takes both timeouts from the file, the writer never writes them, and so a server that
was configured with other ones is reset (`timeouts_reset`).
-/

namespace Aestival

open Bytes Json

/-- The agent without its secrets. -/
def AgentConfig.redact (a : AgentConfig) : AgentConfig :=
  { a with qqAppSecret := []
           deepseekApiKey := []
           deepseekUserToken := []
           deepseekWafCookie := []
           openaiApiKey := [] }

/-- The configuration can be written, and what is read back has the same agents in the same order
and the same global section, without the secrets. -/
def RoundTrips (cfg : BotConfig) : Prop :=
  ∃ d cfg', toJson cfg = .ok d ∧ loadBotConfig (.document d) = .ok cfg' ∧
    cfg'.agents = cfg.agents.map .redact ∧ cfg'.global = cfg.global.redact

/-- Both timeouts of the server are the defaults. -/
def McpServerConfig.DefaultTimeouts (mcp : McpServerConfig) : Prop :=
  mcp.startupTimeout = 30 ∧ mcp.callTimeout = 60

instance (mcp : McpServerConfig) : Decidable mcp.DefaultTimeouts :=
  inferInstanceAs (Decidable (_ ∧ _))

/-- A loaded file is a document that lists an agent. -/
theorem loadBotConfig_eq_ok {text : Text} {cfg : BotConfig} (h : loadBotConfig text = .ok cfg) :
    ∃ d, text = .document d ∧ parseBotConfig d.json = .ok cfg ∧ cfg.agents ≠ [] := by
  cases text with
  | malformed => exact nomatch h
  | document d =>
    refine ⟨d, rfl, ?_⟩
    cases hparse : parseBotConfig d.json with
    | error e =>
      rw [loadBotConfig, hparse] at h
      exact nomatch h
    | ok cfg' =>
      have hload : (if cfg'.agents = [] then
          Except.error (Failure.runtime (utf8 "no agents defined in config")) else .ok cfg') =
          .ok cfg := by
        rw [loadBotConfig, hparse] at h
        exact h
      -- a file without agents is refused
      by_cases hnil : cfg'.agents = []
      · rw [if_pos hnil] at hload
        exact nomatch hload
      · rw [if_neg hnil] at hload
        rw [← Except.ok.inj hload]
        exact ⟨rfl, hnil⟩

/-- What `load_bot_config` returns is loaded, and lists an agent. -/
theorem loaded_of_loadBotConfig {text : Text} {cfg : BotConfig}
    (h : loadBotConfig text = .ok cfg) : cfg.Loaded ∧ cfg.agents ≠ [] := by
  obtain ⟨d, -, hparse, hne⟩ := loadBotConfig_eq_ok h
  exact ⟨parseBotConfig_loaded d.utf8 hparse, hne⟩

/-- A configuration with UTF-8 texts can be written. -/
theorem toJson_of_utf8 {cfg : BotConfig} (h : cfg.Utf8) :
    toJson cfg = .ok ⟨botConfigJson cfg, validUtf8_botConfigJson.mpr h⟩ := by
  rw [toJson, dump_of_valid (validUtf8_botConfigJson.mpr h)]

theorem toJson_of_not_utf8 {cfg : BotConfig} (h : ¬ cfg.Utf8) :
    toJson cfg = .error .notUtf8 := by
  rw [toJson, dump_of_not_valid fun hv => h (validUtf8_botConfigJson.mp hv)]

/-- Reading a written configuration: the agents that still have an id, if there are any. -/
theorem loadBotConfig_botConfigJson (cfg : BotConfig) (hutf8 : (botConfigJson cfg).validUtf8 = true)
    (hids : ∀ a ∈ cfg.agents, a.id ≠ []) (hne : cfg.agents ≠ []) :
    loadBotConfig (.document ⟨botConfigJson cfg, hutf8⟩) =
      .ok { agents := cfg.agents.map .reload, global := cfg.global.redact, isLegacy := false } := by
  have hkept : (cfg.agents.map AgentConfig.reload).filter (fun a => a.id ≠ []) =
      cfg.agents.map .reload := by
    rw [List.filter_eq_self, List.forall_mem_map]
    exact fun a ha => decide_eq_true (hids a ha)
  rw [loadBotConfig]
  simp only [parseBotConfig_botConfigJson, hkept, List.map_eq_nil_iff, hne, if_false]

/-- A loaded agent comes back without its secrets exactly when its servers have the default
timeouts. -/
theorem reload_eq_redact_iff {a : AgentConfig} (ha : a.Loaded) :
    a.reload = a.redact ↔ ∀ mcp ∈ a.mcpServers, mcp.DefaultTimeouts := by
  have happ : (if a.qqAppId = redacted then [] else a.qqAppId) = a.qqAppId := if_neg ha.appId_ne
  have hservers : (a.mcpServers.map McpServerConfig.reload).filter
      (fun s => s.name ≠ [] ∧ s.command ≠ []) = a.mcpServers.map .reload := by
    rw [List.filter_eq_self, List.forall_mem_map]
    exact fun mcp hmcp => decide_eq_true
      ⟨(ha.servers mcp hmcp).name_ne, (ha.servers mcp hmcp).command_ne⟩
  have heq : a.reload = { a.redact with mcpServers := a.mcpServers.map .reload } := by
    rw [AgentConfig.reload, happ, hservers, AgentConfig.redact]
  -- the agents agree in everything but the list of servers
  have hiff : a.reload = a.redact ↔ a.mcpServers.map .reload = a.mcpServers := by
    rw [heq]
    refine ⟨fun h => congrArg AgentConfig.mcpServers h, fun h => ?_⟩
    rw [h]
    rfl
  have hmap : a.mcpServers.map .reload = a.mcpServers ↔
      ∀ mcp ∈ a.mcpServers, mcp.reload = id mcp := by
    rw [← List.map_inj_left, List.map_id]
  rw [hiff, hmap]
  refine forall₂_congr fun mcp hmcp => ?_
  rw [(ha.servers mcp hmcp).reload_eq, McpServerConfig.DefaultTimeouts]
  constructor
  · intro h
    exact ⟨(congrArg McpServerConfig.startupTimeout h).symm,
      (congrArg McpServerConfig.callTimeout h).symm⟩
  · rintro ⟨h₁, h₂⟩
    rw [← h₁, ← h₂]
    rfl

/-- **The round trip is the identity** on a loaded configuration, up to its secrets, exactly when
every MCP server has the default timeouts. -/
theorem roundTrips_iff {text : Text} {cfg : BotConfig} (h : loadBotConfig text = .ok cfg) :
    RoundTrips cfg ↔ ∀ a ∈ cfg.agents, ∀ mcp ∈ a.mcpServers, mcp.DefaultTimeouts := by
  obtain ⟨hloaded, hne⟩ := loaded_of_loadBotConfig h
  have hwrite := toJson_of_utf8 hloaded.utf8
  have hread := loadBotConfig_botConfigJson cfg (validUtf8_botConfigJson.mpr hloaded.utf8)
    hloaded.ids hne
  have hagents : cfg.agents.map AgentConfig.reload = cfg.agents.map .redact ↔
      ∀ a ∈ cfg.agents, ∀ mcp ∈ a.mcpServers, mcp.DefaultTimeouts := by
    rw [List.map_inj_left]
    exact forall₂_congr fun a ha => reload_eq_redact_iff (hloaded.agents a ha)
  rw [← hagents]
  constructor
  · rintro ⟨d, cfg', hd, hcfg', heq, -⟩
    obtain rfl := Except.ok.inj (hwrite.symm.trans hd)
    rw [← Except.ok.inj (hread.symm.trans hcfg')] at heq
    exact heq
  · intro heq
    exact ⟨_, _, hwrite, hread, heq, rfl⟩

/-- A file with one agent and one MCP server, with the given startup timeout. -/
def mcpExampleJson (startupTimeout : Int) : Json :=
  .obj [(utf8 "agents", .arr [.obj [(utf8 "id", .str (utf8 "a")),
    (utf8 "mcp_servers", .arr [.obj [(utf8 "name", .str (utf8 "m")),
      (utf8 "command", .str (utf8 "c")),
      (utf8 "startup_timeout", .int startupTimeout)]])]])]

/-- What is loaded from it. -/
def mcpExample (startupTimeout : Int32) : BotConfig where
  agents := [{ id := utf8 "a"
               mcpServers := [{ name := utf8 "m", command := utf8 "c", startupTimeout }] }]

/-- With the default of 30 s the file survives the round trip. -/
theorem roundTrips_mcpExample_default : RoundTrips (mcpExample 30) := by
  have hload : loadBotConfig (.document ⟨mcpExampleJson 30, rfl⟩) = .ok (mcpExample 30) := rfl
  exact (roundTrips_iff hload).mpr (by decide)

/-- **A timeout is reset.** A server with a startup timeout of 5 s has one of 30 s after the round
trip. -/
theorem timeouts_reset :
    ¬ ∀ (text : Text) (cfg : BotConfig), loadBotConfig text = .ok cfg → RoundTrips cfg := by
  intro hall
  have hload : loadBotConfig (.document ⟨mcpExampleJson 5, rfl⟩) = .ok (mcpExample 5) := rfl
  have hdefault := (roundTrips_iff hload).mp (hall _ _ hload)
  exact absurd hdefault (by decide)

end Aestival
