import Aestival.Config.BotConfig
import Mathlib.Tactic.MkIffOfInductiveProp
import Mathlib.Tactic.Tauto

/-!
# Reading a written configuration

`parseBotConfig_botConfigJson` computes what the reader makes of a written configuration, field by
field and whatever the configuration is. Secrets come back empty (`safeString_redact`), and so does
everything the writer leaves out and the reader replaces by a default: the section `self_iteration`
is left out only when it holds the defaults, but the two timeouts of an MCP server always are.

`validUtf8_botConfigJson` says which configurations can be written at all.
-/

namespace Aestival

open Bytes Json

/-! ### Computations that succeed -/

@[simp] theorem ok_bind {ε α β : Type} (a : α) (f : α → Except ε β) :
    (Except.ok a >>= f) = f a := rfl

@[simp] theorem ok_pure {ε α : Type} (a : α) : (pure a : Except ε α) = .ok a := rfl

/-! ### What the reader makes of a written value -/

/-- Secrets are written redacted or empty, and both are read as empty. -/
theorem safeString_redact {obj : Json} (key secret : Bytes)
    (h : obj.find? key = some (redact secret)) : safeString obj key = [] := by
  rw [safeString, h, redact]
  by_cases hs : secret = [] <;> simp [hs, redacted]

theorem stringElems_map_str (l : List Bytes) : stringElems (l.map .str) = l := by
  induction l with
  | nil => rfl
  | cons s l ih =>
    rw [stringElems] at ih ⊢
    rw [List.map_cons, List.filterMap_cons, ih]

theorem getInt32_toInt (n : Int32) : (Json.int n.toInt).getInt32 = .ok n :=
  congrArg Except.ok (Int32.ofInt_toInt n)

theorem getInt64_toInt (n : Int64) : (Json.int n.toInt).getInt64 = .ok n :=
  congrArg Except.ok (Int64.ofInt_toInt n)

/-- The server as it is read back: the timeouts are not written. -/
def McpServerConfig.reload (mcp : McpServerConfig) : McpServerConfig :=
  { mcp with startupTimeout := 30
             callTimeout := 60
             env := mcp.env.foldl (fun env p => setEnv env p.1 p.2) [] }

/-- The agent as it is read back: secrets are empty, an app id equal to the sentinel is lost, and
servers without a name or a command are dropped. -/
def AgentConfig.reload (a : AgentConfig) : AgentConfig :=
  { a with qqAppId := if a.qqAppId = redacted then [] else a.qqAppId
           qqAppSecret := []
           deepseekApiKey := []
           deepseekUserToken := []
           deepseekWafCookie := []
           openaiApiKey := []
           mcpServers := (a.mcpServers.map .reload).filter fun s => s.name ≠ [] ∧ s.command ≠ [] }

/-- The global section without its secret. -/
def GlobalConfig.redact (g : GlobalConfig) : GlobalConfig := { g with jwtSecret := [] }

/-- The reader finds the arguments where they were written, and an empty list where not. -/
theorem parseStringArray_mcpServerJson (mcp : McpServerConfig) :
    parseStringArray (mcpServerJson mcp) (utf8 "args") = mcp.args := by
  obtain ⟨name, command, args, startup, call, env⟩ := mcp
  rcases args with _ | ⟨arg, args⟩ <;> rcases env with _ | ⟨p, env⟩
  · rfl
  · rfl
  · exact stringElems_map_str _
  · exact stringElems_map_str _

theorem parseEnv_mcpServerJson (mcp : McpServerConfig) :
    parseEnv (mcpServerJson mcp) = mcp.env.foldl (fun env p => setEnv env p.1 p.2) [] := by
  obtain ⟨name, command, args, startup, call, env⟩ := mcp
  rcases args with _ | ⟨arg, args⟩ <;> rcases env with _ | ⟨p, env⟩
  · rfl
  · exact List.foldl_map
  · rfl
  · exact List.foldl_map

/-- The writer leaves both timeouts out, so the reader takes the defaults. -/
theorem parseTimeout_mcpServerJson (mcp : McpServerConfig) (d : Int32) {key : Bytes}
    (hkey : key = utf8 "startup_timeout" ∨ key = utf8 "call_timeout") :
    parseTimeout (mcpServerJson mcp) key d = .ok d := by
  obtain ⟨name, command, args, startup, call, env⟩ := mcp
  rcases hkey with rfl | rfl <;> rcases args with _ | ⟨arg, args⟩ <;>
    rcases env with _ | ⟨p, env⟩ <;> rfl

theorem parseMcpServer_mcpServerJson (mcp : McpServerConfig) :
    parseMcpServer (mcpServerJson mcp) = .ok mcp.reload := by
  have hname : ∀ d, (mcpServerJson mcp).value getStr (utf8 "name") d = .ok mcp.name := fun _ => rfl
  have hcommand : ∀ d, (mcpServerJson mcp).value getStr (utf8 "command") d = .ok mcp.command :=
    fun _ => rfl
  rw [parseMcpServer, hname, ok_bind, hcommand, ok_bind, parseStringArray_mcpServerJson,
    parseTimeout_mcpServerJson mcp 30 (Or.inl rfl), ok_bind,
    parseTimeout_mcpServerJson mcp 60 (Or.inr rfl), ok_bind, parseEnv_mcpServerJson]
  rfl

theorem parseMcpServers_map (servers : List McpServerConfig) :
    parseMcpServers (servers.map mcpServerJson) =
      .ok ((servers.map .reload).filter fun s => s.name ≠ [] ∧ s.command ≠ []) := by
  induction servers with
  | nil => rfl
  | cons mcp servers ih =>
    rw [List.map_cons, parseMcpServers]
    have hobject : (mcpServerJson mcp).isObject = true := rfl
    rw [if_pos hobject, parseMcpServer_mcpServerJson, ok_bind, ih, ok_bind, ok_pure]
    rw [List.map_cons, List.filter_cons]
    by_cases hkept : mcp.reload.name ≠ [] ∧ mcp.reload.command ≠ []
    · rw [if_pos hkept, if_pos (decide_eq_true hkept)]
    · rw [if_neg hkept, if_neg (by simpa using hkept)]

section Agent

variable (a b : AgentConfig)

theorem parseQq_agentJson : parseQq b (agentJson a) =
    { b with qqAppId := if a.qqAppId = redacted then [] else a.qqAppId, qqAppSecret := [] } := by
  have hsection : objectField? (agentJson a) (utf8 "qq") = some (.obj
      [(utf8 "app_id", .str a.qqAppId), (utf8 "app_secret", redact a.qqAppSecret)]) := rfl
  rw [parseQq, hsection]
  dsimp only
  rw [safeString_redact (utf8 "app_secret") a.qqAppSecret rfl]
  rfl

theorem parseDeepseek_agentJson : parseDeepseek b (agentJson a) =
    .ok { b with deepseekApiKey := [], deepseekModel := a.deepseekModel,
                 deepseekUserToken := [], deepseekWafCookie := [] } := by
  have hsection : objectField? (agentJson a) (utf8 "deepseek") = some (.obj [
      (utf8 "api_key", redact a.deepseekApiKey), (utf8 "model", .str a.deepseekModel),
      (utf8 "user_token", redact a.deepseekUserToken),
      (utf8 "waf_cookie", redact a.deepseekWafCookie)]) := rfl
  rw [parseDeepseek, hsection]
  dsimp only
  rw [safeString_redact (utf8 "api_key") a.deepseekApiKey rfl,
    safeString_redact (utf8 "user_token") a.deepseekUserToken rfl,
    safeString_redact (utf8 "waf_cookie") a.deepseekWafCookie rfl]
  rfl

theorem parseOpenai_agentJson : parseOpenai b (agentJson a) =
    .ok { b with openaiApiKey := [], openaiModel := a.openaiModel,
                 openaiBaseUrl := a.openaiBaseUrl } := by
  have hsection : objectField? (agentJson a) (utf8 "openai") = some (.obj [
      (utf8 "api_key", redact a.openaiApiKey), (utf8 "model", .str a.openaiModel),
      (utf8 "base_url", .str a.openaiBaseUrl)]) := rfl
  rw [parseOpenai, hsection]
  dsimp only
  rw [safeString_redact (utf8 "api_key") a.openaiApiKey rfl]
  rfl

theorem lookup_selfIteration_mcpServersFields :
    (mcpServersFields a).lookup (utf8 "self_iteration") = none := by
  rw [mcpServersFields]
  by_cases h : a.mcpServers = []
  · rw [if_pos h]
    rfl
  · rw [if_neg h]
    rfl

theorem lookup_mcpServers_selfIterationFields :
    (selfIterationFields a).lookup (utf8 "mcp_servers") = none := by
  rw [selfIterationFields]
  split <;> rfl

/-- The section is left out only when it would say what the reader assumes anyway. -/
theorem parseSelfIteration_agentJson
    (henabled : b.selfIterateEnabled = false) (hhours : b.selfIterateIntervalHours = 24)
    (hconversations : b.selfIterateMinConversations = 10)
    (hpath : b.claudeCodePath = utf8 "claude") :
    parseSelfIteration b (agentJson a) =
      .ok { b with selfIterateEnabled := a.selfIterateEnabled
                   selfIterateIntervalHours := a.selfIterateIntervalHours
                   selfIterateMinConversations := a.selfIterateMinConversations
                   claudeCodePath := a.claudeCodePath } := by
  have hfind : (agentJson a).find? (utf8 "self_iteration") =
      (selfIterationFields a ++ mcpServersFields a).lookup (utf8 "self_iteration") := rfl
  rw [parseSelfIteration, objectField?, hfind, List.lookup_append,
    lookup_selfIteration_mcpServersFields, Option.or_none, selfIterationFields]
  -- the object is written only if one of its members differs from the default
  by_cases hoff : a.selfIterateEnabled ∨ a.selfIterateIntervalHours ≠ 24 ∨
      a.selfIterateMinConversations ≠ 10 ∨ a.claudeCodePath ≠ utf8 "claude"
  · rw [if_pos hoff]
    change ((Except.ok a.selfIterateEnabled : Except AccessError Bool) >>= fun enabled =>
      (Json.int a.selfIterateIntervalHours.toInt).getInt32 >>= fun hours =>
      (Json.int a.selfIterateMinConversations.toInt).getInt32 >>= fun conversations =>
      (Except.ok a.claudeCodePath : Except AccessError Bytes) >>= fun path =>
      .ok { b with selfIterateEnabled := enabled, selfIterateIntervalHours := hours,
                   selfIterateMinConversations := conversations, claudeCodePath := path }) = _
    rw [ok_bind, getInt32_toInt, ok_bind, getInt32_toInt, ok_bind, ok_bind]
  -- left out, it is read as the defaults
  · rw [if_neg hoff]
    simp only [not_or, not_not, Bool.not_eq_true] at hoff
    obtain ⟨h₁, h₂, h₃, h₄⟩ := hoff
    rw [h₁, h₂, h₃, h₄, ← henabled, ← hhours, ← hconversations, ← hpath]
    rfl

theorem parseMcp_agentJson (hnone : b.mcpServers = []) : parseMcp b (agentJson a) =
    .ok { b with mcpServers :=
      (a.mcpServers.map .reload).filter fun s => s.name ≠ [] ∧ s.command ≠ [] } := by
  have hfind : (agentJson a).find? (utf8 "mcp_servers") =
      (selfIterationFields a ++ mcpServersFields a).lookup (utf8 "mcp_servers") := rfl
  rw [parseMcp, hfind, List.lookup_append, lookup_mcpServers_selfIterationFields, Option.none_or,
    mcpServersFields]
  by_cases hnil : a.mcpServers = []
  · rw [if_pos hnil, hnil, List.map_nil, List.filter_nil, ← hnone]
    rfl
  · rw [if_neg hnil]
    change (parseMcpServers (a.mcpServers.map mcpServerJson) >>= fun servers =>
      .ok { b with mcpServers := b.mcpServers ++ servers }) = _
    rw [parseMcpServers_map, ok_bind, hnone, List.nil_append]

/-- **An agent, written and read back.** -/
theorem parseAgent_agentJson : parseAgent (agentJson a) = .ok a.reload := by
  have hid : ∀ d, (agentJson a).value getStr (utf8 "id") d = .ok a.id := fun _ => rfl
  have hname : ∀ d, (agentJson a).value getStr (utf8 "name") d = .ok a.name := fun _ => rfl
  have henabled : ∀ d, (agentJson a).value getBool (utf8 "enabled") d = .ok a.enabled :=
    fun _ => rfl
  have hplatform : ∀ d, (agentJson a).value getStr (utf8 "platform") d = .ok a.platform :=
    fun _ => rfl
  have hprovider : ∀ d, (agentJson a).value getStr (utf8 "llm_provider") d = .ok a.llmProvider :=
    fun _ => rfl
  have hworkspace : ∀ d, (agentJson a).value getStr (utf8 "workspace") d = .ok a.workspace :=
    fun _ => rfl
  have hstorage : ∀ d, (agentJson a).value getStr (utf8 "storage_dir") d = .ok a.storageDir :=
    fun _ => rfl
  have hadmins : parseStringArray (agentJson a) (utf8 "admins") = a.adminUserIds :=
    stringElems_map_str _
  have hmode : ∀ d, ∃ m, (agentJson a).value getStr (utf8 "mode") d = .ok m ∧
      parseMode m = a.defaultMode := by
    intro d
    refine ⟨_, rfl, ?_⟩
    cases a.defaultMode with
    | plugin => rfl
    | agent => rfl
  have hreach : ∀ d, (agentJson a).value getBool (utf8 "agent_reach_enabled") d =
      .ok a.agentReachEnabled := fun _ => rfl
  have hperMinute : ∀ d, (agentJson a).value getInt32 (utf8 "max_messages_per_minute") d =
      .ok a.maxMessagesPerMinute := by
    intro d
    rw [← getInt32_toInt a.maxMessagesPerMinute]
    rfl
  have hbudget : ∀ d, (agentJson a).value getInt64 (utf8 "daily_token_budget") d =
      .ok a.dailyTokenBudget := by
    intro d
    rw [← getInt64_toInt a.dailyTokenBudget]
    rfl
  obtain ⟨m, hm, hparse⟩ := hmode (utf8 "agent")
  simp only [parseAgent, hid, hname, henabled, hplatform, hprovider, hworkspace, hstorage, hadmins,
    hm, hparse, hreach, hperMinute, hbudget, ok_bind, parseQq_agentJson, parseDeepseek_agentJson,
    parseOpenai_agentJson]
  -- the last two sections are read over an agent that still has the defaults there
  rw [parseSelfIteration_agentJson, ok_bind, parseMcp_agentJson]
  all_goals rfl

end Agent

theorem parseAgents_map (agents : List AgentConfig) :
    parseAgents (agents.map agentJson) =
      .ok ((agents.map .reload).filter fun a => a.id ≠ []) := by
  induction agents with
  | nil => rfl
  | cons a agents ih =>
    have hobject : (agentJson a).isObject = true := rfl
    rw [List.map_cons, parseAgents, if_pos hobject, parseAgent_agentJson, ok_bind, ih, ok_bind,
      ok_pure, List.map_cons, List.filter_cons]
    by_cases hid : a.reload.id = []
    · rw [if_pos hid, if_neg (by simpa using hid)]
    · rw [if_neg hid, if_pos (decide_eq_true hid)]

theorem parseGlobal_botConfigJson (cfg : BotConfig) :
    parseGlobal (botConfigJson cfg) = .ok cfg.global.redact := by
  have hsrc : objectField? (botConfigJson cfg) (utf8 "global") = some (globalJson cfg.global) := rfl
  have hmgmt : objectField? (globalJson cfg.global) (utf8 "management_api") = some (.obj [
      (utf8 "enabled", .bool cfg.global.managementApiEnabled),
      (utf8 "listen", .str cfg.global.managementListen),
      (utf8 "jwt_secret", redact cfg.global.jwtSecret)]) := rfl
  have htls : ∀ d, (globalJson cfg.global).value getBool (utf8 "verify_tls") d =
      .ok cfg.global.verifyTls := fun _ => rfl
  have hlog : ∀ d, (globalJson cfg.global).value getStr (utf8 "log_file") d =
      .ok cfg.global.logFile := fun _ => rfl
  simp only [parseGlobal, hsrc, Option.getD_some, htls, hlog, ok_bind, hmgmt]
  rw [safeString_redact (utf8 "jwt_secret") cfg.global.jwtSecret rfl]
  rfl

/-- **A configuration, written and read back.** -/
theorem parseBotConfig_botConfigJson (cfg : BotConfig) :
    parseBotConfig (botConfigJson cfg) =
      .ok { agents := (cfg.agents.map .reload).filter fun a => a.id ≠ []
            global := cfg.global.redact
            isLegacy := false } := by
  have hagents : (botConfigJson cfg).find? (utf8 "agents") =
      some (.arr (cfg.agents.map agentJson)) := rfl
  simp only [parseBotConfig, parseGlobal_botConfigJson, ok_bind, hagents, parseAgents_map, ok_pure]

/-! ### Texts that can be written -/

/-- The texts of a server are UTF-8. -/
@[mk_iff]
structure McpServerConfig.Utf8 (mcp : McpServerConfig) : Prop where
  name : mcp.name.validUtf8 = true
  command : mcp.command.validUtf8 = true
  args : ∀ s ∈ mcp.args, s.validUtf8 = true
  env : ∀ p ∈ mcp.env, p.1.validUtf8 = true ∧ p.2.validUtf8 = true

/-- The texts of an agent that are written as they are, are UTF-8. Secrets are not among them. -/
@[mk_iff]
structure AgentConfig.Utf8 (a : AgentConfig) : Prop where
  id : a.id.validUtf8 = true
  name : a.name.validUtf8 = true
  platform : a.platform.validUtf8 = true
  qqAppId : a.qqAppId.validUtf8 = true
  llmProvider : a.llmProvider.validUtf8 = true
  deepseekModel : a.deepseekModel.validUtf8 = true
  openaiModel : a.openaiModel.validUtf8 = true
  openaiBaseUrl : a.openaiBaseUrl.validUtf8 = true
  workspace : a.workspace.validUtf8 = true
  storageDir : a.storageDir.validUtf8 = true
  adminUserIds : ∀ s ∈ a.adminUserIds, s.validUtf8 = true
  mcpServers : ∀ mcp ∈ a.mcpServers, mcp.Utf8
  claudeCodePath : a.claudeCodePath.validUtf8 = true

@[mk_iff]
structure BotConfig.Utf8 (cfg : BotConfig) : Prop where
  agents : ∀ a ∈ cfg.agents, a.Utf8
  logFile : cfg.global.logFile.validUtf8 = true
  managementListen : cfg.global.managementListen.validUtf8 = true

instance (mcp : McpServerConfig) : Decidable mcp.Utf8 := decidable_of_iff' _ mcp.utf8_iff

instance (a : AgentConfig) : Decidable a.Utf8 := decidable_of_iff' _ a.utf8_iff

theorem validUtf8_redact (secret : Bytes) : (redact secret).validUtf8 = true := by
  rw [redact]
  split <;> rfl

theorem validElems_map_str {l : List Bytes} :
    validElems (l.map .str) = true ↔ ∀ s ∈ l, s.validUtf8 = true := by
  rw [validElems_iff, List.forall_mem_map]
  rfl

theorem validUtf8_mcpServerJson {mcp : McpServerConfig} :
    (mcpServerJson mcp).validUtf8 = true ↔ mcp.Utf8 := by
  -- empty lists are left out
  have hargs : validFields (if mcp.args = [] then []
      else [(utf8 "args", .arr (mcp.args.map .str))]) = true ↔
      ∀ s ∈ mcp.args, s.validUtf8 = true := by
    split
    · next h => simp [h, validFields]
    · rw [← validElems_map_str]
      simp +decide only [validFields, Json.validUtf8, Bool.and_eq_true, true_and, and_true]
  have henv : validFields (if mcp.env = [] then []
      else [(utf8 "env", .obj (mcp.env.map fun p => (p.1, .str p.2)))]) = true ↔
      ∀ p ∈ mcp.env, p.1.validUtf8 = true ∧ p.2.validUtf8 = true := by
    split
    · next h => simp [h, validFields]
    · simp +decide only [validFields, Json.validUtf8, Bool.and_eq_true, true_and, and_true]
      -- the keys of the environment count as well as its values
      rw [validFields_iff, List.forall_mem_map]
      rfl
  rw [mcpServerJson, McpServerConfig.utf8_iff]
  simp +decide only [Json.validUtf8, validFields_append, validFields, Bool.and_eq_true, hargs,
    henv, true_and, and_true, and_assoc]

theorem validFields_selfIterationFields {a : AgentConfig} :
    validFields (selfIterationFields a) = true ↔ a.claudeCodePath.validUtf8 = true := by
  rw [selfIterationFields]
  split
  · simp +decide only [validFields, Json.validUtf8, Bool.and_eq_true, true_and, and_true]
  · next h =>
    -- the section is not written, and the path is the default
    simp only [not_or, not_not] at h
    rw [h.2.2.2]
    decide

theorem validFields_mcpServersFields {a : AgentConfig} :
    validFields (mcpServersFields a) = true ↔ ∀ mcp ∈ a.mcpServers, mcp.Utf8 := by
  rw [mcpServersFields]
  split
  · next h => simp [h, validFields]
  · simp +decide only [validFields, Json.validUtf8, Bool.and_eq_true, true_and, and_true]
    rw [validElems_iff, List.forall_mem_map]
    exact forall₂_congr fun mcp _ => validUtf8_mcpServerJson

theorem validUtf8_agentJson {a : AgentConfig} : (agentJson a).validUtf8 = true ↔ a.Utf8 := by
  have hmode : a.defaultMode.text.validUtf8 = true := by
    cases a.defaultMode with
    | plugin => decide
    | agent => decide
  rw [agentJson, AgentConfig.utf8_iff]
  simp +decide only [Json.validUtf8, validFields_append, validFields, Bool.and_eq_true,
    validElems_map_str, validUtf8_redact, validFields_selfIterationFields,
    validFields_mcpServersFields, true_and, and_true]
  tauto

/-- A configuration can be written exactly when its texts are UTF-8. -/
theorem validUtf8_botConfigJson {cfg : BotConfig} :
    (botConfigJson cfg).validUtf8 = true ↔ cfg.Utf8 := by
  have hagents : validElems (cfg.agents.map agentJson) = true ↔ ∀ a ∈ cfg.agents, a.Utf8 := by
    rw [validElems_iff, List.forall_mem_map]
    exact forall₂_congr fun a _ => validUtf8_agentJson
  rw [botConfigJson, globalJson, BotConfig.utf8_iff]
  simp +decide only [Json.validUtf8, validFields, Bool.and_eq_true, hagents, validUtf8_redact,
    true_and, and_true]

end Aestival
