import Aestival.Management.FileLoadable

/-!
# Credentials and the file

After a request that persists, loading the file again should yield the credentials the process
holds (`CredentialsSurvive`). The writer replaces every credential by the sentinel `***`, and the
reader takes the sentinel for an empty text: the in-memory value that `safe_string` is meant to
preserve does not exist when a file is loaded.

`credentialsSurvive_iff` is what follows. If the file was written, the credentials survive exactly
when there are none; otherwise the old file decides. `api_key_lost` is the usual case.
-/

namespace Aestival

open Bytes Json

/-! ### What should hold -/

/-- The credentials of an agent. -/
def AgentConfig.credentials (a : AgentConfig) : List Bytes :=
  [a.qqAppSecret, a.deepseekApiKey, a.deepseekUserToken, a.deepseekWafCookie, a.openaiApiKey]

/-- The file can be loaded, and yields the credentials of the process: for every agent that exists,
and for the global section. -/
def CredentialsSurvive (s : Server) : Prop :=
  ∃ cfg, loadBotConfig s.file = .ok cfg ∧ cfg.global.jwtSecret = s.global.jwtSecret ∧
    ∀ id inst, s.registry.getAgent id = some inst →
      ∃ a ∈ cfg.agents, a.id = id ∧ a.credentials = inst.config.credentials

/-- The process holds no credential at all. -/
structure NoCredentials (r : Registry) (global : GlobalConfig) : Prop where
  jwtSecret : global.jwtSecret = []
  agents : ∀ id inst, r.getAgent id = some inst → ∀ c ∈ inst.config.credentials, c = []

/-! ### What is read back -/

/-- Credentials are read back empty. -/
theorem credentials_reload (a b : AgentConfig) :
    a.reload.credentials = b.credentials ↔ ∀ c ∈ b.credentials, c = [] := by
  simp only [AgentConfig.credentials, AgentConfig.reload, List.cons.injEq, and_true,
    List.forall_mem_cons, List.not_mem_nil, false_implies, implies_true, @eq_comm Bytes []]

/-- A written file without agents is not accepted. -/
theorem not_loadable_of_nil {r : Registry} {global : GlobalConfig}
    (h : (botConfigJson (r.botConfig global)).validUtf8 = true) (hnil : r.configs = []) :
    ¬ Loadable (.document ⟨botConfigJson (r.botConfig global), h⟩) := by
  rintro ⟨cfg, hcfg⟩
  obtain ⟨d, hd, hparse, hne⟩ := loadBotConfig_eq_ok hcfg
  obtain rfl := Text.document.inj hd
  rw [parseBotConfig_botConfigJson] at hparse
  refine hne ?_
  rw [← Except.ok.inj hparse]
  show (List.map AgentConfig.reload r.configs).filter _ = []
  rw [hnil]
  rfl

/-- From a written file, the credentials are those of the process exactly when it holds none. -/
theorem credentialsSurvive_written_iff {r : Registry} (hkeyed : r.WellKeyed)
    {global : GlobalConfig} (h : (botConfigJson (r.botConfig global)).validUtf8 = true) :
    CredentialsSurvive ⟨r, global, .document ⟨botConfigJson (r.botConfig global), h⟩⟩ ↔
      r.configs ≠ [] ∧ NoCredentials r global := by
  by_cases hnil : r.configs = []
  · refine ⟨fun ⟨cfg, hcfg, _⟩ => ?_, fun h => absurd hnil h.1⟩
    exact absurd ⟨cfg, hcfg⟩ (not_loadable_of_nil h hnil)
  -- a file of agents with ids is read back as `reload`
  have hids : ∀ a ∈ r.configs, a.id ≠ [] := by
    intro a ha
    obtain ⟨id, inst, hget, rfl⟩ := Registry.mem_configs.mp ha
    rw [(hkeyed id inst hget).1]
    exact (hkeyed id inst hget).2
  have hload := loadBotConfig_botConfigJson (r.botConfig global) h hids hnil
  constructor
  · rintro ⟨cfg, hcfg, hjwt, hagents⟩
    obtain rfl := Except.ok.inj (hload.symm.trans hcfg)
    refine ⟨hnil, hjwt.symm, fun id inst hget => ?_⟩
    obtain ⟨a, ha, -, hcred⟩ := hagents id inst hget
    obtain ⟨b, -, rfl⟩ := List.mem_map.mp ha
    exact (credentials_reload b inst.config).mp hcred
  · rintro ⟨-, hjwt, hagents⟩
    refine ⟨_, hload, hjwt.symm, fun id inst hget => ?_⟩
    have hmem := Registry.mem_configs.mpr ⟨id, inst, hget, rfl⟩
    refine ⟨inst.config.reload, List.mem_map_of_mem hmem, (hkeyed id inst hget).1, ?_⟩
    exact (credentials_reload inst.config inst.config).mpr (hagents id inst hget)

/-! ### When credentials survive -/

/-- **Credentials survive a request that persists** exactly when there are none, some agent is left
and everything can be written, or when the file could not be opened and the old one yields them. -/
theorem credentialsSurvive_iff {s : Server} (hs : s.Reachable) {env : Surroundings} {q : Request}
    {r : Registry} (happly : q.apply env.launch s.registry = (r, .ok ())) :
    CredentialsSurvive (s.handle env q).1 ↔
      (env.opens = true ∧ (r.botConfig s.global).Utf8 ∧ r.configs ≠ [] ∧
        NoCredentials r s.global) ∨
      (env.opens = false ∧ CredentialsSurvive ⟨r, s.global, s.file⟩) := by
  have hkeyed : r.WellKeyed := by
    have := hs.wellKeyed.apply env.launch q
    rwa [happly] at this
  rw [Server.handle_of_ok happly]
  cases env.opens with
  | false =>
    rw [persist_of_not_opens]
    simp
  | true =>
    by_cases hutf8 : (r.botConfig s.global).Utf8
    · rw [persist_of_utf8 hutf8]
      simp only [hutf8, true_and, Bool.true_eq_false, false_and, or_false]
      exact credentialsSurvive_written_iff hkeyed _
    · rw [persist_of_not_utf8 hutf8]
      simp only [hutf8, false_and, and_false, Bool.true_eq_false, or_false, iff_false]
      -- the file was emptied and not written
      rintro ⟨cfg, hcfg, -⟩
      exact not_loadable_malformed ⟨cfg, hcfg⟩

/-- Without credentials there is nothing to lose. -/
theorem credentialsSurvive_none :
    CredentialsSurvive (sampleServer.handle ⟨fun _ => none, true⟩ (.stop (utf8 "a"))).1 := by
  refine (credentialsSurvive_iff sampleServer_reachable rfl).mpr (Or.inl ⟨rfl, ?_, ?_, rfl, ?_⟩)
  · exact ⟨by decide, by decide, by decide⟩
  · decide
  · intro id inst hget
    have hnone : ∀ a ∈ (Registry.stopAgent sampleServer.registry (utf8 "a")).1.configs,
        ∀ c ∈ a.credentials, c = [] := by decide
    exact hnone _ (Registry.mem_configs.mpr ⟨id, inst, hget, rfl⟩)

/-- A process started from a file with one agent, `a`, that has an API key. -/
def keyServer : Server :=
  .start (fun _ => none) (utf8 "config.json")
    (.document ⟨.obj [(utf8 "agents", .arr [.obj [(utf8 "id", .str (utf8 "a")),
      (utf8 "deepseek", .obj [(utf8 "api_key", .str (utf8 "k"))])]])], rfl⟩)
    { agents := [{ id := utf8 "a", deepseekApiKey := utf8 "k" }] }

/-- **An API key is lost** when its agent is stopped. -/
theorem api_key_lost :
    ¬ ∀ (s : Server) (env : Surroundings) (q : Request), s.Reachable →
      (q.apply env.launch s.registry).2 = .ok () → CredentialsSurvive (s.handle env q).1 := by
  intro hall
  have hreach : keyServer.Reachable := .start rfl
  have hsurvive := hall keyServer ⟨fun _ => none, true⟩ (.stop (utf8 "a")) hreach rfl
  rcases (credentialsSurvive_iff hreach rfl).mp hsurvive with ⟨-, -, -, hnone⟩ | ⟨hopens, -⟩
  · have hkey := hnone.agents (utf8 "a") _ rfl (utf8 "k") (by decide)
    exact absurd hkey (by decide)
  · exact absurd hopens (by decide)

end Aestival
