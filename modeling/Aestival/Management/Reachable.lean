import Aestival.Management.Api

/-!
# Reachable states of the management API

`Server.Reachable` lists what happens to the process: it loads its configuration and starts the
agents, it handles requests, and sessions connect. In every reachable state the registry is
`WellKeyed`: an instance is stored under the id of its configuration, and no id is empty. The
operations of the registry preserve this (`WellKeyed.apply`) because each of them does one of three
things to the map: it leaves the configurations alone, removes one, or stores one under its id.
-/

namespace Aestival

open Bytes Json

namespace Registry

/-! ### The map -/

section Map

variable {r : Registry} {id id' : Bytes} {inst : AgentInstance}

@[simp] theorem getAgent_set_self : (r.set id inst).getAgent id = some inst :=
  AList.lookup_insert r.agents

theorem getAgent_set_of_ne (h : id' ≠ id) : (r.set id inst).getAgent id' = r.getAgent id' :=
  AList.lookup_insert_ne h

theorem mem_agents_iff : id ∈ r.agents ↔ ∃ inst, r.getAgent id = some inst := by
  rw [← AList.lookup_isSome, Option.isSome_iff_exists]
  rfl

theorem mem_set : id' ∈ (r.set id inst).agents ↔ id' = id ∨ id' ∈ r.agents :=
  AList.mem_insert r.agents

/-- The configurations are those of the instances in the map. -/
theorem mem_configs {cfg : AgentConfig} :
    cfg ∈ r.configs ↔ ∃ id inst, r.getAgent id = some inst ∧ inst.config = cfg := by
  rw [configs, List.mem_map]
  constructor
  · rintro ⟨⟨id, inst⟩, hmem, rfl⟩
    exact ⟨id, inst, AList.mem_lookup_iff.mpr hmem, rfl⟩
  · rintro ⟨id, inst, hget, rfl⟩
    exact ⟨⟨id, inst⟩, AList.mem_lookup_iff.mp hget, rfl⟩

end Map

/-! ### Keys and ids -/

/-- Every instance is stored under the id of its configuration, which is not empty. -/
def WellKeyed (r : Registry) : Prop :=
  ∀ id inst, r.getAgent id = some inst → inst.config.id = id ∧ id ≠ []

namespace WellKeyed

variable {r : Registry} {launch : Launch}

theorem empty (configPath : Bytes) : WellKeyed ⟨∅, configPath⟩ :=
  fun _ _ h => nomatch h

theorem set (h : r.WellKeyed) {id : Bytes} {inst : AgentInstance} (hid : inst.config.id = id)
    (hne : id ≠ []) : (r.set id inst).WellKeyed := by
  intro id' inst' hget
  by_cases heq : id' = id
  · subst heq
    rw [getAgent_set_self] at hget
    rw [← Option.some.inj hget]
    exact ⟨hid, hne⟩
  · rw [getAgent_set_of_ne heq] at hget
    exact h id' inst' hget

/-- A change of status or of the last error does not matter. -/
theorem set_of_getAgent (h : r.WellKeyed) {id : Bytes} {inst inst' : AgentInstance}
    (hget : r.getAgent id = some inst) (hid : inst'.config.id = inst.config.id) :
    (r.set id inst').WellKeyed :=
  h.set (hid.trans (h id inst hget).1) (h id inst hget).2

theorem erase (h : r.WellKeyed) (id : Bytes) :
    WellKeyed { r with agents := r.agents.erase id } := by
  intro id' inst hget
  have hne : id' ≠ id := by
    rintro rfl
    have hnone : AList.lookup id' (r.agents.erase id') = none := AList.lookup_erase id' r.agents
    exact nomatch hnone.symm.trans hget
  refine h id' inst ?_
  have hlookup : AList.lookup id' (r.agents.erase id) = r.agents.lookup id' :=
    AList.lookup_erase_ne hne
  exact hlookup.symm.trans hget

theorem connected (h : r.WellKeyed) (id : Bytes) : (r.connected id).WellKeyed := by
  rw [Registry.connected]
  split
  · exact h
  · next inst hget => exact h.set_of_getAgent hget rfl

theorem startOne (h : r.WellKeyed) {ac : AgentConfig} (hid : ac.id ≠ []) :
    (startOne launch r ac).WellKeyed := by
  rw [Registry.startOne]
  split
  · split
    · exact h.set rfl hid
    · exact h.set rfl hid
  · exact h

theorem startAll {cfg : BotConfig} (hids : ∀ a ∈ cfg.agents, a.id ≠ []) (configPath : Bytes) :
    (Registry.startAll launch configPath cfg).WellKeyed := by
  have hfold : ∀ (agents : List AgentConfig) (r : Registry), (∀ a ∈ agents, a.id ≠ []) →
      r.WellKeyed → (agents.foldl (Registry.startOne launch) r).WellKeyed := by
    intro agents
    induction agents with
    | nil => exact fun r _ h => h
    | cons a agents ih =>
      intro r hids h
      refine ih _ (fun b hb => hids b (List.mem_cons_of_mem _ hb)) ?_
      exact h.startOne (hids a (List.mem_cons_self ..))
  exact hfold cfg.agents _ hids (empty configPath)

theorem addAgent (h : r.WellKeyed) (cfg : AgentConfig) :
    (Registry.addAgent launch r cfg).1.WellKeyed := by
  rw [Registry.addAgent]
  split
  · exact h
  · next hcheck =>
    have hne : cfg.id ≠ [] := by
      intro hnil
      rw [checkNewId, if_pos hnil] at hcheck
      exact nomatch hcheck
    split
    · exact h.set rfl hne
    · exact h.set rfl hne

theorem removeAgent (h : r.WellKeyed) (id : Bytes) : (r.removeAgent id).1.WellKeyed := by
  rw [Registry.removeAgent]
  split
  · exact h
  · exact h.erase id

theorem startAgent (h : r.WellKeyed) (id : Bytes) :
    (Registry.startAgent launch r id).1.WellKeyed := by
  rw [Registry.startAgent]
  split
  · exact h
  · next inst hget =>
    split
    · exact h
    · exact h
    · split
      · exact h.set_of_getAgent hget rfl
      · exact h.set_of_getAgent hget rfl

theorem stopAgent (h : r.WellKeyed) (id : Bytes) : (r.stopAgent id).1.WellKeyed := by
  rw [Registry.stopAgent]
  split
  · exact h
  · next inst hget =>
    split
    · exact h.set_of_getAgent hget rfl
    · exact h

theorem updateAgentConfig (h : r.WellKeyed) {id : Bytes} {cfg : AgentConfig}
    (hid : ∀ inst, r.getAgent id = some inst → cfg.id = inst.config.id) :
    (r.updateAgentConfig id cfg).1.WellKeyed := by
  rw [Registry.updateAgentConfig]
  split
  · exact h
  · next inst hget =>
    split
    · exact h
    · exact h.set_of_getAgent hget (hid inst hget)

end WellKeyed

end Registry

/-! ### Requests -/

/-- An optional change keeps the id if the change does. -/
theorem editField_id {α : Type} {j : Json} {key : Bytes} {get : Json → Except AccessError α}
    {use : α → Except Failure AgentConfig} {cfg cfg' : AgentConfig}
    (h : editField j key get use cfg = .ok cfg') (huse : ∀ x c, use x = .ok c → c.id = cfg.id) :
    cfg'.id = cfg.id := by
  rw [editField] at h
  split at h
  · obtain ⟨x, -, hx⟩ := Except.bind_eq_ok_iff.mp h
    exact huse x cfg' hx
  · rw [Except.ok.inj h]

/-- Editing an agent does not change its id. -/
theorem editConfig_id {cfg cfg' : AgentConfig} {j : Json} (h : editConfig cfg j = .ok cfg') :
    cfg'.id = cfg.id := by
  obtain ⟨c₁, h₁, h⟩ := Except.bind_eq_ok_iff.mp h
  obtain ⟨c₂, h₂, h⟩ := Except.bind_eq_ok_iff.mp h
  obtain ⟨c₃, h₃, h⟩ := Except.bind_eq_ok_iff.mp h
  obtain ⟨c₄, h₄, h₅⟩ := Except.bind_eq_ok_iff.mp h
  have hid₁ : c₁.id = cfg.id := editField_id h₁ fun x c hc => by rw [← Except.ok.inj hc]
  have hid₂ : c₂.id = c₁.id := editField_id h₂ fun x c hc => by rw [← Except.ok.inj hc]
  have hid₃ : c₃.id = c₂.id := by
    refine editField_id h₃ fun x c hc => ?_
    obtain ⟨-, -, hc⟩ := Except.bind_eq_ok_iff.mp hc
    rw [← Except.ok.inj hc]
  have hid₄ : c₄.id = c₃.id := by
    refine editField_id h₄ fun x c hc => ?_
    obtain ⟨-, -, hc⟩ := Except.bind_eq_ok_iff.mp hc
    rw [← Except.ok.inj hc]
  have hid₅ : cfg'.id = c₄.id := editField_id h₅ fun x c hc => by rw [← Except.ok.inj hc]
  rw [hid₅, hid₄, hid₃, hid₂, hid₁]

/-- **A request keeps the registry well-keyed**, whatever comes of it. -/
theorem Registry.WellKeyed.apply {r : Registry} (h : r.WellKeyed) (launch : Launch)
    (q : Request) : (q.apply launch r).1.WellKeyed := by
  cases q with
  | create body =>
    rw [Request.apply]
    split
    · exact h
    · exact h.addAgent _
  | config id body =>
    rw [Request.apply]
    split
    · exact h
    split
    · exact h
    next inst hget =>
    split
    · exact h
    · next cfg hcfg =>
      -- an edit keeps the id, so the agent stays under its key
      refine h.updateAgentConfig fun inst' hget' => ?_
      rw [← Option.some.inj (hget.symm.trans hget')]
      exact editConfig_id hcfg
  | start id => exact h.startAgent id
  | stop id => exact h.stopAgent id
  | remove id => exact h.removeAgent id

namespace Server

/-- The states of the process. -/
inductive Reachable : Server → Prop
  | start {launch : Launch} {configPath : Bytes} {text : Text} {cfg : BotConfig}
      (h : loadBotConfig text = .ok cfg) : Reachable (.start launch configPath text cfg)
  | handle {s : Server} (h : Reachable s) (env : Surroundings) (q : Request) :
      Reachable (s.handle env q).1
  | connected {s : Server} (h : Reachable s) (id : Bytes) :
      Reachable { s with registry := s.registry.connected id }

/-- A handler leaves the registry that the request leaves. -/
theorem registry_handle (s : Server) (env : Surroundings) (q : Request) :
    (s.handle env q).1.registry = (q.apply env.launch s.registry).1 := by
  rw [handle]
  split
  · next h => rw [h]
  · next h => rw [h]

/-- A request that is refused before `persist` leaves the file alone. -/
theorem handle_of_error {s : Server} {env : Surroundings} {q : Request} {r : Registry}
    {e : Failure} (h : q.apply env.launch s.registry = (r, .error e)) :
    s.handle env q = ({ s with registry := r }, .error e) := by
  rw [handle, h]

/-- A request that is carried out ends with `persist`. -/
theorem handle_of_ok {s : Server} {env : Surroundings} {q : Request} {r : Registry}
    (h : q.apply env.launch s.registry = (r, .ok ())) :
    s.handle env q = ({ s with registry := r, file := (r.persist env.opens s.file s.global).1 },
      (r.persist env.opens s.file s.global).2) := by
  rw [handle, h]

theorem Reachable.wellKeyed {s : Server} (h : Reachable s) : s.registry.WellKeyed := by
  induction h with
  | start h => exact Registry.WellKeyed.startAll (loaded_of_loadBotConfig h).1.ids _
  | handle _ env q ih =>
    rw [registry_handle]
    exact ih.apply env.launch q
  | connected _ id ih => exact ih.connected id

end Server

end Aestival
