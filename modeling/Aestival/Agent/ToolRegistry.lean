import Aestival.Agent.Controller
import Aestival.Agent.Plugins

/-!
# The tool registry

`tool_registry` goes over its providers twice. `build_tools_json` lists the tools of all of them for
the model, and `execute` looks for the first provider that has a tool of the name the model has
asked for. Between the two stands only the name.

A name that occurs once belongs to one provider, and the walks agree. Nothing rules out that two
providers offer a tool of one name, or one provider the same name twice; then the entry of the
second one is listed and never executed. `walksAgree_iff` says that this is the only way to fail.
-/

namespace Aestival

open Json

/-! ### Execution -/

/-- The position of the provider `tool_registry::execute` finds: the first one with a tool of this
name. -/
def executingIndex (providers : List ToolProvider) (toolName : Bytes) : Option Nat :=
  providers.findIdx? fun p => p.getTools.any fun td => td.name = toolName

/-- `tool_registry::execute`. What `execute_tool` of the provider at a position returns is open; the
arguments are what `nlohmann::json::parse` has made of the text of the model. -/
def ToolRegistry.execute (executeAt : Nat → Bytes → Json.Text → Bytes)
    (providers : List ToolProvider) (toolName : Bytes) (args : Json.Text) : Bytes :=
  match executingIndex providers toolName with
  | some k => executeAt k toolName args
  | none => utf8 "Error: unknown tool '" ++ toolName ++ utf8 "'"

/-- The provider that is found is the one that executes. -/
theorem executingProvider_eq (providers : List ToolProvider) (toolName : Bytes) :
    executingProvider providers toolName =
      (executingIndex providers toolName).bind (providers[·]?) :=
  List.find?_eq_bind_findIdx?_getElem? ..

/-! ### The entries for the model -/

/-- The entry of a tool. -/
def toolEntry (td : ToolDefinition) : Json :=
  .obj [(utf8 "function", .obj [(utf8 "description", .str td.description),
    (utf8 "name", .str td.name), (utf8 "parameters", td.parameters)]),
    (utf8 "type", .str (utf8 "function"))]

/-- The name in an entry, which the model repeats in its call. -/
def entryName (entry : Json) : Option Bytes :=
  match (entry.find? (utf8 "function")).bind (·.find? (utf8 "name")) with
  | some (.str name) => some name
  | _ => none

@[simp] theorem entryName_toolEntry (td : ToolDefinition) :
    entryName (toolEntry td) = some td.name := by
  have hfunction : (toolEntry td).find? (utf8 "function") = some (.obj
      [(utf8 "description", .str td.description), (utf8 "name", .str td.name),
        (utf8 "parameters", td.parameters)]) := rfl
  have hname : (Json.obj [(utf8 "description", .str td.description), (utf8 "name", .str td.name),
      (utf8 "parameters", td.parameters)]).find? (utf8 "name") = some (.str td.name) := rfl
  rw [entryName, hfunction, Option.bind_some, hname]

/-- The names of the tools of a provider. -/
def ToolProvider.toolNames (p : ToolProvider) : List Bytes := p.getTools.map ToolDefinition.name

/-- The entries for the model, each with the position of the provider it is from. -/
def advertised (providers : List ToolProvider) : List (Nat × Json) :=
  providers.zipIdx.flatMap fun (p, k) => p.getTools.map fun td => (k, toolEntry td)

/-- They are what `build_tools_json` lists. -/
theorem map_advertised (providers : List ToolProvider) :
    (advertised providers).map Prod.snd = buildToolsJson (providers.map ToolProvider.getTools) := by
  have hentries : buildToolsJson (providers.map ToolProvider.getTools) =
      providers.flatMap fun p => p.getTools.map toolEntry := by
    rw [buildToolsJson, List.map_flatten, List.map_map, ← List.flatMap_def]
    rfl
  have hfst : providers = providers.zipIdx.map Prod.fst := List.zipIdx_map_fst 0 providers |>.symm
  rw [hentries, advertised, List.map_flatMap]
  conv_rhs => rw [hfst, List.flatMap_map]
  simp [Function.comp_def]

/-- An entry is from the provider at its position. -/
theorem mem_advertised {providers : List ToolProvider} {k : Nat} {entry : Json}
    (h : (k, entry) ∈ advertised providers) :
    ∃ p td, providers[k]? = some p ∧ td ∈ p.getTools ∧ entry = toolEntry td := by
  simp only [advertised, List.mem_flatMap, List.mem_map, Prod.mk.injEq] at h
  obtain ⟨⟨p, j⟩, hmem, td, htd, rfl, rfl⟩ := h
  exact ⟨p, td, List.mem_zipIdx_iff_getElem?.mp hmem, htd, rfl⟩

/-! ### When the walks agree -/

/-- What should hold of a registry: the names in the list for the model are distinct, and a call by
the name of an entry goes to the provider the entry is from. -/
structure WalksAgree (providers : List ToolProvider) : Prop where
  distinct : ((buildToolsJson (providers.map ToolProvider.getTools)).filterMap entryName).Nodup
  executed : ∀ k entry name, (k, entry) ∈ advertised providers → entryName entry = some name →
    ∀ executeAt args, ToolRegistry.execute executeAt providers name args = executeAt k name args

/-- The names in the list for the model. -/
theorem filterMap_entryName (providers : List ToolProvider) :
    (buildToolsJson (providers.map ToolProvider.getTools)).filterMap entryName =
      providers.flatMap ToolProvider.toolNames := by
  rw [buildToolsJson, List.filterMap_map, List.filterMap_flatten, List.map_map, ← List.flatMap_def]
  congr 1
  funext p
  show (p.getTools.filterMap fun td => entryName (toolEntry td)) = p.getTools.map _
  simp

/-- The first provider that has the name is found. -/
theorem executingIndex_eq_some {providers : List ToolProvider} {k : Nat} {p : ToolProvider}
    {name : Bytes} (hk : providers[k]? = some p) (hname : name ∈ p.toolNames)
    (hfirst : ∀ j q, j < k → providers[j]? = some q → name ∉ q.toolNames) :
    executingIndex providers name = some k := by
  obtain ⟨hlt, hget⟩ := List.getElem?_eq_some_iff.mp hk
  have hhas : ∀ q : ToolProvider,
      (q.getTools.any fun td => td.name = name) = true ↔ name ∈ q.toolNames := by
    intro q
    simp [ToolProvider.toolNames, List.mem_map]
  rw [executingIndex, List.findIdx?_eq_some_iff_getElem]
  -- the walk stops at this provider, and not before
  refine ⟨hlt, ?_, ?_⟩
  · rw [hget]
    exact (hhas p).mpr hname
  · intro j hj hcontra
    have hjlt : j < providers.length := hj.trans hlt
    exact hfirst j _ hj (List.getElem?_eq_getElem hjlt) ((hhas _).mp hcontra)

/-- **Every tool is executed by the provider that advertised it**, and under a name of its own,
exactly if no provider offers a name twice and no two providers offer the same name. -/
theorem walksAgree_iff (providers : List ToolProvider) :
    WalksAgree providers ↔ (∀ p ∈ providers, p.toolNames.Nodup) ∧
      providers.Pairwise fun p q => List.Disjoint p.toolNames q.toolNames := by
  have hnodup : ((buildToolsJson (providers.map ToolProvider.getTools)).filterMap entryName).Nodup ↔
      (∀ p ∈ providers, p.toolNames.Nodup) ∧
        providers.Pairwise fun p q => List.Disjoint p.toolNames q.toolNames := by
    rw [filterMap_entryName, List.nodup_flatMap]
  rw [← hnodup]
  -- distinct names are enough: the second part follows from them
  refine ⟨WalksAgree.distinct, fun hdistinct => ⟨hdistinct, ?_⟩⟩
  intro k entry name hmem hentry executeAt args
  obtain ⟨p, td, hk, htd, rfl⟩ := mem_advertised hmem
  rw [entryName_toolEntry, Option.some.injEq] at hentry
  subst hentry
  have hname : td.name ∈ p.toolNames := List.mem_map_of_mem htd
  -- an earlier provider with the name would share it with this one
  have hindex : executingIndex providers td.name = some k := by
    refine executingIndex_eq_some hk hname ?_
    intro j q hj hq hshared
    obtain ⟨hklt, hkget⟩ := List.getElem?_eq_some_iff.mp hk
    obtain ⟨hjlt, hjget⟩ := List.getElem?_eq_some_iff.mp hq
    have hdisjoint := List.pairwise_iff_getElem.mp (hnodup.mp hdistinct).2 j k hjlt hklt hj
    rw [hkget, hjget] at hdisjoint
    exact hdisjoint hshared hname
  rw [ToolRegistry.execute, hindex]

/-- **The second of two servers is never asked.** Both offer the tool `search`. -/
theorem second_search_not_executed :
    ¬ ∀ providers : List ToolProvider, WalksAgree providers := by
  intro h
  let search : ToolDefinition := ⟨utf8 "search", [], .obj []⟩
  have hagree := (h [.mcp [search], .mcp [search]]).executed 1 (toolEntry search) (utf8 "search")
    (by simp [advertised, List.zipIdx, ToolProvider.getTools]) rfl
    (fun k _ _ => List.replicate k 49) (.document ⟨.obj [], rfl⟩)
  -- the first server has answered
  have hfirst : ToolRegistry.execute (fun k _ _ => List.replicate k 49)
      [.mcp [search], .mcp [search]] (utf8 "search") (.document ⟨.obj [], rfl⟩) = [] := by decide
  rw [hfirst] at hagree
  exact List.cons_ne_nil _ _ hagree.symm

end Aestival
