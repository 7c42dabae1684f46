import Aestival.Agent.Plugins
import Aestival.Library.StableSort

/-!
# Registering plugins

`register_plugin` refuses null pointers and names that are taken, and sorts the whole list again
behind every plugin it takes. What the list is after any calls is said with the calls alone:
`firstOfName` has the plugin that was registered first under each name, in the order of the calls,
and the list is that list sorted once.
-/

namespace Aestival

open Bytes StableSort

namespace PluginManager

/-- `register_plugin`, with its result. The empty pointer is `none`. -/
def registerPlugin (m : PluginManager) (value : Option Plugin) : Bool × PluginManager :=
  match value with
  | none => (false, m)
  | some p =>
    let duplicate := m.plugins.find? fun current => current.name = p.name
    if duplicate.isSome then (false, m)
    else (true, { m with plugins := stableSort Plugin.priority (m.plugins ++ [p]) })

/-- One call after the other. -/
def registerAll (m : PluginManager) (calls : List (Option Plugin)) : PluginManager :=
  calls.foldl (fun m value => (m.registerPlugin value).2) m

@[simp] theorem registerAll_nil (m : PluginManager) : m.registerAll [] = m := rfl

theorem registerAll_concat (m : PluginManager) (calls : List (Option Plugin))
    (value : Option Plugin) :
    m.registerAll (calls ++ [value]) = ((m.registerAll calls).registerPlugin value).2 := by
  rw [registerAll, List.foldl_append]
  rfl

end PluginManager

/-! ### The first plugin of each name -/

/-- The plugin that comes first under each name, in the order of the calls. -/
def firstOfName : List (Option Plugin) → List Plugin
  | [] => []
  | none :: calls => firstOfName calls
  | some p :: calls => p :: (firstOfName calls).filter fun q => q.name ≠ p.name

theorem mem_firstOfName_cons {p q : Plugin} {calls : List (Option Plugin)} :
    q ∈ firstOfName (some p :: calls) ↔ q = p ∨ q ∈ firstOfName calls ∧ q.name ≠ p.name := by
  rw [firstOfName, List.mem_cons, List.mem_filter, decide_eq_true_eq]

/-- A plugin is the first of its name: no call before one of its calls has the name. -/
theorem mem_firstOfName {p : Plugin} {calls : List (Option Plugin)} :
    p ∈ firstOfName calls ↔ ∃ before after, calls = before ++ some p :: after ∧
      ∀ q, some q ∈ before → q.name ≠ p.name := by
  induction calls with
  | nil => simp [firstOfName]
  | cons value calls ih =>
    constructor
    · intro hp
      cases value with
      | none =>
        obtain ⟨before, after, rfl, hbefore⟩ := ih.mp hp
        exact ⟨none :: before, after, rfl, fun q hq => hbefore q (by simpa using hq)⟩
      | some first =>
        -- it is the first call, or it is kept from the calls behind
        rcases mem_firstOfName_cons.mp hp with rfl | ⟨hp, hname⟩
        · exact ⟨[], calls, rfl, fun q hq => absurd hq List.not_mem_nil⟩
        · obtain ⟨before, after, rfl, hbefore⟩ := ih.mp hp
          refine ⟨some first :: before, after, rfl, fun q hq => ?_⟩
          rcases List.mem_cons.mp hq with heq | hq
          · obtain rfl := Option.some.inj heq
            exact hname.symm
          · exact hbefore q hq
    · rintro ⟨before, after, heq, hbefore⟩
      -- how many calls come before the one that counts
      cases before with
      | nil =>
        obtain ⟨rfl, rfl⟩ := List.cons.inj heq
        exact List.mem_cons_self
      | cons value' before =>
        obtain ⟨rfl, rfl⟩ := List.cons.inj heq
        have hrest := ih.mpr ⟨before, after, rfl, fun q hq =>
          hbefore q (List.mem_cons_of_mem value hq)⟩
        cases value with
        | none => exact hrest
        | some first =>
          exact mem_firstOfName_cons.mpr (.inr ⟨hrest, (hbefore first List.mem_cons_self).symm⟩)

theorem nodup_firstOfName (calls : List (Option Plugin)) :
    ((firstOfName calls).map Plugin.name).Nodup := by
  induction calls with
  | nil => exact List.nodup_nil
  | cons value calls ih =>
    cases value with
    | none => exact ih
    | some p =>
      rw [firstOfName, List.map_cons, List.nodup_cons]
      constructor
      · -- the name of `p` has been filtered out
        intro hp
        obtain ⟨q, hq, hname⟩ := List.mem_map.mp hp
        exact of_decide_eq_true (List.mem_filter.mp hq).2 hname
      · exact ih.sublist (List.filter_sublist.map _)

theorem exists_name_firstOfName_cons {first : Plugin} {calls : List (Option Plugin)} {n : Bytes} :
    (∃ q ∈ firstOfName (some first :: calls), q.name = n) ↔
      first.name = n ∨ ∃ q ∈ firstOfName calls, q.name = n := by
  constructor
  · rintro ⟨q, hq, hname⟩
    rcases mem_firstOfName_cons.mp hq with rfl | ⟨hq, -⟩
    · exact .inl hname
    · exact .inr ⟨q, hq, hname⟩
  · rintro (hname | ⟨q, hq, hname⟩)
    · exact ⟨first, List.mem_cons_self, hname⟩
    · -- `q` has been filtered out if it has the name of `first`
      by_cases hfirst : first.name = n
      · exact ⟨first, List.mem_cons_self, hfirst⟩
      · have hkept := mem_firstOfName_cons.mpr
          (.inr ⟨hq, fun h => hfirst (h.symm.trans hname)⟩)
        exact ⟨q, hkept, hname⟩

/-- Every name that was registered belongs to a plugin of the list. -/
theorem exists_mem_firstOfName {p : Plugin} {calls : List (Option Plugin)}
    (hp : some p ∈ calls) : ∃ q ∈ firstOfName calls, q.name = p.name := by
  induction calls with
  | nil => exact absurd hp List.not_mem_nil
  | cons value calls ih =>
    cases value with
    | none => exact ih (by simpa using hp)
    | some first =>
      refine exists_name_firstOfName_cons.mpr ?_
      rcases List.mem_cons.mp hp with heq | hp
      · exact .inl (congrArg Plugin.name (Option.some.inj heq)).symm
      · exact .inr (ih hp)

/-- A further call adds its plugin at the end, unless its name is taken. -/
theorem firstOfName_concat (calls : List (Option Plugin)) (p : Plugin) :
    firstOfName (calls ++ [some p]) =
      if ∃ q ∈ firstOfName calls, q.name = p.name then firstOfName calls
      else firstOfName calls ++ [p] := by
  induction calls with
  | nil => simp [firstOfName]
  | cons value calls ih =>
    cases value with
    | none => exact ih
    | some first =>
      rw [List.cons_append, firstOfName, ih]
      simp only [exists_name_firstOfName_cons]
      by_cases hfirst : first.name = p.name
      · have htaken : first.name = p.name ∨ ∃ q ∈ firstOfName calls, q.name = p.name := .inl hfirst
        rw [if_pos htaken]
        -- whether or not `p` was added behind `calls`, its name is that of `first`
        split
        · rfl
        · rw [List.filter_append, List.filter_singleton, decide_eq_false (by simp [hfirst])]
          simp [firstOfName]
      · simp only [hfirst, false_or]
        split
        · rfl
        · rw [List.filter_append, List.filter_singleton, decide_eq_true (Ne.symm hfirst)]
          rfl

theorem firstOfName_concat_none (calls : List (Option Plugin)) :
    firstOfName (calls ++ [none]) = firstOfName calls := by
  induction calls with
  | nil => rfl
  | cons value calls ih =>
    cases value with
    | none => exact ih
    | some p => rw [List.cons_append, firstOfName, ih, firstOfName]

/-! ### The list of plugins -/

namespace PluginManager

/-- The manager after `calls`. -/
def registered (calls : List (Option Plugin)) : PluginManager :=
  registerAll { plugins := [] } calls

/-- **The list is the first plugin of each name, sorted once.** -/
theorem plugins_registered (calls : List (Option Plugin)) :
    (registered calls).plugins = stableSort Plugin.priority (firstOfName calls) := by
  induction calls using List.reverseRecOn with
  | nil => rfl
  | append_singleton calls value ih =>
    rw [registered, registerAll_concat, ← registered]
    cases value with
    -- a null pointer is refused
    | none => rw [registerPlugin, firstOfName_concat_none, ih]
    | some p =>
      -- so is a name that is taken
      have htaken : ((registered calls).plugins.find? fun current => current.name = p.name).isSome
          = true ↔ ∃ q ∈ firstOfName calls, q.name = p.name := by
        rw [ih, List.find?_isSome]
        simp only [mem_stableSort, decide_eq_true_eq]
      rw [registerPlugin, firstOfName_concat]
      simp only [htaken]
      split
      · exact ih
      · -- the plugins before were sorted, and are sorted again with `p`
        calc stableSort Plugin.priority ((registered calls).plugins ++ [p])
            = stableSort Plugin.priority
                (stableSort Plugin.priority (firstOfName calls) ++ [p]) := by rw [ih]
          _ = stableSort Plugin.priority (firstOfName calls ++ [p]) := stableSort_append _ _

/-- A call is refused when it has no plugin, or the name of an earlier one. -/
theorem registerPlugin_registered_eq_false {calls : List (Option Plugin)}
    {value : Option Plugin} :
    ((registered calls).registerPlugin value).1 = false ↔
      ∀ p, value = some p → ∃ q, some q ∈ calls ∧ q.name = p.name := by
  cases value with
  | none => simp [registerPlugin]
  | some p =>
    -- a name in the list was registered, and a name that was registered is in the list
    have htaken : (∃ q ∈ (registered calls).plugins, q.name = p.name) ↔
        ∃ q, some q ∈ calls ∧ q.name = p.name := by
      simp only [plugins_registered, mem_stableSort]
      constructor
      · rintro ⟨q, hq, hname⟩
        obtain ⟨before, after, rfl, -⟩ := mem_firstOfName.mp hq
        exact ⟨q, by simp, hname⟩
      · rintro ⟨q, hq, hname⟩
        obtain ⟨first, hfirst, hq⟩ := exists_mem_firstOfName hq
        exact ⟨first, hfirst, hq.trans hname⟩
    have hresult : ((registered calls).registerPlugin (some p)).1 = false ↔
        ∃ q ∈ (registered calls).plugins, q.name = p.name := by
      rw [registerPlugin]
      split
      · next hfound => simpa using List.find?_isSome.mp hfound
      · next hfound => simpa using hfound
    rw [hresult, htaken]
    simp only [Option.some.injEq, forall_eq']

/-- A call that is refused changes nothing. -/
theorem registerPlugin_of_eq_false {m : PluginManager} {value : Option Plugin}
    (h : (m.registerPlugin value).1 = false) : (m.registerPlugin value).2 = m := by
  cases value with
  | none => rfl
  | some p =>
    rw [registerPlugin] at h ⊢
    split at h
    · next hfound => rw [if_pos hfound]
    · exact Bool.noConfusion h

/-- **Plugins are in the order of their priorities, without duplicates.** After any calls, names are
distinct, priorities never rise, plugins of one priority are in the order of their registration, and
the list has the plugin that was first under each name and no other. A call that is refused, for
want of a plugin or for a name that was used before, changes nothing. -/
theorem plugins_in_stable_order (calls : List (Option Plugin)) :
    ((registered calls).plugins.map Plugin.name).Nodup ∧
    (registered calls).plugins.Pairwise (fun p q => q.priority ≤ p.priority) ∧
    (∀ k, (registered calls).plugins.filter (fun p => p.priority = k) =
      (firstOfName calls).filter (fun p => p.priority = k)) ∧
    (∀ p, p ∈ (registered calls).plugins ↔ ∃ before after, calls = before ++ some p :: after ∧
      ∀ q, some q ∈ before → q.name ≠ p.name) ∧
    (∀ value, ((registered calls).registerPlugin value).1 = false ↔
      ∀ p, value = some p → ∃ q, some q ∈ calls ∧ q.name = p.name) ∧
    ∀ value, ((registered calls).registerPlugin value).1 = false →
      ((registered calls).registerPlugin value).2 = registered calls := by
  -- the registered plugins are the first of each name, in stable order
  refine ⟨?_, ?_, ?_, ?_, ?_, ?_⟩
  · rw [plugins_registered]
    exact ((perm_stableSort _).map Plugin.name).nodup_iff.mpr (nodup_firstOfName calls)
  · rw [plugins_registered]
    exact sortedBy_stableSort _
  · rw [plugins_registered]
    exact fun k => ofKey_stableSort k _
  · intro p
    rw [plugins_registered, mem_stableSort, mem_firstOfName]
  · exact fun value => registerPlugin_registered_eq_false
  · exact fun value => registerPlugin_of_eq_false

/-- `main` registers the plugins in the order of their descriptions, and keeps them by priority. -/
example : (registered [some simpleTestPlugin, none, some agentReachPlugin,
    some agentReachPlugin]).plugins = mainPlugins := rfl

end PluginManager

end Aestival
