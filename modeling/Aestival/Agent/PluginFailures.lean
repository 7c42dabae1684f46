import Aestival.Agent.PluginEnablement

/-!
# Plugins that throw

`dispatch_message` catches what `handle` throws and goes on with the next plugin. What `can_handle`
throws it does not catch: the call stands in front of the `try` block. So the loop is modelled here
once more, with plugins whose `can_handle` may throw (`dispatchCalls`); where none does it is the
loop `dispatchFrom` (`dispatchCalls_of_answers`).

A plugin takes the message if it can handle it and is enabled (`PluginManager.Takes`), and the loop
ends behind the first that takes it and stops (`upTo`).
-/

namespace Aestival

open Bytes

/-! ### The loop -/

/-- A plugin and what it does with the message: what `can_handle` answers, unless it throws, and how
`handle` ends. -/
structure PluginCall where
  plugin : Plugin
  canHandle : Option Bool
  handleEnd : HandleEnd

/-- What became of a message: as `Dispatched`, but there is no result if an exception got out. -/
structure DispatchEnd where
  manager : PluginManager
  called : List PluginCall := []
  stops : Nat := 0
  result : Option Bool := some false

/-- The call `c` comes before the rest of the loop. -/
def DispatchEnd.after (rest : DispatchEnd) (c : PluginCall) (handled stopRequested : Bool) :
    DispatchEnd :=
  { rest with
    called := c :: rest.called
    stops := rest.stops + if stopRequested && c.plugin.mayStop then 1 else 0
    result := rest.result.map (handled || ·) }

/-- The loop of `dispatch_message` from some plugin on. -/
def dispatchCalls (message : MessageEvent) (agentId : Bytes) :
    List PluginCall → PluginManager → DispatchEnd
  | [], m => { manager := m }
  | c :: rest, m =>
    match c.canHandle with
    -- the exception is not caught, and the message is not offered any further
    | none => { manager := m, result := none }
    | some false => dispatchCalls message agentId rest m
    | some true =>
      let (agentOk, m) :=
        if agentId ≠ [] then m.isPluginEnabled c.plugin.name agentId else (true, m)
      let userId := PluginManager.deriveUserId message
      if !agentOk then dispatchCalls message agentId rest m
      else if userId ≠ [] && !m.isPluginEnabledForUser c.plugin.name userId then
        dispatchCalls message agentId rest m
      else match c.handleEnd with
        | .thrown => (dispatchCalls message agentId rest m).after c false false
        | .returned handled true stopRequested =>
          DispatchEnd.after { manager := m } c handled stopRequested
        | .returned handled false stopRequested =>
          (dispatchCalls message agentId rest m).after c handled stopRequested

/-- The plugin `p`, whose `can_handle` answers. -/
def Plugin.answering (p : Plugin) (message : MessageEvent) (ends : Plugin → HandleEnd) :
    PluginCall :=
  ⟨p, some (p.canHandle message), ends p⟩

/-- The result of the loop where every `can_handle` answers. -/
def Dispatched.toEnd (d : Dispatched) (message : MessageEvent) (ends : Plugin → HandleEnd) :
    DispatchEnd where
  manager := d.manager
  called := d.called.map fun p => p.answering message ends
  stops := d.stops
  result := some d.handledAny

/-- **Where every `can_handle` answers, the loop is that of `dispatchFrom`.** -/
theorem dispatchCalls_of_answers (message : MessageEvent) (agentId : Bytes)
    (ends : Plugin → HandleEnd) (l : List Plugin) (m : PluginManager) :
    dispatchCalls message agentId (l.map fun p => p.answering message ends) m =
      (dispatchFrom message agentId ends l m).toEnd message ends := by
  induction l generalizing m with
  | nil => rfl
  | cons p rest ih =>
    unfold dispatchFrom
    rw [List.map_cons, dispatchCalls]
    cases hcan : p.canHandle message with
    | false =>
      have hcall : (p.answering message ends).canHandle = some false := congrArg some hcan
      rw [hcall]
      exact ih m
    | true =>
      have hcall : (p.answering message ends).canHandle = some true := congrArg some hcan
      have hplugin : (p.answering message ends).plugin = p := rfl
      have hend : (p.answering message ends).handleEnd = ends p := rfl
      rw [hcall, hplugin, hend]
      simp only [Bool.not_true, Bool.false_eq_true, if_false]
      generalize (if agentId ≠ [] then m.isPluginEnabled p.name agentId else (true, m)) = looked
      obtain ⟨agentOk, m'⟩ := looked
      dsimp only
      split
      · exact ih m'
      split
      · exact ih m'
      -- both loops look at how `handle` ends
      cases ends p with
      | thrown =>
        rw [ih]
        rfl
      | returned handled stopProcessing stopRequested =>
        cases stopProcessing with
        | true => rfl
        | false =>
          rw [ih]
          rfl

/-! ### Who takes the message -/

/-- `handled` of what `handle` returned. -/
def HandleEnd.handled : HandleEnd → Bool
  | thrown => false
  | returned handled _ _ => handled

/-- `stop_processing` of what `handle` returned. -/
def HandleEnd.stopProcessing : HandleEnd → Bool
  | thrown => false
  | returned _ stopProcessing _ => stopProcessing

namespace PluginManager

/-- The plugin `name` is enabled for the agent and for the user of the message. The empty id is not
filtered. -/
def offers (m : PluginManager) (message : MessageEvent) (agentId name : Bytes) : Bool :=
  (agentId = [] || m.enabled name agentId) &&
    (deriveUserId message = [] || m.isPluginEnabledForUser name (deriveUserId message))

/-- The plugin is enabled, and `can_handle` returned true. -/
def takes (m : PluginManager) (message : MessageEvent) (agentId : Bytes) (c : PluginCall) : Bool :=
  c.canHandle = some true && m.offers message agentId c.plugin.name

/-- A look-up does not write to the database. -/
theorem isPluginEnabledForUser_isPluginEnabled (m : PluginManager) (pluginName agentId : Bytes) :
    (m.isPluginEnabled pluginName agentId).2.isPluginEnabledForUser = m.isPluginEnabledForUser := by
  rw [isPluginEnabled]
  split <;> rfl

/-- A look-up changes no answer for its agent, and none for a user. -/
theorem offers_isPluginEnabled (m : PluginManager) (message : MessageEvent)
    (agentId pluginName name : Bytes) :
    (m.isPluginEnabled pluginName agentId).2.offers message agentId name =
      m.offers message agentId name := by
  rw [isPluginEnabled]
  split
  · rfl
  · next hoff =>
    have henabled : enabled { m with
        disabledCache := insert (cacheKey agentId pluginName) m.disabledCache } name agentId =
        m.enabled name agentId := by
      by_cases hname : name = pluginName
      · -- what was looked up has been found disabled
        rw [hname, Bool.eq_false_of_not_eq_true hoff, enabled, if_pos (Finset.mem_insert_self _ _)]
      · have hkey : cacheKey agentId name ≠ cacheKey agentId pluginName :=
          fun heq => hname (List.append_cancel_left heq)
        simp only [enabled, Finset.mem_insert, hkey, false_or]
    rw [offers, offers, henabled]
    rfl

end PluginManager

/-- A plugin that can handle the message is called if it is enabled, and passed over if it is not;
what the manager remembers of it changes nothing for the others. -/
theorem dispatchCalls_cons_true {message : MessageEvent} {agentId : Bytes} {c : PluginCall}
    (hc : c.canHandle = some true) (rest : List PluginCall) (m : PluginManager) :
    ∃ m', m'.offers message agentId = m.offers message agentId ∧
      dispatchCalls message agentId (c :: rest) m =
        if m.offers message agentId c.plugin.name then
          match c.handleEnd with
          | .thrown => (dispatchCalls message agentId rest m').after c false false
          | .returned handled true stopRequested =>
            DispatchEnd.after { manager := m' } c handled stopRequested
          | .returned handled false stopRequested =>
            (dispatchCalls message agentId rest m').after c handled stopRequested
        else dispatchCalls message agentId rest m' := by
  have hlooked : ∃ agentOk m',
      (if agentId ≠ [] then m.isPluginEnabled c.plugin.name agentId else (true, m)) =
        (agentOk, m') ∧
      m'.offers message agentId = m.offers message agentId ∧
      m.offers message agentId c.plugin.name =
        (agentOk && (PluginManager.deriveUserId message = [] ||
          m'.isPluginEnabledForUser c.plugin.name (PluginManager.deriveUserId message))) := by
    by_cases hagent : agentId = []
    · refine ⟨true, m, if_neg (not_not.mpr hagent), rfl, ?_⟩
      rw [PluginManager.offers, decide_eq_true hagent, Bool.true_or]
    · refine ⟨m.enabled c.plugin.name agentId, (m.isPluginEnabled c.plugin.name agentId).2, ?_,
        funext (m.offers_isPluginEnabled message agentId c.plugin.name), ?_⟩
      · rw [if_pos hagent, ← PluginManager.isPluginEnabled_fst]
      · rw [PluginManager.isPluginEnabledForUser_isPluginEnabled, PluginManager.offers,
          decide_eq_false hagent, Bool.false_or]
  obtain ⟨agentOk, m', hlook, hoffers, hoffer⟩ := hlooked
  refine ⟨m', hoffers, ?_⟩
  rw [dispatchCalls, hc]
  dsimp only
  rw [hlook, hoffer]
  dsimp only
  -- the two filters one by one
  cases agentOk with
  | false => rfl
  | true =>
    by_cases huser : PluginManager.deriveUserId message = []
    · simp [huser]
    · cases m'.isPluginEnabledForUser c.plugin.name (PluginManager.deriveUserId message) with
      | false => simp [huser]
      | true => simp

/-! ### Exceptions -/

/-- The list up to and including the first element with a property. -/
def upTo {α : Type} (p : α → Bool) : List α → List α
  | [] => []
  | a :: l => if p a then [a] else a :: upTo p l

variable {message : MessageEvent} {agentId : Bytes}

/-- The plugins that are asked, unless an exception gets out: those up to the first that takes the
message and stops. -/
def asked (m : PluginManager) (message : MessageEvent) (agentId : Bytes) (calls : List PluginCall) :
    List PluginCall :=
  upTo (fun c => m.takes message agentId c && c.handleEnd.stopProcessing) calls

/-- The plugins whose `handle` is called, unless an exception gets out. -/
def takers (m : PluginManager) (message : MessageEvent) (agentId : Bytes)
    (calls : List PluginCall) : List PluginCall :=
  upTo (fun c => c.handleEnd.stopProcessing) (calls.filter (m.takes message agentId))

theorem takes_congr {m m' : PluginManager}
    (h : m'.offers message agentId = m.offers message agentId) :
    m'.takes message agentId = m.takes message agentId := by
  funext c
  rw [PluginManager.takes, PluginManager.takes, h]

/-- A plugin that does not take the message is asked, and not called. -/
theorem asked_cons_of_not_takes {m : PluginManager} {c : PluginCall} (rest : List PluginCall)
    (hc : m.takes message agentId c = false) :
    asked m message agentId (c :: rest) = c :: asked m message agentId rest ∧
      takers m message agentId (c :: rest) = takers m message agentId rest := by
  constructor
  · rw [asked, upTo, hc, Bool.false_and, if_neg Bool.false_ne_true]
    rfl
  · rw [takers, List.filter_cons_of_neg (by simp [hc])]
    rfl

/-- A plugin that takes the message is called, and the last one if it stops. -/
theorem asked_cons_of_takes {m : PluginManager} {c : PluginCall} (rest : List PluginCall)
    (hc : m.takes message agentId c = true) :
    asked m message agentId (c :: rest) =
        (if c.handleEnd.stopProcessing then [c] else c :: asked m message agentId rest) ∧
      takers m message agentId (c :: rest) =
        if c.handleEnd.stopProcessing then [c] else c :: takers m message agentId rest := by
  constructor
  · rw [asked, upTo, hc, Bool.true_and]
    rfl
  · rw [takers, List.filter_cons_of_pos hc, upTo]
    rfl

/-- What `dispatch_message` should do: it returns, it called the plugins that take the message up to
the first that stops, and it says whether one of them handled it. -/
def Isolated (m : PluginManager) (message : MessageEvent) (agentId : Bytes)
    (calls : List PluginCall) (e : DispatchEnd) : Prop :=
  e.called = takers m message agentId calls ∧
    e.result = some ((takers m message agentId calls).any fun c => c.handleEnd.handled)

/-- Every plugin that is asked answers. -/
def EveryAskedAnswers (m : PluginManager) (message : MessageEvent) (agentId : Bytes)
    (calls : List PluginCall) : Prop :=
  ∀ c ∈ asked m message agentId calls, c.canHandle ≠ none

/-- What `dispatch_message` does: what it should, if every plugin that is asked answers, and else an
exception gets out. -/
def EndsAs (m : PluginManager) (message : MessageEvent) (agentId : Bytes) (calls : List PluginCall)
    (e : DispatchEnd) : Prop :=
  EveryAskedAnswers m message agentId calls ∧ Isolated m message agentId calls e ∨
    ¬ EveryAskedAnswers m message agentId calls ∧ e.result = none

section Steps

variable {m m' : PluginManager} {c : PluginCall} {rest : List PluginCall} {e : DispatchEnd}

theorem endsAs_congr (h : m'.offers message agentId = m.offers message agentId)
    (calls : List PluginCall) (e : DispatchEnd) :
    EndsAs m' message agentId calls e ↔ EndsAs m message agentId calls e := by
  have hasked : asked m' message agentId calls = asked m message agentId calls := by
    rw [asked, takes_congr h, asked]
  have htakers : takers m' message agentId calls = takers m message agentId calls := by
    rw [takers, takes_congr h, takers]
  simp only [EndsAs, EveryAskedAnswers, Isolated, hasked, htakers]

/-- A plugin that throws gets its exception out. -/
theorem endsAs_throws (hcan : c.canHandle = none) (he : e.result = none) :
    EndsAs m message agentId (c :: rest) e := by
  have hc : m.takes message agentId c = false := by
    rw [PluginManager.takes, hcan]
    rfl
  refine .inr ⟨fun h => h c ?_ hcan, he⟩
  rw [(asked_cons_of_not_takes rest hc).1]
  exact List.mem_cons_self

/-- A plugin that answers and does not take the message leaves it to those behind. -/
theorem EndsAs.pass (h : EndsAs m message agentId rest e) (hcan : c.canHandle ≠ none)
    (hc : m.takes message agentId c = false) : EndsAs m message agentId (c :: rest) e := by
  obtain ⟨hasked, htakers⟩ := asked_cons_of_not_takes rest hc
  have hevery : EveryAskedAnswers m message agentId (c :: rest) ↔
      EveryAskedAnswers m message agentId rest := by
    rw [EveryAskedAnswers, hasked, List.forall_mem_cons]
    exact and_iff_right hcan
  rw [EndsAs, Isolated, htakers, hevery]
  exact h

/-- A plugin that takes the message and does not stop is called before those behind. -/
theorem EndsAs.call (h : EndsAs m message agentId rest e) (hc : m.takes message agentId c = true)
    (hstop : c.handleEnd.stopProcessing = false) (stopRequested : Bool) :
    EndsAs m message agentId (c :: rest) (e.after c c.handleEnd.handled stopRequested) := by
  obtain ⟨hasked, htakers⟩ := asked_cons_of_takes rest hc
  rw [hstop, if_neg Bool.false_ne_true] at hasked htakers
  -- the plugin takes the message, so it has answered
  have hcan : c.canHandle = some true := of_decide_eq_true (Bool.and_eq_true_iff.mp hc).1
  have hevery : EveryAskedAnswers m message agentId (c :: rest) ↔
      EveryAskedAnswers m message agentId rest := by
    rw [EveryAskedAnswers, hasked, List.forall_mem_cons]
    exact and_iff_right (hcan ▸ Option.some_ne_none true)
  rw [EndsAs, Isolated, htakers, hevery, DispatchEnd.after]
  -- what the rest does decides
  rcases h with ⟨hanswers, hcalled, hresult⟩ | ⟨hnot, hresult⟩
  · refine .inl ⟨hanswers, by rw [hcalled], ?_⟩
    rw [hresult, List.any_cons]
    rfl
  · exact .inr ⟨hnot, by rw [hresult]; rfl⟩

/-- A plugin that takes the message and stops is the last one. -/
theorem endsAs_last (hc : m.takes message agentId c = true)
    (hstop : c.handleEnd.stopProcessing = true) (stopRequested : Bool) :
    EndsAs m message agentId (c :: rest)
      (DispatchEnd.after { manager := m' } c c.handleEnd.handled stopRequested) := by
  obtain ⟨hasked, htakers⟩ := asked_cons_of_takes rest hc
  rw [hstop, if_pos rfl] at hasked htakers
  have hcan : c.canHandle = some true := of_decide_eq_true (Bool.and_eq_true_iff.mp hc).1
  refine .inl ⟨?_, ?_, ?_⟩
  -- no other plugin is asked
  · rw [EveryAskedAnswers, hasked]
    intro d hd
    rw [List.mem_singleton.mp hd, hcan]
    exact Option.some_ne_none true
  · rw [htakers]
    rfl
  · rw [htakers]
    simp [DispatchEnd.after]

end Steps

/-- **A message is dispatched as it should be, or an exception gets out.** -/
theorem endsAs_dispatchCalls (calls : List PluginCall) (m : PluginManager) :
    EndsAs m message agentId calls (dispatchCalls message agentId calls m) := by
  induction calls generalizing m with
  | nil => exact .inl ⟨fun c hc => absurd hc List.not_mem_nil, rfl, rfl⟩
  | cons c rest ih =>
    cases hcan : c.canHandle with
    | none =>
      rw [dispatchCalls, hcan]
      exact endsAs_throws hcan rfl
    | some answer =>
      have hanswers : c.canHandle ≠ none := hcan ▸ Option.some_ne_none answer
      cases answer with
      | false =>
        rw [dispatchCalls, hcan]
        exact (ih m).pass hanswers (by rw [PluginManager.takes, hcan]; rfl)
      | true =>
        obtain ⟨m', hoffers, hstep⟩ := dispatchCalls_cons_true hcan rest m
        have hrest := (endsAs_congr hoffers rest _).mp (ih m')
        have htakes : m.takes message agentId c = m.offers message agentId c.plugin.name := by
          rw [PluginManager.takes, hcan]
          rfl
        rw [hstep]
        split
        · next hoffer =>
          have hc := htakes.trans hoffer
          -- the plugin is called, and what comes next depends on how `handle` ends
          cases hend : c.handleEnd with
          | thrown =>
            have hcall := hrest.call hc (by rw [hend]; rfl) false
            rwa [hend] at hcall
          | returned handled stopProcessing stopRequested =>
            cases stopProcessing with
            | true =>
              have hlast : EndsAs m message agentId (c :: rest) (DispatchEnd.after
                  { manager := m' } c c.handleEnd.handled stopRequested) :=
                endsAs_last hc (by rw [hend]; rfl) stopRequested
              rwa [hend] at hlast
            | false =>
              have hcall := hrest.call hc (by rw [hend]; rfl) stopRequested
              rwa [hend] at hcall
        · next hoffer =>
          exact hrest.pass hanswers (htakes.trans (Bool.eq_false_of_not_eq_true hoffer))

/-- **Failures are isolated where `can_handle` answers**: `dispatch_message` returns, calls exactly
the plugins that take the message, up to the first that stops, and says whether one of them handled
it, if and only if no `can_handle` throws of the plugins that are asked. -/
theorem isolated_dispatchCalls_iff (m : PluginManager) (message : MessageEvent) (agentId : Bytes)
    (calls : List PluginCall) :
    Isolated m message agentId calls (dispatchCalls message agentId calls m) ↔
      EveryAskedAnswers m message agentId calls := by
  rcases endsAs_dispatchCalls calls m with ⟨hanswers, hisolated⟩ | ⟨hnot, hthrown⟩
  · exact iff_of_true hisolated hanswers
  · refine iff_of_false (fun hisolated => ?_) hnot
    rw [hisolated.2] at hthrown
    exact Option.some_ne_none _ hthrown

/-- A plugin that throws in front of one that would handle the message. -/
def throwsFirst : List PluginCall :=
  [⟨agentReachPlugin, none, .thrown⟩, ⟨simpleTestPlugin, some true, .returned true false false⟩]

/-- **An exception of `can_handle` is not contained**: it leaves `dispatch_message`, and the plugin
behind, which takes the message, is not called. -/
theorem not_isolated_throwsFirst :
    ¬ ∀ (m : PluginManager) (message : MessageEvent) (agentId : Bytes) (calls : List PluginCall),
      Isolated m message agentId calls (dispatchCalls message agentId calls m) := by
  intro hall
  have hisolated := hall { plugins := mainPlugins } {} [] throwsFirst
  exact absurd hisolated.2 (Option.some_ne_none _).symm

end Aestival
