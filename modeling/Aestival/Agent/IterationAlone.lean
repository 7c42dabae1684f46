import Aestival.Agent.IterationRuns

/-!
# A cycle of self-iteration alone

A cycle that no other one runs next to carries out the plan that Claude Code has answered, and
leaves the files as `applyImprovements` does for its edits (`cycle_alone`). The loop of the cycle
throws where reading a file does; then the edits in front of that one have been made, and none is
reported.

The answer that the plan is read from is the second one of the commands of the run, so the machine
keeps a record next to its state (`Machine.logging`).
-/

namespace Aestival

open Bytes Json Prog


/-- What has happened, as the logging machine records it. -/
abbrev IterRecord := List (Σ e : IterEff, e.Ans)

/-- What the commands of a cycle have answered, in order. The first one is the rating, and the
second one the plan. -/
def commandAnswers (record : IterRecord) : List Bytes :=
  record.filterMap fun ev =>
    match ev with
    | ⟨.exec _ _, raw⟩ => some raw
    | _ => none

/-- What a cycle that ran alone has done. -/
inductive CycleDone (lib : IterationLibrary) (files : WorkspaceFiles) (record : IterRecord)
    (w' : IterationWorld) (result : IterationResult) : Prop
  /-- It has left the files as they were. -/
  | nothing (left : w'.files = files) (counted : result.improvementsApplied = 0)
  /-- It has carried out the edits of the plan that Claude Code has answered. -/
  | planned {rating raw : Bytes} {more : List Bytes} {p : ImprovementPlan}
      {plan : List (FileEdit × EditIo)}
      (answers : commandAnswers record = rating :: raw :: more) (read : readPlan lib raw = .ok p)
      (edits : plan.map Prod.fst = p.edits)
      (left : w'.files = (applyImprovements files plan).1)
      (counted : result.improvementsApplied = (applyImprovements files plan).2.length)
  /-- It has carried out the edits before one whose file could not be read, and reports none. -/
  | interrupted {rating raw what : Bytes} {p : ImprovementPlan} {plan : List (FileEdit × EditIo)}
      {edit : FileEdit} {rest : List FileEdit}
      (answers : commandAnswers record = [rating, raw]) (read : readPlan lib raw = .ok p)
      (edits : p.edits = plan.map Prod.fst ++ edit :: rest)
      (threw : (⟨.readFile edit.path, .error what⟩ : Σ e : IterEff, e.Ans) ∈ record)
      (left : w'.files = (applyImprovements files plan).1)
      (counted : result.improvementsApplied = 0)
      (told : result.executed = false ∧ result.error = what)

section Alone

variable {lib : IterationLibrary} {engine : IterationEngine} {w w' : IterationWorld}
  {s : IterationWorld × IterRecord} {result : IterationResult}

/-- Demand nothing of the effects. -/
abbrev anyTime : IterationWorld × IterRecord → IterEff → Prop := fun _ _ => True

/-- The machine of one cycle, with a record. -/
abbrev aloneMachine : Machine IterSig (IterationWorld × IterRecord) :=
  IterationWorld.machine.logging

theorem commandAnswers_append (record record' : IterRecord) :
    commandAnswers (record ++ record') = commandAnswers record ++ commandAnswers record' :=
  List.filterMap_append

/-- An event that is no answer of a command. -/
theorem commandAnswers_concat {ev : Σ e : IterEff, e.Ans} (h : commandAnswers [ev] = [])
    (record : IterRecord) : commandAnswers (record ++ [ev]) = commandAnswers record := by
  rw [commandAnswers_append, h, List.append_nil]

/-- Nothing has changed, and no command has been run. -/
structure SameSoFar (s s' : IterationWorld × IterRecord) : Prop where
  world : s'.1 = s.1
  answers : commandAnswers s'.2 = commandAnswers s.2

theorem SameSoFar.next {u : IterationWorld × IterRecord} (hu : SameSoFar s u) {e : IterEff}
    (he : e.Looks) (x : e.Ans) : SameSoFar s (aloneMachine.next u e x) := by
  have hanswers : commandAnswers (u.2 ++ [⟨e, x⟩]) = commandAnswers u.2 := by
    refine commandAnswers_concat ?_ u.2
    cases e with
    | exec => exact he.elim
    | _ => rfl
  refine ⟨?_, hanswers.trans hu.answers⟩
  cases e with
  | writeFile => exact he.elim
  | stamp => exact he.elim
  | _ => exact hu.world

/-- A part that only looks changes nothing. -/
theorem wp_looks_alone {α : Type} {p : Iter α} (h : p.Only IterEff.Looks)
    (s : IterationWorld × IterRecord) :
    wp aloneMachine anyTime p (fun _ s' => SameSoFar s s') s :=
  h.wp (fun _ he _ hu => ⟨trivial, fun x _ => hu.next he x⟩) ⟨rfl, rfl⟩

/-- The effects that leave the files as they are. -/
def IterEff.Keeps : IterEff → Prop
  | .writeFile .. => False
  | _ => True

/-- A part that writes no file leaves the files as they are, and may run commands. -/
theorem wp_keeps {α : Type} {p : Iter α} (h : p.Only IterEff.Keeps)
    (s : IterationWorld × IterRecord) :
    wp aloneMachine anyTime p (fun _ s' => s'.1.files = s.1.files ∧
      ∃ more, commandAnswers s'.2 = commandAnswers s.2 ++ more) s := by
  refine h.wp (I := fun u : IterationWorld × IterRecord => u.1.files = s.1.files ∧
    ∃ more, commandAnswers u.2 = commandAnswers s.2 ++ more)
    (fun e he u hu => ⟨trivial, fun x _ => ?_⟩) ⟨rfl, [], (List.append_nil _).symm⟩
  obtain ⟨hfiles, more, hmore⟩ := hu
  refine ⟨?_, more ++ commandAnswers [⟨e, x⟩], ?_⟩
  · cases e with
    | writeFile => exact he.elim
    | _ => exact hfiles
  · show commandAnswers (u.2 ++ [⟨e, x⟩]) = _
    rw [commandAnswers_append, hmore, List.append_assoc]

theorem keeps_commitChanges (summary : Bytes) :
    (commitChanges engine summary).Only IterEff.Keeps :=
  looks_doing_bind.mpr ⟨trivial, fun _ => looks_doing_bind.mpr ⟨trivial, fun _ =>
    looks_doing_bind.mpr ⟨trivial, fun _ => looks_doing_bind.mpr ⟨trivial, fun _ =>
      only_pure _⟩⟩⟩⟩

/-- A part that asks Claude Code once and returns something of its answer. -/
def OneAnswer {α : Type} (reads : Bytes → α → Prop) (s : IterationWorld × IterRecord)
    (r : Except Bytes α) (s' : IterationWorld × IterRecord) : Prop :=
  s'.1 = s.1 ∧ ∀ a, r = .ok a →
    ∃ raw, reads raw a ∧ commandAnswers s'.2 = commandAnswers s.2 ++ [raw]

theorem wp_askClaude_alone (purpose prompt : Bytes) (s : IterationWorld × IterRecord) :
    wp aloneMachine anyTime (askClaude purpose prompt) (OneAnswer Eq s) s := by
  unfold askClaude
  rw [doing_bind_iff]
  refine ⟨trivial, fun written _ => ?_⟩
  rw [wp_bind, wp_ofExcept]
  cases written with
  | error what => exact ⟨rfl, fun _ h => nomatch h⟩
  | ok path =>
    refine ⟨trivial, fun raw _ => ⟨trivial, fun _ _ => ⟨rfl, fun raw' hraw => ?_⟩⟩⟩
    obtain rfl := Except.ok.inj hraw
    refine ⟨raw, rfl, ?_⟩
    -- of the three effects, only the command has an answer that counts
    show commandAnswers (s.2 ++ [_] ++ [_] ++ [_]) = _
    rw [commandAnswers_append, commandAnswers_append, commandAnswers_append]
    show commandAnswers s.2 ++ [] ++ [raw] ++ [] = _
    rw [List.append_nil, List.append_nil]

/-- What is asked behind a part that looks. -/
theorem OneAnswer.of_same {α : Type} {reads : Bytes → α → Prop}
    {s s₁ s' : IterationWorld × IterRecord}
    {r : Except Bytes α} (hsame : SameSoFar s s₁) (h : OneAnswer reads s₁ r s') :
    OneAnswer reads s r s' := by
  refine ⟨h.1.trans hsame.world, fun a ha => ?_⟩
  obtain ⟨raw, hread, hanswers⟩ := h.2 a ha
  exact ⟨raw, hread, hsame.answers ▸ hanswers⟩

/-- Ask, and read the answer. -/
theorem wp_ask_then_read {α : Type} {purpose prompt : Bytes} {read : Bytes → Except Bytes α}
    (s : IterationWorld × IterRecord) :
    wp aloneMachine anyTime (askClaude purpose prompt >>= fun raw => .ofExcept (read raw))
      (OneAnswer (fun raw a => read raw = .ok a) s) s := by
  refine wp_bind_of (wp_askClaude_alone purpose prompt s) (fun raw s' h => ?_)
    fun what s' h => ⟨h.1, fun a ha => nomatch ha⟩
  rw [wp_ofExcept]
  obtain ⟨raw', rfl, hanswers⟩ := h.2 raw rfl
  exact ⟨h.1, fun a ha => ⟨raw', ha, hanswers⟩⟩

theorem wp_evaluate_alone (samples : List ConversationSample) (s : IterationWorld × IterRecord) :
    wp aloneMachine anyTime (evaluate lib samples)
      (OneAnswer (fun raw report => readReport lib raw = .ok report) s) s := by
  unfold evaluate
  -- nothing is answered, and nothing written, when it throws
  have hthrown : ∀ {what : Bytes} {s'}, SameSoFar s s' →
      OneAnswer (fun raw report => readReport lib raw = .ok report) s (.error what) s' :=
    fun h => ⟨h.world, fun _ ha => nomatch ha⟩
  refine wp_bind_of (wp_looks_alone (looks_readGuidelines _) s) (fun guidelines s₁ h₁ => ?_)
    fun what s₁ h₁ => hthrown h₁
  rw [doing_bind_iff]
  refine ⟨trivial, fun tools _ => ?_⟩
  -- what is read before the answer leaves the world as it was
  have h₂ := h₁.next (e := .readWorkspaceFile (utf8 "TOOLS.md")) trivial tools
  rw [wp_bind, wp_ofExcept]
  cases tools with
  | error what => exact hthrown h₂
  | ok tools =>
    rw [then_ok, wp_bind, wp_ofExcept]
    cases dumpSamples lib samples with
    | error what => exact hthrown h₂
    | ok sj => exact wp_mono (wp_ask_then_read _) fun r s' h => h.of_same h₂

/-- A plan is what Claude Code has answered. -/
theorem wp_planImprovements_alone (eval : EvaluationReport) (s : IterationWorld × IterRecord) :
    wp aloneMachine anyTime (planImprovements lib eval)
      (OneAnswer (fun raw p => readPlan lib raw = .ok p) s) s := by
  unfold planImprovements
  refine wp_bind_of (wp_looks_alone (looks_readGuidelines _) s) (fun guidelines s₁ h₁ => ?_)
    fun what s₁ h₁ => ⟨h₁.world, fun _ ha => nomatch ha⟩
  exact wp_mono (wp_ask_then_read s₁) fun r s' h => h.of_same h₁

/-- How the loop over the edits ends: all of them have been made as `applyImprovements` does, for
what the file system has done, or those in front of one whose file could not be read. -/
inductive EditsEnd (edits : List FileEdit) (s : IterationWorld × IterRecord) :
    Except Bytes Nat → IterationWorld × IterRecord → Prop
  | all {s' : IterationWorld × IterRecord} (plan : List (FileEdit × EditIo)) {applied : Nat}
      (hplan : plan.map Prod.fst = edits)
      (left : s'.1.files = (applyImprovements s.1.files plan).1)
      (counted : applied = (applyImprovements s.1.files plan).2.length) :
      EditsEnd edits s (.ok applied) s'
  | interrupted {s' : IterationWorld × IterRecord} (plan : List (FileEdit × EditIo))
      {edit : FileEdit} {rest : List FileEdit} {what : Bytes}
      (hplan : edits = plan.map Prod.fst ++ edit :: rest)
      (threw : (⟨.readFile edit.path, .error what⟩ : Σ e : IterEff, e.Ans) ∈ s'.2)
      (left : s'.1.files = (applyImprovements s.1.files plan).1) :
      EditsEnd edits s (.error what) s'

/-- An edit in front of others. `io` is what the file system does for it. -/
theorem EditsEnd.cons {edit : FileEdit} {edits : List FileEdit} {io : EditIo}
    {s₁ s' : IterationWorld × IterRecord} {r : Except Bytes Nat} {counted : Bool}
    (hio : applyEdit s.1.files edit io = (s₁.1.files, counted)) (h : EditsEnd edits s₁ r s') :
    EditsEnd (edit :: edits) s (r.map fun n => if counted then n + 1 else n) s' := by
  cases h with
  | all plan hplan left hcount =>
    subst hplan hcount
    refine .all ((edit, io) :: plan) rfl ?_ ?_
    · rw [applyImprovements_cons, hio]
      exact left
    · rw [applyImprovements_cons, hio]
      cases counted <;> rfl
  | interrupted plan hplan threw left =>
    subst hplan
    refine .interrupted ((edit, io) :: plan) rfl threw ?_
    rw [applyImprovements_cons, hio]
    exact left

/-- An edit in front that is not made. -/
theorem EditsEnd.skip {edit : FileEdit} {edits : List FileEdit} (io : EditIo)
    {s₁ s' : IterationWorld × IterRecord} {r : Except Bytes Nat}
    (hio : applyEdit s.1.files edit io = (s₁.1.files, false)) (h : EditsEnd edits s₁ r s') :
    EditsEnd (edit :: edits) s r s' := by
  have hcons := h.cons hio
  cases r with
  | ok n => exact hcons
  | error what => exact hcons

/-- The loop over the edits, and no command is run. -/
theorem wp_applyEdits_alone (edits : List FileEdit) (s : IterationWorld × IterRecord) :
    wp aloneMachine anyTime (applyEdits edits)
      (fun r s' => EditsEnd edits s r s' ∧ commandAnswers s'.2 = commandAnswers s.2) s := by
  induction edits generalizing s with
  | nil => exact ⟨.all [] rfl rfl rfl, rfl⟩
  | cons edit edits ih =>
    unfold applyEdits
    split
    · next heditable =>
      have hnot : ¬(!isEditableFile edit.path) = true := by
        rw [heditable]
        exact Bool.false_ne_true
      rw [doing_bind_iff]
      refine ⟨trivial, fun content hcontent => ?_⟩
      rw [wp_bind, wp_ofExcept]
      cases content with
      | error what =>
        exact ⟨.interrupted [] rfl (List.mem_append_right _ (List.mem_singleton_self _)) rfl,
          commandAnswers_concat rfl s.2⟩
      | ok content =>
        obtain ⟨opens, rfl⟩ := hcontent
        rw [then_ok]
        cases happly : edit.apply (readFile s.1.files edit.path opens) with
        | none =>
          refine wp_mono (ih _) fun r s' h => ⟨h.1.skip ⟨opens, .notOpened⟩ ?_, ?_⟩
          · rw [applyEdit, if_neg hnot, happly]
            rfl
          · exact h.2.trans (commandAnswers_concat rfl s.2)
        | some text =>
          have hedit : ∀ write, applyEdit s.1.files edit ⟨opens, write⟩ =
              writeFile s.1.files edit.path text write := by
            intro write
            rw [applyEdit, if_neg hnot, happly]
          dsimp only
          rw [doing_bind_iff]
          refine ⟨trivial, fun ended _ => ?_⟩
          -- the stream tells whether the edit is counted
          have hwrite : applyEdit s.1.files edit ⟨opens, ended⟩ =
              ((writeFile s.1.files edit.path text ended).1, ended.counted) := by
            rw [hedit]
            cases ended <;> rfl
          have hanswers : ∀ content, commandAnswers (s.2 ++ [⟨.readFile edit.path, .ok content⟩] ++
              [⟨.writeFile edit.path text, ended⟩]) = commandAnswers s.2 := fun content =>
            (commandAnswers_concat rfl _).trans (commandAnswers_concat rfl s.2)
          refine wp_bind_of (ih _) ?_ ?_
          · rintro applied s' ⟨h, hsame⟩
            exact ⟨h.cons hwrite, hsame.trans (hanswers _)⟩
          · rintro what s' ⟨h, hsame⟩
            exact ⟨h.cons hwrite, hsame.trans (hanswers _)⟩
    · next heditable =>
      refine wp_mono (ih s) fun r s' h => ⟨h.1.skip ⟨false, .notOpened⟩ ?_, h.2⟩
      rw [applyEdit, if_pos]
      simpa using heditable

/-- A cycle ends with a result, thrown or returned, that tells what was done. -/
def EndsDone (lib : IterationLibrary) (files : WorkspaceFiles)
    (r : Except IterationResult IterationResult) (s' : IterationWorld × IterRecord) : Prop :=
  ∃ result, (r = .ok result ∨ r = .error result) ∧ CycleDone lib files s'.2 s'.1 result

/-- A cycle that ends before it edits anything. -/
theorem EndsDone.nothing {r : Except IterationResult IterationResult}
    {s' : IterationWorld × IterRecord} (hr : r = .ok result ∨ r = .error result)
    (hresult : result.improvementsApplied = 0) (h : s'.1 = s.1) :
    EndsDone lib s.1.files r s' :=
  ⟨result, hr, .nothing (congrArg IterationWorld.files h) hresult⟩

theorem wp_applyAndCommit_alone {rating raw : Bytes} {plan : ImprovementPlan}
    (hanswers : commandAnswers s.2 = [rating, raw]) (hplan : readPlan lib raw = .ok plan)
    (hresult : result.improvementsApplied = 0 ∧ result.executed = false) :
    wp aloneMachine anyTime (applyAndCommit engine result plan) (EndsDone lib s.1.files) s := by
  unfold applyAndCommit
  refine wp_inTry_bind (wp_applyEdits_alone plan.edits s) ?_ ?_
  · rintro applied s₁ ⟨hedits, hsame⟩
    obtain ⟨edits, hmap, h₁, hcount⟩ := hedits
    -- from here on the files stay as they are, and so does the number of edits
    have hdone : ∀ (s' : IterationWorld × IterRecord) (result : IterationResult),
        s'.1.files = s₁.1.files → (∃ more, commandAnswers s'.2 = commandAnswers s₁.2 ++ more) →
        result.improvementsApplied = applied → CycleDone lib s.1.files s'.2 s'.1 result := by
      rintro s' result hfiles ⟨more, hmore⟩ happlied
      rw [hsame, hanswers] at hmore
      exact .planned hmore hplan hmap (hfiles.trans h₁) (happlied.trans hcount)
    have hcommit : (if 0 < applied ∧ plan.summary ≠ [] then
        commitChanges engine plan.summary else pure []).Only IterEff.Keeps := by
      split
      · exact keeps_commitChanges _
      · exact only_pure _
    refine wp_inTry_bind (wp_keeps hcommit s₁) ?_ ?_
    · rintro hash s₂ ⟨h₂, more, hmore⟩
      have hstamp : ∀ s₃ : IterationWorld × IterRecord, s₃.1.files = s₂.1.files ∧
          (∃ more, commandAnswers s₃.2 = commandAnswers s₂.2 ++ more) →
          s₃.1.files = s₁.1.files ∧ ∃ more, commandAnswers s₃.2 = commandAnswers s₁.2 ++ more := by
        rintro s₃ ⟨h₃, more', hmore'⟩
        exact ⟨h₃.trans h₂, more ++ more', by rw [hmore', hmore, List.append_assoc]⟩
      refine wp_inTry_bind (wp_keeps (p := doing .stamp) ⟨trivial, fun _ => trivial⟩ s₂) ?_ ?_
      · intro now s₃ h₃
        exact ⟨_, .inl rfl, hdone _ _ (hstamp s₃ h₃).1 (hstamp s₃ h₃).2 rfl⟩
      · intro what s₃ h₃
        exact ⟨_, .inr rfl, hdone _ _ (hstamp s₃ h₃).1 (hstamp s₃ h₃).2 rfl⟩
    · rintro what s₂ ⟨h₂, hmore⟩
      exact ⟨_, .inr rfl, hdone _ _ h₂ hmore rfl⟩
  · rintro what s' ⟨hedits, hsame⟩
    cases hedits with
    | interrupted edits hmap threw h₁ =>
      exact ⟨_, .inr rfl, .interrupted (hsame.trans hanswers) hplan hmap threw h₁ hresult.1
        ⟨hresult.2, rfl⟩⟩

theorem wp_runPhases_alone (hresult : result.improvementsApplied = 0 ∧ result.executed = false)
    (hnew : commandAnswers s.2 = []) :
    wp aloneMachine anyTime (runPhases lib engine result) (EndsDone lib s.1.files) s := by
  unfold runPhases
  refine wp_inTry_bind (wp_looks_alone (looks_collectSamples kDefaultSampleCount) s) ?_
    fun what s₁ h₁ => .nothing (.inr rfl) hresult.1 h₁.world
  intro samples s₁ h₁
  dsimp only
  split
  -- no samples, and no answer is asked for
  · exact EndsDone.nothing (.inl rfl) hresult.1 h₁.world
  · refine wp_inTry_bind (wp_evaluate_alone samples s₁) ?_
      fun what s₂ h₂ => .nothing (.inr rfl) hresult.1 (h₂.1.trans h₁.world)
    intro eval s₂ h₂
    -- neither the rating nor the plan writes a file
    have hworld₂ : s₂.1 = s.1 := h₂.1.trans h₁.world
    split
    · refine wp_inTry_bind (wp_planImprovements_alone eval s₂) ?_
        fun what s₃ h₃ => .nothing (.inr rfl) hresult.1 (h₃.1.trans hworld₂)
      intro plan s₃ h₃
      have hworld₃ : s₃.1 = s.1 := h₃.1.trans hworld₂
      split
      · exact EndsDone.nothing (.inl rfl) hresult.1 hworld₃
      · -- the rating and the plan are the two answers so far
        obtain ⟨rating, -, hrating⟩ := h₂.2 eval rfl
        obtain ⟨raw, hraw, hplan⟩ := h₃.2 plan rfl
        rw [hrating, h₁.answers, hnew] at hplan
        rw [← hworld₃]
        exact wp_applyAndCommit_alone hplan hraw hresult
    · exact EndsDone.nothing (.inl rfl) hresult.1 hworld₂

/-- **A cycle that runs alone carries out the plan, or changes nothing**: the files it leaves are
what `apply_improvements` makes of them for the edits that Claude Code has answered, and as many
edits are reported as are counted, also when a later part fails. If reading a file throws, the edits
in front of it have been made, and none is reported. -/
theorem cycle_alone {tr : List (Event IterSig IterationWorld)}
    {r : Except IterationResult IterationResult}
    (h : Exec IterationWorld.machine w (runCycle lib engine) tr w' r) :
    ∃ result, r = .ok result ∧ CycleDone lib w.files (inputs tr) w' result := by
  have hwp : wp aloneMachine anyTime (runCycle lib engine)
      (fun r s' => ∃ result, r = .ok result ∧ CycleDone lib w.files s'.2 s'.1 result) (w, []) := by
    refine ⟨trivial, fun timestamp _ => ?_⟩
    refine wp_tryCatch.mpr (wp_mono (wp_runPhases_alone ⟨rfl, rfl⟩ rfl) fun r s' hr => ?_)
    obtain ⟨result, hr, hdone⟩ := hr
    -- what is thrown within the `try` block is returned
    rcases hr with rfl | rfl
    · exact ⟨result, rfl, hdone⟩
    · exact ⟨result, rfl, hdone⟩
  obtain ⟨tr', hlogged⟩ := h.logged []
  exact (hlogged.of_wp hwp).1

end Alone

/-- The edit of the cycle is reported. -/
theorem editing_cycle_done : ∃ result, editingCycle.2.2 = .ok result ∧
    result.improvementsApplied = 1 ∧
    CycleDone smallLibrary newWorkspace.files (inputs editingCycle.1) editingCycle.2.1 result := by
  obtain ⟨result, hr, hdone⟩ :=
    cycle_alone (exec_simulate admits_editingAnswer newWorkspace
      (runCycle smallLibrary smallEngine))
  refine ⟨result, hr, ?_, hdone⟩
  have happlied : editingCycle.2.2.toOption.map IterationResult.improvementsApplied = some 1 := by
    decide +kernel
  have hr : editingCycle.2.2 = .ok result := hr
  rw [hr] at happlied
  exact Option.some.inj happlied

end Aestival
