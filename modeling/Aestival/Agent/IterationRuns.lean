import Aestival.Agent.IterationCycle
import Aestival.Library.Pool

/-!
# Cycles of self-iteration, side by side

The command `self-iterate` may be given in several conversations, so cycles of the engine run side
by side on one workspace. How far a cycle has come is its `CyclePhase`, which follows its effects:
Claude Code rates, it plans, edits are written, `git` commits them, and the time is stamped.

* `PhaseAllows` says what a cycle may do in which phase, and `CyclePhase.Ends` what its result must
  say of the phase it ends in.
* `wp_selfIterationCallback`: a cycle keeps to both, whatever its surroundings answer.
* `cyclesSafe`: in every run of cycles side by side a dry run changes nothing, no file but the
  editable ones is changed, and a result tells what its cycle has done, unless a file could not be
  read between two edits: then it tells of none.
-/

namespace Aestival

open Bytes Json Prog

/-! ### Phases -/

/-- How far a cycle has come. -/
inductive CyclePhase where
  /-- Claude Code has not been asked -/
  | rating
  /-- it has been asked for a rating -/
  | planning
  /-- it has been asked for a plan, and so many edits have been counted -/
  | applying (applied : Nat)
  /-- so many commands of `git` have been run -/
  | committing (applied commands : Nat)
  /-- the time has been stamped, behind a commit or without one -/
  | finished (applied : Nat) (committed : Bool)
  deriving DecidableEq

/-- The phase after an effect. -/
def CyclePhase.next : CyclePhase → (e : IterEff) → e.Ans → CyclePhase
  | .rating, .exec .., _ => .planning
  | .planning, .exec .., _ => .applying 0
  | .applying n, .exec .., _ => .committing n 1
  | .committing n k, .exec .., _ => .committing n (k + 1)
  | .applying n, .writeFile .., ended => .applying (if ended.counted then n + 1 else n)
  | .applying n, .stamp, _ => .finished n false
  | .committing n _, .stamp, _ => .finished n true
  | φ, _, _ => φ

/-- A cycle as the others see it: whether it is a dry run, and its phase. -/
abbrev CycleView := Bool × CyclePhase

/-- The machine of the phases. -/
def cyclePhases : Machine IterSig CycleView where
  admits := fun _ _ _ => True
  next := fun v e x => (v.1, v.2.next e x)

/-- Which commands may be run in a phase. -/
def AllowedCommand (engine : IterationEngine) (cmd : Bytes) (timeout : Nat) : CyclePhase → Prop
  | .rating | .planning => ∃ path, cmd = claudeCommand path ∧ timeout = kClaudeTimeoutSeconds
  | .applying applied => 0 < applied ∧ cmd = addCommand engine.workspacePath
  | .committing _ 1 => cmd = utf8 "git add bot_config.json"
  | .committing _ 2 => ∃ summary, summary ≠ [] ∧ cmd = commitCommand summary
  | .committing _ 3 => cmd = utf8 "git rev-parse --short HEAD"
  | _ => False

/-- What a cycle may do in a phase. A dry run asks for a rating, and nothing else. -/
def PhaseAllows (engine : IterationEngine) (v : CycleView) : IterEff → Prop
  | .exec cmd timeout => AllowedCommand engine cmd timeout v.2 ∧ (v.1 = true → v.2 = .rating)
  | .readFile path | .writeFile path _ =>
    v.1 = false ∧ isEditableFile path = true ∧ ∃ applied, v.2 = .applying applied
  | .stamp => v.1 = false ∧ ((∃ applied, v.2 = .applying applied) ∨
      ∃ applied, 0 < applied ∧ v.2 = .committing applied 4)
  | _ => True

/-- The result reports no change. -/
structure IterationResult.Untouched (result : IterationResult) : Prop where
  applied : result.improvementsApplied = 0
  hash : result.gitCommitHash = []
  told : result.executed = true → result.error = []

/-- What the result of a cycle must say of the phase it ends in. -/
def CyclePhase.Ends (result : IterationResult) : CyclePhase → Prop
  | .rating | .planning => result.Untouched
  -- where reading a file throws, the edits before it are not reported
  | .applying applied => result.Untouched ∧ (0 < applied → result.executed = false)
  | .committing .. => False
  | .finished applied committed => result.executed = true ∧ result.error = [] ∧
      result.improvementsApplied = applied ∧ (committed = false → result.gitCommitHash = [])

/-! ### Parts of a cycle -/

/-- The effects that neither run a command nor touch a file of the workspace. -/
def IterEff.Looks : IterEff → Prop
  | .nowIso | .queryRecentMessages _ | .readWorkspaceFile _ | .writePrompt .. | .removePrompt _ =>
    True
  | _ => False

section Parts

variable {lib : IterationLibrary} {engine : IterationEngine} {v : CycleView}

theorem doing_bind_iff {α σ : Type} {M : Machine IterSig σ} {D : σ → IterEff → Prop} {e : IterEff}
    {f : e.Ans → Iter α} {Q : Except Bytes α → σ → Prop} {s : σ} :
    wp M D (doing e >>= f) Q s ↔
      D s e ∧ ∀ x : e.Ans, M.admits s e x → wp M D (f x) Q (M.next s e x) := Iff.rfl

theorem looks_doing_bind {α : Type} {A : IterEff → Prop} {e : IterEff} {f : e.Ans → Iter α} :
    Prog.Only (S := IterSig) A (doing e >>= f) ↔ A e ∧ ∀ x, (f x).Only A := Iff.rfl

/-- A part that only looks leaves the phase as it is. -/
theorem wp_looks {α : Type} {p : Iter α} (h : p.Only IterEff.Looks) :
    wp cyclePhases (PhaseAllows engine) p (fun _ v' => v' = v) v := by
  refine h.wp (fun e he u hu => ?_) rfl
  cases e with
  | exec => exact he.elim
  | readFile => exact he.elim
  | writeFile => exact he.elim
  | stamp => exact he.elim
  | _ =>
    refine ⟨trivial, fun x _ => ?_⟩
    subst hu
    obtain ⟨d, φ⟩ := u
    cases φ <;> rfl

theorem looks_collectSamples (count : Nat) :
    (collectSamples engine count).Only IterEff.Looks := by
  unfold collectSamples
  split
  · exact looks_doing_bind.mpr ⟨trivial, fun _ => only_pure _⟩
  · exact only_pure _

theorem looks_readGuidelines (filenames : List Bytes) :
    (readGuidelines filenames).Only IterEff.Looks := by
  induction filenames with
  | nil => exact only_pure _
  | cons filename filenames ih =>
    have hguideline : (guideline filename).Only IterEff.Looks :=
      looks_doing_bind.mpr ⟨trivial, fun content => (only_ofExcept content).bind fun _ =>
        only_pure _⟩
    exact hguideline.bind fun _ => ih.bind fun _ => only_pure _

/-- Claude Code is asked, unless there is no file to put the prompt into. -/
theorem wp_askClaude {purpose prompt : Bytes} {d : Bool} {φ : CyclePhase}
    (hφ : φ = .rating ∨ d = false ∧ φ = .planning) :
    wp cyclePhases (PhaseAllows engine) (askClaude purpose prompt)
      (fun r v' => v' = (d, φ.next (.exec [] 0) []) ∨ v' = (d, φ) ∧ ∃ what, r = .error what)
      (d, φ) := by
  -- neither the command nor its answer matters for the phase
  have hnext : ∀ cmd timeout raw, φ.next (.exec cmd timeout) raw = φ.next (.exec [] 0) [] := by
    rcases hφ with rfl | ⟨-, rfl⟩ <;> exact fun _ _ _ => rfl
  have hallowed : ∀ path,
      PhaseAllows engine (d, φ) (.exec (claudeCommand path) kClaudeTimeoutSeconds) := by
    intro path
    rcases hφ with rfl | ⟨rfl, rfl⟩
    · exact ⟨⟨path, rfl, rfl⟩, fun _ => rfl⟩
    · exact ⟨⟨path, rfl, rfl⟩, fun h => nomatch h⟩
  have hlook : ∀ e (x : IterEff.Ans e), IterEff.Looks e → cyclePhases.next (d, φ) e x = (d, φ) := by
    intro e x he
    rcases hφ with rfl | ⟨-, rfl⟩ <;> cases e <;> first | rfl | exact he.elim
  unfold askClaude
  rw [doing_bind_iff]
  refine ⟨trivial, fun written _ => ?_⟩
  rw [hlook _ written trivial, wp_bind, wp_ofExcept]
  cases written with
  | error what => exact .inr ⟨rfl, what, rfl⟩
  | ok path =>
    rw [then_ok, doing_bind_iff]
    refine ⟨hallowed path, fun raw _ => ?_⟩
    rw [doing_bind_iff]
    refine ⟨trivial, fun _ _ => ?_⟩
    left
    show (d, CyclePhase.next (φ.next (.exec (claudeCommand path) kClaudeTimeoutSeconds) raw)
      (.removePrompt path) ()) = _
    rw [hnext]
    rcases hφ with rfl | ⟨-, rfl⟩ <;> rfl

/-- A rating is asked for once. -/
theorem wp_evaluate (samples : List ConversationSample) (d : Bool) :
    wp cyclePhases (PhaseAllows engine) (evaluate lib samples)
      (fun r v' => v' = (d, .planning) ∨ v' = (d, .rating) ∧ ∃ what, r = .error what)
      (d, .rating) := by
  unfold evaluate
  -- reading the guidelines may throw, before Claude Code is asked
  refine wp_bind_of (wp_looks (looks_readGuidelines _)) ?_ fun what _ h => .inr ⟨h, what, rfl⟩
  rintro guidelines _ rfl
  rw [doing_bind_iff]
  refine ⟨trivial, fun tools _ => ?_⟩
  rw [wp_bind, wp_ofExcept]
  cases tools with
  -- so may the list of tools
  | error what => exact .inr ⟨rfl, what, rfl⟩
  | ok tools =>
    rw [then_ok, wp_bind, wp_ofExcept]
    cases dumpSamples lib samples with
    | error what => exact .inr ⟨rfl, what, rfl⟩
    | ok sj =>
      rw [then_ok]
      -- the answer moves the cycle on, whether it can be parsed or not
      refine wp_bind_of (wp_askClaude (.inl rfl)) ?_ ?_
      · rintro raw _ (rfl | ⟨-, what, hr⟩)
        · rw [wp_ofExcept]
          exact .inl rfl
        · cases hr
      · rintro what _ (rfl | ⟨rfl, -⟩)
        · exact .inl rfl
        · exact .inr ⟨rfl, what, rfl⟩

/-- A plan is asked for once. -/
theorem wp_planImprovements (eval : EvaluationReport) :
    wp cyclePhases (PhaseAllows engine) (planImprovements lib eval)
      (fun r v' => v' = (false, .applying 0) ∨ v' = (false, .planning) ∧ ∃ what, r = .error what)
      (false, .planning) := by
  unfold planImprovements
  refine wp_bind_of (wp_looks (looks_readGuidelines _)) ?_ fun what _ h => .inr ⟨h, what, rfl⟩
  rintro guidelines _ rfl
  -- with the answer the edits may begin
  refine wp_bind_of (wp_askClaude (.inr ⟨rfl, rfl⟩)) ?_ ?_
  · rintro raw _ (rfl | ⟨-, what, hr⟩)
    · rw [wp_ofExcept]
      exact .inl rfl
    · cases hr
  · rintro what _ (rfl | ⟨rfl, -⟩)
    · exact .inl rfl
    · exact .inr ⟨rfl, what, rfl⟩

/-- The edits that are counted are the ones the phase counts, unless reading a file throws. -/
theorem wp_applyEdits (edits : List FileEdit) (n : Nat) :
    wp cyclePhases (PhaseAllows engine) (applyEdits edits)
      (fun r v' => (∃ applied, r = .ok applied ∧ v' = (false, .applying (n + applied))) ∨
        ∃ m what, r = .error what ∧ v' = (false, .applying m))
      (false, .applying n) := by
  -- the edits that are counted are those that were written
  induction edits generalizing n with
  | nil => exact .inl ⟨0, rfl, rfl⟩
  | cons edit edits ih =>
    unfold applyEdits
    split
    · next heditable =>
      -- only the six files are read or written
      have hallowed : ∀ n, PhaseAllows engine (false, .applying n) (.readFile edit.path) :=
        fun n => ⟨rfl, heditable, n, rfl⟩
      rw [doing_bind_iff]
      refine ⟨hallowed n, fun content _ => ?_⟩
      rw [wp_bind, wp_ofExcept]
      cases content with
      -- a read that throws ends the cycle, with the edits so far
      | error what => exact .inr ⟨n, what, rfl, rfl⟩
      | ok content =>
        rw [then_ok]
        cases edit.apply content with
        -- an edit that does not fit is skipped
        | none => exact ih n
        | some text =>
          show wp _ _ (doing (.writeFile edit.path text) >>= _) _ (false, CyclePhase.applying n)
          rw [doing_bind_iff]
          refine ⟨⟨rfl, heditable, n, rfl⟩, fun ended _ => ?_⟩
          show wp _ _ _ _ (false, CyclePhase.applying (if ended.counted then n + 1 else n))
          refine wp_bind_of (ih _) ?_ ?_
          · rintro applied _ (⟨applied', hr, rfl⟩ | ⟨m, what, hr, -⟩)
            · obtain rfl := Except.ok.inj hr
              refine .inl ⟨_, rfl, ?_⟩
              cases ended.counted with
              | false => rfl
              | true =>
                show _ = (false, CyclePhase.applying (n + (applied + 1)))
                rw [Nat.add_comm applied, ← Nat.add_assoc]
                rfl
            · cases hr
          · rintro what _ (⟨applied, hr, -⟩ | ⟨m, what', hr, rfl⟩)
            · cases hr
            · exact .inr ⟨m, what, rfl, rfl⟩
    -- so is one of another file
    · exact ih n

/-- The four commands of a commit. -/
theorem wp_commitChanges {summary : Bytes} (hsummary : summary ≠ []) {n : Nat} (hn : 0 < n) :
    wp cyclePhases (PhaseAllows engine) (commitChanges engine summary)
      (fun r v' => (∃ hash, r = .ok hash) ∧ v' = (false, .committing n 4))
      (false, .applying n) := by
  unfold commitChanges
  rw [doing_bind_iff]
  refine ⟨⟨⟨hn, rfl⟩, fun h => nomatch h⟩, fun _ _ => ?_⟩
  rw [doing_bind_iff]
  refine ⟨⟨rfl, fun h => nomatch h⟩, fun _ _ => ?_⟩
  rw [doing_bind_iff]
  refine ⟨⟨⟨summary, hsummary, rfl⟩, fun h => nomatch h⟩, fun _ _ => ?_⟩
  rw [doing_bind_iff]
  refine ⟨⟨rfl, fun h => nomatch h⟩, fun hashOut _ => ?_⟩
  exact ⟨⟨trim hashOut, rfl⟩, rfl⟩

end Parts

/-! ### Whole cycles -/

/-- The phases a cycle may end in, for a dry run and for others. -/
def CycleView.Ends (d : Bool) (result : IterationResult) (v : CycleView) : Prop :=
  v.1 = d ∧ v.2.Ends result ∧ (d = true → v.2 = .rating ∨ v.2 = .planning)

/-- A cycle ends with a result, thrown or returned, that fits its phase. -/
def CycleEnds (d : Bool) (r : Except IterationResult IterationResult) (v : CycleView) : Prop :=
  ∃ result, (r = .ok result ∨ r = .error result) ∧ CycleView.Ends d result v

/-- Nothing has been put into the result that a failed cycle may not report. -/
structure IterationResult.Fresh (result : IterationResult) : Prop where
  applied : result.improvementsApplied = 0
  hash : result.gitCommitHash = []
  executed : result.executed = false
  error : result.error = []

section Cycles

variable {lib : IterationLibrary} {engine : IterationEngine} {result : IterationResult}
  {d : Bool} {φ : CyclePhase}

theorem IterationResult.Fresh.withScores (h : result.Fresh) (eval : EvaluationReport) :
    (result.withScores eval).Fresh := ⟨h.applied, h.hash, h.executed, h.error⟩

/-- A fresh result with an error. -/
theorem IterationResult.Fresh.failed (h : result.Fresh) (what : Bytes) :
    IterationResult.Untouched { result with error := what } :=
  ⟨h.applied, h.hash, fun hexecuted => absurd (h.executed.symm.trans hexecuted) Bool.noConfusion⟩

/-- A fresh result of a cycle that has nothing more to do. -/
theorem IterationResult.Fresh.done (h : result.Fresh) (summary : Bytes) :
    (result.done summary).Untouched := ⟨h.applied, h.hash, fun _ => h.error⟩

/-- The phases in which nothing has been changed. -/
theorem CycleEnds.untouched {r : Except IterationResult IterationResult}
    (hresult : result.Untouched) (hr : r = .ok result ∨ r = .error result)
    (hφ : φ = .rating ∨ φ = .planning ∨ d = false ∧ φ = .applying 0) :
    CycleEnds d r (d, φ) := by
  refine ⟨result, hr, rfl, ?_, fun hd => ?_⟩
  · rcases hφ with rfl | rfl | ⟨-, rfl⟩
    · exact hresult
    · exact hresult
    · exact ⟨hresult, fun h => absurd h (lt_irrefl 0)⟩
  · rcases hφ with h | h | ⟨h, -⟩
    · exact .inl h
    · exact .inr h
    · rw [hd] at h
      cases h

/-- A part of a cycle, and then the rest. An exception leaves the result so far. -/
theorem wp_inTry_bind {α σ : Type} {M : Machine IterSig σ} {D : σ → IterEff → Prop} {p : Iter α}
    {f : α → Prog IterSig IterationResult IterationResult}
    {Q : Except IterationResult IterationResult → σ → Prop} {R : Except Bytes α → σ → Prop} {s : σ}
    (hp : wp M D p R s) (hok : ∀ a s', R (.ok a) s' → wp M D (f a) Q s')
    (herror : ∀ what s', R (.error what) s' → Q (.error { result with error := what }) s') :
    wp M D (inTry result p >>= f) Q s := by
  rw [wp_bind, inTry, wp_mapThrow]
  refine wp_mono hp fun r s' hr => ?_
  cases r with
  | ok a => exact hok a s' hr
  | error what => exact herror what s' hr

theorem wp_applyAndCommit (hfresh : result.Fresh) (plan : ImprovementPlan) :
    wp cyclePhases (PhaseAllows engine) (applyAndCommit engine result plan) (CycleEnds false)
      (false, .applying 0) := by
  unfold applyAndCommit
  refine wp_inTry_bind (wp_applyEdits plan.edits 0) ?_ ?_
  · rintro applied _ (⟨applied', hr, rfl⟩ | ⟨m, what, hr, -⟩)
    swap
    · cases hr
    obtain rfl := Except.ok.inj hr
    rw [Nat.zero_add]
    -- a commit is made for counted edits with a summary
    by_cases hcommit : 0 < applied ∧ plan.summary ≠ []
    · dsimp only
      rw [if_pos hcommit]
      refine wp_inTry_bind (wp_commitChanges hcommit.2 hcommit.1) ?_ ?_
      · rintro hash _ ⟨-, rfl⟩
        refine wp_inTry_bind
          (R := fun r v' => (∃ t, r = .ok t) ∧ v' = (false, .finished applied true))
          ⟨⟨rfl, .inr ⟨applied, hcommit.1, rfl⟩⟩, fun t _ => ⟨⟨t, rfl⟩, rfl⟩⟩ ?_ ?_
        · rintro t _ ⟨-, rfl⟩
          exact ⟨_, .inl rfl, rfl, ⟨rfl, hfresh.error, rfl, fun h => nomatch h⟩, fun h => nomatch h⟩
        · rintro what _ ⟨⟨t, ht⟩, -⟩
          cases ht
      · rintro what _ ⟨⟨hash, hr⟩, -⟩
        cases hr
    · dsimp only
      rw [if_neg hcommit]
      refine wp_inTry_bind (R := fun r v' => r = .ok [] ∧ v' = (false, .applying applied))
        ⟨rfl, rfl⟩ ?_ ?_
      · rintro hash _ ⟨hr, rfl⟩
        obtain rfl := Except.ok.inj hr
        refine wp_inTry_bind
          (R := fun r v' => (∃ t, r = .ok t) ∧ v' = (false, .finished applied false))
          ⟨⟨rfl, .inl ⟨applied, rfl⟩⟩, fun t _ => ⟨⟨t, rfl⟩, rfl⟩⟩ ?_ ?_
        · rintro t _ ⟨-, rfl⟩
          exact ⟨_, .inl rfl, rfl, ⟨rfl, hfresh.error, rfl, fun _ => rfl⟩, fun h => nomatch h⟩
        · rintro what _ ⟨⟨t, ht⟩, -⟩
          cases ht
      · rintro what _ ⟨hr, -⟩
        cases hr
  · rintro what _ (⟨applied, hr, -⟩ | ⟨m, what', -, rfl⟩)
    · cases hr
    · -- a read has thrown
      exact ⟨_, .inr rfl, rfl, ⟨hfresh.failed what, fun _ => hfresh.executed⟩, fun h => nomatch h⟩

/-- Samples are collected without a change. -/
theorem wp_collect_bind {f : List ConversationSample → Prog IterSig IterationResult IterationResult}
    (hfresh : result.Fresh)
    (hok : ∀ samples, wp cyclePhases (PhaseAllows engine) (f samples) (CycleEnds d) (d, .rating)) :
    wp cyclePhases (PhaseAllows engine)
      (inTry result (collectSamples engine kDefaultSampleCount) >>= f) (CycleEnds d)
      (d, .rating) := by
  refine wp_inTry_bind (wp_looks (looks_collectSamples _)) ?_ ?_
  · rintro samples _ rfl
    exact hok samples
  · rintro what _ rfl
    exact .untouched (hfresh.failed what) (.inr rfl) (.inl rfl)

theorem wp_runPhases (hfresh : result.Fresh) :
    wp cyclePhases (PhaseAllows engine) (runPhases lib engine result) (CycleEnds false)
      (false, .rating) := by
  unfold runPhases
  refine wp_collect_bind hfresh fun samples => ?_
  -- the phases before the edits write nothing into the result but samples and scores
  have hsampled : IterationResult.Fresh { result with samplesEvaluated := samples.length } :=
    ⟨hfresh.applied, hfresh.hash, hfresh.executed, hfresh.error⟩
  dsimp only
  split
  · exact .untouched (hsampled.done _) (.inl rfl) (.inl rfl)
  -- an evaluation that throws ends in the handler
  · refine wp_inTry_bind (wp_evaluate samples false) ?_ ?_
    · rintro eval _ (rfl | ⟨-, what, hr⟩)
      · have hscored := hsampled.withScores eval
        split
        -- and so does planning
        · refine wp_inTry_bind (wp_planImprovements eval) ?_ ?_
          · rintro plan _ (rfl | ⟨-, what, hr⟩)
            · split
              · exact .untouched (hscored.done _) (.inl rfl) (.inr (.inr ⟨rfl, rfl⟩))
              · exact wp_applyAndCommit hscored plan
            · cases hr
          · rintro what _ (rfl | ⟨rfl, -⟩)
            · exact .untouched (hscored.failed what) (.inr rfl) (.inr (.inr ⟨rfl, rfl⟩))
            · exact .untouched (hscored.failed what) (.inr rfl) (.inr (.inl rfl))
        · exact .untouched (hscored.done _) (.inl rfl) (.inr (.inl rfl))
      · cases hr
    · rintro what _ (rfl | ⟨rfl, -⟩)
      · exact .untouched (hsampled.failed what) (.inr rfl) (.inr (.inl rfl))
      · exact .untouched (hsampled.failed what) (.inr rfl) (.inl rfl)

theorem wp_dryRunPhases (hfresh : result.Fresh) :
    wp cyclePhases (PhaseAllows engine) (dryRunPhases lib engine result) (CycleEnds true)
      (true, .rating) := by
  unfold dryRunPhases
  refine wp_collect_bind hfresh fun samples => ?_
  have hsampled : IterationResult.Fresh { result with samplesEvaluated := samples.length } :=
    ⟨hfresh.applied, hfresh.hash, hfresh.executed, hfresh.error⟩
  dsimp only
  split
  -- too few samples
  · exact .untouched (hsampled.done _) (.inl rfl) (.inl rfl)
  -- the scores are read, and that is all
  · refine wp_inTry_bind (wp_evaluate samples true) ?_ ?_
    · rintro eval _ (rfl | ⟨-, what, hr⟩)
      · exact .untouched ((hsampled.withScores eval).done _) (.inl rfl) (.inr (.inl rfl))
      · cases hr
    · rintro what _ (rfl | ⟨rfl, -⟩)
      · exact .untouched (hsampled.failed what) (.inr rfl) (.inr (.inl rfl))
      · exact .untouched (hsampled.failed what) (.inr rfl) (.inl rfl)

/-- What is thrown within the `try` block is returned. -/
theorem wp_catch {p : Bytes → Prog IterSig IterationResult IterationResult}
    (hp : ∀ timestamp, wp cyclePhases (PhaseAllows engine) (p timestamp) (CycleEnds d)
    (d, .rating)) :
    wp cyclePhases (PhaseAllows engine)
      (inTry {} (doing .nowIso) >>= fun timestamp : Bytes =>
        (p timestamp).tryCatch fun failed => pure failed)
      (fun r v => ∃ result, r = .ok result ∧ CycleView.Ends d result v) (d, .rating) := by
  refine ⟨trivial, fun timestamp _ => ?_⟩
  refine wp_tryCatch.mpr (wp_mono (hp timestamp) fun r v hr => ?_)
  obtain ⟨result, hr, hends⟩ := hr
  rcases hr with rfl | rfl
  · exact ⟨result, rfl, hends⟩
  · exact ⟨result, rfl, hends⟩

/-- **A cycle does what it may, and reports what it has done**, whatever its surroundings answer. -/
theorem wp_selfIterationCallback (dry : Bool) :
    wp cyclePhases (PhaseAllows engine) (selfIterationCallback lib engine dry)
      (fun r v => ∃ result, r = .ok result ∧ CycleView.Ends dry result v) (dry, .rating) := by
  cases dry with
  | false => exact wp_catch fun timestamp => wp_runPhases ⟨rfl, rfl, rfl, rfl⟩
  | true => exact wp_catch fun timestamp => wp_dryRunPhases ⟨rfl, rfl, rfl, rfl⟩

end Cycles

/-! ### What cycles share -/

/-- What the cycles of an engine share: the files of the workspace, and `last_iteration_`. -/
structure IterationWorld where
  files : WorkspaceFiles
  lastIteration : Int

namespace IterationWorld

/-- The answers an effect can have. A file that cannot be opened is read as an empty one, and
reading throws where an opened one cannot be read, as a directory. -/
def Admits (w : IterationWorld) : (e : IterEff) → e.Ans → Prop
  | .readFile path, .ok content => ∃ opens, content = Aestival.readFile w.files path opens
  | .readWorkspaceFile filename, .ok content =>
    ∃ opens, content = Aestival.readFile w.files filename opens
  | _, _ => True

/-- The state after an effect. -/
def next (w : IterationWorld) : (e : IterEff) → e.Ans → IterationWorld
  | .writeFile path content, ended =>
    { w with files := (Aestival.writeFile w.files path content ended).1 }
  | .stamp, now => { w with lastIteration := now }
  | _, _ => w

/-- The machine cycles run on. -/
def machine : Machine IterSig IterationWorld where
  admits := Admits
  next := next

end IterationWorld

/-! ### A cycle that edits -/

/-- The answer of Claude Code that is a plan of one edit. -/
def onePlan : Json :=
  .obj [(utf8 "edits", .arr [.obj [(utf8 "file", .str (utf8 "SOUL.md")),
      (utf8 "new_text", .str (utf8 "be kind")), (utf8 "old_text", .str (utf8 "<<APPEND>>"))]]),
    (utf8 "summary", .str (utf8 "kinder"))]

/-- The text of this plan. -/
def onePlanText : Bytes :=
  utf8 "\x7b\"edits\":[\x7b\"file\":\"SOUL.md\",\"new_text\":\"be kind\"," ++
    utf8 "\"old_text\":\"<<APPEND>>\"\x7d],\"summary\":\"kinder\"\x7d"

/-- Libraries, as far as a rating `null` and this plan need them. -/
def smallLibrary : IterationLibrary where
  parse text :=
    if text = utf8 "null" then some .null else if text = onePlanText then some onePlan else none
  samplesJson _ := []
  what _ := utf8 "type must be string"
  whatIndex := utf8 "cannot use operator[]"
  whatUtf8 := utf8 "invalid UTF-8 byte"
  toDouble n := n
  average tone accuracy completeness efficiency :=
    (tone + accuracy + completeness + efficiency) / 4
  showDouble x := utf8 (toString x)
  evaluateRole := []
  evaluateInstructions := []
  improveRole := []
  improveInstructions := []

/-- Three exchanges, the newest first. -/
def threeExchanges : List SampleRow :=
  [(6, .assistant, "6"), (5, .user, "5"), (4, .assistant, "4"), (3, .user, "3"),
    (2, .assistant, "2"), (1, .user, "1")].map fun (t, role, text) =>
      ⟨utf8 "c", utf8 (toString (t : Nat)), role, [], utf8 text⟩

/-- Claude Code rates nothing and plans the edit, and everything else works. -/
def editingAnswer (w : IterationWorld) : (e : IterEff) → e.Ans
  | .nowIso => utf8 "2026-01-01T00:00:00Z"
  | .queryRecentMessages _ => threeExchanges
  | .readWorkspaceFile filename => .ok (Aestival.readFile w.files filename true)
  | .writePrompt purpose _ => .ok purpose
  | .exec cmd _ =>
    if cmd = claudeCommand (utf8 "eval") then utf8 "null"
    else if cmd = claudeCommand (utf8 "improve") then onePlanText
    else utf8 "abc1234\n"
  | .removePrompt _ => ()
  | .readFile path => .ok (Aestival.readFile w.files path true)
  | .writeFile .. => .written
  | .stamp => 1

theorem admits_editingAnswer (w : IterationWorld) (e : IterEff) :
    IterationWorld.machine.admits w e (editingAnswer w e) := by
  cases e with
  | readFile path => exact ⟨true, rfl⟩
  | readWorkspaceFile filename => exact ⟨true, rfl⟩
  | _ => trivial

/-- A workspace without files. -/
def newWorkspace : IterationWorld := ⟨fun _ => none, 0⟩

def smallEngine : IterationEngine := ⟨true, utf8 "workspace"⟩

/-- A cycle on it: its trace, the state it leaves, and how it ends. -/
def editingCycle : List (Event IterSig IterationWorld) × IterationWorld ×
    Except IterationResult IterationResult :=
  simulate IterationWorld.machine editingAnswer newWorkspace (runCycle smallLibrary smallEngine)

/-! ### Cycles side by side -/

/-- Cycles of one engine, side by side. -/
abbrev Cycles (ι : Type) := Pool IterSig IterationWorld CycleView IterationResult IterationResult ι

/-- The cycles of some calls of the callback, none of them begun. -/
def startCycles {ι : Type} (lib : IterationLibrary) (engine : IterationEngine) (dry : ι → Bool)
    (w : IterationWorld) : Cycles ι where
  state := w
  phase := fun j => (dry j, .rating)
  rest := fun j => selfIterationCallback lib engine (dry j)

/-- The phases before a plan has been asked for. -/
def CyclePhase.Early (φ : CyclePhase) : Prop := φ = .rating ∨ φ = .planning

/-- What holds throughout a run of cycles. -/
structure CyclesSafe {ι : Type} (engine : IterationEngine) (dry : ι → Bool) (w : IterationWorld)
    (c : Cycles ι) : Prop where
  /-- files that may not be edited are as they were -/
  outside : ∀ path, isEditableFile path = false → c.state.files path = w.files path
  /-- nothing has changed before a plan has been asked for, and so never by dry runs -/
  quiet : (∀ j, (c.phase j).2.Early ∨ dry j = true) → c.state = w
  /-- the time of the last iteration is set by a cycle that has finished -/
  stamped : c.state.lastIteration ≠ w.lastIteration → ∃ j n b, (c.phase j).2 = .finished n b
  /-- what a cycle is about to do it may do -/
  allowed : ∀ j e k, c.rest j = .op e k → PhaseAllows engine (c.phase j) e
  /-- the result of a cycle says what it has done -/
  ends : ∀ j result, c.rest j = .ret result → CycleView.Ends (dry j) result (c.phase j)
  /-- no exception leaves a cycle -/
  returns : ∀ j result, c.rest j ≠ .throw result

namespace Cycles

variable {ι : Type} {lib : IterationLibrary} {engine : IterationEngine} {dry : ι → Bool}
  {w : IterationWorld} {c c' : Cycles ι} {i : ι}

/-- The invariant of a run. -/
structure CycleInv (engine : IterationEngine) (dry : ι → Bool) (w : IterationWorld)
    (c : Cycles ι) : Prop where
  conforms : ∀ j, (c.rest j).wp cyclePhases (PhaseAllows engine)
    (fun r v => ∃ result, r = .ok result ∧ CycleView.Ends (dry j) result v) (c.phase j)
  isDry : ∀ j, (c.phase j).1 = dry j
  dryEarly : ∀ j, dry j = true → (c.phase j).2.Early
  outside : ∀ path, isEditableFile path = false → c.state.files path = w.files path
  quiet : (∀ j, (c.phase j).2.Early) → c.state = w
  stamped : c.state.lastIteration ≠ w.lastIteration → ∃ j n b, (c.phase j).2 = .finished n b

theorem CycleInv.start : CycleInv engine dry w (startCycles lib engine dry w) where
  conforms j := wp_selfIterationCallback (dry j)
  isDry _ := rfl
  dryEarly _ _ := .inl rfl
  outside _ _ := rfl
  quiet _ := rfl
  stamped h := absurd rfl h

theorem CycleInv.safe (h : CycleInv engine dry w c) : CyclesSafe engine dry w c where
  outside := h.outside
  -- a dry run never gets to the edits
  quiet hearly := h.quiet fun j => (hearly j).elim id (h.dryEarly j)
  stamped := h.stamped
  allowed j e k hrest := by
    have hj := h.conforms j
    rw [hrest] at hj
    exact hj.1
  ends j result hrest := by
    have hj := h.conforms j
    rw [hrest] at hj
    obtain ⟨result', hresult, hends⟩ := hj
    obtain rfl := Except.ok.inj hresult
    exact hends
  returns j result hrest := by
    have hj := h.conforms j
    rw [hrest] at hj
    obtain ⟨result', hresult, -⟩ := hj
    cases hresult

/-- Phases do not go back. -/
theorem early_of_next {φ : CyclePhase} {e : IterEff} {x : e.Ans} (h : (φ.next e x).Early) :
    φ.Early := by
  cases φ with
  | rating => exact .inl rfl
  | planning => exact .inr rfl
  | _ => cases e <;> rcases h with h | h <;> cases h

/-- A cycle that has finished does not go on. -/
theorem next_finished {n : Nat} {b : Bool} {e : IterEff} {x : e.Ans} :
    (CyclePhase.finished n b).next e x = .finished n b := by
  cases e <;> rfl

/-- Only in later phases a file is written or the time is stamped. -/
theorem next_eq_self {v : CycleView} {e : IterEff} {x : e.Ans} (hallowed : PhaseAllows engine v e)
    (hearly : v.2.Early) (s : IterationWorld) : s.next e x = s := by
  cases e with
  | writeFile path content =>
    obtain ⟨-, -, n, hn⟩ := hallowed
    rcases hearly with h | h <;> cases hn.symm.trans h
  | stamp =>
    obtain ⟨-, ⟨n, hn⟩ | ⟨n, -, hn⟩⟩ := hallowed
    · rcases hearly with h | h <;> cases hn.symm.trans h
    · rcases hearly with h | h <;> cases hn.symm.trans h
  | _ => rfl

/-- A file that may not be edited is not written. -/
theorem files_next {v : CycleView} {e : IterEff} {x : e.Ans} (hallowed : PhaseAllows engine v e)
    {path : Bytes} (hpath : isEditableFile path = false) (s : IterationWorld) :
    (s.next e x).files path = s.files path := by
  cases e with
  | writeFile target content =>
    obtain ⟨-, heditable, -⟩ := hallowed
    -- the target is one of the six files, and this path is none
    have hne : path ≠ target := by
      rintro rfl
      cases heditable.symm.trans hpath
    show (Aestival.writeFile s.files target content x).1 path = _
    cases x with
    | notOpened => rfl
    | written => exact Function.update_of_ne hne ..
    | failed reached => exact Function.update_of_ne hne ..
    | lost reached => exact Function.update_of_ne hne ..
  | _ => rfl

variable [DecidableEq ι] {e : IterEff} {x : e.Ans}

theorem CycleInv.step (h : CycleInv engine dry w c)
    (hstep : Pool.Step IterationWorld.machine cyclePhases c i e x c') :
    CycleInv engine dry w c' := by
  have hstate : c'.state = c.state.next e x := hstep.state_eq
  have hself : c'.phase i = ((c.phase i).1, (c.phase i).2.next e x) := hstep.phase_self
  have hallowed : PhaseAllows engine (c.phase i) e := Pool.Verified.demand h.conforms hstep
  have hisDry : ∀ j, (c'.phase j).1 = dry j := by
    intro j
    by_cases hj : j = i
    · rw [hj, hself]
      exact h.isDry i
    · rw [hstep.phase_of_ne hj]
      exact h.isDry j
  -- a cycle whose phase is early now was in an early phase before
  have hback : ∀ j, (c'.phase j).2.Early → (c.phase j).2.Early := by
    intro j hj
    by_cases hji : j = i
    · rw [hji, hself] at hj
      exact hji ▸ early_of_next hj
    · rwa [hstep.phase_of_ne hji] at hj
  refine ⟨?_, hisDry, ?_, ?_, ?_, ?_⟩
  · exact Pool.Verified.step h.conforms hstep trivial
  · intro j hdry
    by_cases hj : j = i
    · subst hj
      rw [hself]
      have hearly := h.dryEarly j hdry
      have hdry' : (c.phase j).1 = true := (h.isDry j).trans hdry
      show CyclePhase.Early ((c.phase j).2.next e x)
      -- a dry run leaves the first phase by the only command it may run
      rcases hearly with hφ | hφ
      · rw [hφ]
        cases e <;> first | exact .inl rfl | exact .inr rfl
      · cases e with
        | exec cmd timeout => cases (hallowed.2 hdry').symm.trans hφ
        | _ =>
          rw [hφ]
          exact .inr rfl
    · rw [hstep.phase_of_ne hj]
      exact h.dryEarly j hdry
  · intro path hpath
    rw [hstate, files_next hallowed hpath]
    exact h.outside path hpath
  · intro hearly
    rw [hstate, next_eq_self hallowed (hback i (hearly i))]
    exact h.quiet fun j => hback j (hearly j)
  · intro hchanged
    by_cases hstamp : e = .stamp
    · -- the cycle that sets the time has finished
      subst hstamp
      refine ⟨i, ?_⟩
      rw [hself]
      obtain ⟨-, ⟨n, hn⟩ | ⟨n, -, hn⟩⟩ := hallowed
      · exact ⟨n, false, by rw [hn]; rfl⟩
      · exact ⟨n, true, by rw [hn]; rfl⟩
    · have hsame : c'.state.lastIteration = c.state.lastIteration := by
        rw [hstate]
        cases e with
        | stamp => exact absurd rfl hstamp
        | _ => rfl
      obtain ⟨j, n, b, hj⟩ := h.stamped (hsame ▸ hchanged)
      refine ⟨j, n, b, ?_⟩
      by_cases hji : j = i
      · rw [hji, hself]
        rw [hji] at hj
        show (c.phase i).2.next e x = _
        rw [hj, next_finished]
      · rw [hstep.phase_of_ne hji]
        exact hj

end Cycles

/-- **Cycles side by side are safe**: in every run, whatever the database, the files, Claude Code
and `git` answer, a dry run changes nothing, a cycle changes editable files only, after it has asked
for a plan, it commits only what it has counted, and its result says so. -/
theorem cyclesSafe {ι : Type} [DecidableEq ι] {lib : IterationLibrary} {engine : IterationEngine}
    {dry : ι → Bool} {w : IterationWorld} {c : Cycles ι}
    (hrun : Pool.Run IterationWorld.machine cyclePhases (fun _ _ _ _ => True)
      (startCycles lib engine dry w) c) : CyclesSafe engine dry w c :=
  (hrun.invariant Cycles.CycleInv.start fun hinv hstep _ => hinv.step hstep).safe

/-- The cycle that edits has run next to a dry run. -/
theorem editing_cycle_safe : ∃ c : Cycles Bool, CyclesSafe smallEngine id newWorkspace c ∧
    c.state.files (utf8 "SOUL.md") = some (utf8 "\nbe kind") ∧
    (c.phase false).2 = .finished 1 true := by
  have hexec := exec_simulate admits_editingAnswer newWorkspace (runCycle smallLibrary smallEngine)
  let any : Cycles Bool → Bool → (e : IterEff) → e.Ans → Prop := fun _ _ _ _ => True
  have hany : ∀ (c : Cycles Bool), ∀ ev ∈ editingCycle.1, c.state = ev.pre →
      any c false ev.eff ev.ans := fun _ _ _ _ => trivial
  obtain ⟨c, hrun, hstate, hphase, -⟩ := Pool.Run.of_exec_end (P := cyclePhases)
    (c := startCycles smallLibrary smallEngine id newWorkspace) .start hexec rfl rfl hany
  refine ⟨c, cyclesSafe hrun, ?_, ?_⟩
  · rw [hstate]
    decide +kernel
  · rw [hphase]
    decide +kernel

end Aestival
