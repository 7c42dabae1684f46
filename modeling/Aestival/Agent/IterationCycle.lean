import Aestival.Agent.Improvements
import Aestival.Agent.Samples
import Aestival.Agent.SelfIteration
import Aestival.Library.Json
import Aestival.Library.Prog

/-!
# The cycle of the self-iteration engine

`self_iteration_engine::run` collects samples of conversations, has Claude Code rate them, decides
whether to improve, has it plan edits of the workspace, carries them out and commits them;
`dry_run` stops after the rating. Both are programs over the effects of a cycle (`IterEff`): the
query of the database, the files of the workspace, the prompt files, the commands, the clock.

An exception ends a cycle with the text of the exception in `error`, and what the result had been
filled with by then stays in it; so the exceptions of `run` carry the result.

Texts that are made by libraries are left open (`IterationLibrary`): the reader and the writer of
JSON, the arithmetic and the format of doubles. So are the texts that open and close the two
prompts.
-/

namespace Prog

variable {S : Signature} {ε ε' α σ : Type}

/-- Throw something else instead. -/
def mapThrow (f : ε → ε') : Prog S ε α → Prog S ε' α
  | .ret a => .ret a
  | .throw err => .throw (f err)
  | .op e k => .op e fun x => mapThrow f (k x)

/-- The result of a program with other exceptions. -/
def mapResult (f : ε → ε') : Except ε α → Except ε' α
  | .ok a => .ok a
  | .error err => .error (f err)

theorem wp_mapThrow {M : Machine S σ} {D : σ → S.Eff → Prop} {f : ε → ε'} {p : Prog S ε α}
    {Q : Except ε' α → σ → Prop} {s : σ} :
    wp M D (p.mapThrow f) Q s ↔ wp M D p (fun r s' => Q (mapResult f r) s') s := by
  induction p generalizing s with
  | ret a => exact Iff.rfl
  | throw err => exact Iff.rfl
  | op e k ih => exact and_congr_right fun _ => forall₂_congr fun x _ => ih x

end Prog

namespace Aestival

open Bytes Json Prog

/-! ### Texts -/

/-- What a cycle uses of libraries, and the templates of its prompts. -/
structure IterationLibrary where
  /-- `nlohmann::json::parse`, where `none` is a discarded value -/
  parse : Bytes → Option Json
  /-- `sj.dump(2)`, of samples whose texts are UTF-8 -/
  samplesJson : List ConversationSample → Bytes
  /-- the text of the exception an access throws -/
  what : AccessError → Bytes
  /-- that of `operator[]` on a value that has no fields -/
  whatIndex : Bytes
  /-- that of the writer on a text that is not UTF-8 -/
  whatUtf8 : Bytes
  /-- an integer as a double -/
  toDouble : Int → Rat
  /-- the sum of four doubles, divided by 4 -/
  average : Rat → Rat → Rat → Rat → Rat
  /-- a double as a stream writes it -/
  showDouble : Rat → Bytes
  /-- the texts in front of and behind what is put into the prompts -/
  evaluateRole : Bytes
  evaluateInstructions : Bytes
  improveRole : Bytes
  improveInstructions : Bytes

/-- Octets where a line ends. -/
def isSeparator (c : UInt8) : Bool := c = 10 || c = 13 || c = 12

/-- `^` of an expression between two octets: at the start of a text or of a line, but not within the
end of a line that has two octets. -/
def atLineStart (before : Option UInt8) (behind : UInt8) : Bool :=
  before.all fun b => isSeparator b && !(b = 13 && behind = 10)

/-- `$` of an expression between an octet and a text. -/
def atLineEnd (before : UInt8) : Bytes → Bool
  | [] => true
  | b :: _ => isSeparator b && !(before = 13 && b = 10)

/-- The length of a fence with the word `json` or without, and the blanks behind it. -/
def leadingFence (s : Bytes) : Option Nat :=
  if utf8 "```" <+: s then
    let word := if utf8 "json" <+: s.drop 3 then 7 else 3
    some (word + ((s.drop word).takeWhile isSpace).length)
  else none

/-- The length of a fence and as many blanks as reach up to the end of a line. -/
def trailingFence (s : Bytes) : Option Nat :=
  if utf8 "```" <+: s then
    let blanks := ((s.drop 3).takeWhile isSpace).length
    (((List.range (blanks + 1)).reverse.find? fun k =>
      atLineEnd (s.getD (k + 2) 0) (s.drop (k + 3)))).map (· + 3)
  else none

/-- Erase the first fence that stands at the start of a line. -/
def stripLeadingFence (before : Option UInt8) : Bytes → Bytes
  | [] => []
  | b :: s =>
    match if atLineStart before b then leadingFence (b :: s) else none with
    | some n => (b :: s).drop n
    | none => b :: stripLeadingFence (some b) s

/-- Erase the first fence that stands at the end of a line, with the end of the line before it. -/
def stripTrailingFence : Bytes → Bytes
  | [] => []
  | b :: s =>
    match if b = 10 then trailingFence s else none with
    | some n => s.drop n
    | none =>
      match trailingFence (b :: s) with
      | some n => (b :: s).drop n
      | none => b :: stripTrailingFence s

/-- `strip_json_fences`. -/
def stripJsonFences (s : Bytes) : Bytes := stripTrailingFence (stripLeadingFence none s)

/-! ### Data of a cycle -/

def kDefaultSampleCount : Nat := 10
def kImproveThreshold : Rat := 4
def kClaudeTimeoutSeconds : Nat := 120
def kMinSamples : Nat := 3

/-- What a cycle reads of the fields of `self_iteration_engine`. -/
structure IterationEngine where
  /-- the backend is a `sqlite_backend` -/
  sqlite : Bool
  workspacePath : Bytes

/-- `evaluation_report`. -/
structure EvaluationReport where
  avgToneScore : Rat := 0
  avgAccuracyScore : Rat := 0
  avgCompletenessScore : Rat := 0
  avgEfficiencyScore : Rat := 0
  safetyConcern : Bool := false
  rawJson : Bytes := []
  issues : List Bytes := []
  suggestions : List Bytes := []
  deriving DecidableEq, Repr

/-- `improvement_plan`, without the rationale, which nothing reads. -/
structure ImprovementPlan where
  summary : Bytes := []
  edits : List FileEdit := []
  deriving DecidableEq, Repr

/-- `iteration_result`. -/
structure IterationResult where
  executed : Bool := false
  dryRun : Bool := false
  timestamp : Bytes := []
  summary : Bytes := []
  avgToneScore : Rat := 0
  avgAccuracyScore : Rat := 0
  avgCompletenessScore : Rat := 0
  avgEfficiencyScore : Rat := 0
  samplesEvaluated : Nat := 0
  issuesFound : Nat := 0
  improvementsApplied : Nat := 0
  gitCommitHash : Bytes := []
  error : Bytes := []
  deriving DecidableEq, Repr

/-! ### Effects -/

/-- What a cycle does to its surroundings. -/
inductive IterEff where
  | nowIso
  /-- `query_recent_messages` -/
  | queryRecentMessages (limit : Int)
  /-- `read_workspace_file` -/
  | readWorkspaceFile (filename : Bytes)
  /-- a prompt is written to a file among the temporary ones -/
  | writePrompt (purpose prompt : Bytes)
  /-- `agent_reach_client::exec` -/
  | exec (cmd : Bytes) (timeout : Nat)
  /-- `std::filesystem::remove` of the file of a prompt -/
  | removePrompt (path : Bytes)
  /-- `read_file` of a file of the workspace -/
  | readFile (path : Bytes)
  /-- `write_file` of a file of the workspace -/
  | writeFile (path content : Bytes)
  /-- `last_iteration_ = now()` -/
  | stamp
  deriving DecidableEq

/-- The answers. What can throw is answered with the text of the exception, a prompt with the path
of its file, and the stamp with the time. -/
@[reducible] def IterEff.Ans : IterEff → Type
  | .nowIso => Bytes
  | .queryRecentMessages _ => List SampleRow
  | .readWorkspaceFile _ => Except Bytes Bytes
  | .writePrompt .. => Except Bytes Bytes
  | .exec .. => Bytes
  | .removePrompt _ => Unit
  | .readFile _ => Except Bytes Bytes
  | .writeFile .. => WriteEnd
  | .stamp => Int

/-- The signature of a cycle. -/
abbrev IterSig : Signature := ⟨IterEff, IterEff.Ans⟩

/-- A part of a cycle. It throws the text of an exception. -/
abbrev Iter (α : Type) := Prog IterSig Bytes α

/-- Perform one effect. -/
def doing (e : IterEff) : Iter e.Ans := Prog.perform (S := IterSig) e

/-- `write_file` has returned true. -/
def WriteEnd.counted : WriteEnd → Bool
  | .written | .lost _ => true
  | .notOpened | .failed _ => false

/-! ### Phase 1: collect -/

/-- `collect_samples`. -/
def collectSamples (engine : IterationEngine) (count : Nat) : Iter (List ConversationSample) :=
  if engine.sqlite then do
    let rows : List SampleRow ← doing (.queryRecentMessages (count * 3))
    pure (pairExchanges rows)
  else pure []

/-! ### Phase 2: evaluate -/

/-- One file of the guidelines, under its name. -/
def guideline (filename : Bytes) : Iter Bytes := do
  let content : Except Bytes Bytes ← doing (.readWorkspaceFile filename)
  let content ← .ofExcept content
  pure (utf8 "=== " ++ filename ++ utf8 " ===\n" ++ content ++ utf8 "\n\n")

/-- The guidelines, file by file. -/
def readGuidelines : List Bytes → Iter Bytes
  | [] => pure []
  | filename :: filenames => do
    let first ← guideline filename
    let rest ← readGuidelines filenames
    pure (first ++ rest)

/-- The command of Claude Code, with its prompt redirected from a file. -/
def claudeCommand (path : Bytes) : Bytes :=
  utf8 "claude -p --output-format json < " ++ stdQuoted path

/-- Write a prompt to a file, invoke Claude Code on it, and remove the file. -/
def askClaude (purpose prompt : Bytes) : Iter Bytes := do
  let written : Except Bytes Bytes ← doing (.writePrompt purpose prompt)
  let path ← .ofExcept written
  let raw : Bytes ← doing (.exec (claudeCommand path) kClaudeTimeoutSeconds)
  doing (.removePrompt path)
  pure raw

section Cycle

variable (lib : IterationLibrary) (engine : IterationEngine)

/-- `build_evaluate_prompt`. -/
def buildEvaluatePrompt (samplesJson guidelinesText toolsText : Bytes) : Bytes :=
  lib.evaluateRole ++ guidelinesText ++ utf8 "\n\n## Available Tools\n\n" ++ toolsText ++
    utf8 "\n\n## Conversation Samples\n\n" ++ samplesJson ++ lib.evaluateInstructions

/-- `build_improve_prompt`. -/
def buildImprovePrompt (evalJson guidelinesText samplesSummary : Bytes) : Bytes :=
  lib.improveRole ++ evalJson ++ utf8 "\n\n## Problematic Interactions\n\n" ++ samplesSummary ++
    utf8 "\n\n## Current Guidelines (files that may be edited)\n\n" ++ guidelinesText ++
    lib.improveInstructions

/-- A typed access, with the text of its exception. -/
def IterationLibrary.access {α : Type} (x : Except AccessError α) : Except Bytes α :=
  mapResult lib.what x

/-- `sj.dump(2)`. User messages and responses are sanitized, the conversation ids are not. -/
def dumpSamples (samples : List ConversationSample) : Except Bytes Bytes :=
  if samples.all fun s => s.convoId.validUtf8 then
    .ok (lib.samplesJson (samples.map fun s =>
      { s with
        userMessage := sanitizeUtf8 s.userMessage
        botResponse := sanitizeUtf8 s.botResponse }))
  else .error lib.whatUtf8

/-- `get<double>`. -/
def IterationLibrary.getDouble : Json → Except AccessError Rat
  | .int n => .ok (lib.toDouble n)
  | .float x => .ok x
  | _ => .error .wrongType

/-- `j[key]` on a value that may be changed: a `null` becomes an object first. -/
def IterationLibrary.index : Json → Bytes → Except Bytes Json
  | .obj fields, key => .ok ((fields.lookup key).getD .null)
  | .null, _ => .ok .null
  | _, _ => .error lib.whatIndex

/-- The strings of a field that is an array. -/
def stringsOf (j : Json) (key : Bytes) : List Bytes :=
  match j.find? key with
  | some (.arr elems) => elems.filterMap fun e => e.getStr.toOption
  | _ => []

/-- The scores, from the field `overall` where it is an object. -/
def readScores (report : EvaluationReport) (overall : Json) : Except Bytes EvaluationReport :=
  if overall.isObject then do
    let tone ← lib.access (overall.value lib.getDouble (utf8 "avg_tone") 0)
    let accuracy ← lib.access (overall.value lib.getDouble (utf8 "avg_accuracy") 0)
    let completeness ← lib.access (overall.value lib.getDouble (utf8 "avg_completeness") 0)
    let efficiency ← lib.access (overall.value lib.getDouble (utf8 "avg_efficiency") 0)
    pure { report with
      avgToneScore := tone
      avgAccuracyScore := accuracy
      avgCompletenessScore := completeness
      avgEfficiencyScore := efficiency }
  else pure report

/-- What `evaluate` makes of the answer of Claude Code. -/
def readReport (raw : Bytes) : Except Bytes EvaluationReport :=
  if raw = [] then
    .ok { issues := [utf8 "Claude Code 未返回评估结果（可能未安装或超时）"] }
  else
    let clean := stripJsonFences raw
    match lib.parse clean with
    | none => .ok { rawJson := clean, issues := [utf8 "Claude Code 返回了非JSON格式的评估结果"] }
    | some j => do
      let overall ← lib.index j (utf8 "overall")
      -- from here on a `null` is an object with the field `overall`
      let j := if j.isObject then j else .obj []
      let report ← readScores lib { rawJson := clean } overall
      let safetyConcern ← lib.access (j.value getBool (utf8 "safety_concern") false)
      pure { report with
        safetyConcern
        issues := stringsOf j (utf8 "issues")
        suggestions := stringsOf j (utf8 "suggestions") }

/-- `evaluate`. -/
def evaluate (samples : List ConversationSample) : Iter EvaluationReport := do
  let guidelines ← readGuidelines
    [utf8 "PROMPT.md", utf8 "SOUL.md", utf8 "AGENTS.md", utf8 "MEMORY.md"]
  let tools : Except Bytes Bytes ← doing (.readWorkspaceFile (utf8 "TOOLS.md"))
  let tools ← .ofExcept tools
  let sj ← .ofExcept (dumpSamples lib samples)
  let raw ← askClaude (utf8 "eval") (buildEvaluatePrompt lib sj guidelines tools)
  .ofExcept (readReport lib raw)

/-! ### Phase 3: decide -/

/-- `should_improve`. -/
def shouldImprove (report : EvaluationReport) : Bool :=
  report.safetyConcern ||
    lib.average report.avgToneScore report.avgAccuracyScore report.avgCompletenessScore
      report.avgEfficiencyScore < kImproveThreshold

/-! ### Phase 4: plan -/

/-- One element of `edits`. The reason is read, and only logged. -/
def readEdit (e : Json) : Except Bytes FileEdit := do
  let path ← lib.access (e.value getStr (utf8 "file") [])
  let oldContent ← lib.access (e.value getStr (utf8 "old_text") [])
  let newContent ← lib.access (e.value getStr (utf8 "new_text") [])
  let _ ← lib.access (e.value getStr (utf8 "reason") [])
  pure ⟨path, oldContent, newContent⟩

/-- The elements of `edits`. An edit of another file is dropped. -/
def readEdits : List Json → Except Bytes (List FileEdit)
  | [] => .ok []
  | e :: rest => do
    let edit ← readEdit lib e
    let edits ← readEdits rest
    pure (if isEditableFile edit.path then edit :: edits else edits)

/-- What `plan_improvements` makes of the answer of Claude Code. -/
def readPlan (raw : Bytes) : Except Bytes ImprovementPlan :=
  if raw = [] then .ok { summary := utf8 "Claude Code 未返回改进方案" }
  else
    match lib.parse (stripJsonFences raw) with
    -- an answer that is no JSON is a plan without edits
    | none => .ok {}
    | some j => do
      let summary ← lib.access (j.value getStr (utf8 "summary") [])
      -- the rationale is read and not used, but may throw
      let _ ← lib.access (j.value getStr (utf8 "rationale") [])
      match j.find? (utf8 "edits") with
      | some (.arr elems) => do
        let edits ← readEdits lib elems
        pure ⟨summary, edits⟩
      | _ => pure { summary }

/-- The issues and the suggestions, as a list. -/
def samplesSummary (eval : EvaluationReport) : Bytes :=
  utf8 "Issues found:\n" ++ eval.issues.flatMap (fun iss => utf8 "- " ++ iss ++ utf8 "\n") ++
    utf8 "\nSuggestions:\n" ++ eval.suggestions.flatMap (fun sug => utf8 "- " ++ sug ++ utf8 "\n")

/-- `plan_improvements`. -/
def planImprovements (eval : EvaluationReport) : Iter ImprovementPlan := do
  let guidelines ← readGuidelines [utf8 "PROMPT.md", utf8 "SOUL.md", utf8 "AGENTS.md",
    utf8 "TOOLS.md", utf8 "MEMORY.md", utf8 "USER.md"]
  let raw ← askClaude (utf8 "improve")
    (buildImprovePrompt lib eval.rawJson guidelines (samplesSummary eval))
  .ofExcept (readPlan lib raw)

/-! ### Phase 5: apply and commit -/

/-- `apply_improvements`: how many edits were counted. -/
def applyEdits : List FileEdit → Iter Nat
  | [] => pure 0
  | edit :: edits =>
    if isEditableFile edit.path then do
      let content : Except Bytes Bytes ← doing (.readFile edit.path)
      -- an edit that was counted before this throws is not reported
      let content ← .ofExcept content
      match edit.apply content with
      | some text => do
        let ended : WriteEnd ← doing (.writeFile edit.path text)
        let applied ← applyEdits edits
        pure (if ended.counted then applied + 1 else applied)
      | none => applyEdits edits
    else applyEdits edits

/-- The commands of `commit_changes` in front of the commit. -/
def addCommand (workspacePath : Bytes) : Bytes :=
  let pattern := workspacePath.map fun ch => if ch = 92 then 47 else ch
  let pattern := if pattern ≠ [] ∧ pattern.getLast? ≠ some 47 then pattern ++ utf8 "/" else pattern
  utf8 "git add " ++ shellQuote (pattern ++ utf8 "*.md")

/-- `commit_changes`. What `git` prints is only logged, the hash apart. -/
def commitChanges (summary : Bytes) : Iter Bytes := do
  let _ : Bytes ← doing (.exec (addCommand engine.workspacePath) 30)
  let _ : Bytes ← doing (.exec (utf8 "git add bot_config.json") 30)
  let _ : Bytes ← doing (.exec (commitCommand summary) 30)
  let hashOut : Bytes ← doing (.exec (utf8 "git rev-parse --short HEAD") 30)
  pure (trim hashOut)

/-! ### The cycle -/

/-- What throws now leaves the result so far, with the text of the exception. -/
def inTry {α : Type} (result : IterationResult) (p : Iter α) :
    Prog IterSig IterationResult α :=
  p.mapThrow fun what => { result with error := what }

/-- The result with the scores. -/
def IterationResult.withScores (result : IterationResult) (eval : EvaluationReport) :
    IterationResult :=
  { result with
    avgToneScore := eval.avgToneScore
    avgAccuracyScore := eval.avgAccuracyScore
    avgCompletenessScore := eval.avgCompletenessScore
    avgEfficiencyScore := eval.avgEfficiencyScore
    issuesFound := eval.issues.length }

/-- A cycle that has nothing more to do. -/
def IterationResult.done (result : IterationResult) (summary : Bytes) : IterationResult :=
  { result with summary, executed := true }

def tooFewSamples : Bytes := utf8 "样本不足（需要至少3条对话），跳过评估。"

/-- Phase 5, of a plan with edits. -/
def applyAndCommit (result : IterationResult) (plan : ImprovementPlan) :
    Prog IterSig IterationResult IterationResult := do
  let applied ← inTry result (applyEdits plan.edits)
  let result := { result with improvementsApplied := applied }
  let hash ← inTry result
    (if 0 < applied ∧ plan.summary ≠ [] then commitChanges engine plan.summary else pure [])
  let result := { result with gitCommitHash := hash }
  let summary := if plan.summary = [] then
    utf8 "已应用 " ++ utf8 (toString applied) ++ utf8 " 项改进。" else plan.summary
  let _ : Int ← inTry result (doing .stamp)
  pure (result.done summary)

/-- The `try` block of `run`. -/
def runPhases (result : IterationResult) : Prog IterSig IterationResult IterationResult := do
  -- an exception of any phase is caught with the result so far
  let samples ← inTry result (collectSamples engine kDefaultSampleCount)
  let result := { result with samplesEvaluated := samples.length }
  if samples.length < kMinSamples then pure (result.done tooFewSamples)
  else do
    let eval ← inTry result (evaluate lib samples)
    let result := result.withScores eval
    if shouldImprove lib eval then do
      let plan ← inTry result (planImprovements lib eval)
      if plan.edits = [] then pure (result.done (utf8 "Claude Code 未生成任何改进方案。"))
      else applyAndCommit engine result plan
    else pure (result.done (utf8 "质量评分良好，无需改进。"))

/-- `run`. -/
def runCycle : Prog IterSig IterationResult IterationResult := do
  let timestamp : Bytes ← inTry {} (doing .nowIso)
  (runPhases lib engine { timestamp }).tryCatch fun failed => pure failed

/-- The summary of `dry_run`. -/
def dryRunSummary (result : IterationResult) (eval : EvaluationReport) : Bytes :=
  utf8 "dry-run 评估完成: " ++ utf8 (toString result.samplesEvaluated) ++ utf8 " 条样本\n" ++
    utf8 "语气: " ++ lib.showDouble result.avgToneScore ++
    utf8 " | 准确: " ++ lib.showDouble result.avgAccuracyScore ++
    utf8 " | 完整: " ++ lib.showDouble result.avgCompletenessScore ++
    utf8 " | 效率: " ++ lib.showDouble result.avgEfficiencyScore ++
    if eval.issues = [] then []
    else utf8 "\n\n发现 " ++ utf8 (toString eval.issues.length) ++ utf8 " 个问题:\n" ++
      eval.issues.flatMap fun iss => utf8 "- " ++ iss ++ utf8 "\n"

/-- The `try` block of `dry_run`. -/
def dryRunPhases (result : IterationResult) : Prog IterSig IterationResult IterationResult := do
  let samples ← inTry result (collectSamples engine kDefaultSampleCount)
  let result := { result with samplesEvaluated := samples.length }
  if samples.length < kMinSamples then pure (result.done tooFewSamples)
  else do
    let eval ← inTry result (evaluate lib samples)
    let result := result.withScores eval
    pure (result.done (dryRunSummary lib result eval))

/-- `dry_run`. -/
def dryRunCycle : Prog IterSig IterationResult IterationResult := do
  let timestamp : Bytes ← inTry {} (doing .nowIso)
  (dryRunPhases lib engine { timestamp, dryRun := true }).tryCatch fun failed => pure failed

/-- The callback of `make_si_callback`, up to the text it makes of the result. -/
def selfIterationCallback (dry : Bool) : Prog IterSig IterationResult IterationResult :=
  if dry then dryRunCycle lib engine else runCycle lib engine

end Cycle

end Aestival
