import Mathlib.Init

/-!
# Transactions on one connection

A connection sees what is committed, or the working copy of the transaction it has opened. A
statement that fails has no effect, and leaves an open transaction open. Outside of a transaction a
statement commits by itself.

Whatever statements are executed, they amount to one replacement of what the connection sees
(`Connection.set`), and `Connection.committed_set_commit` and `Connection.committed_set_rollback`
say what is committed when they are over.
-/

/-- What is committed, and the working copy of a transaction. -/
structure Connection (σ : Type) where
  committed : σ
  opened : Option σ := none

namespace Connection

variable {σ : Type}

/-- What the connection sees. -/
def visible (c : Connection σ) : σ := c.opened.getD c.committed

/-- Replace what the connection sees. -/
def set (c : Connection σ) (s : σ) : Connection σ :=
  match c.opened with
  | some _ => { c with opened := some s }
  | none => { c with committed := s }

/-- `BEGIN`. It fails within a transaction. -/
def beginTransaction (ok : Bool) (c : Connection σ) : Connection σ :=
  if ok = true ∧ c.opened = none then { c with opened := some c.committed } else c

/-- What a statement makes of the content: nothing, if it fails or cannot be executed. -/
def effect (ok : Bool) (f : σ → Option σ) (s : σ) : σ := if ok then (f s).getD s else s

/-- A statement that writes. -/
def write (ok : Bool) (f : σ → Option σ) (c : Connection σ) : Connection σ :=
  c.set (effect ok f c.visible)

/-- `COMMIT`. It fails outside of a transaction. -/
def commit (ok : Bool) (c : Connection σ) : Connection σ :=
  match c.opened with
  | some s => if ok then { committed := s } else c
  | none => c

/-- `ROLLBACK`. -/
def rollback (ok : Bool) (c : Connection σ) : Connection σ :=
  match c.opened with
  | some _ => if ok then { committed := c.committed } else c
  | none => c

section Rules

variable {c : Connection σ} {s t : σ} {ok : Bool}

@[simp] theorem visible_set : (c.set s).visible = s := by
  obtain ⟨committed, _ | w⟩ := c <;> rfl

@[simp] theorem set_set : (c.set s).set t = c.set t := by
  obtain ⟨committed, _ | w⟩ := c <;> rfl

@[simp] theorem write_set {f : σ → Option σ} :
    (c.set s).write ok f = c.set (effect ok f s) := by
  rw [write, visible_set, set_set]

@[simp] theorem visible_beginTransaction : (c.beginTransaction ok).visible = c.visible := by
  obtain ⟨committed, _ | w⟩ := c <;> cases ok <;> rfl

/-- The connection is in a transaction behind a `BEGIN`. -/
def InTransaction (c : Connection σ) (begins : Bool) : Prop := c.opened ≠ none ∨ begins = true

instance (begins : Bool) : Decidable (c.InTransaction begins) :=
  decidable_of_iff (c.opened.isSome = true ∨ begins = true) <| by
    rw [InTransaction, Option.isSome_iff_ne_none]

/-- `COMMIT` does not change what is seen. -/
theorem visible_commit : (c.commit ok).visible = c.visible := by
  obtain ⟨committed, _ | w⟩ := c <;> cases ok <;> rfl

/-- Nothing is committed by a `BEGIN` and a `ROLLBACK`. -/
theorem committed_rollback (begins : Bool) :
    ((c.beginTransaction begins).rollback ok).committed = c.committed := by
  obtain ⟨committed, _ | w⟩ := c <;> cases begins <;> cases ok <;> rfl

/-- What is committed by a `BEGIN`, statements and a `COMMIT`. -/
theorem committed_set_commit (begins : Bool) :
    (((c.beginTransaction begins).set s).commit ok).committed =
      if c.InTransaction begins ∧ ok = false then c.committed else s := by
  obtain ⟨committed, _ | w⟩ := c <;> cases begins <;> cases ok <;> simp [InTransaction] <;> rfl

/-- What is committed by a `BEGIN`, statements and a `ROLLBACK`. -/
theorem committed_set_rollback (begins : Bool) :
    (((c.beginTransaction begins).set s).rollback ok).committed =
      if c.InTransaction begins then c.committed else s := by
  obtain ⟨committed, _ | w⟩ := c <;> cases begins <;> cases ok <;> simp [InTransaction] <;> rfl

end Rules

end Connection
