import Aestival.Chat.SqliteRefinement
import Aestival.Library.Transactions

/-!
# The SQLite backend when statements fail

`save` and `migrate_schema` execute several statements between a `BEGIN` and a `COMMIT`, and do not
look at what `sqlite3_step` and `sqlite3_exec` return. Each statement may fail (`SaveOutcomes`,
`MigrateOutcomes`); what it does then is said by `Connection`.

They should be all or nothing. `updates_iff` is what holds: a `save` that is committed has replaced
the conversation only if its deletion and every insertion succeed, and a migration that drops the
old table has kept a row only if the copy and the renaming succeed. What is left in the other cases
is the old content by accident only.
-/

namespace Aestival

open Bytes

/-! ### `save` -/

/-- Which statements of a `save` succeed. `insert i` is the step for the `i`-th message. -/
structure SaveOutcomes where
  begins : Bool
  prepareDelete : Bool
  delete : Bool
  prepareInsert : Bool
  insert : Nat → Bool
  commit : Bool
  rollback : Bool

/-- The loop over the messages, from the `i`-th on. -/
def insertSteps (o : SaveOutcomes) (now : Int) (c : Bytes) :
    Nat → List ChatMessage → Connection SqliteBackend → Connection SqliteBackend
  | _, [], conn => conn
  | i, m :: msgs, conn =>
    insertSteps o now c (i + 1) msgs
      (conn.write (o.insert i) fun db => some (db.insert c m (now + i)))

/-- `save`, on a connection to a database with the current table. -/
def saveSteps (o : SaveOutcomes) (now : Int) (c : Bytes) (msgs : List ChatMessage)
    (conn : Connection SqliteBackend) : Connection SqliteBackend :=
  let conn := conn.beginTransaction o.begins
  if o.prepareDelete = false then conn.rollback o.rollback
  else
    let conn := conn.write o.delete fun db => some (db.deleteConvo c)
    if msgs = [] then conn.commit o.commit
    else if o.prepareInsert = false then conn.rollback o.rollback
    else (insertSteps o now c 0 msgs conn).commit o.commit

/-- The list of a conversation: the messages of its rows. -/
def SqliteBackend.messagesOf (db : SqliteBackend) (c : Bytes) : List ChatMessage :=
  (db.rowsOf c).map Row.message

/-- The committed list is the old one or exactly the new one. -/
def AllOrNothing (c : Bytes) (msgs : List ChatMessage) (before after : Connection SqliteBackend) :
    Prop :=
  after.committed.messagesOf c = before.committed.messagesOf c ∨ after.committed.messagesOf c = msgs

/-! ### `migrate_schema` -/

/-- The table `messages`, with or without the columns for tools. -/
structure MessagesTable where
  toolColumns : Bool
  table : SqliteBackend
  plain : toolColumns = false → ∀ r ∈ table.rows, r.toolCallId = [] ∧ r.toolCallsJson = []

/-- The tables that a migration is about. -/
structure MessageTables where
  messages : Option MessagesTable
  messagesV2 : Option SqliteBackend

/-- Which statements of a migration succeed. `info i` is the `i`-th step over the columns. -/
structure MigrateOutcomes where
  prepareInfo : Bool
  info : Nat → Bool
  begins : Bool
  create : Bool
  copy : Bool
  drop : Bool
  rename : Bool
  commit : Bool

/-- The columns, as `PRAGMA table_info` lists them. -/
def MessagesTable.columns (t : MessagesTable) : List Bytes :=
  [utf8 "id", utf8 "convo_id", utf8 "role", utf8 "nick", utf8 "content"] ++
    (if t.toolColumns then [utf8 "tool_call_id", utf8 "tool_calls_json"] else []) ++
    [utf8 "created_at"]

/-- The loop over the columns, from the `i`-th on. -/
def findsToolCallId (o : MigrateOutcomes) : Nat → List Bytes → Bool
  | _, [] => false
  | i, col :: cols =>
    if o.info i then col = utf8 "tool_call_id" || findsToolCallId o (i + 1) cols else false

/-- `has_tool_call_id`. -/
def hasToolCallId (o : MigrateOutcomes) (db : MessageTables) : Bool :=
  o.prepareInfo && findsToolCallId o 0 (db.messages.elim [] MessagesTable.columns)

/-- A row as it is copied. -/
def Row.copied (r : Row) : Row := { r with toolCallId := [], toolCallsJson := [] }

namespace MessageTables

/-- `CREATE TABLE messages_v2`. -/
def createV2 (db : MessageTables) : Option MessageTables :=
  match db.messagesV2 with
  | some _ => none
  | none => some { db with messagesV2 := some .empty }

/-- `INSERT INTO messages_v2 (…) SELECT … FROM messages`. An id that is there already is refused. -/
def copyMessages (db : MessageTables) : Option MessageTables :=
  match db.messages, db.messagesV2 with
  | some t, some v2 =>
    if ∀ r ∈ t.table.rows, ∀ r' ∈ v2.rows, r.id ≠ r'.id then
      some { db with
        messagesV2 := some {
          rows := v2.rows ++ t.table.rows.map Row.copied
          lastId := (t.table.rows.map Row.id).foldl max v2.lastId } }
    else none
  | _, _ => none

/-- `DROP TABLE messages`. -/
def dropMessages (db : MessageTables) : Option MessageTables :=
  match db.messages with
  | some _ => some { db with messages := none }
  | none => none

/-- `ALTER TABLE messages_v2 RENAME TO messages`. -/
def renameV2 (db : MessageTables) : Option MessageTables :=
  match db.messages, db.messagesV2 with
  | none, some v2 => some {
      messages := some { toolColumns := true, table := v2, plain := fun h => by cases h }
      messagesV2 := none }
  | _, _ => none

/-- The rows of the table `messages`, if it is there. -/
def messageRows (db : MessageTables) : List Row := db.messages.elim [] fun t => t.table.rows

/-- The rows of the table `messages_v2`. -/
def rowsV2 (db : MessageTables) : List Row := db.messagesV2.elim [] SqliteBackend.rows

end MessageTables

open MessageTables

/-- `migrate_schema`, on a connection that was just opened. -/
def migrateSchema (o : MigrateOutcomes) (db : MessageTables) : Connection MessageTables :=
  let conn : Connection MessageTables := { committed := db }
  if hasToolCallId o db then conn
  else
    ((((((conn.beginTransaction o.begins).write o.create createV2).write o.copy copyMessages).write
      o.drop dropMessages).write o.rename renameV2).commit o.commit)

/-- Every row of `messages` is still there. -/
def KeepsRows (before after : MessageTables) : Prop :=
  ∀ r ∈ before.messageRows, r ∈ after.messageRows

/-! ### When an update is all or nothing -/

/-- A message as it is stored: every text ends at its first NUL. -/
def ChatMessage.stored (m : ChatMessage) : ChatMessage where
  role := m.role
  senderNick := cStr m.senderNick
  content := cStr m.content
  toolCallId := cStr m.toolCallId
  toolCallsJson := cStr m.toolCallsJson

/-- The messages whose insertion succeeds, as they are stored. -/
def acceptedFrom (o : SaveOutcomes) : Nat → List ChatMessage → List ChatMessage
  | _, [] => []
  | i, m :: msgs =>
    if o.insert i then m.stored :: acceptedFrom o (i + 1) msgs else acceptedFrom o (i + 1) msgs

/-- None of them, if the insertion cannot be prepared. -/
def accepted (o : SaveOutcomes) (msgs : List ChatMessage) : List ChatMessage :=
  if o.prepareInsert then acceptedFrom o 0 msgs else []

/-- What `save` has written is committed: it gets to its end and `COMMIT` succeeds, or it is in no
transaction. -/
def SaveCommitted (o : SaveOutcomes) (msgs : List ChatMessage) (conn : Connection SqliteBackend) :
    Prop :=
  o.prepareDelete = true ∧
    (conn.InTransaction o.begins → (msgs = [] ∨ o.prepareInsert = true) ∧ o.commit = true)

/-- Every insertion succeeds, of texts without NUL. -/
def EveryInsert (o : SaveOutcomes) (msgs : List ChatMessage) : Prop :=
  (msgs = [] ∨ o.prepareInsert = true) ∧ (∀ i < msgs.length, o.insert i = true) ∧
    ∀ m ∈ msgs, m.stored = m

/-- If something is committed, then all of it; or what was there and what was accepted happen to be
the old or the new list. -/
def PlainSave (o : SaveOutcomes) (c : Bytes) (msgs : List ChatMessage)
    (conn : Connection SqliteBackend) : Prop :=
  SaveCommitted o msgs conn →
    (o.delete = true → EveryInsert o msgs ∨ accepted o msgs = conn.committed.messagesOf c) ∧
    (o.delete = false →
      conn.visible.messagesOf c ++ accepted o msgs = conn.committed.messagesOf c ∨
        conn.visible.messagesOf c ++ accepted o msgs = msgs)

/-- The rows of `messages` are copied: the copy succeeds, there is a table to copy them to, and none
of their ids is in it. -/
def Copied (o : MigrateOutcomes) (db : MessageTables) : Prop :=
  o.copy = true ∧ (o.create = true ∨ db.messagesV2 ≠ none) ∧
    ∀ r ∈ db.messageRows, ∀ r' ∈ db.rowsV2, r.id ≠ r'.id

/-- The migration is not begun, or leaves the table, or every row is in the one that gets its name:
it is copied and loses nothing, or it was there before. -/
def PlainMigration (o : MigrateOutcomes) (db : MessageTables) : Prop :=
  hasToolCallId o db = true ∨ o.drop = false ∨
    ∀ r ∈ db.messageRows, o.rename = true ∧ (r ∈ db.rowsV2 ∨ Copied o db ∧ r.copied = r)

/-! ### What `save` leaves -/

section Save

variable {o : SaveOutcomes} {now : Int} {c : Bytes} {msgs : List ChatMessage}
  {conn : Connection SqliteBackend} {db : SqliteBackend}

theorem cStr_cStr (s : Bytes) : cStr (cStr s) = cStr s :=
  List.takeWhile_idem

theorem messagesOf_insert (m : ChatMessage) (t : Int) :
    (db.insert c m t).messagesOf c = db.messagesOf c ++ [m.stored] := by
  simp [SqliteBackend.messagesOf, SqliteBackend.rowsOf, SqliteBackend.insert, Row.message,
    ChatMessage.stored, cStr_cStr]

/-- The content behind the insertions. -/
def insertAccepted (o : SaveOutcomes) (now : Int) (c : Bytes) :
    Nat → List ChatMessage → SqliteBackend → SqliteBackend
  | _, [], db => db
  | i, m :: msgs, db =>
    insertAccepted o now c (i + 1) msgs (if o.insert i then db.insert c m (now + i) else db)

theorem insertSteps_set (i : Nat) (msgs : List ChatMessage) (db : SqliteBackend) :
    insertSteps o now c i msgs (conn.set db) = conn.set (insertAccepted o now c i msgs db) := by
  induction msgs generalizing i db with
  | nil => rfl
  | cons m msgs ih =>
    rw [insertSteps, Connection.write_set, ih]
    rfl

theorem messagesOf_insertAccepted (i : Nat) (msgs : List ChatMessage) (db : SqliteBackend) :
    (insertAccepted o now c i msgs db).messagesOf c =
      db.messagesOf c ++ acceptedFrom o i msgs := by
  induction msgs generalizing i db with
  | nil => exact (List.append_nil _).symm
  | cons m msgs ih =>
    rw [insertAccepted, acceptedFrom, ih]
    split
    · rw [messagesOf_insert, List.append_assoc]
      rfl
    · rfl

theorem accepted_nil : accepted o [] = [] := by
  rw [accepted]
  split <;> rfl

/-- What the connection sees of the conversation behind the deletion. -/
theorem messagesOf_effect_delete :
    (Connection.effect o.delete (fun db => some (db.deleteConvo c)) db).messagesOf c =
      if o.delete then [] else db.messagesOf c := by
  rw [Connection.effect]
  split
  · show ((db.deleteConvo c).rowsOf c).map Row.message = []
    rw [SqliteBackend.rowsOf_deleteConvo_self, List.map_nil]
  · rfl

/-- The deletion replaces what the connection sees. -/
theorem write_delete : (conn.beginTransaction o.begins).write o.delete
    (fun db => some (db.deleteConvo c)) = (conn.beginTransaction o.begins).set
      (Connection.effect o.delete (fun db => some (db.deleteConvo c)) conn.visible) := by
  rw [Connection.write, Connection.visible_beginTransaction]

/-- The committed list behind a `save` that is committed, and behind one that is not. -/
theorem messagesOf_saveSteps (o : SaveOutcomes) (now : Int) (c : Bytes) (msgs : List ChatMessage)
    (conn : Connection SqliteBackend) :
    (SaveCommitted o msgs conn → (saveSteps o now c msgs conn).committed.messagesOf c =
      (if o.delete then [] else conn.visible.messagesOf c) ++ accepted o msgs) ∧
    (¬ SaveCommitted o msgs conn →
      (saveSteps o now c msgs conn).committed.messagesOf c = conn.committed.messagesOf c) := by
  simp only [saveSteps, write_delete]
  cases hprepare : o.prepareDelete with
  | false =>
    refine ⟨fun h => absurd h.1 (by simp [hprepare]), fun _ => ?_⟩
    rw [if_pos rfl, Connection.committed_rollback]
  | true =>
    rw [if_neg (by simp)]
    -- no insertion is prepared for an empty list
    by_cases hmsgs : msgs = []
    · subst hmsgs
      rw [if_pos rfl, Connection.committed_set_commit, accepted_nil, List.append_nil]
      constructor
      · rintro ⟨-, hcommit⟩
        rw [if_neg fun h => by simp [(hcommit h.1).2] at h]
        exact messagesOf_effect_delete
      · intro hnot
        rw [if_pos]
        by_contra h
        exact hnot ⟨hprepare, fun htx => ⟨.inl rfl, by simpa [htx] using h⟩⟩
    · rw [if_neg hmsgs]
      cases hinsert : o.prepareInsert with
      | false =>
        -- `ROLLBACK`, which does nothing where no transaction has begun
        rw [if_pos rfl, Connection.committed_set_rollback, accepted, hinsert]
        constructor
        · rintro ⟨-, hcommit⟩
          rw [if_neg fun h => by simpa [hmsgs, hinsert] using (hcommit h).1,
            messagesOf_effect_delete]
          exact (List.append_nil _).symm
        · intro hnot
          rw [if_pos]
          by_contra h
          exact hnot ⟨hprepare, fun htx => absurd htx h⟩
      | true =>
        rw [if_neg (by simp), insertSteps_set, Connection.committed_set_commit, accepted, hinsert,
          if_pos rfl]
        constructor
        · rintro ⟨-, hcommit⟩
          rw [if_neg fun h => by simp [(hcommit h.1).2] at h, messagesOf_insertAccepted,
            messagesOf_effect_delete]
        · intro hnot
          rw [if_pos]
          by_contra h
          exact hnot ⟨hprepare, fun htx => ⟨.inr hinsert, by simpa [htx] using h⟩⟩

theorem length_acceptedFrom_le (i : Nat) (msgs : List ChatMessage) :
    (acceptedFrom o i msgs).length ≤ msgs.length := by
  induction msgs generalizing i with
  | nil => exact Nat.le_refl 0
  | cons m msgs ih =>
    rw [acceptedFrom]
    split
    · exact Nat.succ_le_succ (ih (i + 1))
    · exact Nat.le_succ_of_le (ih (i + 1))

/-- A part of the messages is all of them if nothing is left out or cut. -/
theorem acceptedFrom_eq_iff (i : Nat) (msgs : List ChatMessage) : acceptedFrom o i msgs = msgs ↔
    (∀ j < msgs.length, o.insert (i + j) = true) ∧ ∀ m ∈ msgs, m.stored = m := by
  induction msgs generalizing i with
  | nil => simp [acceptedFrom]
  | cons m msgs ih =>
    rw [acceptedFrom]
    cases hi : o.insert i with
    | false =>
      refine iff_of_false (fun h => ?_) fun h => ?_
      -- what is left of the others is too short
      · have hle := length_acceptedFrom_le (o := o) (i + 1) msgs
        rw [if_neg Bool.false_ne_true] at h
        rw [h, List.length_cons] at hle
        omega
      · have hfirst := h.1 0 (Nat.succ_pos _)
        rw [Nat.add_zero, hi] at hfirst
        cases hfirst
    | true =>
      rw [if_pos rfl, List.cons.injEq, ih (i + 1), List.forall_mem_cons]
      constructor
      · rintro ⟨hm, hsteps, hmsgs⟩
        refine ⟨fun j hj => ?_, hm, hmsgs⟩
        cases j with
        | zero => exact hi
        | succ j =>
          have hstep := hsteps j (Nat.lt_of_succ_lt_succ hj)
          rwa [Nat.add_right_comm] at hstep
      · rintro ⟨hsteps, hm, hmsgs⟩
        refine ⟨hm, fun j hj => ?_, hmsgs⟩
        have hstep := hsteps (j + 1) (Nat.succ_lt_succ hj)
        rwa [← Nat.add_assoc, Nat.add_right_comm] at hstep

theorem accepted_eq_iff : accepted o msgs = msgs ↔ EveryInsert o msgs := by
  rw [accepted, EveryInsert]
  cases hinsert : o.prepareInsert with
  | false =>
    rw [if_neg Bool.false_ne_true]
    constructor
    · rintro rfl
      exact ⟨.inl rfl, fun i hi => absurd hi (Nat.not_lt_zero i), fun m hm => by cases hm⟩
    · rintro ⟨hmsgs, -⟩
      -- nothing is accepted, so nothing was to be saved
      simpa [eq_comm] using hmsgs
  | true =>
    rw [if_pos rfl, acceptedFrom_eq_iff]
    simp

/-- A `save` is all or nothing exactly in these cases. -/
theorem allOrNothing_iff (o : SaveOutcomes) (now : Int) (c : Bytes) (msgs : List ChatMessage)
    (conn : Connection SqliteBackend) :
    AllOrNothing c msgs conn (saveSteps o now c msgs conn) ↔ PlainSave o c msgs conn := by
  obtain ⟨hsaved, hkept⟩ := messagesOf_saveSteps o now c msgs conn
  rw [AllOrNothing, PlainSave]
  by_cases hcommitted : SaveCommitted o msgs conn
  · rw [hsaved hcommitted]
    cases o.delete with
    | false => simp [hcommitted]
    | true => simp [hcommitted, accepted_eq_iff, or_comm]
  -- the old list is one of the two that are allowed
  · rw [hkept hcommitted]
    exact iff_of_true (.inl rfl) fun h => absurd h hcommitted

end Save

/-! ### What a migration leaves -/

section Migrate

variable {o : MigrateOutcomes} {db : MessageTables}

/-- The tables behind the copy. -/
def copiedTables (o : MigrateOutcomes) (db : MessageTables) : MessageTables :=
  Connection.effect o.copy copyMessages (Connection.effect o.create createV2 db)

/-- The tables behind all statements. -/
def migratedTables (o : MigrateOutcomes) (db : MessageTables) : MessageTables :=
  Connection.effect o.rename renameV2 (Connection.effect o.drop dropMessages (copiedTables o db))

theorem messages_copyMessages (ok : Bool) (db : MessageTables) :
    (Connection.effect ok copyMessages db).messages = db.messages := by
  obtain ⟨_ | t, _ | v2⟩ := db <;> cases ok <;> try rfl
  simp only [Connection.effect, if_pos, copyMessages]
  split <;> rfl

/-- The old table is not touched up to the copy. -/
theorem messages_copiedTables (o : MigrateOutcomes) (db : MessageTables) :
    (copiedTables o db).messages = db.messages := by
  rw [copiedTables, messages_copyMessages]
  obtain ⟨messages, _ | v2⟩ := db <;> cases o.create <;> rfl

/-- What is in the new table: the rows that were there and, if they are copied, those of the old
one. -/
theorem mem_rowsV2_copiedTables {r : Row} : r ∈ (copiedTables o db).rowsV2 ↔
    r ∈ db.rowsV2 ∨ Copied o db ∧ r ∈ db.messageRows.map Row.copied := by
  obtain ⟨messages, v2⟩ := db
  rw [copiedTables, Copied]
  cases hcopy : o.copy with
  | false =>
    cases v2 <;> cases o.create <;> simp [Connection.effect, createV2, rowsV2, SqliteBackend.empty]
  | true =>
    cases messages with
    | none =>
      cases v2 <;> cases o.create <;>
        simp [Connection.effect, createV2, copyMessages, rowsV2, messageRows, SqliteBackend.empty]
    | some t =>
      cases v2 with
      | none =>
        cases o.create <;>
          simp [Connection.effect, createV2, copyMessages, rowsV2, messageRows, SqliteBackend.empty]
      | some v2 =>
        -- a table that is there is not created again
        have hcreate : Connection.effect o.create createV2 ⟨some t, some v2⟩ =
            ⟨some t, some v2⟩ := by
          cases o.create <;> rfl
        rw [hcreate]
        simp only [Connection.effect, if_pos, copyMessages, messageRows, rowsV2, Option.elim_some]
        split
        · next hids =>
          show r ∈ v2.rows ++ t.table.rows.map Row.copied ↔ _
          rw [List.mem_append]
          exact or_congr_right (and_iff_right ⟨trivial, .inr (Option.some_ne_none v2), hids⟩).symm
        -- the copy is refused as a whole
        · next hids => simp [hids]

/-- The rows that are left when the old table is dropped. -/
theorem messageRows_migratedTables (hdrop : o.drop = true) (hmessages : db.messages ≠ none) :
    (migratedTables o db).messageRows = if o.rename then (copiedTables o db).rowsV2 else [] := by
  have hmessages := (messages_copiedTables o db).trans_ne hmessages
  rw [migratedTables, hdrop]
  -- the drop succeeds, for the table is there; the renaming finds its name free
  generalize copiedTables o db = db' at *
  obtain ⟨_ | t, v2⟩ := db'
  · exact absurd rfl hmessages
  · cases v2 <;> cases o.rename <;> rfl

/-- Without the drop the old table stays: nothing can be renamed to it. -/
theorem messages_migratedTables (hdrop : o.drop = false) :
    (migratedTables o db).messages = db.messages ∨ db.messages = none := by
  rw [← messages_copiedTables o db, migratedTables, hdrop]
  generalize copiedTables o db = db'
  obtain ⟨_ | t, v2⟩ := db'
  -- the name is taken, so the renaming fails whatever it reports
  · exact .inr rfl
  · left
    cases v2 <;> cases o.rename <;> rfl

/-- A row that is copied is itself if it loses nothing. -/
theorem mem_map_copied {rows : List Row} {r : Row} (hr : r ∈ rows) :
    r ∈ rows.map Row.copied ↔ r.copied = r := by
  constructor
  · intro h
    obtain ⟨r', -, rfl⟩ := List.mem_map.mp h
    rfl
  · exact fun h => List.mem_map.mpr ⟨r, hr, h⟩

/-- What is kept by all statements of a migration. -/
theorem keepsRows_migratedTables :
    KeepsRows db (migratedTables o db) ↔ o.drop = false ∨
      ∀ r ∈ db.messageRows, o.rename = true ∧ (r ∈ db.rowsV2 ∨ Copied o db ∧ r.copied = r) := by
  by_cases hmessages : db.messages = none
  · -- there is nothing to keep
    have hnil : db.messageRows = [] := by
      rw [messageRows, hmessages]
      rfl
    rw [KeepsRows, hnil]
    exact iff_of_true (fun r hr => absurd hr List.not_mem_nil)
      (.inr fun r hr => absurd hr List.not_mem_nil)
  cases hdrop : o.drop with
  -- the old table is there still
  | false =>
    refine iff_of_true (fun r hr => ?_) (.inl rfl)
    rw [messageRows, (messages_migratedTables hdrop).resolve_right hmessages]
    exact hr
  -- only the renamed copy is left
  | true =>
    rw [KeepsRows, messageRows_migratedTables hdrop hmessages,
      or_iff_right (Bool.noConfusion : ¬ true = false)]
    refine forall₂_congr fun r hr => ?_
    -- which must exist, and hold the row
    cases o.rename with
    | false => simp
    | true =>
      rw [if_pos rfl, mem_rowsV2_copiedTables, mem_map_copied hr]
      exact (and_iff_right rfl).symm

/-- The migration amounts to one replacement of the tables. -/
theorem migrateSchema_of_not_has (h : hasToolCallId o db = false) :
    migrateSchema o db = (((Connection.mk db none).beginTransaction o.begins).set
      (migratedTables o db)).commit o.commit := by
  have hcreate : ((Connection.mk db none).beginTransaction o.begins).write o.create createV2 =
      ((Connection.mk db none).beginTransaction o.begins).set
        (Connection.effect o.create createV2 db) := by
    rw [Connection.write, Connection.visible_beginTransaction]
    rfl
  simp only [migrateSchema, h, Bool.false_eq_true, if_false]
  rw [hcreate, Connection.write_set, Connection.write_set, Connection.write_set]
  rfl

/-- What the connection sees behind a migration. -/
theorem keepsRows_visible_iff (o : MigrateOutcomes) (db : MessageTables) :
    KeepsRows db (migrateSchema o db).visible ↔ PlainMigration o db := by
  rw [PlainMigration]
  cases h : hasToolCallId o db with
  | false =>
    rw [migrateSchema_of_not_has h, Connection.visible_commit, Connection.visible_set,
      keepsRows_migratedTables, or_iff_right Bool.false_ne_true]
  | true =>
    rw [migrateSchema, h]
    exact iff_of_true (fun r hr => hr) (.inl rfl)

/-- What is committed behind a migration. -/
theorem keepsRows_committed_iff (o : MigrateOutcomes) (db : MessageTables) :
    KeepsRows db (migrateSchema o db).committed ↔
      o.begins = true ∧ o.commit = false ∨ PlainMigration o db := by
  rw [PlainMigration]
  cases h : hasToolCallId o db with
  | false =>
    rw [migrateSchema_of_not_has h, Connection.committed_set_commit,
      or_iff_right (a := false = true) Bool.false_ne_true, ← keepsRows_migratedTables]
    -- a connection that was just opened has no transaction left open
    have htx : (Connection.mk db none).InTransaction o.begins ↔ o.begins = true :=
      or_iff_right fun hne => hne rfl
    split
    · next hopen =>
      rw [htx] at hopen
      exact iff_of_true (fun r hr => hr) (.inl hopen)
    · next hopen =>
      rw [htx] at hopen
      rw [or_iff_right hopen]
  | true =>
    rw [migrateSchema, h]
    exact iff_of_true (fun r hr => hr) (.inr (.inl rfl))

end Migrate

/-- **The updates are all or nothing** exactly in these cases: a `save` of any list on any
connection, and a migration of any tables, as they are committed and as the connection sees them. -/
theorem updates_iff (o : SaveOutcomes) (now : Int) (c : Bytes) (msgs : List ChatMessage)
    (conn : Connection SqliteBackend) (p : MigrateOutcomes) (db : MessageTables) :
    (AllOrNothing c msgs conn (saveSteps o now c msgs conn) ↔ PlainSave o c msgs conn) ∧
      (KeepsRows db (migrateSchema p db).visible ↔ PlainMigration p db) ∧
      (KeepsRows db (migrateSchema p db).committed ↔
        p.begins = true ∧ p.commit = false ∨ PlainMigration p db) :=
  ⟨allOrNothing_iff o now c msgs conn, keepsRows_visible_iff p db, keepsRows_committed_iff p db⟩

/-- A `save` whose second insertion is refused. -/
def refusedInsert : SaveOutcomes where
  begins := true
  prepareDelete := true
  delete := true
  prepareInsert := true
  insert i := i ≠ 1
  commit := true
  rollback := true

/-- A migration whose copy fails. -/
def failedCopy : MigrateOutcomes where
  prepareInfo := true
  info _ := true
  begins := true
  create := true
  copy := false
  drop := true
  rename := true
  commit := true

/-- The tables of an old database with one message. -/
def oldTables : MessageTables where
  messages := some {
    toolColumns := false
    table := SqliteBackend.empty.insert (utf8 "c") { role := .user, content := utf8 "hi" } 0
    plain := fun _ => by decide }
  messagesV2 := none

/-- One message of two replaces the conversation, and the message of the old table is lost. -/
theorem failed_statements_commit :
    ¬ AllOrNothing (utf8 "c") [{ role := .user, content := utf8 "1" },
        { role := .assistant, content := utf8 "2" }] { committed := .empty }
      (saveSteps refusedInsert 0 (utf8 "c") [{ role := .user, content := utf8 "1" },
        { role := .assistant, content := utf8 "2" }] { committed := .empty }) ∧
    ¬ KeepsRows oldTables (migrateSchema failedCopy oldTables).committed := by
  constructor
  · rw [AllOrNothing]
    decide
  · rw [KeepsRows]
    decide

end Aestival
