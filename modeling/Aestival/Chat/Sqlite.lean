import Aestival.Chat.Storage
import Aestival.EncodeUtils
import Mathlib.Data.List.Sort
import Mathlib.Data.Set.Function

/-!
# The SQLite backend

`sqlite_backend` keeps one row of the table `messages` for each message. The table is the list of
its rows in the order they were inserted; `AUTOINCREMENT` gives every row an id larger than all ids
given out before (`lastId`). Texts are bound and read back as NUL-terminated strings.

The order of a conversation is not stored as such. `load` reconstructs it with
`ORDER BY created_at, id`, where `append_message` writes the clock's milliseconds into `created_at`
and `save` writes `now + i` into the row of its `i`-th message. A batch of `k` rows therefore
reaches `k - 1` milliseconds into the future, and a row appended within them sorts into the batch.

`InOrder` is the relation between a database and the list store it implements: the rows of a
conversation, in the order of insertion, have nondecreasing times and carry the list. Every call
preserves it (`InOrder.exec`) as long as an appended row is not older than the rows of its
conversation (`AppendsLast`), and `load` reads the list off it (`InOrder.load_eq`).
-/

namespace Aestival

open Bytes

/-! ### Rows -/

/-- A row of the table `messages`. -/
structure Row where
  id : Nat
  convoId : Bytes
  role : Role
  nick : Bytes
  content : Bytes
  toolCallId : Bytes
  toolCallsJson : Bytes
  createdAt : Int
  deriving DecidableEq, Repr

/-- The order of `ORDER BY created_at, id`. -/
def Row.Before (r s : Row) : Prop :=
  r.createdAt < s.createdAt ∨ r.createdAt = s.createdAt ∧ r.id ≤ s.id

instance : DecidableRel Row.Before := fun r s => by
  unfold Row.Before; infer_instance

/-- The message `load` builds from a row (`str_col` on each text column). -/
def Row.message (r : Row) : ChatMessage where
  role := r.role
  senderNick := cStr r.nick
  content := cStr r.content
  toolCallId := cStr r.toolCallId
  toolCallsJson := cStr r.toolCallsJson

/-! ### The backend -/

/-- `sqlite_backend`: the rows of its table in the order of insertion, and the largest id given
out. -/
structure SqliteBackend where
  rows : List Row
  lastId : Nat
  deriving DecidableEq, Repr

namespace SqliteBackend

/-- A freshly created table. -/
def empty : SqliteBackend := ⟨[], 0⟩

/-- `INSERT INTO messages (…) VALUES (…)`. -/
def insert (db : SqliteBackend) (convoId : Bytes) (m : ChatMessage) (createdAt : Int) :
    SqliteBackend where
  rows := db.rows ++ [{
    id := db.lastId + 1
    convoId := cStr convoId
    role := m.role
    nick := cStr m.senderNick
    content := cStr m.content
    toolCallId := cStr m.toolCallId
    toolCallsJson := cStr m.toolCallsJson
    createdAt }]
  lastId := db.lastId + 1

/-- `DELETE FROM messages WHERE convo_id = ?1`. -/
def deleteConvo (db : SqliteBackend) (convoId : Bytes) : SqliteBackend :=
  { db with rows := db.rows.filter fun r => r.convoId ≠ cStr convoId }

/-- The rows `WHERE convo_id = ?1` selects, in the order of insertion. -/
def rowsOf (db : SqliteBackend) (convoId : Bytes) : List Row :=
  db.rows.filter fun r => r.convoId = cStr convoId

/-- `load`: the rows of the conversation `ORDER BY created_at, id`. -/
def load (db : SqliteBackend) (convoId : Bytes) : List ChatMessage :=
  ((db.rowsOf convoId).insertionSort Row.Before).map Row.message

/-- The loop of `save`: the `i`-th message gets `created_at = now + i`. -/
def insertFrom (db : SqliteBackend) (convoId : Bytes) (now : Int) :
    Nat → List ChatMessage → SqliteBackend
  | _, [] => db
  | i, m :: ms => insertFrom (db.insert convoId m (now + i)) convoId now (i + 1) ms

/-- `save`: replace all rows of the conversation. -/
def save (db : SqliteBackend) (now : Int) (convoId : Bytes) (msgs : List ChatMessage) :
    SqliteBackend :=
  (db.deleteConvo convoId).insertFrom convoId now 0 msgs

/-- `append_message`: one row, with nick and content made valid UTF-8. -/
def appendMessage (db : SqliteBackend) (now : Int) (convoId : Bytes) (m : ChatMessage) :
    SqliteBackend :=
  db.insert convoId
    { m with senderNick := sanitizeUtf8 m.senderNick, content := sanitizeUtf8 m.content } now

/-- `clear_messages`. -/
def clearMessages (db : SqliteBackend) (convoId : Bytes) : SqliteBackend :=
  db.deleteConvo convoId

end SqliteBackend

/-! ### Runs -/

/-- A call of the interface and the millisecond the clock shows when it reads it. -/
structure TimedCall where
  now : Int
  call : StoreCall
  deriving DecidableEq, Repr

/-- One call on the database. -/
def SqliteBackend.exec (db : SqliteBackend) (tc : TimedCall) : SqliteBackend :=
  match tc.call with
  | .save c msgs => db.save tc.now c msgs
  | .appendMessage c m => db.appendMessage tc.now c m
  | .clearMessages c => db.clearMessages c

/-- A sequence of calls on the database. -/
def SqliteBackend.run (db : SqliteBackend) (calls : List TimedCall) : SqliteBackend :=
  calls.foldl SqliteBackend.exec db

/-- The same sequence of calls on the list store. -/
def ListStore.run (st : ListStore) (calls : List TimedCall) : ListStore :=
  calls.foldl (fun st tc => st.exec tc.call) st

/-- The texts of a message can be bound and read back unchanged: no NUL, and nick and content are
UTF-8. -/
structure TextOk (m : ChatMessage) : Prop where
  nick_nul : (0 : UInt8) ∉ m.senderNick
  nick_utf8 : validUtf8 m.senderNick = true
  content_nul : (0 : UInt8) ∉ m.content
  content_utf8 : validUtf8 m.content = true
  toolCallId_nul : (0 : UInt8) ∉ m.toolCallId
  toolCallsJson_nul : (0 : UInt8) ∉ m.toolCallsJson

instance (m : ChatMessage) : Decidable (TextOk m) :=
  decidable_of_iff
    ((0 : UInt8) ∉ m.senderNick ∧ validUtf8 m.senderNick = true ∧ (0 : UInt8) ∉ m.content ∧
      validUtf8 m.content = true ∧ (0 : UInt8) ∉ m.toolCallId ∧ (0 : UInt8) ∉ m.toolCallsJson)
    ⟨fun ⟨h₁, h₂, h₃, h₄, h₅, h₆⟩ => ⟨h₁, h₂, h₃, h₄, h₅, h₆⟩,
      fun ⟨h₁, h₂, h₃, h₄, h₅, h₆⟩ => ⟨h₁, h₂, h₃, h₄, h₅, h₆⟩⟩

/-- The messages a call hands over. -/
def StoreCall.messages : StoreCall → List ChatMessage
  | .save _ msgs => msgs
  | .appendMessage _ m => [m]
  | .clearMessages _ => []

/-- The sequences of calls under consideration: a nondecreasing clock, texts the database keeps,
and conversation ids from a set on which a NUL-terminated view loses nothing. -/
structure Admissible (ids : Set Bytes) (calls : List TimedCall) : Prop where
  clock : calls.Pairwise fun a b => a.now ≤ b.now
  texts : ∀ tc ∈ calls, ∀ m ∈ tc.call.messages, TextOk m
  convos : ∀ tc ∈ calls, tc.call.convoId ∈ ids
  ids_inj : Set.InjOn cStr ids

/-- After the calls, every conversation of `ids` loads as the list store has it. -/
def LoadsInOrder (ids : Set Bytes) (calls : List TimedCall) : Prop :=
  ∀ c ∈ ids, (SqliteBackend.empty.run calls).load c = (ListStore.empty.run calls).load c

/-- The ids without NUL: what a conversation id of the program looks like. -/
def plainIds : Set Bytes := {c | (0 : UInt8) ∉ c}

theorem plainIds_inj : Set.InjOn cStr plainIds := by
  intro c hc d hd h
  rwa [cStr_eq_self hc, cStr_eq_self hd] at h

instance (calls : List TimedCall) : Decidable (Admissible plainIds calls) :=
  decidable_of_iff
    ((calls.Pairwise fun a b => a.now ≤ b.now) ∧
      (∀ tc ∈ calls, ∀ m ∈ tc.call.messages, TextOk m) ∧
      ∀ tc ∈ calls, (0 : UInt8) ∉ tc.call.convoId)
    ⟨fun ⟨h₁, h₂, h₃⟩ => ⟨h₁, h₂, h₃, plainIds_inj⟩, fun h => ⟨h.clock, h.texts, h.convos⟩⟩

/-- What an append must satisfy, in the state before it, to end up last: no row of its conversation
is stamped later than the clock. -/
def AppendsLast (db : SqliteBackend) (tc : TimedCall) : Prop :=
  match tc.call with
  | .appendMessage c _ => ∀ r ∈ db.rowsOf c, r.createdAt ≤ tc.now
  | _ => True

instance (db : SqliteBackend) (tc : TimedCall) : Decidable (AppendsLast db tc) := by
  unfold AppendsLast
  split <;> infer_instance

/-- Every call of the sequence satisfies `AppendsLast` in the state it meets. -/
def EveryAppendLast : SqliteBackend → List TimedCall → Prop
  | _, [] => True
  | db, tc :: calls => AppendsLast db tc ∧ EveryAppendLast (db.exec tc) calls

instance decidableEveryAppendLast :
    (db : SqliteBackend) → (calls : List TimedCall) → Decidable (EveryAppendLast db calls)
  | _, [] => .isTrue trivial
  | db, tc :: calls =>
    have := decidableEveryAppendLast (db.exec tc) calls
    inferInstanceAs (Decidable (AppendsLast db tc ∧ EveryAppendLast (db.exec tc) calls))

end Aestival
