import Aestival.Library.Bytes
import Mathlib.Algebra.GroupWithZero.Nat
import Mathlib.Logic.Function.Basic

/-!
# Chat messages and the storage interface

`chat_message` and `tool_call` as the program passes them around, and the interface
`chat_storage_backend` every conversation is kept behind.

What the interface is for is stated by `ListStore`: a conversation is the list of its messages in
the order they were stored. `save` replaces the list of one conversation, `append_message` adds one
message at its end, `clear_messages` empties it, and no call touches another conversation. The
context manager is written against this reading; `Chat/Sqlite.lean` is the implementation the
program ships.
-/

namespace Aestival

/-- The roles of a `chat_message`. The program writes no other string there, and the `CHECK`
constraint of the `messages` table admits no other. -/
inductive Role where
  | user
  | assistant
  | system
  | tool
  deriving DecidableEq, Repr

/-- The text of a role, as it is stored and shown to a model. -/
def Role.text : Role → Bytes
  | .user => utf8 "user"
  | .assistant => utf8 "assistant"
  | .system => utf8 "system"
  | .tool => utf8 "tool"

/-- `chat_message`. `toolCallId` is set for the role `tool`, `toolCallsJson` (a JSON array of tool
calls) for the role `assistant`. -/
structure ChatMessage where
  role : Role
  senderNick : Bytes := []
  content : Bytes := []
  toolCallId : Bytes := []
  toolCallsJson : Bytes := []
  deriving DecidableEq, Repr

/-- `tool_call`: a call the model asks for. `arguments` is a JSON text. -/
structure ToolCall where
  id : Bytes
  functionName : Bytes
  arguments : Bytes
  deriving DecidableEq, Repr

/-- The bytes a list of messages counts for: the sizes of its contents. -/
def totalBytes (messages : List ChatMessage) : Nat :=
  (messages.map fun m => m.content.length).sum

@[simp] theorem totalBytes_nil : totalBytes [] = 0 := rfl

@[simp] theorem totalBytes_cons (m : ChatMessage) (l : List ChatMessage) :
    totalBytes (m :: l) = m.content.length + totalBytes l := by
  simp [totalBytes]

/-! ### Calls of the interface -/

/-- A call of `chat_storage_backend` that changes what is stored. -/
inductive StoreCall where
  | save (convoId : Bytes) (msgs : List ChatMessage)
  | appendMessage (convoId : Bytes) (m : ChatMessage)
  | clearMessages (convoId : Bytes)
  deriving DecidableEq, Repr

/-- The conversation a call is about. -/
def StoreCall.convoId : StoreCall → Bytes
  | .save c _ => c
  | .appendMessage c _ => c
  | .clearMessages c => c

/-! ### The in-order list store -/

/-- The abstract store: for each conversation, its messages in order. -/
def ListStore := Bytes → List ChatMessage

namespace ListStore

/-- The store with no conversation. -/
def empty : ListStore := fun _ => []

def load (st : ListStore) (convoId : Bytes) : List ChatMessage := st convoId

def save (st : ListStore) (convoId : Bytes) (msgs : List ChatMessage) : ListStore :=
  Function.update st convoId msgs

def appendMessage (st : ListStore) (convoId : Bytes) (m : ChatMessage) : ListStore :=
  Function.update st convoId (st convoId ++ [m])

def clearMessages (st : ListStore) (convoId : Bytes) : ListStore :=
  Function.update st convoId []

/-- One call on the list store. -/
def exec (st : ListStore) : StoreCall → ListStore
  | .save c msgs => st.save c msgs
  | .appendMessage c m => st.appendMessage c m
  | .clearMessages c => st.clearMessages c

@[simp] theorem load_save (st : ListStore) (c : Bytes) (msgs : List ChatMessage) :
    (st.save c msgs).load c = msgs :=
  Function.update_self ..

@[simp] theorem load_appendMessage (st : ListStore) (c : Bytes) (m : ChatMessage) :
    (st.appendMessage c m).load c = st.load c ++ [m] :=
  Function.update_self ..

@[simp] theorem load_clearMessages (st : ListStore) (c : Bytes) :
    (st.clearMessages c).load c = [] :=
  Function.update_self ..

/-- A call leaves every other conversation as it was. -/
theorem load_exec_ne (st : ListStore) (call : StoreCall) {d : Bytes} (h : d ≠ call.convoId) :
    (st.exec call).load d = st.load d := by
  cases call <;> exact Function.update_of_ne h _ _

end ListStore

end Aestival
