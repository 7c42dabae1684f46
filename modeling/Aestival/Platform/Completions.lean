import Aestival.Agent.Effects
import Aestival.EncodeUtils
import Mathlib.Data.List.Forall2

/-!
# How a completion is decoded

A chat-completion endpoint answers with nested JSON. `send_chat_request` takes the first message and
the usage out of it, `complete_with_tools` reads the tool calls of the message. There is one of each
for DeepSeek and one for the OpenAI API; they differ in the name their errors begin with.

The decoders are more generous than the format: a string that is missing is read as the empty one,
tool calls that are no array and a usage that is no object are read as none (`Decodes`).
`completeWithTools_decodes` says that nothing else is accepted, and that a response in the format is
read as what it says.
-/

namespace Aestival

open Bytes Json

/-! ### The provider -/

/-- What the server of a provider answers. `status` is `res.result()`. -/
structure ChatHttpResponse where
  status : Nat
  body : Bytes
  deriving DecidableEq, Repr

/-- `raw_chat_response`. -/
structure RawChatResponse where
  content : Bytes
  toolCalls : Json := .null
  usage : Json := .null

/-- How decoding fails: with a `std::runtime_error`, with an error of the JSON library, or not at
all, but by reading a member that is not there. -/
inductive DecodeError where
  | runtime (what : Bytes)
  | json (e : AccessError)
  | undefined
  deriving DecidableEq, Repr

/-- `sanitize_utf8` of the platform, which leaves it to `utf_to_utf` to tell whether there is
anything to do. -/
def Detail.sanitizeUtf8 (s : Bytes) : Bytes := skipInvalid s.length s

theorem Detail.sanitizeUtf8_of_valid {s : Bytes} (h : validUtf8 s = true) :
    Detail.sanitizeUtf8 s = s := by
  have hskip := skipInvalid_append (r := []) h (.inl rfl) (Nat.le_refl s.length)
  rwa [List.append_nil] at hskip

/-- `value(key, "")`. -/
def stringField (j : Json) (key : Bytes) : Except DecodeError Bytes :=
  (j.value getStr key []).mapError .json

/-- A member that is an array. -/
def arrayField (j : Json) (key : Bytes) : Json :=
  match j.find? key with
  | some (.arr elems) => .arr elems
  | _ => .null

/-- A member that is an object. -/
def objectField (j : Json) (key : Bytes) : Json :=
  match j.find? key with
  | some (.obj fields) => .obj fields
  | _ => .null

section

-- The parser. A text that is not JSON is discarded.
variable (parse : Bytes → Option Json)

/-- `send_chat_request`, from the response on. A discarded value has no members, like null. -/
def sendChatRequest (provider : Bytes) (res : ChatHttpResponse) :
    Except DecodeError RawChatResponse := do
  if res.status ≠ 200 then
    throw (.runtime (provider ++ utf8 " HTTP " ++ utf8 (toString res.status) ++ utf8 ": " ++
      res.body))
  -- a body that is no JSON is read as null
  let root := (parse (Detail.sanitizeUtf8 res.body)).getD .null
  match root.find? (utf8 "choices") with
  | some (.arr (first :: _)) =>
    match first.find? (utf8 "message") with
    | some (.obj fields) =>
      let message : Json := .obj fields
      -- a content that is no string throws, null included
      let content ← stringField message (utf8 "content")
      return { content, toolCalls := arrayField message (utf8 "tool_calls"),
               usage := objectField root (utf8 "usage") }
    | _ => throw (.runtime (provider ++ utf8 " response missing message"))
  | _ => throw (.runtime (provider ++ utf8 " response missing choices"))

/-- `deepseek::chat`. -/
def Deepseek.chat : ChatHttpResponse → Except DecodeError RawChatResponse :=
  sendChatRequest parse (utf8 "DeepSeek")

/-- `openai::chat`. -/
def Openai.chat : ChatHttpResponse → Except DecodeError RawChatResponse :=
  sendChatRequest parse (utf8 "OpenAI")

end

/-! ### The adapter -/

/-- `tc["function"]` of a constant: there is no check that the member is there. -/
def constMember (j : Json) (key : Bytes) : Except DecodeError Json :=
  match j with
  | .obj fields =>
    match fields.lookup key with
    | some v => .ok v
    | none => .error .undefined
  | _ => .error (.json .notAnObject)

/-- The body of the loop over the tool calls. -/
def readToolCall (tc : Json) : Except DecodeError ToolCall := do
  let fn ← constMember tc (utf8 "function")
  let id ← stringField tc (utf8 "id")
  let functionName ← stringField fn (utf8 "name")
  let arguments ← stringField fn (utf8 "arguments")
  return { id, functionName, arguments }

/-- The loop over the tool calls. -/
def readToolCalls : List Json → Except DecodeError (List ToolCall)
  | [] => .ok []
  | tc :: rest => do
    let call ← readToolCall tc
    let calls ← readToolCalls rest
    return call :: calls

/-- The tool calls of a response. There are none unless it is an array. -/
def responseToolCalls : Json → Except DecodeError (List ToolCall)
  | .arr elems => readToolCalls elems
  | _ => .ok []

/-- `complete_with_tools`, over the `chat` of the provider. -/
def completeWithTools (chat : ChatHttpResponse → Except DecodeError RawChatResponse)
    (res : ChatHttpResponse) : Except DecodeError ModelResponse := do
  let raw ← chat res
  let toolCalls ← responseToolCalls raw.toolCalls
  return { content := raw.content, toolCalls, usage := raw.usage }

/-- `deepseek_adapter::complete_with_tools`. -/
def DeepseekAdapter.completeWithTools (parse : Bytes → Option Json) :
    ChatHttpResponse → Except DecodeError ModelResponse :=
  Aestival.completeWithTools (Deepseek.chat parse)

/-- `openai_adapter::complete_with_tools`. -/
def OpenaiAdapter.completeWithTools (parse : Bytes → Option Json) :
    ChatHttpResponse → Except DecodeError ModelResponse :=
  Aestival.completeWithTools (Openai.chat parse)

/-- The `complete_with_tools` of the client that `make_model_client` makes. -/
def modelClient (parse : Bytes → Option Json) (llmProvider : Bytes) :
    ChatHttpResponse → Except DecodeError ModelResponse :=
  if llmProvider = utf8 "openai" then OpenaiAdapter.completeWithTools parse
  else DeepseekAdapter.completeWithTools parse

/-! ### The format -/

/-- `message` is the message of the first choice. -/
def FirstMessage (root message : Json) : Prop :=
  ∃ first rest, root.find? (utf8 "choices") = some (.arr (first :: rest)) ∧
    first.find? (utf8 "message") = some message ∧ message.isObject = true

/-- A tool call, as the format has it. -/
def IsToolCall (tc : Json) (call : ToolCall) : Prop :=
  ∃ fn, tc.find? (utf8 "id") = some (.str call.id) ∧
    tc.find? (utf8 "function") = some fn ∧
    fn.find? (utf8 "name") = some (.str call.functionName) ∧
    fn.find? (utf8 "arguments") = some (.str call.arguments)

/-- A body in the format, and the response it stands for. -/
def Conforms (root : Json) (r : ModelResponse) : Prop :=
  ∃ message, FirstMessage root message ∧
    (message.find? (utf8 "content") = some (.str r.content) ∨
      message.find? (utf8 "content") = some .null ∧ r.content = []) ∧
    (message.find? (utf8 "tool_calls") = none ∧ r.toolCalls = [] ∨
      ∃ elems, message.find? (utf8 "tool_calls") = some (.arr elems) ∧
        List.Forall₂ IsToolCall elems r.toolCalls) ∧
    (root.find? (utf8 "usage") = none ∧ r.usage = .null ∨
      root.find? (utf8 "usage") = some r.usage ∧ r.usage.isObject = true)

/-! ### What is decoded -/

/-- The string a member holds. One that is missing is empty. -/
def HoldsString (j : Json) (key s : Bytes) : Prop :=
  j.find? key = some (.str s) ∨ j.find? key = none ∧ s = []

/-- A tool call, as it is read. -/
def ReadsToolCall (tc : Json) (call : ToolCall) : Prop :=
  ∃ fn, tc.find? (utf8 "function") = some fn ∧ fn.isObject = true ∧
    HoldsString tc (utf8 "id") call.id ∧ HoldsString fn (utf8 "name") call.functionName ∧
    HoldsString fn (utf8 "arguments") call.arguments

/-- The elements of a member that is an array. -/
def elemsOf (j : Json) (key : Bytes) : List Json :=
  match j.find? key with
  | some (.arr elems) => elems
  | _ => []

/-- A body, and the response that is read from it. -/
def Decodes (root : Json) (r : ModelResponse) : Prop :=
  ∃ message, FirstMessage root message ∧ HoldsString message (utf8 "content") r.content ∧
    List.Forall₂ ReadsToolCall (elemsOf message (utf8 "tool_calls")) r.toolCalls ∧
    r.usage = objectField root (utf8 "usage")

/-- The content is there and is not null, or it is missing. -/
def ContentNotNull (root : Json) : Prop :=
  ∀ message, FirstMessage root message → message.find? (utf8 "content") ≠ some .null

/-- No tool call is an object without a function. -/
def FunctionsThere (root : Json) : Prop :=
  ∀ message, FirstMessage root message → ∀ tc ∈ elemsOf message (utf8 "tool_calls"),
    tc.isObject = true → tc.find? (utf8 "function") ≠ none

/-! ### One accessor after the other -/

/-- `value` returns a string for an object that holds it, or does not have the member. -/
theorem stringField_eq_ok_iff {j : Json} {key s : Bytes} :
    stringField j key = .ok s ↔ j.isObject = true ∧ HoldsString j key s := by
  cases hobj : j.isObject with
  | false =>
    refine ⟨fun h => ?_, nofun⟩
    -- `value` raises an error for anything but an object
    cases j with
    | obj fields => exact nomatch hobj
    | _ => exact nomatch h
  | true =>
    rw [and_iff_right rfl, stringField, HoldsString]
    cases hfind : j.find? key with
    | none =>
      -- the default is returned
      rw [value_of_find?_none hobj hfind]
      exact ⟨fun h => .inr ⟨rfl, (Except.ok.inj h).symm⟩,
        fun h => h.elim nofun fun ⟨_, hs⟩ => hs ▸ rfl⟩
    | some v =>
      rw [value_of_find? hfind]
      cases v with
      | str t =>
        exact ⟨fun h => .inl (congrArg (some ∘ str) (Except.ok.inj h)),
          fun h => h.elim (fun h => Json.str.inj (Option.some.inj h) ▸ rfl) nofun⟩
      | _ => exact ⟨nofun, fun h => h.elim nofun nofun⟩

/-- `value` reads no member that is not there. -/
theorem stringField_ne_undefined (j : Json) (key : Bytes) :
    stringField j key ≠ .error .undefined := by
  rw [stringField]
  cases j.value getStr key [] with
  | error e => exact nofun
  | ok s => exact nofun

theorem constMember_eq_ok_iff {j v : Json} {key : Bytes} :
    constMember j key = .ok v ↔ j.find? key = some v := by
  cases j with
  | obj fields =>
    rw [constMember, Json.find?]
    cases fields.lookup key with
    | none => exact ⟨nofun, nofun⟩
    | some w => exact ⟨fun h => congrArg some (Except.ok.inj h),
        fun h => congrArg Except.ok (Option.some.inj h)⟩
  | _ => exact ⟨nofun, nofun⟩

theorem constMember_eq_undefined {j : Json} {key : Bytes}
    (h : constMember j key = .error .undefined) : j.isObject = true ∧ j.find? key = none := by
  cases j with
  | obj fields =>
    refine ⟨rfl, ?_⟩
    rw [constMember] at h
    cases hlookup : fields.lookup key with
    | none => exact hlookup
    | some v =>
      rw [hlookup] at h
      exact nomatch h
  | _ => exact nomatch h

/-- A member that is an object is what is read. -/
theorem objectField_of_find? {j v : Json} {key : Bytes} (h : j.find? key = some v)
    (hobj : v.isObject = true) : objectField j key = v := by
  rw [objectField, h]
  cases v with
  | obj fields => rfl
  | _ => exact nomatch hobj

/-! ### The tool calls -/

theorem readToolCall_eq_ok_iff {tc : Json} {call : ToolCall} :
    readToolCall tc = .ok call ↔ ReadsToolCall tc call := by
  simp only [readToolCall, Except.bind_eq_ok_iff, constMember_eq_ok_iff, stringField_eq_ok_iff]
  constructor
  · rintro ⟨fn, hfn, id, ⟨-, hid⟩, name, ⟨hobj, hname⟩, arguments, ⟨-, harguments⟩, hcall⟩
    obtain rfl := Except.ok.inj hcall
    exact ⟨fn, hfn, hobj, hid, hname, harguments⟩
  · rintro ⟨fn, hfn, hobj, hid, hname, harguments⟩
    exact ⟨fn, hfn, _, ⟨isObject_of_find? hfn, hid⟩, _, ⟨hobj, hname⟩, _, ⟨hobj, harguments⟩, rfl⟩

theorem readToolCall_eq_undefined {tc : Json} (h : readToolCall tc = .error .undefined) :
    tc.isObject = true ∧ tc.find? (utf8 "function") = none := by
  simp only [readToolCall, Except.bind_eq_error_iff, stringField_ne_undefined, false_or] at h
  rcases h with h | ⟨_, _, _, _, _, _, _, _, h⟩
  · exact constMember_eq_undefined h
  · exact nomatch h

/-- The loop reads the calls one by one. -/
theorem readToolCalls_eq_ok_iff {elems : List Json} {calls : List ToolCall} :
    readToolCalls elems = .ok calls ↔ List.Forall₂ ReadsToolCall elems calls := by
  induction elems generalizing calls with
  | nil =>
    rw [List.forall₂_nil_left_iff]
    exact ⟨fun h => (Except.ok.inj h).symm, fun h => h ▸ rfl⟩
  | cons tc elems ih =>
    simp only [readToolCalls, Except.bind_eq_ok_iff, readToolCall_eq_ok_iff, ih,
      List.forall₂_cons_left_iff]
    constructor
    · rintro ⟨call, hcall, rest, hrest, heq⟩
      exact ⟨call, rest, hcall, hrest, (Except.ok.inj heq).symm⟩
    · rintro ⟨call, rest, hcall, hrest, rfl⟩
      exact ⟨call, hcall, rest, hrest, rfl⟩

/-- It reads a member that is not there only from an object without a function. -/
theorem readToolCalls_eq_undefined {elems : List Json}
    (h : readToolCalls elems = .error .undefined) :
    ∃ tc ∈ elems, tc.isObject = true ∧ tc.find? (utf8 "function") = none := by
  induction elems with
  | nil => exact nomatch h
  | cons tc elems ih =>
    rw [readToolCalls, Except.bind_eq_error_iff] at h
    rcases h with h | ⟨call, -, h⟩
    · exact ⟨tc, List.mem_cons_self, readToolCall_eq_undefined h⟩
    · rw [Except.bind_eq_error_iff] at h
      rcases h with h | ⟨_, _, h⟩
      · obtain ⟨t, ht, hmissing⟩ := ih h
        exact ⟨t, List.mem_cons_of_mem tc ht, hmissing⟩
      · exact nomatch h

/-! ### The response -/

variable {parse : Bytes → Option Json}

/-- The provider takes the first message of a response that came with status 200. -/
theorem sendChatRequest_eq_ok_iff {provider : Bytes} {res : ChatHttpResponse}
    {raw : RawChatResponse} :
    sendChatRequest parse provider res = .ok raw ↔
      res.status = 200 ∧ ∃ root, parse (Detail.sanitizeUtf8 res.body) = some root ∧
        ∃ message, FirstMessage root message ∧
          HoldsString message (utf8 "content") raw.content ∧
          raw.toolCalls = arrayField message (utf8 "tool_calls") ∧
          raw.usage = objectField root (utf8 "usage") := by
  rw [sendChatRequest]
  by_cases hstatus : res.status = 200
  -- the guards, in the order of the source
  · rw [if_neg (not_not.mpr hstatus), and_iff_right hstatus]
    constructor
    · intro h
      cases hparse : parse (Detail.sanitizeUtf8 res.body) with
      | none =>
        rw [hparse] at h
        exact nomatch h
      | some root =>
        rw [hparse] at h
        simp only [Option.getD_some] at h
        split at h
        · next first rest hchoices =>
          split at h
          · next fields hmessage =>
            obtain ⟨content, hcontent, hraw⟩ := Except.bind_eq_ok_iff.mp h
            obtain rfl := Except.ok.inj hraw
            exact ⟨root, rfl, .obj fields, ⟨first, rest, hchoices, hmessage, rfl⟩,
              (stringField_eq_ok_iff.mp hcontent).2, rfl, rfl⟩
          · exact nomatch h
        · exact nomatch h
    · rintro ⟨root, hparse, message, ⟨first, rest, hchoices, hmessage, hobj⟩, hcontent, hcalls,
        husage⟩
      cases message with
      | obj fields =>
        simp only [hparse, Option.getD_some, hchoices, hmessage]
        refine Except.bind_eq_ok_iff.mpr ⟨_, stringField_eq_ok_iff.mpr ⟨rfl, hcontent⟩, ?_⟩
        rw [← hcalls, ← husage]
        rfl
      | _ => exact nomatch hobj
  · rw [if_pos hstatus]
    exact ⟨nofun, fun h => absurd h.1 hstatus⟩

/-- It reads no member that is not there. -/
theorem sendChatRequest_ne_undefined (provider : Bytes) (res : ChatHttpResponse) :
    sendChatRequest parse provider res ≠ .error .undefined := by
  intro h
  rw [sendChatRequest] at h
  by_cases hstatus : res.status = 200
  · rw [if_neg (not_not.mpr hstatus)] at h
    dsimp only at h
    split at h
    · split at h
      -- reading the content may throw, but is defined
      · rcases Except.bind_eq_error_iff.mp h with h | ⟨_, _, h⟩
        · exact stringField_ne_undefined _ _ h
        · exact nomatch h
      · exact nomatch h
    · exact nomatch h
  · rw [if_pos hstatus] at h
    exact nomatch h

/-- The tool calls are the elements of the array in the message. -/
theorem responseToolCalls_arrayField (message : Json) (key : Bytes) :
    responseToolCalls (arrayField message key) = readToolCalls (elemsOf message key) := by
  rw [arrayField, elemsOf]
  cases message.find? key with
  | none => rfl
  | some v => cases v <;> rfl

theorem completeWithTools_eq_ok_iff {provider : Bytes} {res : ChatHttpResponse}
    {r : ModelResponse} :
    completeWithTools (sendChatRequest parse provider) res = .ok r ↔
      res.status = 200 ∧ ∃ root, parse (Detail.sanitizeUtf8 res.body) = some root ∧
        Decodes root r := by
  rw [completeWithTools, Except.bind_eq_ok_iff]
  simp only [sendChatRequest_eq_ok_iff]
  constructor
  · rintro ⟨raw, ⟨hstatus, root, hparse, message, hmessage, hcontent, hcalls, husage⟩, h⟩
    rw [hcalls, responseToolCalls_arrayField] at h
    obtain ⟨calls, hread, hr⟩ := Except.bind_eq_ok_iff.mp h
    obtain rfl := Except.ok.inj hr
    exact ⟨hstatus, root, hparse, message, hmessage, hcontent,
      readToolCalls_eq_ok_iff.mp hread, husage⟩
  · rintro ⟨hstatus, root, hparse, message, hmessage, hcontent, hcalls, husage⟩
    -- what `send_chat_request` returned for it
    refine ⟨⟨r.content, arrayField message (utf8 "tool_calls"), r.usage⟩,
      ⟨hstatus, root, hparse, message, hmessage, hcontent, rfl, husage⟩, ?_⟩
    rw [responseToolCalls_arrayField]
    exact Except.bind_eq_ok_iff.mpr ⟨_, readToolCalls_eq_ok_iff.mpr hcalls, rfl⟩

/-- A member that is not there is read only for a tool call without a function. -/
theorem completeWithTools_ne_undefined {provider : Bytes} {res : ChatHttpResponse}
    (h : ∀ root, parse (Detail.sanitizeUtf8 res.body) = some root → FunctionsThere root) :
    completeWithTools (sendChatRequest parse provider) res ≠ .error .undefined := by
  intro hundefined
  rw [completeWithTools, Except.bind_eq_error_iff] at hundefined
  rcases hundefined with hchat | ⟨raw, hraw, hcalls⟩
  · exact sendChatRequest_ne_undefined provider res hchat
  -- the error is one of the loop over the calls
  · obtain ⟨-, root, hparse, message, hmessage, -, harray, -⟩ := sendChatRequest_eq_ok_iff.mp hraw
    rw [harray, responseToolCalls_arrayField] at hcalls
    rcases Except.bind_eq_error_iff.mp hcalls with hcalls | ⟨_, _, hcalls⟩
    · obtain ⟨tc, htc, hobj, hmissing⟩ := readToolCalls_eq_undefined hcalls
      exact h root hparse message hmessage tc htc hobj hmissing
    · exact nomatch hcalls

/-- A tool call in the format is read as what it says. -/
theorem IsToolCall.reads {tc : Json} {call : ToolCall} (h : IsToolCall tc call) :
    ReadsToolCall tc call := by
  obtain ⟨fn, hid, hfn, hname, harguments⟩ := h
  exact ⟨fn, hfn, isObject_of_find? hname, .inl hid, .inl hname, .inl harguments⟩

/-- A body in the format is decoded as what it says, unless its content is null. -/
theorem Conforms.decodes {root : Json} {r : ModelResponse} (h : Conforms root r)
    (hcontent : ContentNotNull root) : Decodes root r := by
  obtain ⟨message, hmessage, hstr, hcalls, husage⟩ := h
  refine ⟨message, hmessage, .inl (hstr.resolve_right fun hnull => ?_), ?_, ?_⟩
  · exact hcontent message hmessage hnull.1
  · rw [elemsOf]
    rcases hcalls with ⟨hnone, hnil⟩ | ⟨elems, helems, hall⟩
    · rw [hnone, hnil]
      exact .nil
    · rw [helems]
      exact hall.imp fun _ _ => IsToolCall.reads
  · rcases husage with ⟨hnone, hnull⟩ | ⟨hsome, hobj⟩
    · rw [objectField, hnone, hnull]
    · exact (objectField_of_find? hsome hobj).symm

/-- Both adapters are `complete_with_tools` over `send_chat_request`. -/
theorem modelClient_eq (parse : Bytes → Option Json) (llmProvider : Bytes) :
    ∃ provider, modelClient parse llmProvider =
      completeWithTools (sendChatRequest parse provider) := by
  rw [modelClient]
  split
  · exact ⟨utf8 "OpenAI", rfl⟩
  · exact ⟨utf8 "DeepSeek", rfl⟩

/-- **What the adapters make of a response.** They return exactly what a body that comes with
status 200 decodes to, and raise an error for everything else. A body in the format decodes to what
it says. -/
theorem modelClient_decodes (parse : Bytes → Option Json) (llmProvider : Bytes)
    (res : ChatHttpResponse)
    (hcontent : ∀ root, parse (Detail.sanitizeUtf8 res.body) = some root → ContentNotNull root)
    (hfunction : ∀ root, parse (Detail.sanitizeUtf8 res.body) = some root →
      FunctionsThere root) :
    (∀ r, modelClient parse llmProvider res = .ok r ↔ res.status = 200 ∧
      ∃ root, parse (Detail.sanitizeUtf8 res.body) = some root ∧ Decodes root r) ∧
    modelClient parse llmProvider res ≠ .error .undefined ∧
    ∀ root r, res.status = 200 → validUtf8 res.body = true → parse res.body = some root →
      Conforms root r → modelClient parse llmProvider res = .ok r := by
  -- both providers decode alike, but for their name in the texts
  obtain ⟨provider, hclient⟩ := modelClient_eq parse llmProvider
  rw [hclient]
  refine ⟨fun r => completeWithTools_eq_ok_iff, completeWithTools_ne_undefined hfunction,
    fun root r hstatus hvalid hparse hconforms => ?_⟩
  rw [← Detail.sanitizeUtf8_of_valid hvalid] at hparse
  exact completeWithTools_eq_ok_iff.mpr
    ⟨hstatus, root, hparse, hconforms.decodes (hcontent root hparse)⟩

/-! ### Two responses -/

/-- A body with one choice. -/
def oneChoice (message : Json) : Json :=
  .obj [(utf8 "choices", .arr [.obj [(utf8 "message", message)]])]

theorem firstMessage_oneChoice {m message : Json} (h : FirstMessage (oneChoice m) message) :
    message = m := by
  obtain ⟨first, rest, hchoices, hmessage, -⟩ := h
  rw [oneChoice, Json.find?, List.lookup_cons_self] at hchoices
  obtain ⟨rfl, rfl⟩ := List.cons.inj (Json.arr.inj (Option.some.inj hchoices))
  rw [Json.find?, List.lookup_cons_self] at hmessage
  exact (Option.some.inj hmessage).symm

/-- A response that asks for one tool. -/
def oneToolCall : Json :=
  oneChoice (.obj [(utf8 "content", .str []),
    (utf8 "tool_calls", .arr [.obj [(utf8 "id", .str (utf8 "1")),
      (utf8 "function", .obj [(utf8 "name", .str (utf8 "clock")),
        (utf8 "arguments", .str (utf8 "now"))])]])])

/-- Its text. -/
def oneToolCallText : Bytes :=
  utf8 "\x7b\"choices\":[\x7b\"message\":\x7b\"content\":\"\"," ++
    utf8 "\"tool_calls\":[\x7b\"id\":\"1\",\"function\":\x7b\"name\":\"clock\"," ++
    utf8 "\"arguments\":\"now\"\x7d\x7d]\x7d\x7d]\x7d"

theorem modelClient_oneToolCall :
    modelClient (fun _ => some oneToolCall) (utf8 "openai") ⟨200, oneToolCallText⟩ = .ok
      { content := [], toolCalls := [⟨utf8 "1", utf8 "clock", utf8 "now"⟩] } := by
  refine (modelClient_decodes (fun _ => some oneToolCall) (utf8 "openai") _ ?_ ?_).2.2
    oneToolCall _ rfl (by decide) rfl ?_
  · intro root hroot message hmessage
    obtain rfl := Option.some.inj hroot
    obtain rfl := firstMessage_oneChoice hmessage
    exact nofun
  · intro root hroot message hmessage tc htc _
    obtain rfl := Option.some.inj hroot
    obtain rfl := firstMessage_oneChoice hmessage
    obtain rfl := List.mem_singleton.mp htc
    exact nofun
  -- no content, one call, no usage
  · refine ⟨_, ⟨_, _, rfl, rfl, rfl⟩, .inl rfl, .inr ⟨_, rfl, ?_⟩, .inl ⟨rfl, rfl⟩⟩
    exact .cons ⟨_, rfl, rfl, rfl, rfl⟩ .nil

/-- The text of a response whose message is empty. -/
def emptyMessageText : Bytes := utf8 "\x7b\"choices\":[\x7b\"message\":\x7b\x7d\x7d]\x7d"

/-- **Not every body that is not in the format is refused**: a message without content has the empty
one. -/
theorem missing_content_accepted :
    ¬ ∀ (parse : Bytes → Option Json) (llmProvider body : Bytes),
      (∀ root, parse body = some root → ∀ r, ¬ Conforms root r) →
        ∃ e, modelClient parse llmProvider ⟨200, body⟩ = .error e := by
  intro hall
  -- a message without content and without calls conforms to no reply
  have hbody : ∀ root, some (oneChoice (.obj [])) = some root → ∀ r, ¬ Conforms root r := by
    rintro root hroot r ⟨message, hmessage, hcontent, -⟩
    obtain rfl := Option.some.inj hroot
    obtain rfl := firstMessage_oneChoice hmessage
    rcases hcontent with hcontent | ⟨hcontent, -⟩
    · exact nomatch hcontent
    · exact nomatch hcontent
  -- and is read as an empty one
  have haccepted : modelClient (fun _ => some (oneChoice (.obj []))) (utf8 "openai")
      ⟨200, emptyMessageText⟩ = .ok { content := [] } := rfl
  obtain ⟨e, he⟩ := hall (fun _ => some (oneChoice (.obj []))) (utf8 "openai") emptyMessageText
    hbody
  exact nomatch haccepted.symm.trans he

end Aestival
