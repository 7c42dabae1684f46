import Aestival.Agent.McpClient

/-!
# Which response the client finds

Between a request and its response the pipe may carry anything: what the server logs, notifications,
requests of its own, and the responses to requests that are no longer waited for. What should hold
is that `read_response` goes past all of it (`readResponse_noise_iff`) and reports an error of the
server only when the response to the request is one (`readResponse_blames_iff`).

It goes past the lines that are `Skipped`. Not among them are the empty line, a JSON value that is
not an object, an id that is no number, and above all every error response: the code looks at the
member `error` before it looks at the id.
-/

namespace Aestival

open Json McpClient

/-! ### Messages -/

/-- The number `n`, however it is written. -/
def IdIs (n : Int) : Json → Prop
  | .int m => m = n
  | .float x => x = n
  | _ => False

/-- The message carries this id. -/
def CarriesId (id : Int64) (msg : Json) : Prop :=
  ∃ v, msg.find? (utf8 "id") = some v ∧ IdIs id.toInt v

/-- A response with a result to the request `id`. -/
structure Answer (id : Int64) where
  msg : Document
  result : Document
  carriesId : CarriesId id msg.json
  hasResult : msg.json.find? (utf8 "result") = some result.json

/-- The line of the response. -/
def Answer.line {id : Int64} (answer : Answer id) : PipeLine := .text (.document answer.msg)

/-- What may come before the response: an empty line, a text that is not JSON, a value that is not
an object, a notification or a request of the server, and a response with another id. -/
def IsNoise (id : Int64) : PipeLine → Prop
  | .empty => True
  | .text .malformed => True
  | .text (.document msg) =>
    msg.json.isObject = false ∨
    (msg.json.find? (utf8 "method")).isSome = true ∧
      msg.json.find? (utf8 "result") = none ∧ msg.json.find? (utf8 "error") = none ∨
    (msg.json.find? (utf8 "result") ≠ none ∨ msg.json.find? (utf8 "error") ≠ none) ∧
      ¬ CarriesId id msg.json

/-- An error response to the request `id`. -/
def IsErrorResponse (id : Int64) : PipeLine → Prop
  | .text (.document msg) => msg.json.find? (utf8 "error") ≠ none ∧ CarriesId id msg.json
  | _ => False

/-- A number read as an id. -/
theorem getInt64_of_idIs {id : Int64} {v : Json} (h : IdIs id.toInt v) :
    v.getInt64 = .ok id := by
  cases v with
  | int n =>
    obtain rfl : n = id.toInt := h
    rw [getInt64, Int64.ofInt_toInt]
  -- a float with the value of the id is read as the id
  | float x =>
    obtain rfl : x = (id.toInt : Rat) := h
    have hwhole : (id.toInt : Rat).num.tdiv ((id.toInt : Rat).den : Int) = id.toInt := by
      rw [Rat.num_intCast, Rat.den_intCast, Nat.cast_one, Int.tdiv_one]
    have hlow := id.le_toInt
    have hhigh := id.toInt_lt
    rw [← hwhole] at hlow hhigh
    rw [getInt64, toInt64_of_fits hlow hhigh, hwhole, Int64.ofInt_toInt]
  | _ => exact False.elim h

/-! ### What is skipped -/

/-- What `read_response` goes past: a text that is not JSON, and an object without the member
`error`, with a number as its id (no id counts as -1), that is not a result under the expected
id. -/
def Skipped (id : Int64) : PipeLine → Prop
  | .empty => False
  | .text .malformed => True
  | .text (.document msg) =>
    msg.json.find? (utf8 "error") = none ∧
      ∃ n, msg.json.value getInt64 (utf8 "id") (-1) = .ok n ∧
        (n = id → msg.json.find? (utf8 "result") = none)

/-- The error of a response can be read: it is an object whose code, if any, is a number and whose
message, if any, is a string. -/
def IsErrorObject (err : Json) : Prop :=
  (∃ code, err.value getInt32 (utf8 "code") 0 = .ok code) ∧
    ∃ message, err.value getStr (utf8 "message") (utf8 "unknown error") = .ok message

/-- An error response to something else than the request `id`. -/
def ForeignError (id : Int64) : PipeLine → Prop
  | .text (.document msg) =>
    (∃ err, msg.json.find? (utf8 "error") = some err ∧ IsErrorObject err) ∧
      ¬ CarriesId id msg.json
  | _ => False

/-! ### One line -/

section Line

variable {id : Int64} {line : PipeLine}

/-- The messages that are gone past. -/
theorem checkMessage_eq_none_iff (msg : Document) :
    checkMessage id msg.json = .ok none ↔ Skipped id (.text (.document msg)) := by
  show _ ↔ msg.json.find? (utf8 "error") = none ∧ _
  unfold checkMessage
  cases herror : msg.json.find? (utf8 "error") with
  | some err => simp
  | none =>
    cases hid : msg.json.value getInt64 (utf8 "id") (-1) with
    | error e => simp
    | ok n =>
      -- under the expected id a result ends the search, and a message without one is gone past
      by_cases heq : n = id
      · cases hresult : msg.json.find? (utf8 "result") with
        | none => simp
        | some result =>
          cases hdump : result.dump <;> simp [heq, hdump]
      · simp [heq]

/-- Only the member `error` of a message makes an error of the server. -/
theorem find?_error_of_checkMessage {msg : Json} {code : Int32} {message : Bytes}
    (h : checkMessage id msg = .error (.server code message)) :
    ∃ err, msg.find? (utf8 "error") = some err ∧ serverError err = .server code message := by
  unfold checkMessage at h
  cases herror : msg.find? (utf8 "error") with
  | some err =>
    simp only [herror, Except.error.injEq] at h
    exact ⟨err, rfl, h⟩
  | none =>
    -- the other exceptions are those of the accessors and of the writer
    simp only [herror] at h
    cases hid : msg.value getInt64 (utf8 "id") (-1) with
    | error e => simp [hid] at h
    | ok n =>
      simp only [hid] at h
      split at h
      · cases hresult : msg.find? (utf8 "result") with
        | none => simp [hresult] at h
        | some result => cases hdump : result.dump <;> simp [hresult, hdump] at h
      · cases h

/-- A line that is skipped is as good as not there. -/
theorem readResponse_of_skipped (h : Skipped id line) (rest : List PipeLine) :
    readResponse id (line :: rest) = readResponse id rest := by
  match line, h with
  | .text .malformed, _ => rfl
  | .text (.document msg), h =>
    have hcheck := (checkMessage_eq_none_iff msg).mpr h
    simp [readResponse, readLine, hcheck]

/-- Any other line ends the search. -/
theorem readResponse_of_not_skipped (h : ¬ Skipped id line) :
    ∃ out, ∀ rest, readResponse id (line :: rest) = (out, rest) := by
  match line with
  | .empty => exact ⟨_, fun _ => rfl⟩
  | .text .malformed => exact absurd trivial h
  | .text (.document msg) =>
    have hcheck := mt (checkMessage_eq_none_iff msg).mp h
    cases hout : checkMessage id msg.json with
    | error e => exact ⟨.error e, fun rest => by simp [readResponse, readLine, hout]⟩
    | ok result =>
      cases result with
      | none => exact absurd hout hcheck
      | some result => exact ⟨.ok result, fun rest => by simp [readResponse, readLine, hout]⟩

end Line

/-! ### The search -/

variable (id : Int64)

/-- Any number of lines is skipped. -/
theorem readResponse_append {pre : List PipeLine} (h : ∀ l ∈ pre, Skipped id l)
    (rest : List PipeLine) : readResponse id (pre ++ rest) = readResponse id rest := by
  induction pre with
  | nil => rfl
  | cons line pre ih =>
    rw [List.cons_append, readResponse_of_skipped (h line (List.mem_cons_self ..))]
    exact ih fun l hl => h l (List.mem_cons_of_mem _ hl)

/-- The search ends with the lines, or at the first line that is not skipped. -/
theorem readResponse_stops (lines : List PipeLine) :
    readResponse id lines = (.error (.connectionLost id), []) ∨
      ∃ pre line rest, lines = pre ++ line :: rest ∧ (∀ l ∈ pre, Skipped id l) ∧
        ¬ Skipped id line := by
  induction lines with
  | nil => exact .inl rfl
  | cons line lines ih =>
    by_cases hskip : Skipped id line
    · rw [readResponse_of_skipped hskip]
      refine ih.imp_right ?_
      rintro ⟨pre, stop, rest, rfl, hpre, hstop⟩
      exact ⟨line :: pre, stop, rest, rfl, List.forall_mem_cons.mpr ⟨hskip, hpre⟩, hstop⟩
    · exact .inr ⟨[], line, lines, rfl, fun l hl => absurd hl List.not_mem_nil, hskip⟩

/-- A response with a result is read, unless it has a member `error` as well. -/
theorem readResponse_answer (answer : Answer id) (rest : List PipeLine) :
    readResponse id (answer.line :: rest) = (.ok answer.result, rest) ↔
      answer.msg.json.find? (utf8 "error") = none := by
  obtain ⟨v, hfind, hv⟩ := answer.carriesId
  have hid : answer.msg.json.value getInt64 (utf8 "id") (-1) = .ok id := by
    rw [← getInt64_of_idIs hv]
    exact value_of_find? hfind
  have hdump := dump_of_valid answer.result.utf8
  cases herror : answer.msg.json.find? (utf8 "error") with
  -- the member `error` is looked at first, whatever the id is
  | some err =>
    have hcheck : checkMessage id answer.msg.json = .error (serverError err) := by
      simp only [checkMessage, herror]
    simp [readResponse, readLine, Answer.line, hcheck]
  | none =>
    have hcheck : checkMessage id answer.msg.json = .ok (some answer.result) := by
      simp only [checkMessage, herror, hid, if_true, answer.hasResult, hdump]
    simp [readResponse, readLine, Answer.line, hcheck]

/-- **When the response is found.** It is read past the lines in front of it exactly if all of them
are skipped and it has no member `error`. -/
theorem readResponse_noise_iff (noise : List PipeLine) (answer : Answer id)
    (rest : List PipeLine) :
    readResponse id (noise ++ answer.line :: rest) = (.ok answer.result, rest) ↔
      (∀ l ∈ noise, Skipped id l) ∧ answer.msg.json.find? (utf8 "error") = none := by
  -- induction on the lines in front of the response
  induction noise with
  | nil => simp [readResponse_answer]
  | cons line noise ih =>
    by_cases hskip : Skipped id line
    · rw [List.cons_append, readResponse_of_skipped hskip, ih]
      simp [hskip]
    · obtain ⟨out, hout⟩ := readResponse_of_not_skipped hskip
      rw [List.cons_append, hout]
      -- the search ends before the response, whose line is left over
      have hlength : noise ++ answer.line :: rest ≠ rest := by
        intro heq
        have := congrArg List.length heq
        simp at this
        omega
      simp [hlength, hskip]

/-- What the client blames on the server is the server's error response to this request. -/
def BlamesRightly (lines : List PipeLine) : Prop :=
  ∀ code message rest, readResponse id lines = (.error (.server code message), rest) →
    ∃ pre line, lines = pre ++ line :: rest ∧ IsErrorResponse id line

/-- An error that can be read is thrown as one of the server. -/
theorem serverError_eq_server {err : Json} :
    (∃ code message, serverError err = .server code message) ↔ IsErrorObject err := by
  unfold serverError IsErrorObject
  cases err.value getInt32 (utf8 "code") 0 with
  | error e => simp
  | ok code =>
    cases err.value getStr (utf8 "message") (utf8 "unknown error") with
    | error e => simp
    | ok message => simp

/-- **When the right request is blamed**: exactly if the first line that is not skipped is no error
response to something else. -/
theorem blamesRightly_iff (lines : List PipeLine) :
    BlamesRightly id lines ↔ ∀ pre line rest, lines = pre ++ line :: rest →
      (∀ l ∈ pre, Skipped id l) → ¬ ForeignError id line := by
  constructor
  · intro h pre line rest hlines hpre hforeign
    match line, hforeign with
    | .text (.document msg), ⟨⟨err, herror, hread⟩, hother⟩ =>
      obtain ⟨code, message, hserver⟩ := serverError_eq_server.mpr hread
      have hcheck : checkMessage id msg.json = .error (.server code message) := by
        simp only [checkMessage, herror, hserver]
      have hout : readResponse id lines = (.error (.server code message), rest) := by
        rw [hlines, readResponse_append id hpre]
        simp [readResponse, readLine, hcheck]
      obtain ⟨pre', line', hlines', hresponse⟩ := h code message rest hout
      -- both lines are the last one read
      have hsame := List.append_inj' (hlines.symm.trans hlines') rfl
      obtain ⟨rfl, -⟩ := List.cons.inj hsame.2
      exact hother hresponse.2
  · intro h code message rest hout
    rcases readResponse_stops id lines with hlost | ⟨pre, line, rest', rfl, hpre, hstop⟩
    · rw [hlost] at hout
      simp at hout
    · rw [readResponse_append id hpre] at hout
      refine ⟨pre, line, ?_, ?_⟩
      · obtain ⟨out, hall⟩ := readResponse_of_not_skipped hstop
        rw [hall] at hout
        rw [(Prod.mk.inj hout).2]
      · match line, hstop with
        | .empty, _ => simp [readResponse, readLine] at hout
        | .text .malformed, hstop => exact absurd trivial hstop
        | .text (.document msg), hstop =>
          have hcheck : checkMessage id msg.json = .error (.server code message) := by
            cases hcheck : checkMessage id msg.json with
            | error e =>
              simp only [readResponse, readLine, hcheck, Prod.mk.injEq, Except.error.injEq] at hout
              rw [hout.1]
            | ok result =>
              cases result with
              | none => exact absurd ((checkMessage_eq_none_iff msg).mp hcheck) hstop
              | some result => simp [readResponse, readLine, hcheck] at hout
          obtain ⟨err, herror, hserver⟩ := find?_error_of_checkMessage hcheck
          have hread := serverError_eq_server.mp ⟨code, message, hserver⟩
          have hown := h pre _ rest' rfl hpre
          refine ⟨by simp [herror], ?_⟩
          by_contra hother
          exact hown ⟨⟨err, herror, hread⟩, hother⟩

/-- **What `read_response` delivers**: when the response is found behind other lines, and when the
right request is blamed. -/
theorem readResponse_delivers_iff (id : Int64) :
    (∀ (noise : List PipeLine) (answer : Answer id) (rest : List PipeLine),
      readResponse id (noise ++ answer.line :: rest) = (.ok answer.result, rest) ↔
        (∀ l ∈ noise, Skipped id l) ∧ answer.msg.json.find? (utf8 "error") = none) ∧
    ∀ lines, BlamesRightly id lines ↔ ∀ pre line rest, lines = pre ++ line :: rest →
      (∀ l ∈ pre, Skipped id l) → ¬ ForeignError id line :=
  ⟨readResponse_noise_iff id, blamesRightly_iff id⟩

/-- **A late error ends the search.** Request 1 has been given up, and its error response comes in
front of the response to request 2. -/
theorem late_error_ends_search :
    ¬ ((∀ (id : Int64) (noise : List PipeLine) (answer : Answer id) (rest : List PipeLine),
        (∀ l ∈ noise, IsNoise id l) →
        readResponse id (noise ++ answer.line :: rest) = (.ok answer.result, rest)) ∧
      ∀ (id : Int64) (lines : List PipeLine), BlamesRightly id lines) := by
  rintro ⟨hfinds, -⟩
  let late : Document := ⟨.obj [(utf8 "error", .obj [(utf8 "code", .int (-32000))]),
    (utf8 "id", .int 1)], by decide +kernel⟩
  let answer : Answer 2 :=
    { msg := ⟨.obj [(utf8 "id", .int 2), (utf8 "result", .obj [])], by decide +kernel⟩
      result := ⟨.obj [], rfl⟩
      carriesId := ⟨.int 2, rfl, rfl⟩
      hasResult := rfl }
  -- the error is of the request before
  have hother : ¬ CarriesId 2 late.json := by
    rintro ⟨v, hv, hid⟩
    obtain rfl : Json.int 1 = v := Option.some.inj hv
    exact absurd (show (1 : Int) = 2 from hid) (by decide)
  have hnoise : ∀ l ∈ [PipeLine.text (.document late)], IsNoise 2 l := by
    intro l hl
    obtain rfl := List.mem_singleton.mp hl
    exact .inr (.inr ⟨.inr (Option.some_ne_none _), hother⟩)
  have hread := hfinds 2 [.text (.document late)] answer [] hnoise
  -- the reader takes it for its own
  rw [readResponse_noise_iff] at hread
  exact absurd (hread.1 _ (List.mem_singleton_self _)).1 (Option.some_ne_none _)

end Aestival
