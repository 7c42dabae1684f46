import Aestival.Library.Json
import Aestival.Library.Runs

/-!
# The handshake with the gateway

`session::run` connects to the gateway again and again. On each connection `run_websocket_async`
answers the first Hello with Identify, or with Resume if a session can be resumed. Two things
outlive a connection: the id of the session, which a READY sets and an Invalid Session clears, and
the sequence number of the last frame that had one. A connection captures the id when it begins, and
reads the sequence number when it answers.

What should hold is `FollowsResumeProtocol`. It speaks of the frames that have come, not of the
state: which session can be resumed is what the most recent READY or Invalid Session of earlier
connections says (`resumable`). `gateway_followsResumeProtocol` shows it of every run.
-/

namespace Aestival

open Json

/-! ### Frames -/

def opDispatch : Int32 := 0
def opIdentify : Int32 := 2
def opResume : Int32 := 6
def opReconnect : Int32 := 7
def opInvalidSession : Int32 := 9
def opHello : Int32 := 10

/-- `default_intents`. -/
def defaultIntents : Nat := 1 ||| 1 <<< 1 ||| 1 <<< 12 ||| 1 <<< 25 ||| 1 <<< 26

/-- The payload of Identify. -/
def identifyPayload (token : Bytes) : Json :=
  .obj [(utf8 "d", .obj [(utf8 "intents", .int defaultIntents),
      (utf8 "shard", .arr [.int 0, .int 1]), (utf8 "token", .str (utf8 "QQBot " ++ token))]),
    (utf8 "op", .int opIdentify.toInt)]

/-- The payload of Resume. -/
def resumePayload (token sessionId : Bytes) (seq : Int) : Json :=
  .obj [(utf8 "d", .obj [(utf8 "seq", .int seq), (utf8 "session_id", .str sessionId),
      (utf8 "token", .str (utf8 "QQBot " ++ token))]),
    (utf8 "op", .int opResume.toInt)]

/-! ### The session -/

/-- The local variables of `run_websocket_async`. -/
structure GatewayConnection where
  lastSid : Bytes
  identified : Bool := false
  deriving DecidableEq

/-- `last_session_id_`, `last_sequence_`, and the connection that is open. -/
structure GatewayState where
  sessionId : Bytes := []
  lastSequence : Int32 := 0
  connection : Option GatewayConnection := none
  deriving DecidableEq

/-- What a frame meets: the access token, and whether what is called for it fails, be it a write or
a handler. -/
structure FrameEnv where
  token : Bytes
  fails : Bool

namespace GatewayState

/-- The connection ends, by a `break` or an exception. -/
def close (s : GatewayState) : GatewayState := { s with connection := none }

/-- The new sequence number. -/
def readSequence (s : GatewayState) (root : Json) : Except AccessError Int32 :=
  match root.find? (utf8 "s") with
  | none => .ok s.lastSequence
  | some .null => .ok s.lastSequence
  | some v => v.getInt32

/-- The `heartbeat_interval` of a Hello, whose default stands in the header. -/
def heartbeatInterval (root : Json) : Except AccessError Int32 :=
  match root.find? (utf8 "d") with
  | some d => d.value getInt32 (utf8 "heartbeat_interval") 45000
  | none => .ok 45000

/-- The answer to a Hello. -/
def answer (s : GatewayState) (c : GatewayConnection) (token : Bytes) : Json :=
  if c.lastSid = [] then identifyPayload token
  else resumePayload token c.lastSid s.lastSequence.toInt

/-- A Hello. The new state, and what is written. -/
def receiveHello (s : GatewayState) (c : GatewayConnection) (root : Json) (env : FrameEnv) :
    GatewayState × Option Json :=
  match heartbeatInterval root with
  | .error _ => (s.close, none)
  | .ok _ =>
    if c.identified then (s, none)
    else if env.fails then (s.close, none)
    else ({ s with connection := some { c with identified := true } }, some (s.answer c env.token))

/-- The session id of a READY. An exception is caught where it is read. -/
def readySessionId (root : Json) : Bytes :=
  match ((root.find? (utf8 "d")).getD (.obj [])).value getStr (utf8 "session_id") [] with
  | .ok sid => sid
  | .error _ => []

/-- A dispatch, whose event goes to the handlers at last. -/
def receiveDispatch (s : GatewayState) (event : Bytes) (root : Json) (env : FrameEnv) :
    GatewayState :=
  let s := if event = utf8 "READY" ∧ readySessionId root ≠ [] then
      { s with sessionId := readySessionId root }
    else s
  if env.fails then s.close else s

/-- What the loop of `run_websocket_async` does with a frame. -/
def receive (s : GatewayState) (c : GatewayConnection) (root : Json) (env : FrameEnv) :
    GatewayState × Option Json :=
  -- whatever a frame throws ends the connection
  match root.value getInt32 (utf8 "op") 0 with
  | .error _ => (s.close, none)
  | .ok op =>
    match root.value getStr (utf8 "t") [] with
    | .error _ => (s.close, none)
    | .ok event =>
      match s.readSequence root with
      | .error _ => (s.close, none)
      | .ok seq =>
        let s := { s with lastSequence := seq }
        if op = opHello then s.receiveHello c root env
        -- the session is forgotten, and the next connection identifies
        else if op = opInvalidSession then ({ s.close with sessionId := [] }, none)
        else if op = opDispatch then (s.receiveDispatch event root env, none)
        else if op = opReconnect then (s.close, none)
        else (s, none)

end GatewayState

/-- What may happen: a connection begins, a frame comes, or the connection ends for another
reason. Data that are not JSON are skipped. -/
inductive GatewayEvent where
  | connect
  | receive (root : Json) (env : FrameEnv)
  | disconnect

/-- A step of the session. -/
inductive GatewayStep : GatewayState → GatewayEvent → GatewayState → Prop
  | connect {s : GatewayState} (hfree : s.connection = none) :
    GatewayStep s .connect { s with connection := some { lastSid := s.sessionId } }
  | receive {s : GatewayState} {c : GatewayConnection} (hopen : s.connection = some c)
    (root : Json) (env : FrameEnv) :
    GatewayStep s (.receive root env) (s.receive c root env).1
  | disconnect {s : GatewayState} {c : GatewayConnection} (hopen : s.connection = some c) :
    GatewayStep s .disconnect s.close

/-- A run of a session, from its start on. -/
def gateway : TransitionSystem GatewayState GatewayEvent where
  init s := s = {}
  step := GatewayStep

/-- What a step writes to the gateway. -/
def GatewayState.written (s : GatewayState) : GatewayEvent → Option Json
  | .receive root env =>
    match s.connection with
    | some c => (s.receive c root env).2
    | none => none
  | _ => none

/-! ### The protocol -/

/-- The `op` of a frame. -/
def opField (root : Json) : Int :=
  match root.find? (utf8 "op") with
  | some (.int n) => n
  | _ => 0

/-- The `s` of a frame, if it has one. -/
def sequenceField (root : Json) : Option Int :=
  match root.find? (utf8 "s") with
  | some (.int n) => some n
  | _ => none

/-- The session id of a READY, if it is not empty. -/
def readyField (root : Json) : Option Bytes :=
  match root.find? (utf8 "t"), (root.find? (utf8 "d")).bind (·.find? (utf8 "session_id")) with
  | some (.str t), some (.str (b :: bs)) =>
    if opField root = 0 ∧ t = utf8 "READY" then some (b :: bs) else none
  | _, _ => none

/-- What an event says about the session: a READY that there is one, an Invalid Session that there
is none. -/
def sessionNews : GatewayEvent → Option (Option Bytes)
  | .receive root _ => if opField root = 9 then some none else (readyField root).map some
  | _ => none

/-- What an event says about the sequence number. -/
def sequenceNews : GatewayEvent → Option Int
  | .receive root _ => sequenceField root
  | _ => none

/-- The session that can be resumed after some events. -/
def resumable (events : List GatewayEvent) : Option Bytes := (latest sessionNews events).join

/-- The sequence number after some events. -/
def sequenceOf (events : List GatewayEvent) : Int := (latest sequenceNews events).getD 0

/-- The events of a history. -/
def eventsOf (tr : List (GatewayState × GatewayEvent)) : List GatewayEvent := tr.map Prod.snd

/-- What should hold of the run of a session. -/
structure FollowsResumeProtocol (tr : List (GatewayState × GatewayEvent)) : Prop where
  /-- Only a Hello is answered. -/
  hello : ∀ s e p, (s, e) ∈ tr → s.written e = some p →
    ∃ root env, e = .receive root env ∧ opField root = 10
  /-- Between two answers a connection begins. -/
  once : ∀ pre s e mid s' e' post, tr = pre ++ (s, e) :: (mid ++ (s', e') :: post) →
    (s.written e).isSome = true → (s'.written e').isSome = true → ∃ x ∈ mid, x.2 = .connect
  /-- The answer resumes the session of the connections before, if there is one, behind the last
  sequence number that has come. -/
  payload : ∀ pre s₀ mid s e post p, tr = pre ++ (s₀, .connect) :: (mid ++ (s, e) :: post) →
    (∀ x ∈ mid, x.2 ≠ .connect) → s.written e = some p →
    ∃ token, p = match resumable (eventsOf pre) with
      | some sid => resumePayload token sid
          (sequenceOf (eventsOf (pre ++ (s₀, .connect) :: mid ++ [(s, e)])))
      | none => identifyPayload token

/-- The fields of a frame have the types of the protocol, and its numbers fit an `int`. -/
structure WellTyped (root : Json) : Prop where
  isObject : root.isObject = true
  op : ∀ v, root.find? (utf8 "op") = some v → ∃ n : Int32, v = .int n.toInt
  t : ∀ v, root.find? (utf8 "t") = some v → ∃ event, v = .str event
  s : ∀ v, root.find? (utf8 "s") = some v → v = .null ∨ ∃ n : Int32, v = .int n.toInt

/-- Frames are well-typed. -/
def GatewayEvent.WellTyped : GatewayEvent → Prop
  | .receive root _ => Aestival.WellTyped root
  | _ => True

/-! ### One frame -/

namespace WellTyped

variable {root : Json} (h : WellTyped root)
include h

/-- The `op` is read as it stands there. -/
theorem value_op : ∃ op : Int32, root.value getInt32 (utf8 "op") 0 = .ok op ∧
    op.toInt = opField root := by
  cases hop : root.find? (utf8 "op") with
  | none =>
    refine ⟨0, value_of_find?_none h.isObject hop, ?_⟩
    simp only [opField, hop]
    rfl
  | some v =>
    obtain ⟨n, rfl⟩ := h.op v hop
    refine ⟨n, ?_, ?_⟩
    · rw [value_of_find? hop, getInt32, Int32.ofInt_toInt]
    · simp only [opField, hop]

/-- So is the event. -/
theorem value_t : ∃ event, root.value getStr (utf8 "t") [] = .ok event ∧
    (event = utf8 "READY" ↔ root.find? (utf8 "t") = some (.str (utf8 "READY"))) := by
  cases ht : root.find? (utf8 "t") with
  | none => exact ⟨[], value_of_find?_none h.isObject ht, by decide +revert⟩
  | some v =>
    obtain ⟨event, rfl⟩ := h.t v ht
    exact ⟨event, value_of_find? ht, by simp⟩

/-- And the sequence number, which otherwise stays as it is. -/
theorem readSequence (s : GatewayState) : ∃ seq, s.readSequence root = .ok seq ∧
    seq.toInt = (sequenceField root).getD s.lastSequence.toInt := by
  unfold GatewayState.readSequence sequenceField
  cases hs : root.find? (utf8 "s") with
  | none => exact ⟨_, rfl, rfl⟩
  | some v =>
    rcases h.s v hs with rfl | ⟨n, rfl⟩
    · exact ⟨_, rfl, rfl⟩
    · refine ⟨n, ?_, rfl⟩
      show getInt32 (.int n.toInt) = .ok n
      rw [getInt32, Int32.ofInt_toInt]

end WellTyped

/-- The session id of a READY, or nothing. -/
theorem readySessionId_eq (root : Json) : GatewayState.readySessionId root =
    match (root.find? (utf8 "d")).bind (·.find? (utf8 "session_id")) with
      | some (.str sid) => sid
      | _ => [] := by
  unfold GatewayState.readySessionId
  cases root.find? (utf8 "d") with
  | none => rfl
  | some d =>
    rw [Option.getD_some, Option.bind_some]
    cases hsid : d.find? (utf8 "session_id") with
    | some v =>
      rw [value_of_find? hsid]
      cases v <;> rfl
    | none =>
      cases d with
      | obj fields => rw [value_of_find?_none rfl hsid]
      | _ => rfl

/-- It is taken if it is not empty. -/
theorem readyField_eq {root : Json} {event : Bytes} (hop : opField root = 0)
    (ht : event = utf8 "READY" ↔ root.find? (utf8 "t") = some (.str (utf8 "READY"))) :
    readyField root = if event = utf8 "READY" ∧ GatewayState.readySessionId root ≠ [] then
      some (GatewayState.readySessionId root) else none := by
  rw [readySessionId_eq, readyField]
  generalize (root.find? (utf8 "d")).bind _ = path
  -- only a READY with a session id that is not empty counts
  by_cases hready : event = utf8 "READY"
  · rw [ht.mp hready]
    cases path with
    | none => simp
    | some sid =>
      cases sid with
      | str sid => cases sid <;> simp [hop, hready]
      | _ => simp
  · -- another event
    rw [if_neg fun h => hready h.1]
    split
    · next t b bs heq =>
      refine if_neg fun h => hready (ht.mpr ?_)
      rw [heq, h.2]
    · rfl

/-- What a dispatch does to the session. -/
theorem receiveDispatch_spec (s : GatewayState) (event : Bytes) (root : Json) (env : FrameEnv) :
    (s.receiveDispatch event root env).sessionId =
        (if event = utf8 "READY" ∧ GatewayState.readySessionId root ≠ [] then
          GatewayState.readySessionId root else s.sessionId) ∧
      (s.receiveDispatch event root env).lastSequence = s.lastSequence ∧
      ∀ c, (s.receiveDispatch event root env).connection = some c → s.connection = some c := by
  unfold GatewayState.receiveDispatch
  by_cases hready : event = utf8 "READY" ∧ GatewayState.readySessionId root ≠ []
  · cases env.fails <;> simp [hready, GatewayState.close]
  · cases env.fails <;> simp [hready, GatewayState.close]

/-- What a well-typed frame does to the session. -/
structure ReceiveSpec (s : GatewayState) (c : GatewayConnection) (root : Json) (env : FrameEnv)
    (out : GatewayState × Option Json) : Prop where
  session : out.1.sessionId = match sessionNews (.receive root env) with
    | some news => news.getD []
    | none => s.sessionId
  sequence : out.1.lastSequence.toInt = (sequenceField root).getD s.lastSequence.toInt
  connection : ∀ c', out.1.connection = some c' → c'.lastSid = c.lastSid ∧
    ((c.identified = true ∨ out.2.isSome = true) → c'.identified = true)
  written : ∀ p, out.2 = some p → opField root = 10 ∧ c.identified = false ∧
    p = out.1.answer c env.token

theorem receive_spec {s : GatewayState} {c : GatewayConnection} {root : Json} (env : FrameEnv)
    (h : WellTyped root) (hopen : s.connection = some c) :
    ReceiveSpec s c root env (s.receive c root env) := by
  obtain ⟨op, hop, hopField⟩ := h.value_op
  obtain ⟨event, ht, hevent⟩ := h.value_t
  obtain ⟨seq, hs, hseq⟩ := h.readSequence s
  simp only [GatewayState.receive, hop, ht, hs]
  have hopen' : ∀ c', s.connection = some c' → c' = c := fun c' hc =>
    (Option.some.inj (hopen.symm.trans hc)).symm
  -- a frame of another kind says nothing about the session
  have hquiet : opField root ≠ 0 → opField root ≠ 9 →
      sessionNews (.receive root env) = none := by
    intro h0 h9
    have hready : readyField root = none := by
      rw [readyField]
      split
      · exact if_neg fun hready => h0 hready.1
      · rfl
    simp [sessionNews, h9, hready]
  split
  · next hhello =>
    have hten : opField root = 10 := by rw [← hopField, hhello]; rfl
    have hnews := hquiet (by rw [hten]; decide) (by rw [hten]; decide)
    -- an interval that cannot be read, a second Hello, a write that fails, and an answer
    unfold GatewayState.receiveHello
    split
    · exact ⟨by rw [hnews]; rfl, hseq, by simp [GatewayState.close], by simp⟩
    · split
      · refine ⟨by rw [hnews], hseq, ?_, by simp⟩
        intro c' hc
        obtain rfl := hopen' c' hc
        exact ⟨rfl, by simp⟩
      · next hidentified =>
        split
        · exact ⟨by rw [hnews]; rfl, hseq, by simp [GatewayState.close], by simp⟩
        · refine ⟨by rw [hnews], hseq, ?_, ?_⟩
          · intro c' hc
            obtain rfl := Option.some.inj hc
            exact ⟨rfl, fun _ => rfl⟩
          · intro p hp
            obtain rfl := Option.some.inj hp
            exact ⟨hten, by simpa using hidentified, rfl⟩
  next hnotHello =>
  split
  · next hinvalid =>
    have hnine : opField root = 9 := by rw [← hopField, hinvalid]; rfl
    have hnews : sessionNews (.receive root env) = some none := if_pos hnine
    exact ⟨by rw [hnews]; rfl, hseq, by simp [GatewayState.close], by simp⟩
  next hnotInvalid =>
  split
  · next hdispatch =>
    have hzero : opField root = 0 := by rw [← hopField, hdispatch]; rfl
    have hnews : sessionNews (.receive root env) =
        if event = utf8 "READY" ∧ GatewayState.readySessionId root ≠ [] then
          some (some (GatewayState.readySessionId root)) else none := by
      show (if opField root = 9 then some none else (readyField root).map some) = _
      rw [if_neg (by rw [hzero]; decide), readyField_eq hzero hevent]
      split <;> rfl
    obtain ⟨hsession, hsequence, hconnection⟩ :=
      receiveDispatch_spec { s with lastSequence := seq } event root env
    -- a dispatch: a READY names the session, and a handler that fails closes the connection
    refine ⟨?_, ?_, ?_, by simp⟩
    · rw [hnews]
      dsimp only
      rw [hsession]
      split <;> rfl
    · dsimp only
      rw [hsequence]
      exact hseq
    · intro c' hc
      obtain rfl := hopen' c' (hconnection c' hc)
      exact ⟨rfl, by simp⟩
  next hnotDispatch =>
  have hnews : sessionNews (.receive root env) = none := by
    apply hquiet
    · rw [← hopField]
      exact fun h0 => hnotDispatch (Int32.toInt_inj.mp h0)
    · rw [← hopField]
      exact fun h9 => hnotInvalid (Int32.toInt_inj.mp h9)
  split
  · exact ⟨by rw [hnews]; rfl, hseq, by simp [GatewayState.close], by simp⟩
  · refine ⟨by rw [hnews], hseq, ?_, by simp⟩
    intro c' hc
    obtain rfl := hopen' c' hc
    exact ⟨rfl, by simp⟩

/-! ### Every run -/

theorem eventsOf_concat (tr : List (GatewayState × GatewayEvent)) (s : GatewayState)
    (e : GatewayEvent) : eventsOf (tr ++ [(s, e)]) = eventsOf tr ++ [e] := by
  simp [eventsOf]

theorem resumable_concat (events : List GatewayEvent) (e : GatewayEvent) :
    resumable (events ++ [e]) = (sessionNews e).getD (resumable events) :=
  join_latest_concat sessionNews events e

theorem sequenceOf_concat (events : List GatewayEvent) (e : GatewayEvent) :
    sequenceOf (events ++ [e]) = (sequenceNews e).getD (sequenceOf events) := by
  rw [sequenceOf, latest_concat]
  cases sequenceNews e <;> rfl

/-- A session that can be resumed has an id. -/
theorem ne_nil_of_resumable {events : List GatewayEvent} {sid : Bytes}
    (h : resumable events = some sid) : sid ≠ [] := by
  -- the last news that there is has named the session
  induction events using List.reverseRecOn with
  | nil => simp [resumable] at h
  | append_singleton events e ih =>
    rw [resumable_concat] at h
    cases e with
    | receive root env =>
      cases hnews : sessionNews (.receive root env) with
      | none =>
        rw [hnews] at h
        exact ih h
      | some news =>
        rw [hnews, Option.getD_some] at h
        subst h
        simp only [sessionNews] at hnews
        split at hnews
        · simp at hnews
        · unfold readyField at hnews
          split at hnews
          · split at hnews <;> simp at hnews
            rw [← hnews]
            exact List.cons_ne_nil _ _
          · simp at hnews
    | connect => exact ih h
    | disconnect => exact ih h

/-- What the state knows of the history. -/
structure GatewayInv (tr : List (GatewayState × GatewayEvent)) (s : GatewayState) : Prop where
  session : s.sessionId = (resumable (eventsOf tr)).getD []
  sequence : s.lastSequence.toInt = sequenceOf (eventsOf tr)
  /-- the connection that is open knows the session of the connections before, and whether it has
  answered -/
  connection : ∀ c, s.connection = some c → ∃ pre s₀ mid, tr = pre ++ (s₀, .connect) :: mid ∧
    (∀ x ∈ mid, x.2 ≠ .connect) ∧ c.lastSid = (resumable (eventsOf pre)).getD [] ∧
    ((∃ x ∈ mid, (x.1.written x.2).isSome = true) → c.identified = true)

/-- Every step keeps this. -/
theorem GatewayInv.step {tr : List (GatewayState × GatewayEvent)} {s s' : GatewayState}
    {e : GatewayEvent} (h : GatewayInv tr s) (hstep : GatewayStep s e s') (htyped : e.WellTyped) :
    GatewayInv (tr ++ [(s, e)]) s' := by
  cases hstep with
  | connect hfree =>
    refine ⟨?_, ?_, ?_⟩
    · rw [eventsOf_concat, resumable_concat]
      exact h.session
    · rw [eventsOf_concat, sequenceOf_concat]
      exact h.sequence
    · intro c hc
      obtain rfl := Option.some.inj hc
      exact ⟨tr, s, [], rfl, by simp, h.session, by simp⟩
  | disconnect hopen =>
    refine ⟨?_, ?_, by simp [GatewayState.close]⟩
    · rw [eventsOf_concat, resumable_concat]
      exact h.session
    · rw [eventsOf_concat, sequenceOf_concat]
      exact h.sequence
  | @receive c hopen root env =>
    have hspec := receive_spec env htyped hopen
    refine ⟨?_, ?_, ?_⟩
    · rw [eventsOf_concat, resumable_concat, hspec.session]
      cases sessionNews (.receive root env) with
      | none => exact h.session
      | some news => rfl
    · rw [eventsOf_concat, sequenceOf_concat, hspec.sequence, h.sequence]
      rfl
    · intro c' hc
      obtain ⟨hsid, hidentified⟩ := hspec.connection c' hc
      obtain ⟨pre, s₀, mid, rfl, hmid, hlast, hwrites⟩ := h.connection c hopen
      -- the connection is the one that was open, one frame later
      refine ⟨pre, s₀, mid ++ [(s, .receive root env)], by simp, ?_, hsid.trans hlast, ?_⟩
      · intro x hx
        rcases List.mem_append.mp hx with hx | hx
        · exact hmid x hx
        · obtain rfl := List.mem_singleton.mp hx
          simp
      · rintro ⟨x, hx, hwrite⟩
        apply hidentified
        rcases List.mem_append.mp hx with hx | hx
        · exact .inl (hwrites ⟨x, hx, hwrite⟩)
        · -- the frame itself is answered
          obtain rfl := List.mem_singleton.mp hx
          right
          simpa only [GatewayState.written, hopen] using hwrite

/-- So a run whose frames are well-typed always knows its history. -/
theorem gateway_inv {tr : List (GatewayState × GatewayEvent)} {s : GatewayState}
    (h : TransitionSystem.Run gateway tr s) (htyped : ∀ x ∈ tr, x.2.WellTyped) :
    GatewayInv tr s := by
  induction h with
  | start h =>
    obtain rfl := h
    exact ⟨rfl, rfl, by simp⟩
  | @step tr s s' e _ hstep ih =>
    have hbefore := ih fun x hx => htyped x (List.mem_append_left _ hx)
    exact hbefore.step hstep (htyped (s, e) (by simp))

/-- What is written is the answer to a Hello on a connection that has not answered yet. -/
theorem written_spec {s : GatewayState} {e : GatewayEvent} {p : Json}
    (hwrite : s.written e = some p)
    (htyped : e.WellTyped) : ∃ root env c, e = .receive root env ∧ s.connection = some c ∧
      ReceiveSpec s c root env (s.receive c root env) ∧ (s.receive c root env).2 = some p := by
  cases e with
  | receive root env =>
    cases hopen : s.connection with
    | none => simp [GatewayState.written, hopen] at hwrite
    | some c =>
      refine ⟨root, env, c, rfl, rfl, receive_spec env htyped hopen, ?_⟩
      simpa only [GatewayState.written, hopen] using hwrite
  | connect => cases hwrite
  | disconnect => cases hwrite

/-- **The handshake follows the resume protocol** in every run of a session whose frames are
well-typed. -/
theorem gateway_followsResumeProtocol {tr : List (GatewayState × GatewayEvent)} {s : GatewayState}
    (h : TransitionSystem.Run gateway tr s) (htyped : ∀ x ∈ tr, x.2.WellTyped) :
    FollowsResumeProtocol tr := by
  -- the invariant holds where a step is taken
  have hinv : ∀ pre s' e post, tr = pre ++ (s', e) :: post → GatewayInv pre s' := by
    rintro pre s' e post rfl
    exact gateway_inv h.upTo fun x hx => htyped x (List.mem_append_left _ hx)
  refine ⟨?_, ?_, ?_⟩
  · intro s e p hmem hwrite
    obtain ⟨root, env, c, rfl, -, hspec, hout⟩ := written_spec hwrite (htyped _ hmem)
    exact ⟨root, env, rfl, (hspec.written p hout).1⟩
  · intro pre s e mid s' e' post htr hwrite hwrite'
    -- with no new connection in between both would be on one connection, which answers once
    by_contra hnone
    have hmid : ∀ x ∈ mid, x.2 ≠ .connect := fun x hx hconnect => hnone ⟨x, hx, hconnect⟩
    have htr' : tr = (pre ++ (s, e) :: mid) ++ (s', e') :: post := by rw [htr]; simp
    obtain ⟨p', hp'⟩ := Option.isSome_iff_exists.mp hwrite'
    obtain ⟨root, env, c, rfl, hopen, hspec, hout⟩ :=
      written_spec hp' (htyped (s', e') (by rw [htr']; simp))
    obtain ⟨pre', s₀, mid', hsplit, hmid', -, hanswered⟩ :=
      (hinv _ _ _ _ htr').connection c hopen
    -- the first answer was given on the same connection
    have hmem : (s, e) ∈ mid' := by
      have hne : e ≠ .connect := by
        rintro rfl
        simp [GatewayState.written] at hwrite
      rcases List.append_eq_append_iff.mp hsplit with ⟨l, -, hl⟩ | ⟨l, hl, hl'⟩
      · cases l with
        | nil => exact absurd (Prod.mk.inj (List.cons.inj hl).1).2 hne
        | cons x l =>
          obtain ⟨-, hl⟩ := List.cons.inj hl
          exact absurd rfl (hmid (s₀, .connect) (hl ▸ by simp))
      · cases l with
        | nil => exact absurd (Prod.mk.inj (List.cons.inj hl').1).2.symm hne
        | cons x l =>
          obtain ⟨-, hl'⟩ := List.cons.inj hl'
          rw [hl']
          simp
    have := hanswered ⟨_, hmem, hwrite⟩
    rw [(hspec.written p' hout).2.1] at this
    exact Bool.false_ne_true this
  · intro pre s₀ mid s e post p htr hmid hwrite
    have htr' : tr = (pre ++ (s₀, .connect) :: mid) ++ (s, e) :: post := by rw [htr]; simp
    have htypedE := htyped (s, e) (by rw [htr']; simp)
    obtain ⟨root, env, c, rfl, hopen, hspec, hout⟩ := written_spec hwrite htypedE
    have hpre := hinv _ _ _ _ htr'
    obtain ⟨pre', s₁, mid', hsplit, hmid', hlast, -⟩ := hpre.connection c hopen
    -- the connection began where `pre` ends
    obtain ⟨rfl, -, -⟩ := eq_of_last_split (p := fun x : GatewayState × GatewayEvent =>
      x.2 = .connect) hsplit rfl hmid rfl hmid'
    have hseq : (s.receive c root env).1.lastSequence.toInt =
        sequenceOf (eventsOf (pre ++ (s₀, .connect) :: mid ++ [(s, .receive root env)])) := by
      rw [hspec.sequence, hpre.sequence, eventsOf_concat, sequenceOf_concat]
      rfl
    refine ⟨env.token, ?_⟩
    rw [(hspec.written p hout).2.2, GatewayState.answer, hlast, hseq]
    cases hresume : resumable (eventsOf pre) with
    | none => rfl
    | some sid => rw [Option.getD_some, if_neg (ne_nil_of_resumable hresume)]

/-- A session that is identified on the first connection and resumed on the second one. -/
theorem gateway_followsResumeProtocol_resume :
    ∃ tr s, TransitionSystem.Run gateway tr s ∧ FollowsResumeProtocol tr ∧
      (tr.filterMap fun x => x.1.written x.2) =
        [identifyPayload [116], resumePayload [116] [120] 1] := by
  let hello : Json := .obj [(utf8 "op", .int 10)]
  let ready : Json := .obj [(utf8 "d", .obj [(utf8 "session_id", .str [120])]),
    (utf8 "op", .int 0), (utf8 "s", .int 1), (utf8 "t", .str (utf8 "READY"))]
  let env : FrameEnv := ⟨[116], false⟩
  have hhello : WellTyped hello := by
    refine ⟨rfl, ?_, ?_, ?_⟩
    · intro v hv
      exact ⟨10, (Option.some.inj hv).symm⟩
    · intro v hv
      cases hv
    · intro v hv
      cases hv
  have hready : WellTyped ready := by
    refine ⟨rfl, ?_, ?_, ?_⟩
    · intro v hv
      exact ⟨0, (Option.some.inj hv).symm⟩
    · intro v hv
      exact ⟨_, (Option.some.inj hv).symm⟩
    · intro v hv
      exact .inr ⟨1, (Option.some.inj hv).symm⟩
  -- identified, made ready, disconnected, and resumed
  have h0 : TransitionSystem.Run gateway [] {} := .start rfl
  have h1 := h0.step (GatewayStep.connect rfl)
  have h2 := h1.step (GatewayStep.receive rfl hello env)
  have h3 := h2.step (GatewayStep.receive (c := ⟨[], true⟩) rfl ready env)
  have h4 := h3.step (GatewayStep.disconnect (c := ⟨[], true⟩) rfl)
  have h5 := h4.step (GatewayStep.connect rfl)
  have h6 := h5.step (GatewayStep.receive (c := ⟨[120], false⟩) rfl hello env)
  refine ⟨_, _, h6, gateway_followsResumeProtocol h6 ?_, ?_⟩
  · simp [GatewayEvent.WellTyped, hhello, hready]
  · rfl

end Aestival
