import Aestival.Management.FailedRequests
import Aestival.Web.Routes

/-!
# Calls of the bot

`proxyToBot` sends a call to the bot, at most twice: an attempt fails if `fetch` does, if no
response has come after 15 s, or if the body of the response is not JSON, and then there is another
one. None of this says that the bot has not handled the request.

A mutation should be carried out once, and the browser should be told how it ended (`AppliedOnce`).
`appliedOnce_iff` is what holds: this goes wrong exactly if the bot handles the first attempt, its
response is not read, and the bot handles the second attempt, too. `add_agent_repeated` is an agent
that is added, while the browser is told that it exists already.
-/

namespace Aestival

open Bytes Express Json

/-! ### The call on the wire -/

def verb : Method → Verb
  | .get => .get
  | .post => .post
  | .put => .put
  | .delete => .delete
  | _ => .other

/-- A value of a body, as the bot parses it. Half of a surrogate pair is written as an escape that
the bot does not accept. -/
def BodyValue.written : BodyValue → Option Json
  | .text t => t.toUtf8.map Json.str
  | .other _ json => json

/-- A body, as the bot parses it. -/
def RequestBody.written : RequestBody → Option Json
  | .object fields => do
    let written ← fields.mapM fun field => do return (← field.1.toUtf8, ← field.2.written)
    return .obj written
  | .array json => json

/-- `JSON.stringify`. -/
def stringify (body : RequestBody) : Text :=
  match body.written.bind Json.dump with
  | some document => .document document
  | none => .malformed

/-- A request with a token. It stays the same for both attempts, and is valid for five minutes at
least. -/
structure SignedRequest extends ApiRequest where
  /-- `jwt_verifier::verify` accepts the token. -/
  authentic : Bool := true

/-- The request that `fetch` sends. A request without a body has the empty text, which is not JSON.
-/
def BotCall.request (call : BotCall) (authentic : Bool) : SignedRequest where
  method := verb call.method
  target := (JsString.requestedPath call.path).toUtf8.getD []
  body := (call.body.map stringify).getD .malformed
  authentic

/-! ### An attempt -/

/-- `PROXY_TIMEOUT_MS`. -/
def proxyTimeoutMs : Nat := 15000

/-- What the network does to an attempt. -/
inductive Delivery where
  | requestLost
  | responseLost
  /-- The response comes after some time, and its body is JSON or not. -/
  | responded (afterMs : Nat) (parses : Bool)
  deriving DecidableEq, Repr

/-- The response is not cut off by `controller.abort()`, and `resp.json()` succeeds. -/
def Delivery.isRead : Delivery → Bool
  | .responded afterMs parses => afterMs < proxyTimeoutMs && parses
  | _ => false

/-- What an attempt meets: the network, and what else has happened to the bot before. -/
structure Meeting where
  delivery : Delivery
  before : Bot → Bot := id
  env : BotSurroundings

/-- What is left behind an attempt, or several: the bot, the answers of the bot to the operations it
has executed, and the status that was read. -/
structure Attempted where
  bot : Bot
  executions : List (Option Nat) := []
  status : Option Nat := none

/-- The operation is executed: the request gets to the bot, whose thread runs and which accepts the
token. -/
def Executes (req : SignedRequest) (m : Meeting) (b : Bot) : Prop :=
  req.authentic = true ∧ m.delivery ≠ .requestLost ∧ (m.before b).serving = true

instance (req : SignedRequest) (m : Meeting) (b : Bot) : Decidable (Executes req m b) :=
  inferInstanceAs (Decidable (_ ∧ _))

/-- One attempt. -/
def attempt (req : SignedRequest) (m : Meeting) (b : Bot) : Attempted :=
  -- an answer that is not read is the same to the proxy as none
  if Executes req m b then
    let (bot, status) := (m.before b).handle m.env req.toApiRequest
    { bot, executions := [status], status := if m.delivery.isRead then status else none }
  else if !req.authentic && m.delivery.isRead && (m.before b).serving then
    { bot := m.before b, status := some 401 }
  else { bot := m.before b }

/-- The loop of `proxyToBot`, over the attempts that are left. Behind the last one it throws. -/
def proxyToBot (req : SignedRequest) : List Meeting → Bot → Attempted
  | [], bot => { bot }
  | m :: rest, b =>
    let first := attempt req m b
    -- any status counts as an answer, also one of an error
    match first.status with
    | some _ => first
    | none =>
      let others := proxyToBot req rest first.bot
      { others with executions := first.executions ++ others.executions }

/-- The status of the answer to the browser. -/
def Attempted.uiStatus (a : Attempted) : Nat := a.status.getD 502

/-! ### What should hold -/

/-- The operation is executed at most once, and if it was, the browser is told the status of this
execution or 502. -/
structure AppliedOnce (a : Attempted) : Prop where
  once : a.executions.length ≤ 1
  truthful : ∀ status ∈ a.executions, a.uiStatus = 502 ∨ some a.uiStatus = status

/-- The bot has executed the first attempt, its response is not read, and it executes the second. -/
structure Repeats (req : SignedRequest) (m m' : Meeting) (b : Bot) : Prop where
  first : Executes req m b
  unread : m.delivery.isRead = false ∨ ((m.before b).handle m.env req.toApiRequest).2 = none
  second : Executes req m' (attempt req m b).bot

/-! ### What holds -/

section Attempts

variable {req : SignedRequest} {m m' : Meeting} {b : Bot}

theorem executions_of_executes (h : Executes req m b) :
    (attempt req m b).executions = [((m.before b).handle m.env req.toApiRequest).2] := by
  rw [attempt, if_pos h]

theorem executions_of_not_executes (h : ¬ Executes req m b) :
    (attempt req m b).executions = [] := by
  rw [attempt, if_neg h]
  split
  · rfl
  · rfl

theorem status_of_executes (h : Executes req m b) :
    (attempt req m b).status =
      if m.delivery.isRead then ((m.before b).handle m.env req.toApiRequest).2 else none := by
  rw [attempt, if_pos h]

/-- A bot that does not execute an operation with a good token does not answer either. -/
theorem status_of_not_executes (hauthentic : req.authentic = true) (h : ¬ Executes req m b) :
    (attempt req m b).status = none := by
  rw [attempt, if_neg h, hauthentic]
  rfl

/-- The response of an execution is read unless it is lost, late or not there. -/
theorem status_eq_none_iff (h : Executes req m b) :
    (attempt req m b).status = none ↔
      m.delivery.isRead = false ∨ ((m.before b).handle m.env req.toApiRequest).2 = none := by
  rw [status_of_executes h]
  cases m.delivery.isRead with
  | true => simp
  | false => simp

/-- An attempt by itself is one execution at most, of which the status is told. -/
theorem appliedOnce_attempt : AppliedOnce (attempt req m b) := by
  by_cases h : Executes req m b
  · refine ⟨by rw [executions_of_executes h]; rfl, fun status hstatus => ?_⟩
    rw [executions_of_executes h, List.mem_singleton] at hstatus
    rw [Attempted.uiStatus, status_of_executes h, hstatus]
    -- a bot that ends its thread without an answer leaves the browser with 502
    split
    · cases ((m.before b).handle m.env req.toApiRequest).2 with
      | none => exact Or.inl rfl
      | some status => exact Or.inr rfl
    · exact Or.inl rfl
  · refine ⟨by rw [executions_of_not_executes h]; exact Nat.zero_le _, fun status hstatus => ?_⟩
    rw [executions_of_not_executes h] at hstatus
    exact absurd hstatus List.not_mem_nil

/-- The first response is read, and there is no second attempt. -/
theorem proxyToBot_of_read {status : Nat} (h : (attempt req m b).status = some status) :
    proxyToBot req [m, m'] b = attempt req m b := by
  rw [proxyToBot, h]

/-- The last attempt. -/
theorem proxyToBot_singleton (req : SignedRequest) (m : Meeting) (b : Bot) :
    (proxyToBot req [m] b).executions = (attempt req m b).executions ∧
      (proxyToBot req [m] b).status = (attempt req m b).status := by
  rw [proxyToBot]
  dsimp only
  split
  · exact ⟨rfl, rfl⟩
  · next hlast => exact ⟨List.append_nil _, hlast.symm⟩

/-- A second attempt: what it is answered is what counts. -/
theorem proxyToBot_of_unread (m' : Meeting) (h : (attempt req m b).status = none) :
    (proxyToBot req [m, m'] b).executions =
        (attempt req m b).executions ++ (attempt req m' (attempt req m b).bot).executions ∧
      (proxyToBot req [m, m'] b).status = (attempt req m' (attempt req m b).bot).status := by
  obtain ⟨hexecutions, hstatus⟩ := proxyToBot_singleton req m' (attempt req m b).bot
  rw [proxyToBot, h]
  exact ⟨congrArg _ hexecutions, hstatus⟩

end Attempts

/-- **A call is applied once** and reported truthfully if and only if the bot does not execute it
again behind an execution whose response was not read. -/
theorem appliedOnce_iff (req : SignedRequest) (m m' : Meeting) (b : Bot) :
    AppliedOnce (proxyToBot req [m, m'] b) ↔ ¬ Repeats req m m' b := by
  cases hstatus : (attempt req m b).status with
  | some status =>
    rw [proxyToBot_of_read hstatus]
    refine iff_of_true appliedOnce_attempt fun h => ?_
    rw [(status_eq_none_iff h.first).mpr h.unread] at hstatus
    exact nomatch hstatus
  | none =>
    obtain ⟨hexecutions, htold⟩ := proxyToBot_of_unread m' hstatus
    have hui : (proxyToBot req [m, m'] b).uiStatus =
        (attempt req m' (attempt req m b).bot).uiStatus := by
      rw [Attempted.uiStatus, htold, Attempted.uiStatus]
    by_cases hfirst : Executes req m b
    swap
    · -- the first attempt has left no trace, so everything is up to the second
      rw [executions_of_not_executes hfirst, List.nil_append] at hexecutions
      refine iff_of_true ⟨?_, ?_⟩ fun h => hfirst h.first
      · rw [hexecutions]
        exact appliedOnce_attempt.once
      · rw [hexecutions, hui]
        exact appliedOnce_attempt.truthful
    by_cases hsecond : Executes req m' (attempt req m b).bot
    · refine iff_of_false (fun h => ?_) fun h => ?_
      -- two executions
      · have honce := h.once
        rw [hexecutions, List.length_append, executions_of_executes hfirst,
          executions_of_executes hsecond] at honce
        exact absurd honce (by simp)
      · exact h ⟨hfirst, (status_eq_none_iff hfirst).mp hstatus, hsecond⟩
    · -- the bot has executed the first attempt, and the browser is told that nothing was read
      refine iff_of_true ⟨?_, fun status _ => Or.inl ?_⟩ fun h => hsecond h.second
      · rw [hexecutions, executions_of_executes hfirst, executions_of_not_executes hsecond]
        rfl
      · rw [hui, Attempted.uiStatus, status_of_not_executes hfirst.1 hsecond]
        rfl

/-! ### An agent is added -/

/-- The backend of the administrator `root`. -/
def rootConfig : WebConfig := { adminUsers := [js "root"] }

/-- `POST /api/ui/agents`, from the administrator. -/
def addAgentB : HttpRequest where
  method := .post
  pathname := some (js "/api/ui/agents")
  cookie := some (signSession 0 { id := js "1", username := js "root" })
  body := some (.object [(js "id", .text (js "b"))])

/-- An attempt of which the response is lost, and one that is answered. -/
def lossy : List Meeting :=
  [⟨.responseLost, id, sampleSurroundings⟩, ⟨.responded 20 true, id, sampleSurroundings⟩]

/-- The agent is added, the response is lost, and the second attempt is told that the agent exists.
-/
theorem add_agent_repeated :
    sampleBot.server.Reachable ∧ ∃ call ∈ (serve rootConfig addAgentB {}).calls,
      (proxyToBot (call.request true) lossy sampleBot).executions = [some 200, some 500] ∧
      (proxyToBot (call.request true) lossy sampleBot).uiStatus = 500 ∧
      ¬ AppliedOnce (proxyToBot (call.request true) lossy sampleBot) := by
  have htwice : ∃ call ∈ (serve rootConfig addAgentB {}).calls,
      (proxyToBot (call.request true) lossy sampleBot).executions = [some 200, some 500] ∧
      (proxyToBot (call.request true) lossy sampleBot).uiStatus = 500 := by
    decide +kernel
  obtain ⟨call, hcall, htwice, hui⟩ := htwice
  refine ⟨sampleServer_reachable, call, hcall, htwice, hui, fun h => ?_⟩
  have honce := h.once
  rw [htwice] at honce
  exact absurd honce (by decide)

end Aestival
