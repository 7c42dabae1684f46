import Aestival.Agent.Policy
import Aestival.Chat.ContextManager
import Aestival.Library.Json
import Aestival.Library.Prog

/-!
# The effects of a turn

What `process_agent_message` does to its surroundings, as a signature of effects: the calls of the
context manager, the requests to the model, the tools, the atomic operations of the policy engine,
the replies. Each effect is one step that no other thread interrupts: a critical section, an atomic
operation, the sending of a request, the receiving of its response.

`World` is the state the turns of one agent share, and `World.machine` says how the effects act on
it. Model, tools, platform and clock answer anything. `World.reported` is no part of the program:
it sums the tokens that the responses reported.
-/

namespace Aestival

open Bytes

/-! ### Messages, responses, tools -/

/-- The fields of `message_event` a turn reads. -/
structure MessageEvent where
  content : Bytes := []
  senderId : Bytes := []
  senderNick : Bytes := []
  userOpenid : Bytes := []
  groupId : Bytes := []
  channelId : Bytes := []
  guildId : Bytes := []
  isPrivate : Bool := false
  isGroup : Bool := false
  isGuild : Bool := false
  wasAtMentioned : Bool := false
  deriving DecidableEq, Repr

/-- `model_response`. `usage` is the raw object of the provider, `null` where there is none. -/
structure ModelResponse where
  content : Bytes := []
  toolCalls : List ToolCall := []
  usage : Json := .null

/-- `tool_definition`. `parameters` is a JSON schema. -/
structure ToolDefinition where
  name : Bytes
  description : Bytes
  parameters : Json

/-- A request to the model. Those of the tool loop carry the number of their round. -/
inductive ModelRequest where
  | complete (prompt : Bytes)
  | completeMessages (messages : List ChatMessage)
  | completeWithTools (round : Nat) (messages : List ChatMessage) (tools : List Json)

/-- How a task that executes a tool ends. -/
inductive ToolEnd where
  | controllerDestroyed
  | returned (result : Bytes)
  | thrown (t : Thrown)
  deriving DecidableEq, Repr

/-- The figure `key` of a usage object, as the provider reported it. -/
def figure (usage : Json) (key : Bytes) : Int :=
  match usage.find? key with
  | some (.int n) => n
  | some (.float x) => x.num.tdiv x.den
  | _ => 0

/-- The tokens a response reports. -/
def ModelResponse.tokens (r : ModelResponse) : Int :=
  figure r.usage (utf8 "prompt_tokens") + figure r.usage (utf8 "completion_tokens")

/-! ### The signature -/

/-- One step of a turn that others can see. -/
inductive TurnEff where
  /-- `metrics_.message_count` -/
  | countMessage
  /-- `metrics_.prompt_tokens` and `metrics_.completion_tokens` -/
  | addTokens (prompt completion : Int32)
  /-- `plugin_context::reply` -/
  | reply (message : MessageEvent) (content : Bytes)
  /-- `chat_contexts_.append_*` -/
  | append (convoId : Bytes) (m : ChatMessage)
  /-- the first critical section of `summarize_with_model` -/
  | snapshot (convoId : Bytes)
  /-- its second critical section -/
  | commit (convoId : Bytes) (msgCountBefore : Nat) (reply : Completion)
  /-- `chat_contexts_.get_messages` -/
  | load (convoId : Bytes)
  /-- `chat_contexts_.record_token_usage`: the statistics of the database -/
  | recordUsage (model : Bytes) (prompt completion : Int32)
  /-- a request is sent -/
  | request (r : ModelRequest)
  /-- its response is received -/
  | response (r : ModelRequest)
  /-- `get_tools` of every provider -/
  | getTools
  /-- `std::async` for a call -/
  | launchTool (call : ToolCall)
  /-- `get` of its future -/
  | awaitTool (call : ToolCall)
  /-- the local time, formatted -/
  | currentTime
  /-- `today_day_of_year` -/
  | today
  /-- `token_check_day_.load` -/
  | loadDay
  /-- `token_check_day_.compare_exchange_strong` -/
  | casDay (expected desired : Int)
  /-- `tokens_used_today_.store` -/
  | storeUsed (n : Int64)
  /-- `tokens_used_today_.load` -/
  | loadUsed
  /-- `tokens_used_today_.fetch_add` -/
  | addUsed (n : Int64)
  /-- the critical section of the rate limit -/
  | rateLimit (maxMessagesPerMinute : Int32) (actor : Bytes)

/-- The answer of the rate limit, with the time the section has read. -/
structure RateAnswer where
  now : Int
  allowed : Bool
  deriving DecidableEq, Repr

/-- The answers. -/
@[reducible] def TurnEff.Ans : TurnEff → Type
  | .reply .. => Except Thrown Bool
  | .snapshot _ => Option Snapshot
  | .load _ => List ChatMessage
  | .response _ => Except Thrown ModelResponse
  | .getTools => List (List ToolDefinition)
  | .awaitTool _ => ToolEnd
  | .currentTime => Bytes
  | .today => Int
  | .loadDay => Int
  | .casDay .. => Bool
  | .loadUsed => Int64
  | .rateLimit .. => RateAnswer
  | _ => Unit

/-- The signature of a turn. -/
abbrev TurnSig : Signature := ⟨TurnEff, TurnEff.Ans⟩

/-- A part of a turn. It throws what C++ code throws. -/
abbrev Turn (α : Type) := Prog TurnSig Thrown α

/-- Perform one effect. -/
def act (e : TurnEff) : Turn e.Ans := Prog.perform (S := TurnSig) e

/-- The rule for one effect. -/
theorem wp_act {σ : Type} {M : Machine TurnSig σ} {D : σ → TurnEff → Prop} {e : TurnEff}
    {Q : Except Thrown e.Ans → σ → Prop} {s : σ} :
    Prog.wp M D (act e) Q s ↔
      D s e ∧ ∀ x : e.Ans, M.admits s e x → Q (.ok x) (M.next s e x) := Iff.rfl

/-- The rule for one effect and what follows it. -/
theorem wp_act_bind {σ β : Type} {M : Machine TurnSig σ} {D : σ → TurnEff → Prop} {e : TurnEff}
    {f : e.Ans → Turn β} {Q : Except Thrown β → σ → Prop} {s : σ} :
    Prog.wp M D (act e >>= f) Q s ↔
      D s e ∧ ∀ x : e.Ans, M.admits s e x → Prog.wp M D (f x) Q (M.next s e x) := Iff.rfl

/-- One effect and what follows it perform only effects of a kind. -/
theorem only_act_bind {β : Type} {A : TurnEff → Prop} {e : TurnEff} {f : e.Ans → Turn β} :
    Prog.Only (S := TurnSig) A (act e >>= f) ↔ A e ∧ ∀ x, (f x).Only A := Iff.rfl

theorem only_act {A : TurnEff → Prop} {e : TurnEff} :
    Prog.Only (S := TurnSig) A (act e) ↔ A e := and_iff_left fun _ => trivial

/-! ### The shared state -/

/-- `agent_metrics`, as far as a turn should count in it. -/
structure Metrics where
  messageCount : Int64 := 0
  toolCallCount : Int64 := 0
  promptTokens : Int64 := 0
  completionTokens : Int64 := 0
  deriving DecidableEq, Repr

/-- What the turns of one agent share. `usedToday` and `checkDay` are the atomic variables of the
token budget. -/
structure World where
  store : ListStore := ListStore.empty
  rateLimits : RateTable := []
  usedToday : Int64 := 0
  checkDay : Int := 0
  metrics : Metrics := {}
  /-- the tokens the responses have reported -/
  reported : Int := 0

namespace World

/-- The answers an effect can have. Those of the model, the tools, the platform and the clocks are
open. -/
def Admits (w : World) : (e : TurnEff) → e.Ans → Prop
  | .snapshot c, x => x = takeSnapshot (w.store.load c)
  | .load c, x => x = w.store.load c
  | .loadDay, x => x = w.checkDay
  | .casDay expected _, x => x = decide (w.checkDay = expected)
  | .loadUsed, x => x = w.usedToday
  | .rateLimit n actor, x => x.allowed = (Aestival.rateLimit n w.rateLimits actor x.now).2
  | _, _ => True

/-- The state after an effect. -/
def next (w : World) : (e : TurnEff) → e.Ans → World
  | .countMessage, _ =>
    { w with metrics.messageCount := w.metrics.messageCount + 1 }
  | .addTokens p c, _ =>
    { w with
      metrics.promptTokens := w.metrics.promptTokens + p.toInt64
      metrics.completionTokens := w.metrics.completionTokens + c.toInt64 }
  | .append c m, _ => { w with store := w.store.appendMessage c m }
  | .commit c n reply, _ =>
    -- without a text, or with fewer messages than were taken, nothing is stored
    match finishSummary n reply (w.store.load c) with
    | some msgs => { w with store := w.store.save c msgs }
    | none => w
  | .response _, x =>
    match x with
    | .ok r => { w with reported := w.reported + r.tokens }
    | .error _ => w
  -- the exchange of the day: lost if another turn was first
  | .casDay expected desired, _ => if w.checkDay = expected then
    { w with checkDay := desired } else w
  | .storeUsed n, _ => { w with usedToday := n }
  | .addUsed n, _ => { w with usedToday := w.usedToday + n }
  | .rateLimit n actor, x =>
    { w with rateLimits := (Aestival.rateLimit n w.rateLimits actor x.now).1 }
  | _, _ => w

theorem next_commit (w : World) (c : Bytes) (n : Nat) (reply : Completion) (x : Unit) :
    w.next (.commit c n reply) x = match finishSummary n reply (w.store.load c) with
      | some msgs => { w with store := w.store.save c msgs }
      | none => w := rfl

theorem next_casDay (w : World) (expected desired : Int) (x : Bool) :
    w.next (.casDay expected desired) x =
      if w.checkDay = expected then { w with checkDay := desired } else w := rfl

/-- The machine turns run on. -/
def machine : Machine TurnSig World where
  admits := Admits
  next := next

end World

/-! ### A deterministic world -/

/-- Surroundings that always answer alike. -/
structure Scenario where
  model : ModelRequest → Except Thrown ModelResponse
  providers : List (List ToolDefinition) := []
  tool : ToolCall → ToolEnd := fun _ => .returned []
  localTime : Bytes := []
  dayOfYear : Int := 0
  steadyNanos : Int := 0

/-- The answers in given surroundings. -/
def World.answer (around : Scenario) (w : World) : (e : TurnEff) → e.Ans
  | .reply .. => .ok true
  | .snapshot c => takeSnapshot (w.store.load c)
  | .load c => w.store.load c
  | .response r => around.model r
  | .getTools => around.providers
  | .awaitTool call => around.tool call
  | .currentTime => around.localTime
  | .today => around.dayOfYear
  | .loadDay => w.checkDay
  | .casDay expected _ => decide (w.checkDay = expected)
  | .loadUsed => w.usedToday
  | .rateLimit n actor =>
    ⟨around.steadyNanos, (Aestival.rateLimit n w.rateLimits actor around.steadyNanos).2⟩
  | .countMessage | .addTokens .. | .append .. | .commit .. | .recordUsage .. | .request _
  | .launchTool _ | .storeUsed _ | .addUsed _ => ()

theorem World.admits_answer (around : Scenario) (w : World) (e : TurnEff) :
    w.Admits e (w.answer around e) := by
  cases e <;> first | rfl | trivial

end Aestival
