import Aestival.Agent.McpSession
import Aestival.Agent.McpResponses
import Aestival.Library.Mutex

/-!
# The calls of a session and their answers

Whatever the server writes and however the calls of its tools interleave, a call is given what the
server has answered to the request of this call (`session_safe`): the lines of a trade were all read
by the call that had written its request, and `read_response` finds the result in them. No two
requests of a session have the same id, and the handshake comes first.

* `PipeRules` says what may be done with the pipes when. Every part of the client keeps to it
  (`wp_sendRequest`, `wp_executeTool`, `wp_construct`), and these lemmas also say what it leaves
  in its own record of the pipes.
* `Owns` is what the lock protects: the trade under way is that of the call that has the lock, and
  the ids of the requests ascend. The rules of a lock hold for it (`lockRules`), and the rest is an
  induction over the steps of a run.
-/

namespace Aestival

open Json McpClient Prog

namespace McpSession

/-! ### Requests -/

/-- What may be done with the pipes. -/
def PipeRules (p : Pipes) : McpEff → Prop
  | .lock => p = { log := p.log }
  | .unlock => p.locked = true
  | .takeId => p.locked = true ∧ p.id = none ∧ p.current = none
  | .write line => p.locked = true ∧ p.current = none ∧
      ∀ id, (Trade.mk line []).requestId = some id → p.id = some id
  | .readLine => p.locked = true
  | _ => True

/-- What the lines that were read for a request with the id `id` make of it. -/
def Received (id : Int64) (read : List PipeLine) : Except McpFailure Document → Prop
  | .ok result => readResponse id read = (.ok result, [])
  | .error (.reader e) => readResponse id read = (.error e, [])
  | .error (.responseTimeout expected) => expected = id ∧ ∀ l ∈ read, Skipped id l
  | .error (.writeFailed _) => False

/-- How a request ends, and the trades it leaves. -/
inductive RequestEnds (line : Int → Except McpError Json.Text) :
    Except McpFailure Document → List Trade → Prop
  | unwritable {id : Int} {e : McpError} (hline : line id = .error e) :
    RequestEnds line (.error (.reader e)) []
  | writeFailed (why : Bytes) : RequestEnds line (.error (.writeFailed why)) []
  | received {id : Int} {text : Json.Text} {read : List PipeLine} {r : Except McpFailure Document}
    (hline : line id = .ok text) (hread : Received (.ofInt id) read r) :
    RequestEnds line r [⟨text, read⟩]

section Parts

theorem doing_bind_iff {α σ : Type} {M : Machine McpSig σ} {D : σ → McpEff → Prop} {e : McpEff}
    {f : e.Ans → Mcp α} {Q : Except McpFailure α → σ → Prop} {s : σ} :
    wp M D (doing e >>= f) Q s ↔
      D s e ∧ ∀ x : e.Ans, M.admits s e x → wp M D (f x) Q (M.next s e x) := Iff.rfl

/-- Between taking the lock and giving it back. -/
theorem wp_withLock {α : Type} {p : Mcp α} {Q : Except McpFailure α → Pipes → Prop}
    {log : List Trade}
    (hp : wp Pipes.machine PipeRules p
      (fun r s => s.locked = true ∧ Q r { log := s.log ++ s.current.toList })
      { locked := true, log := log }) :
    wp Pipes.machine PipeRules (withLock p) Q { log := log } := by
  unfold withLock
  rw [doing_bind_iff]
  refine ⟨rfl, fun _ _ => ?_⟩
  rw [wp_bind, wp_tryCatch]
  refine wp_mono hp fun r s' hr => ?_
  cases r with
  | ok a => exact ⟨hr.1, fun _ _ => hr.2⟩
  | error e => exact ⟨hr.1, fun _ _ => hr.2⟩

variable {id : Int} {text : Json.Text} {read : List PipeLine} {log : List Trade}

/-- The record while a response is waited for. -/
def waiting (id : Int) (text : Json.Text) (log : List Trade) (read : List PipeLine) : Pipes where
  locked := true
  id := some id
  current := some ⟨text, read⟩
  log := log

/-- The response is looked for in the lines that come. -/
theorem wp_receive (lines : Nat) (hskipped : ∀ l ∈ read, Skipped (.ofInt id) l) :
    wp Pipes.machine PipeRules (receive (.ofInt id) lines)
      (fun r s => ∃ read', s = waiting id text log read' ∧ Received (.ofInt id) read' r)
      (waiting id text log read) := by
  -- induction on the lines there is time for; all lines so far were skipped
  induction lines generalizing read with
  | zero => exact ⟨read, rfl, rfl, hskipped⟩
  | succ lines ih =>
    unfold receive
    rw [doing_bind_iff]
    refine ⟨rfl, fun line _ => ?_⟩
    have hread : readResponse (.ofInt id) (read ++ [line]) = readResponse (.ofInt id) [line] :=
      readResponse_append _ hskipped [line]
    have hmore : Skipped (.ofInt id) line → ∀ l ∈ read ++ [line], Skipped (.ofInt id) l :=
      fun hline l hl => (List.mem_append.mp hl).elim (hskipped l)
        fun h => List.mem_singleton.mp h ▸ hline
    show wp Pipes.machine PipeRules _ _ (waiting id text log (read ++ [line]))
    cases line with
    | empty =>
      have hlost : readResponse (.ofInt id) (read ++ [.empty]) =
          (.error (.connectionLost (.ofInt id)), []) := hread
      exact ⟨_, rfl, hlost⟩
    | text t =>
      cases t with
      | malformed => exact ih (hmore trivial)
      | document msg =>
        simp only [readLine]
        cases hcheck : checkMessage (.ofInt id) msg.json with
        | error e =>
          refine ⟨read ++ [.text (.document msg)], rfl, ?_⟩
          show readResponse (.ofInt id) _ = _
          rw [hread]
          simp only [readResponse, readLine, hcheck]
        | ok result =>
          cases result with
          | none => exact ih (hmore ((checkMessage_eq_none_iff msg).mp hcheck))
          | some result =>
            refine ⟨read ++ [.text (.document msg)], rfl, ?_⟩
            show readResponse (.ofInt id) _ = _
            rw [hread]
            simp only [readResponse, readLine, hcheck]

/-- The line of a request carries its id. -/
def CarriesOwnId (line : Int → Except McpError Json.Text) : Prop :=
  ∀ {id : Int} {text : Json.Text}, line id = .ok text →
    ∀ id', (Trade.mk text []).requestId = some id' → some id = some id'

/-- A request leaves one trade, or none. -/
theorem wp_sendRequest {line : Int → Except McpError Json.Text} (hown : CarriesOwnId line)
    (log : List Trade) :
    wp Pipes.machine PipeRules (sendRequest line)
      (fun r s => ∃ trades, s = { log := log ++ trades } ∧ RequestEnds line r trades)
      { log := log } := by
  refine wp_withLock ?_
  rw [doing_bind_iff]
  -- the id is taken before the line is formed, and stays taken if there is no line
  refine ⟨⟨rfl, rfl, rfl⟩, fun id _ => ?_⟩
  cases hline : line id with
  | error e => exact ⟨rfl, [], rfl, .unwritable hline⟩
  | ok text =>
    show wp _ _ ((do writeLine text; let lines : Nat ← doing .deadline; receive (.ofInt id) lines))
      _ _
    unfold writeLine
    rw [wp_bind, doing_bind_iff]
    refine ⟨⟨rfl, rfl, fun id' hid' => hown hline id' hid'⟩, fun failed _ => ?_⟩
    cases failed with
    | some why => exact ⟨rfl, [], rfl, .writeFailed why⟩
    | none =>
      show wp _ _ (doing .deadline >>= fun lines : Nat => receive (.ofInt id) lines) _
        (waiting id text log [])
      rw [doing_bind_iff]
      refine ⟨trivial, fun lines _ => ?_⟩
      -- no line has been read when the loop of `receive_response` begins
      have hnone : ∀ l ∈ ([] : List PipeLine), Skipped (.ofInt id) l := fun l hl => nomatch hl
      show wp _ _ (receive (.ofInt id) lines) _ (waiting id text log [])
      refine wp_mono (wp_receive lines hnone) ?_
      rintro r s ⟨read, rfl, hreceived⟩
      exact ⟨rfl, [⟨text, read⟩], rfl, .received hline hreceived⟩

/-- A notification leaves a trade without an answer, if it can be written. -/
theorem wp_sendNotification (method : Bytes) (params : Json) (log : List Trade) :
    wp Pipes.machine PipeRules (sendNotification method params)
      (fun r s => ∃ trades, s = { log := log ++ trades } ∧
        (r = .ok () → ∃ d : Document, d.json = notification method params ∧
          trades = [⟨.document d, []⟩]))
      { log := log } := by
  refine wp_withLock ?_
  cases hdump : (notification method params).dump with
  -- no JSON text of the parameters
  | none => exact ⟨rfl, [], rfl, fun h => nomatch h⟩
  | some d =>
    have hd : d.json = notification method params := json_of_dump hdump
    show wp _ _ (writeLine (.document d)) _ _
    unfold writeLine
    rw [doing_bind_iff]
    refine ⟨⟨rfl, rfl, fun id hid => ?_⟩, fun failed _ => ?_⟩
    -- a notification has no id
    · have hid' : idOf d.json = some id := hid
      rw [hd] at hid'
      cases hid'
    · cases failed with
      | none => exact ⟨rfl, [⟨.document d, []⟩], rfl, fun _ => ⟨d, hd, rfl⟩⟩
      | some why => exact ⟨rfl, [], rfl, fun h => nomatch h⟩

end Parts

/-! ### The handshake -/

theorem carriesOwnId_requestLine (method : Bytes) (params : Json) :
    CarriesOwnId (requestLine method params) := by
  intro id text h id' hid'
  unfold requestLine at h
  cases hdump : (request method params id).dump with
  | none => rw [hdump] at h; cases h
  | some d =>
    rw [hdump] at h
    obtain rfl := Except.ok.inj h
    have hown : idOf d.json = some id' := hid'
    rwa [json_of_dump hdump] at hown

/-- The handshake that has led to what the client knows of its server. -/
inductive Opened (cfg : McpConfig) (server : Server) : List Trade → Prop
  | mk {initResult toolsResult initialized : Document} {init list : Trade}
    (hinit : RequestEnds (requestLine (utf8 "initialize") initParams) (.ok initResult) [init])
    (hinfo : serverInfo cfg initResult.json = .ok (server.name, server.version))
    (hnote : initialized.json = notification (utf8 "notifications/initialized") (.obj []))
    (hlist : RequestEnds (requestLine (utf8 "tools/list") (.obj [])) (.ok toolsResult) [list])
    (htools : listedTools toolsResult.json = .ok server.tools) :
    Opened cfg server [init, ⟨.document initialized, []⟩, list]

/-- What the constructor returns, and what it leaves. -/
def Constructed (cfg : McpConfig) (r : Except McpFailure (Option Server)) (s : Pipes) : Prop :=
  ∃ log, s = { log := log } ∧
    ∃ server, r = .ok server ∧ ∀ known, server = some known → Opened cfg known log

/-- An exception ends the handshake. -/
theorem constructed_none (cfg : McpConfig) (log : List Trade) :
    Constructed cfg (.ok none) { log := log } :=
  ⟨log, rfl, none, rfl, fun _ h => nomatch h⟩

theorem wp_access_bind {α β σ : Type} {M : Machine McpSig σ} {D : σ → McpEff → Prop}
    {x : Except AccessError α} {f : α → Mcp β} {Q : Except McpFailure β → σ → Prop} {s : σ}
    (hok : ∀ a, x = .ok a → wp M D (f a) Q s) (herror : ∀ e, Q (.error e) s) :
    wp M D (access x >>= f) Q s := by
  cases x with
  | ok a => exact hok a rfl
  | error e => exact herror _

theorem wp_performHandshake (cfg : McpConfig) :
    wp Pipes.machine PipeRules (performHandshake cfg) (Constructed cfg) {} := by
  unfold performHandshake
  rw [wp_tryCatch]
  have hfailed : ∀ {r : Except McpFailure Server} {log : List Trade} {e : McpFailure},
      Catching Pipes.machine PipeRules (fun _ => pure none) (Constructed cfg) (.error e)
        { log := log } := constructed_none cfg _
  -- `initialize`
  refine wp_bind_of (wp_sendRequest (carriesOwnId_requestLine _ _) []) ?_ ?_
  · rintro initResult s ⟨trades, rfl, hinit⟩
    cases hinit with
    | received hline hread =>
      refine wp_access_bind (fun info hinfo => ?_) fun e => constructed_none cfg _
      -- `notifications/initialized`
      refine wp_bind_of (wp_sendNotification _ _ _) ?_ ?_
      · rintro _ s ⟨trades, rfl, hnote⟩
        obtain ⟨initialized, hinitialized, rfl⟩ := hnote rfl
        -- `tools/list`
        refine wp_bind_of (wp_sendRequest (carriesOwnId_requestLine _ _) _) ?_ ?_
        · rintro toolsResult s ⟨trades, rfl, hlist⟩
          cases hlist with
          | received hline' hread' =>
            refine wp_access_bind (fun tools htools => ?_) fun e => constructed_none cfg _
            refine ⟨_, rfl, _, rfl, ?_⟩
            rintro known hknown
            obtain rfl := Option.some.inj hknown
            exact .mk (.received hline hread) hinfo hinitialized (.received hline' hread') htools
        · rintro e s ⟨trades, rfl, -⟩
          exact constructed_none cfg _
      · rintro e s ⟨trades, rfl, -⟩
        exact constructed_none cfg _
  · rintro e s ⟨trades, rfl, -⟩
    exact constructed_none cfg _

theorem wp_construct (cfg : McpConfig) :
    wp Pipes.machine PipeRules (construct cfg) (Constructed cfg) {} := by
  unfold construct
  rw [doing_bind_iff]
  refine ⟨trivial, fun launched _ => ?_⟩
  cases launched with
  | false => exact constructed_none cfg []
  | true =>
    refine wp_bind_of (wp_performHandshake cfg) ?_ ?_
    · rintro server s ⟨log, rfl, server', hserver, hopened⟩
      obtain rfl := Except.ok.inj hserver
      cases server with
      -- a handshake that fails leaves no server
      | none => exact ⟨trivial, fun _ _ => constructed_none cfg log⟩
      | some server => exact ⟨trivial, fun _ _ => ⟨log, rfl, _, rfl, hopened⟩⟩
    · rintro e s ⟨log, rfl, server, hserver, -⟩
      cases hserver

/-! ### Calls -/

/-- The call of a tool carries the id of its request. -/
theorem carriesOwnId_line (call : ToolRequest) : CarriesOwnId call.line := by
  intro id text h id' hid'
  unfold ToolRequest.line toolsCallLine at h
  cases hargs : call.args with
  -- arguments that are no JSON are written as text, without an id
  | malformed =>
    rw [hargs] at h
    obtain rfl := Except.ok.inj h
    cases hid'
  | document args =>
    rw [hargs] at h
    dsimp only at h
    cases hdump : (toolsCall id call.toolName args.json).dump with
    | none => rw [hdump] at h; cases h
    | some d =>
      rw [hdump] at h
      obtain rfl := Except.ok.inj h
      have hown : idOf d.json = some id' := hid'
      rwa [json_of_dump hdump] at hown

/-- How a call ends, and the trades it leaves. -/
inductive CallEnds (cfg : McpConfig) (call : ToolRequest) : CallEnd → List Trade → Prop
  | notConnected : CallEnds cfg call (.returned (notConnected cfg)) []
  | answered {result : Document} {content : Bytes} {trades : List Trade}
    (hresult : RequestEnds call.line (.ok result) trades)
    (hcontent : extractContent result.json = .ok content) :
    CallEnds cfg call (.returned (shownContent content)) trades
  | undefined {result : Document} {trades : List Trade}
    (hresult : RequestEnds call.line (.ok result) trades)
    (hcontent : extractContent result.json = .error .undefined) :
    CallEnds cfg call .undefined trades
  | unreadable {result : Document} {e : AccessError} {trades : List Trade}
    (hresult : RequestEnds call.line (.ok result) trades)
    (hcontent : extractContent result.json = .error (.thrown e)) :
    CallEnds cfg call (.returned (failedText cfg call.toolName (.reader (.json e)))) trades
  | failed {e : McpFailure} {trades : List Trade}
    (hrequest : RequestEnds call.line (.error e) trades) :
    CallEnds cfg call (.returned (failedText cfg call.toolName e)) trades

/-- A call has returned, and has left its trades. -/
def Called (cfg : McpConfig) (call : ToolRequest) (r : Except McpFailure CallEnd) (s : Pipes) :
    Prop :=
  ∃ ended trades, r = .ok ended ∧ s = { log := trades } ∧ CallEnds cfg call ended trades

theorem wp_executeTool (cfg : McpConfig) (call : ToolRequest) :
    wp Pipes.machine PipeRules (executeTool cfg call) (Called cfg call) {} := by
  unfold executeTool
  rw [doing_bind_iff]
  refine ⟨trivial, fun connected _ => ?_⟩
  cases connected with
  | false => exact ⟨_, _, rfl, rfl, .notConnected⟩
  -- whatever is thrown below becomes the text of an error
  | true =>
    show wp _ _ (Prog.tryCatch (sendRequest call.line >>= endOf) _) _ _
    rw [wp_tryCatch]
    refine wp_bind_of (wp_sendRequest (carriesOwnId_line call) []) ?_ ?_
    · rintro result s ⟨trades, rfl, hresult⟩
      unfold endOf
      -- the `content` of the answer may be no list of texts
      cases hcontent : extractContent result.json with
      | ok content => exact ⟨_, _, rfl, rfl, .answered hresult hcontent⟩
      | error e =>
        cases e with
        | thrown e => exact ⟨trivial, fun _ _ => ⟨_, _, rfl, rfl, .unreadable hresult hcontent⟩⟩
        | undefined => exact ⟨_, _, rfl, rfl, .undefined hresult hcontent⟩
    · rintro e s ⟨trades, rfl, hrequest⟩
      exact ⟨trivial, fun _ _ => ⟨_, _, rfl, rfl, .failed hrequest⟩⟩

/-! ### What the lock protects -/

/-- The ids of the requests, in the order in which they were written. -/
def ids (log : List Trade) : List Int := log.filterMap Trade.requestId

/-- The ids ascend, and the one that was taken last is larger than those of the trades that are
over. -/
structure Ordered (w : World) : Prop where
  ascending : (ids w.pipes.log).Pairwise (· < ·)
  below : ∀ id ∈ ids w.pipes.log, id < w.pipes.id.getD w.nextId
  fresh : ∀ id, w.pipes.id = some id → id < w.nextId
  own : ∀ t, w.pipes.current = some t → ∀ id, t.requestId = some id → w.pipes.id = some id

/-- Nothing is under way, or what is under way is what the holder of the lock has begun. -/
def Owns : Option Pipes → World → Prop
  | none, w => Ordered w ∧ w.pipes = { log := w.pipes.log }
  | some p, w => Ordered w ∧ w.pipes = { p with log := w.pipes.log } ∧ p.locked = true

/-- The effects that leave the pipes alone. -/
def Aside : McpEff → Prop
  | .launch | .terminate | .deadline | .isConnected | .setConnected _ => True
  | _ => False

theorem next_aside {e : McpEff} (he : Aside e) (p : Pipes) (x : e.Ans) : p.next e x = p := by
  cases e with
  | launch | terminate | deadline | isConnected | setConnected => rfl
  | _ => exact he.elim

theorem Ordered.aside {w : World} {e : McpEff} (he : Aside e) (x : e.Ans)
    (h : Ordered w) : Ordered (w.next e x) := by
  have hpipes : (w.next e x).pipes = w.pipes := next_aside he _ _
  have hid : (w.next e x).nextId = w.nextId := by
    cases e with
    | takeId => exact he.elim
    | _ => rfl
  refine ⟨?_, ?_, ?_, ?_⟩
  · rw [hpipes]; exact h.ascending
  · rw [hpipes, hid]; exact h.below
  · rw [hpipes, hid]; exact h.fresh
  · rw [hpipes]; exact h.own

theorem Owns.aside {o : Option Pipes} {w : World} {e : McpEff} (he : Aside e) (x : e.Ans)
    (h : Owns o w) : Owns o (w.next e x) := by
  have hpipes : (w.next e x).pipes = w.pipes := next_aside he _ _
  cases o with
  | none =>
    obtain ⟨hordered, hidle⟩ := h
    exact ⟨hordered.aside he x, by rw [hpipes]; exact hidle⟩
  | some p =>
    obtain ⟨hordered, hheld, hlocked⟩ := h
    exact ⟨hordered.aside he x, by rw [hpipes]; exact hheld, hlocked⟩

/-- An effect that is no use of the pipes, or one of these. -/
inductive PipeUse : McpEff → Prop
  | aside {e : McpEff} (he : Aside e) : PipeUse e
  | lock : PipeUse .lock
  | unlock : PipeUse .unlock
  | takeId : PipeUse .takeId
  | write (line : Json.Text) : PipeUse (.write line)
  | readLine : PipeUse .readLine

theorem pipeUse (e : McpEff) : PipeUse e := by
  cases e with
  | lock => exact .lock
  | unlock => exact .unlock
  | takeId => exact .takeId
  | write line => exact .write line
  | readLine => exact .readLine
  | _ => exact .aside trivial

theorem ids_append (l l' : List Trade) : ids (l ++ l') = ids l ++ ids l' := List.filterMap_append ..

/-- A trade that is over. -/
theorem Ordered.close {w : World} (h : Ordered w) (x : Unit) : Ordered (w.next .unlock x) := by
  -- the open trade has the id that was taken last
  have hlast : ∀ id ∈ ids w.pipes.current.toList, w.pipes.id = some id := by
    intro id hid
    obtain ⟨t, ht, hid⟩ := List.mem_filterMap.mp hid
    exact h.own t (Option.mem_toList.mp ht) id hid
  -- and the trades before it have smaller ones
  have hbelow : ∀ id ∈ ids w.pipes.log, id < w.nextId := by
    intro id hid
    have hlt := h.below id hid
    cases htaken : w.pipes.id with
    | none => rwa [htaken] at hlt
    | some taken =>
      rw [htaken] at hlt
      exact lt_trans hlt (h.fresh taken htaken)
  refine ⟨?_, ?_, fun id hid => (nomatch hid), fun t ht => (nomatch ht)⟩
  -- so appending it keeps the order
  · show (ids (w.pipes.log ++ w.pipes.current.toList)).Pairwise (· < ·)
    rw [ids_append, List.pairwise_append]
    refine ⟨h.ascending, ?_, fun id hid id' hid' => ?_⟩
    · cases w.pipes.current with
      | none => exact .nil
      | some t => cases ht : t.requestId <;> simp [ids, ht]
    · have hlt := h.below id hid
      rwa [hlast id' hid'] at hlt
  · intro id hid
    show id < w.nextId
    have hid' : id ∈ ids (w.pipes.log ++ w.pipes.current.toList) := hid
    rw [ids_append, List.mem_append] at hid'
    exact hid'.elim (hbelow id) fun hid' => h.fresh id (hlast id hid')

section LockRules

variable {p : Pipes} {w : World} {e : McpEff} {x : e.Ans}

/-- Who takes the lock has not written anything yet. -/
theorem owns_of_take (hp : p.locked = false) (hD : PipeRules p e) (hx : World.machine.admits w e x)
    (hlocked : (p.next e x).locked = true) :
    (∀ q, ¬ Owns (some q) w) ∧ (Owns none w → Owns (some (p.next e x)) (w.next e x)) := by
  cases pipeUse e with
  | aside he =>
    rw [next_aside he p x, hp] at hlocked
    cases hlocked
  | lock =>
    have hfree : w.pipes.locked = false := hx
    have hidle : p = { log := p.log } := hD
    refine ⟨fun q hq => ?_, fun ⟨hordered, hnone⟩ => ?_⟩
    · obtain ⟨-, hheld, hlocked'⟩ := hq
      rw [hheld, hlocked'] at hfree
      cases hfree
    · refine ⟨⟨hordered.ascending, hordered.below, hordered.fresh, hordered.own⟩, ?_, rfl⟩
      show ({ w.pipes with locked := true } : Pipes) = _
      rw [hnone, hidle]
      rfl
  | unlock => cases hlocked
  -- the others are for the holder
  | takeId => cases hp.symm.trans hD.1
  | write line => cases hp.symm.trans hD.1
  | readLine => cases hp.symm.trans hD

/-- An id is larger than all that were taken before. -/
theorem Ordered.takeId {x : Int} (hordered : Ordered w) (hx : x = w.nextId)
    (hid : w.pipes.id = none) (hcurrent : w.pipes.current = none) :
    Ordered (w.next .takeId x) := by
  refine ⟨hordered.ascending, fun id hid' => ?_, fun id hid' => ?_, fun t ht => ?_⟩
  · have hlt := hordered.below id hid'
    rw [hid] at hlt
    exact hx ▸ hlt
  · obtain rfl := Option.some.inj hid'
    exact hx ▸ Int.lt_succ _
  · cases hcurrent.symm.trans (ht : w.pipes.current = some t)

/-- The holder uses the pipes for its request. -/
theorem owns_of_keep (hp : p.locked = true) (hD : PipeRules p e) (hx : World.machine.admits w e x)
    (hlocked : (p.next e x).locked = true) (h : Owns (some p) w) :
    Owns (some (p.next e x)) (w.next e x) := by
  obtain ⟨hordered, hheld, -⟩ := h
  cases pipeUse e with
  -- the call touches no pipe
  | aside he =>
    rw [next_aside he p x]
    have hpipes : (w.next e x).pipes = w.pipes := next_aside he _ x
    refine ⟨hordered.aside he x, ?_, hp⟩
    show (w.next e x).pipes = { p with log := (w.next e x).pipes.log }
    rw [hpipes]
    exact hheld
  -- it cannot lock again, and with the unlock it no longer holds the lock
  | lock =>
    have hidle : p = { log := p.log } := hD
    rw [hidle] at hp
    cases hp
  | unlock => cases hlocked
  -- the new id is the largest so far
  | takeId =>
    obtain ⟨-, hid, hcurrent⟩ := hD
    refine ⟨hordered.takeId hx (by rw [hheld, hid]) (by rw [hheld, hcurrent]), ?_, hp⟩
    show ({ w.pipes with id := some x } : Pipes) = _
    rw [hheld]
    rfl
  | write line =>
    obtain ⟨-, hcurrent, hown⟩ := hD
    cases x with
    | some why => exact ⟨hordered, hheld, hp⟩
    | none =>
      refine ⟨⟨hordered.ascending, hordered.below, hordered.fresh, fun t ht id hid => ?_⟩, ?_, hp⟩
      · -- the line has the id that was taken
        obtain rfl := Option.some.inj ht
        show w.pipes.id = some id
        rw [hheld]
        exact hown id hid
      · show ({ w.pipes with current := some ⟨line, []⟩ } : Pipes) = _
        rw [hheld]
        rfl
  | readLine =>
    refine ⟨⟨hordered.ascending, hordered.below, hordered.fresh, fun t ht id hid => ?_⟩, ?_, hp⟩
    · obtain ⟨t', ht', rfl⟩ := Option.map_eq_some_iff.mp ht
      exact hordered.own t' ht' id hid
    · show ({ w.pipes with current := w.pipes.current.map (·.reads x) } : Pipes) = _
      rw [hheld]
      rfl

/-- The trade of a holder that gives the lock back is over. -/
theorem owns_of_give (hp : p.locked = true) (hlocked : (p.next e x).locked = false)
    (h : Owns (some p) w) : Owns none (w.next e x) := by
  cases pipeUse e with
  | aside he =>
    rw [next_aside he p x, hp] at hlocked
    cases hlocked
  | lock => cases hlocked
  | unlock => exact ⟨h.1.close x, rfl⟩
  | takeId => cases hp.symm.trans hlocked
  | write line =>
    cases x with
    | none => cases hp.symm.trans hlocked
    | some why => cases hp.symm.trans hlocked
  | readLine => cases hp.symm.trans hlocked

/-- Who does not have the lock does nothing with the pipes. -/
theorem owns_of_frame {o : Option Pipes} (hp : p.locked = false) (hD : PipeRules p e)
    (hlocked : (p.next e x).locked = false) (h : Owns o w) : Owns o (w.next e x) := by
  cases pipeUse e with
  | aside he => exact h.aside he x
  | lock => cases hlocked
  | unlock => cases hp.symm.trans hD
  | takeId => cases hp.symm.trans hD.1
  | write line => cases hp.symm.trans hD.1
  | readLine => cases hp.symm.trans hD

/-- **The lock of the pipes**, for every use of them by the rules. -/
theorem lockRules :
    Pool.LockRules World.machine Pipes.machine PipeRules Pipes.locked Owns where
  take hp hD hx hlocked := owns_of_take hp hD hx hlocked
  keep hp hD hx hlocked h := owns_of_keep hp hD hx hlocked h
  give hp _ _ hlocked h := owns_of_give hp hlocked h
  frame hp hD _ hlocked h := owns_of_frame hp hD hlocked h

end LockRules

/-! ### Runs -/

/-- The clients whose effects are under way. -/
abbrev Clients (ι α : Type) := Pool McpSig World Pipes McpFailure α ι

/-- One run of them, whatever the server writes. -/
abbrev Clients.Run {ι α : Type} [DecidableEq ι] : Clients ι α → Clients ι α → Prop :=
  Pool.Run World.machine Pipes.machine fun _ _ _ _ => True

/-- The invariant of a run that has begun with the trades `before`. -/
structure SessionInv {ι α : Type} (Q : ι → Except McpFailure α → Pipes → Prop)
    (before : List Trade) (c : Clients ι α) : Prop where
  verified : c.Verified Pipes.machine PipeRules Q
  locked : c.Locked Pipes.locked Owns
  /-- the trades since then are those of the programs -/
  logged : ∀ j, ∀ t ∈ (c.phase j).log, t ∈ c.state.pipes.log
  made : ∃ since, c.state.pipes.log = before ++ since ∧ ∀ t ∈ since, ∃ j, t ∈ (c.phase j).log
  /-- and no two of these have used one id -/
  disjoint : ∀ i j, i ≠ j → ∀ id ∈ ids (c.phase i).log, id ∉ ids (c.phase j).log

section Runs

variable {ι α : Type} [DecidableEq ι] {Q : ι → Except McpFailure α → Pipes → Prop}
  {before : List Trade} {c c' c₀ : Clients ι α} {i : ι} {e : McpEff} {x : e.Ans}

/-- What a step does to the trades that are over: nothing, or the trade that is under way is over
now. -/
theorem log_step (h : SessionInv Q before c)
    (hstep : Pool.Step World.machine Pipes.machine c i e x c') :
    ∃ closed : List Trade, c'.state.pipes.log = c.state.pipes.log ++ closed ∧
      (c'.phase i).log = (c.phase i).log ++ closed ∧
      ∀ id ∈ ids closed, ∀ id' ∈ ids c.state.pipes.log, id' < id := by
  rw [hstep.state_eq, hstep.phase_self]
  cases e with
  -- only the unlock moves the trade into the logs
  | unlock =>
    have hheld : (c.phase i).locked = true := h.verified.demand hstep
    obtain ⟨hordered, hpipes, -⟩ := h.locked.held hheld
    have hcurrent : c.state.pipes.current = (c.phase i).current := by rw [hpipes]
    refine ⟨c.state.pipes.current.toList, rfl, by rw [hcurrent]; rfl, fun id hid id' hid' => ?_⟩
    obtain ⟨t, ht, hid⟩ := List.mem_filterMap.mp hid
    have hlt := hordered.below id' hid'
    rwa [hordered.own t (Option.mem_toList.mp ht) id hid] at hlt
  | write line =>
    cases x <;> exact ⟨[], (List.append_nil _).symm, (List.append_nil _).symm, nofun⟩
  | _ => exact ⟨[], (List.append_nil _).symm, (List.append_nil _).symm, nofun⟩

theorem SessionInv.step (h : SessionInv Q before c)
    (hstep : Pool.Step World.machine Pipes.machine c i e x c') : SessionInv Q before c' := by
  obtain ⟨closed, hlog, hself, hnew⟩ := log_step h hstep
  have hother : ∀ {j}, j ≠ i → (c'.phase j).log = (c.phase j).log := fun hj => by
    rw [hstep.phase_of_ne hj]
  -- every id of a client is in the common log
  have hids : ∀ {j id}, id ∈ ids (c.phase j).log → id ∈ ids c.state.pipes.log := by
    intro j id hid
    obtain ⟨t, ht, hid⟩ := List.mem_filterMap.mp hid
    exact List.mem_filterMap.mpr ⟨t, h.logged j t ht, hid⟩
  refine ⟨h.verified.step hstep trivial, lockRules.step (h.verified.demand hstep) hstep h.locked,
    fun j t ht => ?_, ?_, fun j k hjk id hid hid' => ?_⟩
  · rw [hlog, List.mem_append]
    by_cases hj : j = i
    · rw [hj, hself, List.mem_append] at ht
      exact ht.imp_left (h.logged i t)
    · rw [hother hj] at ht
      exact .inl (h.logged j t ht)
  -- every trade since the beginning is still that of a client
  · obtain ⟨since, hbefore, hsince⟩ := h.made
    refine ⟨since ++ closed, by rw [hlog, hbefore, List.append_assoc], fun t ht => ?_⟩
    rcases List.mem_append.mp ht with ht | ht
    · obtain ⟨j, hj⟩ := hsince t ht
      refine ⟨j, ?_⟩
      by_cases hji : j = i
      · rw [hji] at hj ⊢
        rw [hself]
        exact List.mem_append_left _ hj
      · rwa [hother hji]
    · exact ⟨i, by rw [hself]; exact List.mem_append_right _ ht⟩
  · -- an id of the trade that is over now is larger than all before
    by_cases hj : j = i
    · have hk : k ≠ i := fun hk => hjk (hj.trans hk.symm)
      rw [hother hk] at hid'
      rw [hj, hself, ids_append, List.mem_append] at hid
      rcases hid with hid | hid
      · exact h.disjoint i k (Ne.symm hk) id hid hid'
      · exact lt_irrefl id (hnew id hid id (hids hid'))
    · rw [hother hj] at hid
      by_cases hk : k = i
      · rw [hk, hself, ids_append, List.mem_append] at hid'
        rcases hid' with hid' | hid'
        · exact h.disjoint j i hj id hid hid'
        · exact lt_irrefl id (hnew id hid' id (hids hid))
      · rw [hother hk] at hid'
        exact h.disjoint j k hjk id hid hid'

theorem SessionInv.run (hstart : SessionInv Q before c₀) (hrun : Clients.Run c₀ c) :
    SessionInv Q before c :=
  Pool.Run.invariant hrun hstart fun h hstep _ => h.step hstep

end Runs

/-- Programs that begin in `w`. -/
def startClients {ι α : Type} (w : World) (p : ι → Mcp α) : Clients ι α where
  state := w
  phase := fun _ => {}
  rest := p

theorem SessionInv.start {ι α : Type} {Q : ι → Except McpFailure α → Pipes → Prop} {w : World}
    {p : ι → Mcp α} (hp : ∀ j, wp Pipes.machine PipeRules (p j) (Q j) {}) (hw : Owns none w) :
    SessionInv Q w.pipes.log (startClients w p) where
  verified := hp
  locked := .of_free (fun _ => rfl) hw
  logged _ _ ht := nomatch ht
  made := ⟨[], (List.append_nil _).symm, nofun⟩
  disjoint _ _ _ _ hid := nomatch hid

/-- What the constructor leaves: the pipes are free, and the handshake is all that was written. -/
theorem constructed_of_exec {cfg : McpConfig} {tr : List (Event McpSig World)} {w : World}
    {server : Option Server} (h : Exec World.machine {} (construct cfg) tr w (.ok server)) :
    Owns none w ∧ Constructed cfg (.ok server) w.pipes := by
  constructor
  · have hfresh : Owns none ({} : World) :=
      ⟨⟨.nil, nofun, nofun, nofun⟩, rfl⟩
    -- the constructor runs alone
    let any : Clients Unit (Option Server) → Unit → (e : McpEff) → e.Ans → Prop :=
      fun _ _ _ _ => True
    have hany : ∀ (c : Clients Unit (Option Server)), ∀ ev ∈ tr, c.state = ev.pre →
        any c () ev.eff ev.ans := fun _ _ _ _ => trivial
    obtain ⟨c, hrun, hstate, -, hover⟩ := Pool.Run.of_exec_end (P := Pipes.machine)
      (c := startClients {} fun _ => construct cfg) .start h rfl rfl hany
    have hinv : SessionInv (fun _ => Constructed cfg) [] c :=
      SessionInv.run (.start (fun _ => wp_construct cfg) hfresh) hrun
    have hfree : (c.phase ()).locked = false := by
      cases hrest : c.rest () with
      | ret server =>
        obtain ⟨log, hphase, -⟩ := hinv.verified.returned hrest
        rw [hphase]
      | throw e =>
        obtain ⟨log, hphase, -⟩ := hinv.verified.thrown hrest
        rw [hphase]
      | op e k =>
        rw [hrest] at hover
        cases hover
    exact hstate ▸ hinv.locked.free fun _ => hfree
  · obtain ⟨tr', himage⟩ := h.image Pipes.machine World.pipes
      fun _ _ _ _ => ⟨trivial, rfl⟩
    exact (himage.of_wp (wp_construct cfg)).1

/-- What holds of the calls to a connected server. -/
structure SessionSafe {ι : Type} (cfg : McpConfig) (server : Server) (calls : ι → ToolRequest)
    (c : Clients ι CallEnd) : Prop where
  /-- first comes the handshake, and then only what calls have written -/
  opened : ∃ handshake since, c.state.pipes.log = handshake ++ since ∧
    Opened cfg server handshake ∧ ∀ t ∈ since, ∃ j, t ∈ (c.phase j).log
  /-- the ids of the requests ascend -/
  ascending : (ids c.state.pipes.log).Pairwise (· < ·)
  /-- one call at a time has the pipes -/
  exclusive : ∀ i j, (c.phase i).locked = true → (c.phase j).locked = true → i = j
  /-- a call is given what was read for its own request -/
  answered : ∀ j ended, c.rest j = .ret ended →
    CallEnds cfg (calls j) ended (c.phase j).log ∧ ∀ t ∈ (c.phase j).log, t ∈ c.state.pipes.log
  /-- which no other call has used the id of -/
  disjoint : ∀ i j, i ≠ j → ∀ id ∈ ids (c.phase i).log, id ∉ ids (c.phase j).log
  /-- no exception leaves a call -/
  returns : ∀ j e, c.rest j ≠ .throw e

/-- The calls of tools that begin in `w`. -/
def startCalls {ι : Type} (cfg : McpConfig) (calls : ι → ToolRequest) (w : World) :
    Clients ι CallEnd :=
  startClients w fun j => executeTool cfg (calls j)

/-- **Every call gets the answer to its own request**, in every run of calls side by side and
whatever the server writes. The handshake is over before, and no two requests have one id. -/
theorem session_safe {ι : Type} [DecidableEq ι] {cfg : McpConfig} {server : Server}
    {tr : List (Event McpSig World)} {w : World} {calls : ι → ToolRequest} {c : Clients ι CallEnd}
    (hopen : Exec World.machine {} (construct cfg) tr w (.ok (some server)))
    (hrun : Clients.Run (startCalls cfg calls w) c) : SessionSafe cfg server calls c := by
  obtain ⟨hfree, log, hpipes, server', hserver, hopened⟩ := constructed_of_exec hopen
  have hlog : w.pipes.log = log := by rw [hpipes]
  have hinv : SessionInv (fun j => Called cfg (calls j)) w.pipes.log c :=
    SessionInv.run (.start (fun j => wp_executeTool cfg (calls j)) hfree) hrun
  obtain ⟨since, hsince, hmade⟩ := hinv.made
  refine ⟨⟨log, since, hlog ▸ hsince, hopened server (Except.ok.inj hserver).symm, hmade⟩, ?_,
    fun i j => hinv.locked.one, fun j ended hj => ?_, hinv.disjoint, fun j e hj => ?_⟩
  -- the ids ascend whether a client holds the lock or none does
  · by_cases hheld : ∃ i, (c.phase i).locked = true
    · obtain ⟨i, hi⟩ := hheld
      exact (hinv.locked.held hi).1.ascending
    · have hnone : ∀ i, (c.phase i).locked = false := fun i =>
        Bool.eq_false_iff.mpr fun hi => hheld ⟨i, hi⟩
      exact (hinv.locked.free hnone).1.ascending
  -- a call that is over has ended as its rule says
  · obtain ⟨ended', trades, hended, hphase, hends⟩ := hinv.verified.returned hj
    obtain rfl := Except.ok.inj hended
    refine ⟨?_, hinv.logged j⟩
    rw [hphase]
    exact hends
  -- and none throws
  · obtain ⟨ended, trades, hended, -⟩ := hinv.verified.thrown hj
    cases hended

/-- A response. -/
def response (id : Int) (result : Json) : PipeLine :=
  match (Json.obj [(utf8 "id", .int id), (utf8 "result", result)]).dump with
  | some d => .text (.document d)
  | none => .empty

/-- What a small server answers to the request that is under way: it has one tool, which says
`ok`. -/
def smallServer (w : World) : PipeLine :=
  match w.nextId with
  | 2 => response 1 (.obj [(utf8 "serverInfo", .obj [(utf8 "name", .str (utf8 "small"))])])
  | 3 => response 2 (.obj [(utf8 "tools", .arr [.obj [(utf8 "name", .str (utf8 "t"))]])])
  | id => response (id - 1) (.obj [(utf8 "content",
      .arr [.obj [(utf8 "text", .str (utf8 "ok")), (utf8 "type", .str (utf8 "text"))]])])

def smallAnswer (w : World) : (e : McpEff) → e.Ans
  | .launch => true
  | .takeId => w.nextId
  | .write _ => none
  | .deadline => 1
  | .readLine => smallServer w
  | .isConnected => w.connected
  | .terminate | .lock | .unlock | .setConnected _ => ()

def smallConfig : McpConfig := ⟨utf8 "small", fun _ => [], []⟩

def smallCall : ToolRequest := ⟨utf8 "t", .document ⟨.obj [], rfl⟩⟩

/-- The session is opened, and a call is made. -/
abbrev smallOpening : List (Event McpSig World) × World × Except McpFailure (Option Server) :=
  simulate World.machine smallAnswer {} (construct smallConfig)

abbrev smallCalled : List (Event McpSig World) × World × Except McpFailure CallEnd :=
  simulate World.machine smallAnswer smallOpening.2.1 (executeTool smallConfig smallCall)

def smallKnown : Server := ⟨utf8 "small", utf8 "unknown", [⟨utf8 "t", [], noParameters⟩]⟩

/-- The call has its answer while another one waits. -/
theorem small_session_safe : ∃ c : Clients Bool CallEnd,
    SessionSafe smallConfig smallKnown (fun _ => smallCall) c ∧ ids c.state.pipes.log = [1, 2, 3] ∧
      c.state.nextId = 4 ∧ (c.phase true).log.length = 1 := by
  -- the handshake, and one call, on the answers of a small server
  have hopen : Exec World.machine {} (construct smallConfig) smallOpening.1 smallOpening.2.1
      smallOpening.2.2 := exec_simulate_of (by decide +kernel)
  have hcall : Exec World.machine smallOpening.2.1 (executeTool smallConfig smallCall) smallCalled.1
      smallCalled.2.1 smallCalled.2.2 := exec_simulate_of (by decide +kernel)
  have hknown : smallOpening.2.2 = .ok (some smallKnown) := by rfl
  let any : Clients Bool CallEnd → Bool → (e : McpEff) → e.Ans → Prop := fun _ _ _ _ => True
  have hany : ∀ (c : Clients Bool CallEnd), ∀ ev ∈ smallCalled.1, c.state = ev.pre →
      any c true ev.eff ev.ans := fun _ _ _ _ => trivial
  -- the call of one client, while the other has not begun
  obtain ⟨c, hrun, hstate, hphase, -⟩ := Pool.Run.of_exec_end (P := Pipes.machine)
    (c := startCalls smallConfig (fun _ => smallCall) smallOpening.2.1) .start hcall rfl rfl hany
  refine ⟨c, session_safe (hknown ▸ hopen) hrun, ?_, ?_, ?_⟩
  · rw [hstate]
    decide +kernel
  · rw [hstate]
    decide +kernel
  · rw [hphase]
    decide +kernel

end McpSession

end Aestival
