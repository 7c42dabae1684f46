import Aestival.Library.Json
import Aestival.Library.Runs

/-!
# Heartbeats

On each connection `run_websocket_async` answers the first Hello and starts a coroutine,
`heartbeat_loop`, which waits on the one heartbeat timer of the session and writes a heartbeat each
time it expires. Whoever sets the timer aborts the other waits. All coroutines run in one thread,
and others get their turn only where one of them waits for something; only `stop` comes from
elsewhere.

Two writes must not be under way on a websocket at the same time, and a connection that is open
needs somebody who writes heartbeats, with the payloads of the protocol (`HeartbeatsSound`). Nothing
ties a coroutine to its connection but this: when a connection ends, its wait is aborted and its
write fails, and `run` takes seconds until it has the next connection. `heartbeats_sound` needs just
that: whoever can go on has gone on when a connection begins (`NoneLate`).

Of a frame only its sequence number and whether it is a Hello matter here.
-/

namespace Aestival

open Json

/-! ### The coroutines -/

/-- Where a `heartbeat_loop` is: not begun, waiting, or behind the wait, which the timer or an abort
has ended, or in its write. -/
inductive BeatPhase where
  | spawned
  | waiting
  | expired
  | aborted
  | writing
  deriving DecidableEq, Repr

/-- A coroutine `heartbeat_loop` that has not ended, and the connection it was started on. -/
structure HeartbeatLoop where
  connection : Nat
  first : Bool := true
  phase : BeatPhase := .spawned
  deriving DecidableEq, Repr

/-- The end of a wait. -/
def HeartbeatLoop.wake (by_ : BeatPhase) (l : HeartbeatLoop) : HeartbeatLoop :=
  if l.phase = .waiting then { l with phase := by_ } else l

def opHeartbeat : Int32 := 1

/-- A heartbeat. -/
def heartbeatPayload (seq : Option Int32) : Json :=
  .obj [(utf8 "d", match seq with
      | none => .null
      | some n => .int n.toInt),
    (utf8 "op", .int opHeartbeat.toInt)]

/-- The session: `running_`, `ws_connected_`, whether the websocket is open, the number of
connections so far, whether `run_websocket_async` is in its loop, whether it writes the answer to a
Hello, its local variables, `last_sequence_`, and the coroutines. -/
structure HeartbeatState where
  running : Bool := true
  wsConnected : Bool := false
  isOpen : Bool := false
  connection : Nat := 0
  reading : Bool := false
  answering : Bool := false
  identified : Bool := false
  heartbeatStarted : Bool := false
  lastSequence : Int32 := 0
  loops : List HeartbeatLoop := []
  deriving DecidableEq, Repr

namespace HeartbeatState

/-- The websocket handshake has succeeded. -/
def connect (s : HeartbeatState) : HeartbeatState :=
  { s with
    wsConnected := true, isOpen := true, connection := s.connection + 1
    reading := true, answering := false, identified := false, heartbeatStarted := false }

/-- `if (!heartbeat_started)`. -/
def startHeartbeat (s : HeartbeatState) : HeartbeatState :=
  if s.heartbeatStarted then s
  else
    { s with heartbeatStarted := true, loops := s.loops ++ [{ connection := s.connection }] }

/-- A Hello, up to the write of its answer. -/
def hello (s : HeartbeatState) : HeartbeatState :=
  if s.identified then s.startHeartbeat else { s with answering := true }

/-- A Hello, behind the write of its answer. -/
def answered (s : HeartbeatState) : HeartbeatState :=
  { s with answering := false, identified := true }.startHeartbeat

/-- The end of `run_websocket_async`, also where no connection is made, and what `stop` has posted.
The wait is aborted, and the stream is closed. -/
def disconnect (s : HeartbeatState) : HeartbeatState :=
  { s with
    wsConnected := false, isOpen := false, reading := false, answering := false
    loops := s.loops.map (HeartbeatLoop.wake .aborted) }

/-- The head of `while (running_ && ws_connected_)`: the coroutine `l` sets the timer, which aborts
the other waits, or it ends. -/
def atHead (s : HeartbeatState) (pre post : List HeartbeatLoop) (l : HeartbeatLoop) :
    List HeartbeatLoop :=
  if s.running = true ∧ s.wsConnected = true then
    pre.map (HeartbeatLoop.wake .aborted) ++
      { l with phase := .waiting } :: post.map (HeartbeatLoop.wake .aborted)
  else pre ++ post

/-- The coroutine writes a heartbeat when it goes on. -/
def Beats (s : HeartbeatState) (l : HeartbeatLoop) : Prop :=
  l.phase = .expired ∧ s.running = true ∧ s.wsConnected = true ∧ s.isOpen = true

instance (s : HeartbeatState) (l : HeartbeatLoop) : Decidable (s.Beats l) :=
  inferInstanceAs (Decidable (_ ∧ _))

/-- What it writes. -/
def payload (s : HeartbeatState) (l : HeartbeatLoop) : Json :=
  heartbeatPayload (if l.first then none else some s.lastSequence)

/-- A coroutine goes on behind its wait: it writes, or it ends. -/
def goOn (s : HeartbeatState) (l : HeartbeatLoop) : List HeartbeatLoop :=
  if s.Beats l then [{ l with phase := .writing }] else []

/-- The number of writes that are under way. -/
def writers (s : HeartbeatState) : Nat :=
  s.answering.toNat + (s.loops.filter fun l => l.phase = .writing).length

end HeartbeatState

/-- What may happen: a connection begins or ends, a frame has a sequence number, a Hello comes, its
answer has been written, the peer closes the stream, a coroutine begins, the timer expires, a
coroutine goes on behind its wait, its write ends well or not, and the session is stopped. -/
inductive HeartbeatEvent where
  | connect
  | disconnect
  | sequence (seq : Int32)
  | hello
  | answered
  | peerCloses
  | begins (l : HeartbeatLoop)
  | expires
  | goesOn (l : HeartbeatLoop)
  | written (l : HeartbeatLoop)
  | fails (l : HeartbeatLoop)
  | stop
  deriving DecidableEq

/-- A step of the session. -/
inductive HeartbeatStep (s : HeartbeatState) : HeartbeatEvent → HeartbeatState → Prop
  | connect (hrunning : s.running = true) (hfree : s.reading = false) :
    HeartbeatStep s .connect s.connect
  | disconnect : HeartbeatStep s .disconnect s.disconnect
  | sequence (hreading : s.reading = true) (hidle : s.answering = false) (seq : Int32) :
    HeartbeatStep s (.sequence seq) { s with lastSequence := seq }
  | hello (hreading : s.reading = true) (hidle : s.answering = false) :
    HeartbeatStep s .hello s.hello
  | answered (hanswering : s.answering = true) : HeartbeatStep s .answered s.answered
  | peerCloses : HeartbeatStep s .peerCloses { s with isOpen := false }
  | begins {pre post : List HeartbeatLoop} {l : HeartbeatLoop} (hloops : s.loops = pre ++ l :: post)
    (hspawned : l.phase = .spawned) :
    HeartbeatStep s (.begins l) { s with loops := s.atHead pre post l }
  | expires : HeartbeatStep s .expires { s with loops := s.loops.map (HeartbeatLoop.wake .expired) }
  | goesOn {pre post : List HeartbeatLoop} {l : HeartbeatLoop} (hloops : s.loops = pre ++ l :: post)
    (hwoken : l.phase = .expired ∨ l.phase = .aborted) :
    HeartbeatStep s (.goesOn l) { s with loops := pre ++ s.goOn l ++ post }
  | written {pre post : List HeartbeatLoop} {l : HeartbeatLoop}
    (hloops : s.loops = pre ++ l :: post) (hwriting : l.phase = .writing) :
    HeartbeatStep s (.written l) { s with loops := s.atHead pre post { l with first := false } }
  | fails {pre post : List HeartbeatLoop} {l : HeartbeatLoop} (hloops : s.loops = pre ++ l :: post)
    (hwriting : l.phase = .writing) :
    HeartbeatStep s (.fails l) { s with wsConnected := false, loops := pre ++ post }
  | stop : HeartbeatStep s .stop { s with running := false, wsConnected := false }

/-- A session from its start on, until it is started anew. -/
def heartbeats : TransitionSystem HeartbeatState HeartbeatEvent where
  init s := s = {}
  step := HeartbeatStep

/-! ### What should hold -/

/-- The connection on which a heartbeat is written. -/
def beat (x : HeartbeatState × HeartbeatEvent) : Option Nat :=
  match x.2 with
  | .goesOn l => if x.1.Beats l then some x.1.connection else none
  | _ => none

/-- A heartbeat has been written on this connection. -/
def hasBeaten (n : Nat) (tr : List (HeartbeatState × HeartbeatEvent)) : Bool :=
  tr.any fun x => beat x = some n

/-- The sequence number of a frame. -/
def HeartbeatEvent.sequence? : HeartbeatEvent → Option Int32
  | .sequence seq => some seq
  | _ => none

/-- The sequence number that came last. -/
def lastSequenceOf (tr : List (HeartbeatState × HeartbeatEvent)) : Int32 :=
  (latest (fun x : HeartbeatState × HeartbeatEvent => x.2.sequence?) tr).getD 0

/-- While the session runs, a connection that is open and has had its Hello has one coroutine, which
is its own and does not end. -/
def HeartbeatAlive (s : HeartbeatState) : Prop :=
  s.running = true → s.wsConnected = true → s.isOpen = true → s.heartbeatStarted = true →
    ∃ l, s.loops = [l] ∧ l.connection = s.connection ∧ l.phase ≠ .aborted

/-- What should hold of a run. -/
structure HeartbeatsSound (tr : List (HeartbeatState × HeartbeatEvent)) (s : HeartbeatState) :
    Prop where
  /-- At most one write is under way. -/
  writers : (∀ x ∈ tr, x.1.writers ≤ 1) ∧ s.writers ≤ 1
  alive : (∀ x ∈ tr, HeartbeatAlive x.1) ∧ HeartbeatAlive s
  /-- Heartbeats are written by the coroutine of the connection. The first one on a connection has
  no sequence number, and the others have the last one that came. -/
  beats : ∀ pre t l post, tr = pre ++ (t, .goesOn l) :: post → t.Beats l →
    l.connection = t.connection ∧ t.payload l =
      heartbeatPayload (if hasBeaten t.connection pre then some (lastSequenceOf pre) else none)

/-- When a connection begins, nobody can go on: all coroutines that are there wait for the timer. -/
def NoneLate (tr : List (HeartbeatState × HeartbeatEvent)) : Prop :=
  ∀ x ∈ tr, x.2 = .connect → ∀ l ∈ x.1.loops, l.phase = .waiting

instance (tr : List (HeartbeatState × HeartbeatEvent)) : Decidable (NoneLate tr) :=
  inferInstanceAs (Decidable (∀ x ∈ tr, _))

/-! ### The invariant -/

/-- The only coroutine is that of the last connection, which has answered its Hello. -/
structure HeartbeatInv (s : HeartbeatState) : Prop where
  single : s.loops.length ≤ 1
  own : ∀ l ∈ s.loops, l.connection = s.connection
  unstarted : s.heartbeatStarted = false → s.loops = []
  greeted : s.heartbeatStarted = true → s.identified = true
  asked : s.answering = true → s.identified = false
  reads : s.running = true → s.wsConnected = true → s.reading = true
  /-- Between two connections nobody waits. -/
  between : s.running = true → s.reading = false → ∀ l ∈ s.loops, l.phase ≠ .waiting
  /-- On a connection nobody is aborted. -/
  kept : s.running = true → s.reading = true → ∀ l ∈ s.loops, l.phase ≠ .aborted
  alive : s.running = true → s.wsConnected = true → s.isOpen = true →
    s.heartbeatStarted = true → s.loops ≠ []

/-- The coroutine knows whether a heartbeat has been written on its connection. -/
def HeartbeatLoop.Knows (beaten : Bool) (l : HeartbeatLoop) : Prop :=
  if l.phase = .writing then beaten = true else l.first = !beaten

/-- What a run knows of its heartbeats. -/
structure HeartbeatHistory (tr : List (HeartbeatState × HeartbeatEvent)) (s : HeartbeatState) :
    Prop where
  sequence : s.lastSequence = lastSequenceOf tr
  bound : ∀ n, hasBeaten n tr = true → n ≤ s.connection
  unstarted : s.heartbeatStarted = false → hasBeaten s.connection tr = false
  known : ∀ l ∈ s.loops, l.Knows (hasBeaten s.connection tr)

section Wake

variable (p : BeatPhase) (l : HeartbeatLoop)

@[simp] theorem HeartbeatLoop.wake_connection : (l.wake p).connection = l.connection := by
  unfold wake
  split <;> rfl

theorem HeartbeatLoop.wake_phase :
    (l.wake p).phase = if l.phase = .waiting then p else l.phase := by
  unfold wake
  split <;> rfl

variable {p} in
theorem HeartbeatLoop.wake_phase_ne_waiting (hp : p ≠ .waiting) : (l.wake p).phase ≠ .waiting := by
  rw [wake_phase]
  split
  · exact hp
  · assumption

end Wake

theorem mem_loops {s : HeartbeatState} {pre post : List HeartbeatLoop} {l : HeartbeatLoop}
    (hloops : s.loops = pre ++ l :: post) : l ∈ s.loops := by
  rw [hloops]
  exact List.mem_append_right _ (List.mem_cons_self ..)

namespace HeartbeatInv

variable {s s' : HeartbeatState} {e : HeartbeatEvent} {pre post : List HeartbeatLoop}
  {l : HeartbeatLoop}

theorem initial : HeartbeatInv {} :=
  ⟨Nat.zero_le _, nofun, fun _ => rfl, nofun, nofun, nofun, nofun, nofun, nofun⟩

/-- A coroutine has no other one beside it. -/
theorem alone (h : HeartbeatInv s) (hloops : s.loops = pre ++ l :: post) :
    pre = [] ∧ post = [] := by
  have hsingle := h.single
  rw [hloops, List.length_append, List.length_cons] at hsingle
  exact ⟨List.eq_nil_of_length_eq_zero (by omega), List.eq_nil_of_length_eq_zero (by omega)⟩

/-- It belongs to a connection that has had its Hello. -/
theorem started (h : HeartbeatInv s) (hl : l ∈ s.loops) : s.heartbeatStarted = true := by
  by_contra hnot
  rw [h.unstarted (by simpa using hnot)] at hl
  exact absurd hl List.not_mem_nil

/-- The coroutines go on to be some others, of which there are no more. -/
theorem setLoops (h : HeartbeatInv s) {loops : List HeartbeatLoop}
    (hlength : loops.length ≤ s.loops.length) (hown : ∀ l ∈ loops, l.connection = s.connection)
    (hbetween : s.running = true → s.reading = false → ∀ l ∈ loops, l.phase ≠ .waiting)
    (hkept : s.running = true → s.reading = true → ∀ l ∈ loops, l.phase ≠ .aborted)
    (halive : s.running = true → s.wsConnected = true → s.isOpen = true → s.loops ≠ [] →
      loops ≠ []) : HeartbeatInv { s with loops } where
  single := hlength.trans h.single
  own := hown
  unstarted hnot := by
    rw [h.unstarted hnot] at hlength
    exact List.eq_nil_of_length_eq_zero (Nat.le_zero.mp hlength)
  greeted := h.greeted
  asked := h.asked
  reads := h.reads
  between := hbetween
  kept := hkept
  alive hrunning hconnected hopen hstarted :=
    halive hrunning hconnected hopen (h.alive hrunning hconnected hopen hstarted)

/-- One coroutine goes on, or ends. -/
theorem setLoop (h : HeartbeatInv s) (hloops : s.loops = [l]) {l' : Option HeartbeatLoop}
    (hown : ∀ l₁ ∈ l', l₁.connection = l.connection)
    (hbetween : s.running = true → s.reading = false → ∀ l₁ ∈ l', l₁.phase ≠ .waiting)
    (hkept : ∀ l₁ ∈ l', l₁.phase ≠ .aborted)
    (halive : s.running = true → s.wsConnected = true → s.isOpen = true → l' ≠ none) :
    HeartbeatInv { s with loops := l'.toList } := by
  have hl : l ∈ s.loops := @mem_loops s [] [] l hloops
  -- the only loop is replaced or removed
  refine h.setLoops ?_ ?_ ?_ ?_ ?_
  · rw [hloops]
    cases l' <;> simp
  · intro l₁ hl₁
    exact (hown l₁ (Option.mem_toList.mp hl₁)).trans (h.own l hl)
  · intro hrunning hfree l₁ hl₁
    exact hbetween hrunning hfree l₁ (Option.mem_toList.mp hl₁)
  · intro _ _ l₁ hl₁
    exact hkept l₁ (Option.mem_toList.mp hl₁)
  · intro hrunning hconnected hopen _ hnone
    exact halive hrunning hconnected hopen (Option.toList_eq_nil_iff.mp hnone)

/-- The timer expires. -/
theorem expire (h : HeartbeatInv s) :
    HeartbeatInv { s with loops := s.loops.map (HeartbeatLoop.wake .expired) } := by
  -- a timer that expires wakes the loops and changes nothing else
  refine h.setLoops (by simp) ?_ ?_ ?_ ?_
  · intro l hl
    obtain ⟨l₀, hl₀, rfl⟩ := List.mem_map.mp hl
    rw [HeartbeatLoop.wake_connection]
    exact h.own l₀ hl₀
  · intro _ _ l hl
    obtain ⟨l₀, -, rfl⟩ := List.mem_map.mp hl
    exact l₀.wake_phase_ne_waiting nofun
  · intro hrunning hreading l hl
    obtain ⟨l₀, hl₀, rfl⟩ := List.mem_map.mp hl
    rw [HeartbeatLoop.wake_phase]
    split
    · exact nofun
    · exact h.kept hrunning hreading l₀ hl₀
  · intro _ _ _ hne hnil
    exact hne (List.map_eq_nil_iff.mp hnil)

/-- A connection ends. -/
theorem disconnect (h : HeartbeatInv s) : HeartbeatInv s.disconnect where
  single := by
    rw [HeartbeatState.disconnect, List.length_map]
    exact h.single
  own := by
    -- cancelling the timer wakes a loop and leaves the connection it knows
    intro l hl
    obtain ⟨l₀, hl₀, rfl⟩ := List.mem_map.mp hl
    rw [HeartbeatLoop.wake_connection]
    exact h.own l₀ hl₀
  unstarted hnot := by
    rw [HeartbeatState.disconnect, h.unstarted hnot]
    rfl
  greeted := h.greeted
  asked := nofun
  reads _ := nofun
  between := by
    intro _ _ l hl
    -- a loop that has been woken waits no longer
    obtain ⟨l₀, -, rfl⟩ := List.mem_map.mp hl
    exact l₀.wake_phase_ne_waiting nofun
  kept _ := nofun
  alive _ := nofun

/-- The only coroutine is at the head of its loop. -/
theorem atHead (h : HeartbeatInv s) (hloops : s.loops = pre ++ l :: post) {l' : HeartbeatLoop}
    (hl' : l'.connection = l.connection) :
    HeartbeatInv { s with loops := s.atHead pre post l' } := by
  obtain ⟨rfl, rfl⟩ := h.alone hloops
  by_cases hgoes : s.running = true ∧ s.wsConnected = true
  · have hhead : s.atHead [] [] l' = (some { l' with phase := .waiting }).toList := if_pos hgoes
    rw [hhead]
    refine h.setLoop hloops ?_ ?_ ?_ fun _ _ _ => nofun
    · rintro _ ⟨⟩
      exact hl'
    · intro _ hfree
      rw [h.reads hgoes.1 hgoes.2] at hfree
      cases hfree
    · rintro _ ⟨⟩
      exact nofun
  · have hhead : s.atHead [] [] l' = (none : Option HeartbeatLoop).toList := if_neg hgoes
    rw [hhead]
    refine h.setLoop hloops nofun (fun _ _ => nofun) nofun ?_
    exact fun hrunning hconnected _ => absurd ⟨hrunning, hconnected⟩ hgoes

/-- The connection gets its coroutine. -/
theorem startHeartbeat (h : HeartbeatInv s) (hidentified : s.identified = true) :
    HeartbeatInv s.startHeartbeat := by
  unfold HeartbeatState.startHeartbeat
  split
  · exact h
  · next hnot =>
    have hnone : s.loops = [] := h.unstarted (by simpa using hnot)
    have hnew : ∀ l ∈ s.loops ++ [{ connection := s.connection }],
        l = ({ connection := s.connection } : HeartbeatLoop) := by
      intro l hl
      rw [hnone] at hl
      exact List.mem_singleton.mp hl
    refine ⟨by simp [hnone], ?_, nofun, fun _ => hidentified, h.asked, h.reads, ?_, ?_, by simp⟩
    · intro l hl
      rw [hnew l hl]
    · intro _ _ l hl
      rw [hnew l hl]
      exact nofun
    · intro _ _ l hl
      rw [hnew l hl]
      exact nofun

/-- The only coroutine goes on behind its wait. -/
theorem goesOn (h : HeartbeatInv s) (hloops : s.loops = pre ++ l :: post)
    (hwoken : l.phase = .expired ∨ l.phase = .aborted) :
    HeartbeatInv { s with loops := pre ++ s.goOn l ++ post } := by
  have hl := mem_loops hloops
  obtain ⟨rfl, rfl⟩ := h.alone hloops
  by_cases hbeats : s.Beats l
  · have hgoes : [] ++ s.goOn l ++ [] = (some { l with phase := .writing }).toList := by
      rw [HeartbeatState.goOn, if_pos hbeats]
      rfl
    rw [hgoes]
    refine h.setLoop hloops ?_ ?_ ?_ fun _ _ _ => nofun
    · rintro _ ⟨⟩
      rfl
    · rintro _ _ _ ⟨⟩
      exact nofun
    · rintro _ ⟨⟩
      exact nofun
  · have hends : [] ++ s.goOn l ++ [] = (none : Option HeartbeatLoop).toList := by
      rw [HeartbeatState.goOn, if_neg hbeats]
      rfl
    rw [hends]
    refine h.setLoop hloops nofun (fun _ _ => nofun) nofun ?_
    intro hrunning hconnected hopen
    -- on a connection it was the timer that has ended the wait, so the coroutine would write
    have hkept := h.kept hrunning (h.reads hrunning hconnected) l hl
    exact absurd ⟨hwoken.resolve_right hkept, hrunning, hconnected, hopen⟩ hbeats

/-- **Every step keeps the invariant**, if nobody is left when a connection begins. -/
theorem step (h : HeartbeatInv s) (hstep : HeartbeatStep s e s')
    (hlate : e = .connect → ∀ l ∈ s.loops, l.phase = .waiting) : HeartbeatInv s' := by
  cases hstep with
  | connect hrunning hfree =>
    -- whoever is left waits, and nobody does between two connections
    have hnone : s.loops = [] := by
      refine List.eq_nil_iff_forall_not_mem.mpr fun l hl => ?_
      exact h.between hrunning hfree l hl (hlate rfl l hl)
    have hnobody : ∀ {P : HeartbeatLoop → Prop}, ∀ l ∈ s.loops, P l := by
      intro P l hl
      rw [hnone] at hl
      exact absurd hl List.not_mem_nil
    exact ⟨h.single, hnobody, fun _ => hnone, nofun, nofun, fun _ _ => rfl, fun _ => nofun,
      fun _ _ => hnobody, fun _ _ _ => nofun⟩
  | disconnect => exact h.disconnect
  | sequence => exact ⟨h.single, h.own, h.unstarted, h.greeted, h.asked, h.reads, h.between, h.kept,
      h.alive⟩
  | hello hreading hidle =>
    unfold HeartbeatState.hello
    split
    · next hidentified => exact h.startHeartbeat hidentified
    · next hnot =>
      exact ⟨h.single, h.own, h.unstarted, h.greeted, fun _ => by simpa using hnot, h.reads,
        h.between, h.kept, h.alive⟩
  | answered hanswering =>
    refine HeartbeatInv.startHeartbeat ?_ rfl
    exact ⟨h.single, h.own, h.unstarted, fun _ => rfl, nofun, h.reads, h.between, h.kept, h.alive⟩
  | peerCloses =>
    exact ⟨h.single, h.own, h.unstarted, h.greeted, h.asked, h.reads, h.between, h.kept,
      fun _ _ => nofun⟩
  | begins hloops _ => exact h.atHead hloops rfl
  | expires => exact h.expire
  | goesOn hloops hwoken => exact h.goesOn hloops hwoken
  | written hloops _ => exact h.atHead hloops rfl
  | @fails pre post l hloops _ =>
    -- the connection loses its coroutine, and with it the flag `ws_connected_`
    obtain ⟨rfl, rfl⟩ := h.alone hloops
    exact ⟨Nat.zero_le _, nofun, fun _ => rfl, h.greeted, h.asked, fun _ => nofun, fun _ _ => nofun,
      fun _ _ => nofun, fun _ => nofun⟩
  | stop =>
    exact ⟨h.single, h.own, h.unstarted, h.greeted, h.asked, nofun, nofun, nofun, nofun⟩

end HeartbeatInv

/-! ### What is written -/

section History

variable {tr : List (HeartbeatState × HeartbeatEvent)} {s s' : HeartbeatState} {e : HeartbeatEvent}
  {n : Nat} {b : Bool} {pre post : List HeartbeatLoop} {l : HeartbeatLoop}

theorem hasBeaten_concat (x : HeartbeatState × HeartbeatEvent) :
    hasBeaten n (tr ++ [x]) = (hasBeaten n tr || decide (beat x = some n)) := by
  rw [hasBeaten, List.any_append, List.any_cons, List.any_nil, Bool.or_false, hasBeaten]

theorem hasBeaten_of_silent {x : HeartbeatState × HeartbeatEvent} (hx : beat x = none) :
    hasBeaten n (tr ++ [x]) = hasBeaten n tr := by
  rw [hasBeaten_concat, hx]
  simp

theorem lastSequenceOf_concat (x : HeartbeatState × HeartbeatEvent) :
    lastSequenceOf (tr ++ [x]) = (x.2.sequence?).getD (lastSequenceOf tr) := by
  rw [lastSequenceOf, latest_concat, lastSequenceOf]
  cases x.2.sequence? <;> rfl

/-- A coroutine that does not write. -/
theorem knows_of_ne (h : l.phase ≠ .writing) : l.Knows b ↔ l.first = !b := by
  rw [HeartbeatLoop.Knows, if_neg h]

/-- A coroutine that writes. -/
theorem knows_of_writing (h : l.phase = .writing) : l.Knows b ↔ b = true := by
  rw [HeartbeatLoop.Knows, if_pos h]

theorem knows_wake {p : BeatPhase} (hp : p ≠ .writing) : (l.wake p).Knows b ↔ l.Knows b := by
  unfold HeartbeatLoop.wake
  split
  · next hwaiting =>
    have hwake : ({ l with phase := p } : HeartbeatLoop).Knows b ↔ l.first = !b := knows_of_ne hp
    rw [hwake, knows_of_ne (by rw [hwaiting]; exact nofun)]
  · exact Iff.rfl

theorem known_wake {p : BeatPhase} (hp : p ≠ .writing) {loops : List HeartbeatLoop}
    (h : ∀ l ∈ loops, l.Knows b) : ∀ l ∈ loops.map (HeartbeatLoop.wake p), l.Knows b := by
  intro l hl
  obtain ⟨l₀, hl₀, rfl⟩ := List.mem_map.mp hl
  exact (knows_wake hp).mpr (h l₀ hl₀)

/-- One coroutine ends. -/
theorem known_without (hloops : s.loops = pre ++ l :: post) (h : ∀ l ∈ s.loops, l.Knows b) :
    ∀ l ∈ pre ++ post, l.Knows b := by
  intro l₁ hl₁
  refine h l₁ ?_
  rw [hloops, List.mem_append, List.mem_cons]
  exact (List.mem_append.mp hl₁).imp_right .inr

/-- One coroutine is at the head of its loop. -/
theorem known_atHead (hloops : s.loops = pre ++ l :: post) (h : ∀ l ∈ s.loops, l.Knows b)
    {l' : HeartbeatLoop} (hl' : l'.first = !b) : ∀ l ∈ s.atHead pre post l', l.Knows b := by
  have hrest := known_without hloops h
  unfold HeartbeatState.atHead
  split
  · intro l₁ hl₁
    rcases List.mem_append.mp hl₁ with hpre | hpost
    · exact known_wake (p := .aborted) nofun
        (fun l hl => hrest l (List.mem_append_left _ hl)) l₁ hpre
    · rcases List.mem_cons.mp hpost with rfl | hpost
      · exact (knows_of_ne (by exact nofun)).mpr hl'
      · exact known_wake (p := .aborted) nofun
          (fun l hl => hrest l (List.mem_append_right _ hl)) l₁ hpost
  · exact hrest

namespace HeartbeatHistory

theorem initial : HeartbeatHistory [] {} := ⟨rfl, nofun, fun _ => rfl, nofun⟩

/-- Nothing is written, and no coroutine starts. -/
theorem silent (h : HeartbeatHistory tr s) (hbeat : beat (s, e) = none)
    (hsequence : s'.lastSequence = e.sequence?.getD s.lastSequence)
    (hconnection : s'.connection = s.connection)
    (hstarted : s'.heartbeatStarted = s.heartbeatStarted)
    (hknown : ∀ b, (∀ l ∈ s.loops, l.Knows b) → ∀ l ∈ s'.loops, l.Knows b) :
    HeartbeatHistory (tr ++ [(s, e)]) s' where
  -- what writes no heartbeat adds none to the history
  sequence := by rw [hsequence, lastSequenceOf_concat, h.sequence]
  bound n hn := by
    rw [hasBeaten_of_silent hbeat] at hn
    rw [hconnection]
    exact h.bound n hn
  unstarted hnot := by
    rw [hasBeaten_of_silent hbeat, hconnection]
    exact h.unstarted (hstarted ▸ hnot)
  known := by
    rw [hasBeaten_of_silent hbeat, hconnection]
    exact hknown _ h.known

/-- The connection gets its coroutine. -/
theorem startHeartbeat (h : HeartbeatHistory tr s) : HeartbeatHistory tr s.startHeartbeat := by
  unfold HeartbeatState.startHeartbeat
  split
  · exact h
  · next hnot =>
    refine ⟨h.sequence, h.bound, nofun, fun l hl => ?_⟩
    rcases List.mem_append.mp hl with hl | hl
    · exact h.known l hl
    · obtain rfl := List.mem_singleton.mp hl
      have hsilent : hasBeaten s.connection tr = false := h.unstarted (by simpa using hnot)
      refine (knows_of_ne (by exact nofun)).mpr ?_
      rw [hsilent]
      rfl

/-- The coroutine of the connection writes. -/
theorem beats (h : HeartbeatHistory tr s) (hinv : HeartbeatInv s)
    (hloops : s.loops = pre ++ l :: post) (hbeats : s.Beats l) :
    HeartbeatHistory (tr ++ [(s, .goesOn l)]) { s with loops := pre ++ s.goOn l ++ post } := by
  -- the loop writes on the connection of now
  have hbeat : beat (s, .goesOn l) = some s.connection := if_pos hbeats
  have hbeaten : hasBeaten s.connection (tr ++ [(s, .goesOn l)]) = true := by
    rw [hasBeaten_concat, hbeat]
    simp
  have hstarted := hinv.started (mem_loops hloops)
  -- and is the only one
  obtain ⟨rfl, rfl⟩ := hinv.alone hloops
  refine ⟨?_, fun n hn => ?_, fun hnot => ?_, ?_⟩
  · rw [lastSequenceOf_concat]
    exact h.sequence
  -- a connection with a heartbeat is this one or an earlier one
  · rw [hasBeaten_concat, hbeat, Bool.or_eq_true, decide_eq_true_iff] at hn
    rcases hn with hn | hn
    · exact h.bound n hn
    · exact (Option.some.inj hn).ge
  · rw [hstarted] at hnot
    cases hnot
  · -- the coroutine that writes is the only one
    show ∀ l' ∈ [] ++ s.goOn l ++ [], l'.Knows (hasBeaten s.connection (tr ++ [(s, .goesOn l)]))
    rw [HeartbeatState.goOn, if_pos hbeats, hbeaten]
    intro l' hl'
    obtain rfl := List.mem_singleton.mp hl'
    exact (knows_of_writing rfl).mpr rfl

/-- **Every step keeps what a run knows.** -/
theorem step (h : HeartbeatHistory tr s) (hinv : HeartbeatInv s) (hstep : HeartbeatStep s e s')
    (hinv' : HeartbeatInv s') : HeartbeatHistory (tr ++ [(s, e)]) s' := by
  cases hstep with
  | connect hrunning hfree =>
    -- heartbeats were written on earlier connections only
    have hnew : hasBeaten (s.connection + 1) tr = false := by
      by_contra hbeaten
      have := h.bound _ (by simpa using hbeaten)
      omega
    have hnone : s.loops = [] := hinv'.unstarted rfl
    refine ⟨by rw [lastSequenceOf_concat]; exact h.sequence, fun n hn => ?_, fun _ => ?_, ?_⟩
    · rw [hasBeaten_of_silent rfl] at hn
      exact (h.bound n hn).trans (Nat.le_succ _)
    · rw [hasBeaten_of_silent rfl]
      exact hnew
    · show ∀ l ∈ s.loops, _
      rw [hnone]
      exact nofun
  | disconnect => exact h.silent rfl rfl rfl rfl fun _ => known_wake (p := .aborted) nofun
  | sequence => exact h.silent rfl rfl rfl rfl fun _ hknown => hknown
  | hello =>
    have hsame : HeartbeatHistory (tr ++ [(s, .hello)]) s :=
      h.silent rfl rfl rfl rfl fun _ hknown => hknown
    unfold HeartbeatState.hello
    split
    · exact hsame.startHeartbeat
    · exact ⟨hsame.sequence, hsame.bound, hsame.unstarted, hsame.known⟩
  | answered =>
    have hsame : HeartbeatHistory (tr ++ [(s, .answered)])
        { s with answering := false, identified := true } :=
      h.silent rfl rfl rfl rfl fun _ hknown => hknown
    exact hsame.startHeartbeat
  | peerCloses => exact h.silent rfl rfl rfl rfl fun _ hknown => hknown
  | @begins pre post l hloops hspawned =>
    refine h.silent rfl rfl rfl rfl fun b hknown => known_atHead hloops hknown ?_
    exact (knows_of_ne (by rw [hspawned]; exact nofun)).mp (hknown l (mem_loops hloops))
  | expires => exact h.silent rfl rfl rfl rfl fun _ => known_wake (p := .expired) nofun
  | @goesOn pre post l hloops hwoken =>
    by_cases hbeats : s.Beats l
    · exact h.beats hinv hloops hbeats
    · refine h.silent (if_neg hbeats) rfl rfl rfl fun b hknown => ?_
      show ∀ l' ∈ pre ++ s.goOn l ++ post, l'.Knows b
      rw [HeartbeatState.goOn, if_neg hbeats, List.append_nil]
      exact known_without hloops hknown
  | @written pre post l hloops hwriting =>
    -- its write is in the history, so it is not the first one any more
    refine h.silent rfl rfl rfl rfl fun b hknown => known_atHead hloops hknown ?_
    obtain rfl := (knows_of_writing hwriting).mp (hknown l (mem_loops hloops))
    rfl
  | fails hloops _ => exact h.silent rfl rfl rfl rfl fun _ => known_without hloops
  | stop => exact h.silent rfl rfl rfl rfl fun _ hknown => hknown

end HeartbeatHistory

/-! ### Every run -/

theorem HeartbeatInv.writers_le (h : HeartbeatInv s) : s.writers ≤ 1 := by
  rw [HeartbeatState.writers]
  cases hanswering : s.answering with
  | true =>
    -- the Hello is being answered, so the connection has no coroutine yet
    have hnone : s.loops = [] := by
      refine h.unstarted ?_
      by_contra hstarted
      have hidentified := h.greeted (by simpa using hstarted)
      rw [h.asked hanswering] at hidentified
      cases hidentified
    rw [hnone]
    exact le_rfl
  | false =>
    rw [Bool.toNat_false, Nat.zero_add]
    exact (List.length_filter_le ..).trans h.single

theorem HeartbeatInv.heartbeatAlive (h : HeartbeatInv s) : HeartbeatAlive s := by
  intro hrunning hconnected hopen hstarted
  obtain ⟨l, hl⟩ := List.exists_mem_of_ne_nil _ (h.alive hrunning hconnected hopen hstarted)
  obtain ⟨pre, post, hloops⟩ := List.append_of_mem hl
  obtain ⟨rfl, rfl⟩ := h.alone hloops
  exact ⟨l, hloops, h.own l hl, h.kept hrunning (h.reads hrunning hconnected) l hl⟩

theorem heartbeatInv_of_run (hrun : heartbeats.Run tr s) (hlate : NoneLate tr) :
    HeartbeatInv s ∧ HeartbeatHistory tr s := by
  induction hrun with
  | start h =>
    obtain rfl := h
    exact ⟨HeartbeatInv.initial, HeartbeatHistory.initial⟩
  | @step tr s s' e _ hstep ih =>
    obtain ⟨hinv, hhistory⟩ := ih fun x hmem => hlate x (List.mem_append_left _ hmem)
    have hlast := hlate (s, e) (List.mem_append_right _ (List.mem_singleton_self _))
    have hinv' := hinv.step hstep hlast
    exact ⟨hinv', hhistory.step hinv hstep hinv'⟩

theorem NoneLate.before {pre rest : List (HeartbeatState × HeartbeatEvent)}
    (h : NoneLate (pre ++ rest)) : NoneLate pre :=
  fun x hmem => h x (List.mem_append_left _ hmem)

end History

/-- **Heartbeats are sound** in every run in which all coroutines have gone on that can when a
connection begins. -/
theorem heartbeats_sound {tr : List (HeartbeatState × HeartbeatEvent)} {s : HeartbeatState}
    (hrun : heartbeats.Run tr s) (hlate : NoneLate tr) : HeartbeatsSound tr s := by
  have hall : ∀ x ∈ tr, HeartbeatInv x.1 := by
    intro x hx
    obtain ⟨pre, post, rfl⟩ := List.append_of_mem hx
    exact (heartbeatInv_of_run hrun.upTo hlate.before).1
  have hinv := (heartbeatInv_of_run hrun hlate).1
  refine ⟨⟨fun x hx => (hall x hx).writers_le, hinv.writers_le⟩,
    ⟨fun x hx => (hall x hx).heartbeatAlive, hinv.heartbeatAlive⟩, ?_⟩
  rintro pre t l post rfl hbeats
  obtain ⟨hbefore, hhistory⟩ := heartbeatInv_of_run hrun.upTo hlate.before
  obtain ⟨_, hstep, -⟩ := hrun.stepAt
  have hl : l ∈ t.loops := by
    cases hstep with
    | goesOn hloops _ => exact mem_loops hloops
  -- behind the wait, `first` says whether a heartbeat was written
  have hknows := (knows_of_ne (by rw [hbeats.1]; exact nofun)).mp (hhistory.known l hl)
  refine ⟨hbefore.own l hl, ?_⟩
  rw [HeartbeatState.payload, hknows, hhistory.sequence]
  cases hasBeaten t.connection pre <;> rfl

/-- A connection with a heartbeat, and the next one. -/
theorem heartbeats_sound_reconnected : ∃ tr s, hasBeaten 1 tr = true ∧ s.connection = 2 ∧
    HeartbeatsSound tr s := by
  have start : heartbeats.Run [] {} := .start rfl
  have greeted := (start.step (.connect rfl rfl)).step (.hello rfl rfl)
  have answered := greeted.step (.answered rfl)
  have begun := answered.step (@HeartbeatStep.begins _ [] [] { connection := 1 } rfl rfl)
  have beating := (begun.step .expires).step
    (@HeartbeatStep.goesOn _ [] [] { connection := 1, phase := .expired } rfl (.inl rfl))
  have written := beating.step
    (@HeartbeatStep.written _ [] [] { connection := 1, phase := .writing } rfl rfl)
  -- the coroutine waits again, is aborted, and ends
  have ended := (written.step .disconnect).step (@HeartbeatStep.goesOn _ [] []
    { connection := 1, first := false, phase := .aborted } rfl (.inr rfl))
  exact ⟨_, _, by decide, rfl, heartbeats_sound (ended.step (.connect rfl rfl)) (by decide)⟩

/-- A coroutine that goes on only on the next connection writes beside the answer to the Hello. -/
theorem writers_of_late : ∃ tr s, heartbeats.Run tr s ∧ s.writers = 2 := by
  have start : heartbeats.Run [] {} := .start rfl
  have greeted := (start.step (.connect rfl rfl)).step (.hello rfl rfl)
  have answered := greeted.step (.answered rfl)
  have begun := answered.step (@HeartbeatStep.begins _ [] [] { connection := 1 } rfl rfl)
  have ended := (begun.step .expires).step .disconnect
  have again := (ended.step (.connect rfl rfl)).step (.hello rfl rfl)
  exact ⟨_, _, again.step
    (@HeartbeatStep.goesOn _ [] [] { connection := 1, phase := .expired } rfl (.inl rfl)), rfl⟩

end Aestival
