import Aestival.Platform.Gateway
import Aestival.Platform.Heartbeat
import Mathlib.Logic.Relation

/-!
# Heartbeats beside the handshake

Two models are about `run_websocket_async`. The one of the handshake reads frames, and each frame is
one step of it; the one of the heartbeats knows of a frame only its sequence number and whether it
is a Hello, and lets the coroutines go on while the answer to a Hello is written. `SameSession` says
that both are about the same session between two frames. Whatever the coroutines are doing, a step
of the handshake is some steps of the reader (`gatewayStep`), and the coroutines change nothing that
the handshake knows of (`coroutine`).
-/

namespace Aestival

/-- The event belongs to `run_websocket_async`. -/
def HeartbeatEvent.ofReader : HeartbeatEvent → Bool
  | .connect | .disconnect | .sequence _ | .hello | .answered => true
  | _ => false

/-- A step of `run_websocket_async`. -/
def ReaderStep (s s' : HeartbeatState) : Prop :=
  ∃ e : HeartbeatEvent, e.ofReader = true ∧ HeartbeatStep s e s'

/-- The two models are about the same session, which waits for a frame if it is connected. -/
structure SameSession (g : GatewayState) (s : HeartbeatState) : Prop where
  sequence : s.lastSequence = g.lastSequence
  reading : s.reading = g.connection.isSome
  identified : ∀ c, g.connection = some c → s.identified = c.identified
  idle : s.answering = false

namespace SameSession

open Relation

variable {g g' : GatewayState} {s s' : HeartbeatState}

theorem initial : SameSession {} {} := ⟨rfl, rfl, nofun, rfl⟩

theorem startHeartbeat (h : SameSession g s) : SameSession g s.startHeartbeat := by
  unfold HeartbeatState.startHeartbeat
  split
  · exact h
  · exact ⟨h.sequence, h.reading, h.identified, h.idle⟩

/-- The connection ends. -/
theorem disconnect (hsequence : s.lastSequence = g'.lastSequence) (hclosed : g'.connection = none) :
    ∃ s', ReflTransGen ReaderStep s s' ∧ SameSession g' s' := by
  refine ⟨s.disconnect, .single ⟨.disconnect, rfl, .disconnect⟩, hsequence, ?_, ?_, rfl⟩
  · rw [hclosed]
    rfl
  · rw [hclosed]
    exact nofun

theorem hello {c : GatewayConnection} (h : SameSession g s) (hopen : g.connection = some c)
    (root : Json) (env : FrameEnv) :
    ∃ s', ReflTransGen ReaderStep s s' ∧ SameSession (g.receiveHello c root env).1 s' := by
  have hreading : s.reading = true := by rw [h.reading, hopen]; rfl
  have hstep : ReaderStep s s.hello := ⟨.hello, rfl, .hello hreading h.idle⟩
  unfold GatewayState.receiveHello
  split
  · exact disconnect h.sequence rfl
  · split
    · next hidentified =>
      have hknown : s.identified = true := (h.identified c hopen).trans hidentified
      refine ⟨s.hello, .single hstep, ?_⟩
      rw [HeartbeatState.hello, if_pos hknown]
      exact h.startHeartbeat
    · next hnot =>
      have hasks : s.hello = { s with answering := true } := by
        rw [HeartbeatState.hello, h.identified c hopen, if_neg hnot]
      split
      -- the write of the answer fails
      · have hsequence : s.hello.lastSequence = g.close.lastSequence := by
          rw [hasks]
          exact h.sequence
        obtain ⟨s', hsteps, hsame⟩ := disconnect hsequence rfl
        exact ⟨s', .head hstep hsteps, hsame⟩
      · have hanswers : ReaderStep s.hello s.hello.answered :=
          ⟨.answered, rfl, .answered (by rw [hasks])⟩
        refine ⟨s.hello.answered, .tail (.single hstep) hanswers, ?_⟩
        rw [hasks]
        refine SameSession.startHeartbeat ⟨h.sequence, hreading, ?_, rfl⟩
        rintro _ ⟨⟩
        rfl

theorem receive {c : GatewayConnection} (h : SameSession g s) (hopen : g.connection = some c)
    (root : Json) (env : FrameEnv) :
    ∃ s', ReflTransGen ReaderStep s s' ∧ SameSession (g.receive c root env).1 s' := by
  have hreading : s.reading = true := by rw [h.reading, hopen]; rfl
  unfold GatewayState.receive
  split
  · exact disconnect h.sequence rfl
  split
  · exact disconnect h.sequence rfl
  split
  · exact disconnect h.sequence rfl
  next seq _ =>
  -- the sequence number, which stays as it is where the frame has none
  have hsequence : ReflTransGen ReaderStep s { s with lastSequence := seq } := by
    by_cases hold : s.lastSequence = seq
    · subst hold
      exact .refl
    · exact .single ⟨.sequence seq, rfl, .sequence hreading h.idle seq⟩
  have hsame : SameSession { g with lastSequence := seq } { s with lastSequence := seq } :=
    ⟨rfl, h.reading, h.identified, h.idle⟩
  suffices hrest : ∃ s', ReflTransGen ReaderStep { s with lastSequence := seq } s' ∧
      SameSession _ s' by
    obtain ⟨s', hsteps, hs'⟩ := hrest
    exact ⟨s', hsequence.trans hsteps, hs'⟩
  dsimp only
  split
  · exact hsame.hello hopen root env
  split
  · exact disconnect rfl rfl
  split
  · have hnews : ∀ sid, SameSession { g with lastSequence := seq, sessionId := sid }
        { s with lastSequence := seq } :=
      fun _ => ⟨rfl, h.reading, h.identified, h.idle⟩
    unfold GatewayState.receiveDispatch
    split
    · split
      · exact disconnect rfl rfl
      · exact ⟨_, .refl, hnews _⟩
    · split
      · exact disconnect rfl rfl
      · exact ⟨_, .refl, hsame⟩
  split
  · exact disconnect rfl rfl
  · exact ⟨_, .refl, hsame⟩

/-- **Every step of the gateway is some steps of `run_websocket_async`**, whatever the coroutines
are doing. -/
theorem gatewayStep {e : GatewayEvent} (h : SameSession g s) (hstep : GatewayStep g e g')
    (hrunning : s.running = true) : ∃ s', ReflTransGen ReaderStep s s' ∧ SameSession g' s' := by
  cases hstep with
  | connect hfree =>
    have hidle : s.reading = false := by rw [h.reading, hfree]; rfl
    refine ⟨s.connect, .single ⟨.connect, rfl, .connect hrunning hidle⟩, h.sequence, rfl, ?_, rfl⟩
    rintro _ ⟨⟩
    rfl
  | receive hopen root env => exact h.receive hopen root env
  | disconnect hopen => exact disconnect h.sequence rfl

/-- **The coroutines leave the session as the gateway has it.** -/
theorem coroutine {e : HeartbeatEvent} (h : SameSession g s) (hstep : HeartbeatStep s e s')
    (hother : e.ofReader = false) : SameSession g s' := by
  cases hstep with
  | connect => cases hother
  | disconnect => cases hother
  | sequence => cases hother
  | hello => cases hother
  | answered => cases hother
  | _ => exact ⟨h.sequence, h.reading, h.identified, h.idle⟩

end SameSession

theorem running_of_readerStep {s s' : HeartbeatState} (h : ReaderStep s s') :
    s'.running = s.running := by
  obtain ⟨e, hreader, hstep⟩ := h
  have hstart : ∀ s : HeartbeatState, s.startHeartbeat.running = s.running := by
    intro s
    unfold HeartbeatState.startHeartbeat
    split <;> rfl
  cases hstep with
  | hello =>
    unfold HeartbeatState.hello
    split
    · exact hstart s
    · rfl
  | answered => exact hstart _
  | stop => cases hreader
  | _ => rfl

theorem running_of_readerSteps {s s' : HeartbeatState} (h : Relation.ReflTransGen ReaderStep s s') :
    s'.running = s.running := by
  induction h with
  | refl => rfl
  | tail _ hlast ih => exact (running_of_readerStep hlast).trans ih

/-- **Every run of the handshake is one of the session with its heartbeats.** -/
theorem exists_sameSession {tr : List (GatewayState × GatewayEvent)} {g : GatewayState}
    (hrun : gateway.Run tr g) : ∃ s, Relation.ReflTransGen ReaderStep {} s ∧
      s.running = true ∧ SameSession g s := by
  induction hrun with
  | start h =>
    obtain rfl := h
    exact ⟨{}, .refl, rfl, .initial⟩
  | step _ hstep ih =>
    obtain ⟨s, hsteps, hrunning, hsame⟩ := ih
    obtain ⟨s', hmore, hsame'⟩ := hsame.gatewayStep hstep hrunning
    exact ⟨s', hsteps.trans hmore, (running_of_readerSteps hmore).trans hrunning, hsame'⟩

end Aestival
