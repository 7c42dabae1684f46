import Aestival.Platform.Gateway
import Mathlib.Algebra.GroupWithZero.Nat
import Mathlib.Order.Monotone.Basic

/-!
# The delays of the reconnect loop

`session::run` logs in, fetches the address of the gateway and runs a connection, again and again,
and waits after each of these that fails or ends. There are three delays. Behind a failed login it
doubles with the failed logins in a row, behind a failed fetch it is always the same, and behind a
connection it doubles with the connections so far. A successful login starts the first count over;
the second one is set back only when the loop is left.

`run_inv` gives the delays of every run in terms of its history. The delays of one kind are those
`FollowsSchedule` wants, and none is over a minute.
-/

namespace Aestival

open Json

/-! ### The loop -/

/-- `login_retry_delay_s`. -/
def loginRetryDelay : Nat := 5

/-- `reconnect_delay_s`. -/
def reconnectBaseDelay : Nat := 3

/-- The `n`-th of some delays of which a number is doubled, up to a minute. -/
def backoff (base doublings n : Nat) : Nat := min (base * 2 ^ min (n - 1) doublings) 60

/-- The delay after the `n`-th failed login. -/
def loginDelay : Nat → Nat := backoff loginRetryDelay 3

/-- The delay after the `n`-th connection. -/
def reconnectDelay : Nat → Nat := backoff reconnectBaseDelay 4

/-- Where `session::run` stands. In `waiting` the timer runs. -/
inductive RunPoint where
  | loop
  | loggedIn
  | connecting
  | connected
  | disconnected
  | waiting (delay : Nat)
  | ended
  deriving DecidableEq

/-- `running_`, the local variables of `session::run`, and the session. -/
structure RunState where
  running : Bool := true
  loginAttempts : Nat := 0
  reconnectAttempts : Nat := 0
  gateway : GatewayState := {}
  point : RunPoint := .loop

/-- What may happen: a login or a fetch returns, a connection is made or not, a frame comes, the
connection ends otherwise, `run_websocket_async` returns, the timer ends, the loop is left, or
`stop` is called. -/
inductive RunEvent where
  | login (ok : Bool)
  | fetchGateway (ok : Bool)
  | connect (ok : Bool)
  | receive (root : Json) (env : FrameEnv)
  | disconnect
  | leave
  | wake (cancelled : Bool)
  | exit
  | stop

/-- What an event does, where it can happen. -/
def RunState.next (s : RunState) : RunEvent → Option RunState
  | .login ok =>
    if s.point = .loop ∧ s.running then
      -- a login that succeeds resets its own counter only
      if ok then some { s with loginAttempts := 0, point := .loggedIn }
      else some { s with
        loginAttempts := s.loginAttempts + 1
        point := .waiting (loginDelay (s.loginAttempts + 1)) }
    else none
  | .fetchGateway ok =>
    if s.point = .loggedIn then
      some { s with point := if ok then .connecting else .waiting loginRetryDelay }
    else none
  | .connect ok =>
    if s.point = .connecting then
      if ok then some { s with
        gateway := { s.gateway with connection := some { lastSid := s.gateway.sessionId } }
        point := .connected }
      -- a failed connection leaves as one that has ended
      else some { s with point := .disconnected }
    else none
  | .receive root env =>
    match s.point, s.gateway.connection with
    | .connected, some c =>
      let gateway := (s.gateway.receive c root env).1
      some { s with
        gateway
        point := if gateway.connection.isSome then .connected else .disconnected }
    | _, _ => none
  | .disconnect =>
    if s.point = .connected then
      some { s with gateway := s.gateway.close, point := .disconnected }
    else none
  | .leave =>
    if s.point = .disconnected then
      -- the session was not stopped, so the loop tries again
      if s.running then some { s with
        reconnectAttempts := s.reconnectAttempts + 1
        point := .waiting (reconnectDelay (s.reconnectAttempts + 1)) }
      else some { s with reconnectAttempts := 0, point := .ended }
    else none
  | .wake cancelled =>
    match s.point with
    | .waiting _ =>
      -- stopping cancels the timer
      if cancelled || !s.running then some { s with reconnectAttempts := 0, point := .ended }
      else some { s with point := .loop }
    | _ => none
  | .exit =>
    if s.point = .loop ∧ !s.running then some { s with reconnectAttempts := 0, point := .ended }
    else none
  | .stop => some { s with running := false }

/-- The runs of `session::run`. -/
def sessionRun : TransitionSystem RunState RunEvent where
  init s := s = {}
  step s e s' := s.next e = some s'

/-! ### What has happened -/

/-- Does the connection reach READY or RESUMED with this step? -/
def reaches : RunState × RunEvent → Bool
  | (s, .receive root _) =>
    decide (root.value getInt32 (utf8 "op") 0 = .ok opDispatch) &&
      (decide (root.value getStr (utf8 "t") [] = .ok (utf8 "READY")) ||
        decide (root.value getStr (utf8 "t") [] = .ok (utf8 "RESUMED"))) &&
      (s.gateway.readSequence root).isOk
  | _ => false

/-- The attempts that fail, among them every connection until it reaches READY or RESUMED. -/
def isAttempt : RunState × RunEvent → Bool
  | (_, .login ok) => !ok
  | (_, .fetchGateway ok) => !ok
  | (_, .connect _) => true
  | _ => false

/-- The failed attempts since the last connection that reached READY or RESUMED. -/
def failedAttempts (tr : List (RunState × RunEvent)) : Nat := countSince reaches isAttempt tr

/-- The failed logins since the last one that succeeded. -/
def failedLogins (tr : List (RunState × RunEvent)) : Nat :=
  countSince (fun x => match x.2 with | .login ok => ok | _ => false)
    (fun x => match x.2 with | .login _ => true | _ => false) tr

/-- The connections that have ended. -/
def endedConnections (tr : List (RunState × RunEvent)) : Nat :=
  tr.countP fun x => match x.2 with | .leave => true | _ => false

/-- The kinds of attempts. -/
inductive AttemptKind where
  | login
  | gateway
  | connection
  deriving DecidableEq

/-- The end of an attempt after which there is a delay. -/
def failure : RunState × RunEvent → Option AttemptKind
  | (_, .login false) => some .login
  | (_, .fetchGateway false) => some .gateway
  | (_, .leave) => some .connection
  | _ => none

/-- What is wanted, with one count for all attempts: in a run the delay is a function of the failed
attempts since the last connection that reached READY or RESUMED, and grows with them. -/
def DependsOnStreak (tr : List (RunState × RunEvent)) : Prop :=
  ∃ delay : Nat → Nat, Monotone delay ∧ (∀ n, delay n ≤ 60) ∧
    ∀ pre s e post d, tr = pre ++ (s, e) :: post → s.point = .waiting d →
      d = delay (failedAttempts pre)

/-- What holds of a delay, with a count for each kind: it is at most a minute, and determined by the
failed attempts of the kind in a row. For the connections this is said as long as none has reached
READY or RESUMED, and behind the first one. -/
structure FollowsSchedule (tr : List (RunState × RunEvent)) (d : Nat) : Prop where
  le_minute : d ≤ 60
  known : ∃ kind, latest failure tr = some kind
  login : latest failure tr = some .login → d = loginDelay (failedLogins tr)
  gateway : latest failure tr = some .gateway → d = loginRetryDelay
  connection : latest failure tr = some .connection → (∀ x ∈ tr, reaches x = false) →
    d = reconnectDelay (endedConnections tr)
  first : latest failure tr = some .connection → endedConnections tr = 1 → d = reconnectBaseDelay

/-! ### The delays of a run -/

variable {tr : List (RunState × RunEvent)} {s s' : RunState} {e : RunEvent}

/-- A delay says which attempt it is for, and is determined by the history. -/
inductive DelayOf (tr : List (RunState × RunEvent)) (d : Nat) : Prop
  | login (hlast : latest failure tr = some .login) (h : d = loginDelay (failedLogins tr))
  | gateway (hlast : latest failure tr = some .gateway) (h : d = loginRetryDelay)
  | connection (hlast : latest failure tr = some .connection)
      (h : d = reconnectDelay (endedConnections tr))

/-- What holds throughout a run. -/
structure RunInv (tr : List (RunState × RunEvent)) (s : RunState) : Prop where
  logins : s.loginAttempts = failedLogins tr
  connections : s.point ≠ .ended → s.reconnectAttempts = endedConnections tr
  delay : ∀ d, s.point = .waiting d → DelayOf tr d

theorem failedLogins_concat (tr : List (RunState × RunEvent)) (x : RunState × RunEvent) :
    failedLogins (tr ++ [x]) = match x.2 with
      | .login true => 0
      | .login false => failedLogins tr + 1
      | _ => failedLogins tr := by
  obtain ⟨s, e⟩ := x
  rw [failedLogins, countSince_concat]
  cases e with
  | login ok => cases ok <;> rfl
  | _ => rfl

theorem endedConnections_concat (tr : List (RunState × RunEvent)) (x : RunState × RunEvent) :
    endedConnections (tr ++ [x]) = match x.2 with
      | .leave => endedConnections tr + 1
      | _ => endedConnections tr := by
  obtain ⟨s, e⟩ := x
  rw [endedConnections, List.countP_append]
  cases e <;> rfl

/-- A step that ends neither an attempt nor the loop, and logs in neither. -/
theorem RunInv.keep (h : RunInv tr s) (hpoint : s'.point ≠ .ended → s.point ≠ .ended)
    (hlogins : s'.loginAttempts = s.loginAttempts)
    (hconnections : s'.reconnectAttempts = s.reconnectAttempts)
    (hwait : ∀ d, s'.point = .waiting d → s.point = .waiting d)
    (hlogin : failedLogins (tr ++ [(s, e)]) = failedLogins tr)
    (hended : endedConnections (tr ++ [(s, e)]) = endedConnections tr)
    (hlast : latest failure (tr ++ [(s, e)]) = latest failure tr) : RunInv (tr ++ [(s, e)]) s' where
  logins := hlogins.trans (h.logins.trans hlogin.symm)
  connections hne := hconnections.trans ((h.connections (hpoint hne)).trans hended.symm)
  delay d hd := by
    rcases h.delay d (hwait d hd) with ⟨hkind, hd⟩ | ⟨hkind, hd⟩ | ⟨hkind, hd⟩
    · exact .login (hlast.trans hkind) (hlogin ▸ hd)
    · exact .gateway (hlast.trans hkind) hd
    · exact .connection (hlast.trans hkind) (hended ▸ hd)

/-- A step that leaves the loop. -/
theorem RunInv.leave (h : RunInv tr s) (hpoint : s'.point = .ended)
    (hlogins : s'.loginAttempts = s.loginAttempts)
    (hlogin : failedLogins (tr ++ [(s, e)]) = failedLogins tr) : RunInv (tr ++ [(s, e)]) s' where
  logins := hlogins.trans (h.logins.trans hlogin.symm)
  connections hne := absurd hpoint hne
  delay _ hd := nomatch hpoint.symm.trans hd

theorem ne_ended {point : RunPoint} (hat : s.point = point) (hne : point ≠ .ended) :
    s.point ≠ .ended := hat ▸ hne

theorem RunInv.step (h : RunInv tr s) (hstep : s.next e = some s') :
    RunInv (tr ++ [(s, e)]) s' := by
  have hlogins := failedLogins_concat tr (s, e)
  have hended := endedConnections_concat tr (s, e)
  have hlast := latest_concat failure tr (s, e)
  cases e with
  -- a failed login is one more, and its delay is that of their number
  | login ok =>
    rw [RunState.next] at hstep
    split at hstep
    · next hat =>
      have hne := ne_ended hat.1 nofun
      cases ok with
      | true =>
        obtain rfl := Option.some.inj hstep
        exact ⟨hlogins.symm, fun _ => (h.connections hne).trans hended.symm, nofun⟩
      | false =>
        obtain rfl := Option.some.inj hstep
        refine ⟨(congrArg (· + 1) h.logins).trans hlogins.symm,
          fun _ => (h.connections hne).trans hended.symm, fun d hd => ?_⟩
        refine .login hlast ?_
        rw [hlogins, ← RunPoint.waiting.inj hd, h.logins]
    · cases hstep
  -- without a gateway the delay is fixed
  | fetchGateway ok =>
    rw [RunState.next] at hstep
    split at hstep
    · next hat =>
      have hne := ne_ended hat nofun
      obtain rfl := Option.some.inj hstep
      cases ok with
      | true => exact h.keep (fun _ => hne) rfl rfl nofun hlogins hended hlast
      | false =>
        refine ⟨h.logins.trans hlogins.symm, fun _ => (h.connections hne).trans hended.symm,
          fun d hd => .gateway hlast ?_⟩
        exact (RunPoint.waiting.inj hd).symm
    · cases hstep
  -- neither a new connection nor what it brings touches the counters
  | connect ok =>
    rw [RunState.next] at hstep
    split at hstep
    · next hat =>
      have hne := ne_ended hat nofun
      split at hstep
      · obtain rfl := Option.some.inj hstep
        exact h.keep (fun _ => hne) rfl rfl nofun hlogins hended hlast
      · obtain rfl := Option.some.inj hstep
        exact h.keep (fun _ => hne) rfl rfl nofun hlogins hended hlast
    · cases hstep
  | receive root env =>
    rw [RunState.next] at hstep
    split at hstep
    · next c hat hopen =>
      have hne := ne_ended hat nofun
      obtain rfl := Option.some.inj hstep
      refine h.keep (fun _ => hne) rfl rfl (fun d hd => ?_) hlogins hended hlast
      dsimp only at hd
      split at hd <;> cases hd
    · cases hstep
  | disconnect =>
    rw [RunState.next] at hstep
    split at hstep
    · next hat =>
      have hne := ne_ended hat nofun
      obtain rfl := Option.some.inj hstep
      exact h.keep (fun _ => hne) rfl rfl nofun hlogins hended hlast
    · cases hstep
  -- a connection that has ended is one more, unless the session is stopped
  | leave =>
    rw [RunState.next] at hstep
    split at hstep
    · next hat =>
      have hne := ne_ended hat nofun
      split at hstep
      · obtain rfl := Option.some.inj hstep
        refine ⟨h.logins.trans hlogins.symm,
          fun _ => (congrArg (· + 1) (h.connections hne)).trans hended.symm, fun d hd => ?_⟩
        refine .connection hlast ?_
        rw [hended, ← RunPoint.waiting.inj hd, h.connections hne]
      · obtain rfl := Option.some.inj hstep
        exact h.leave rfl rfl hlogins
    · cases hstep
  -- behind the delay the loop goes on, or ends if the session was stopped
  | wake cancelled =>
    rw [RunState.next] at hstep
    split at hstep
    · next d hat =>
      have hne := ne_ended hat nofun
      split at hstep
      · obtain rfl := Option.some.inj hstep
        exact h.leave rfl rfl hlogins
      · obtain rfl := Option.some.inj hstep
        exact h.keep (fun _ => hne) rfl rfl nofun hlogins hended hlast
    · cases hstep
  | exit =>
    rw [RunState.next] at hstep
    split at hstep
    · obtain rfl := Option.some.inj hstep
      exact h.leave rfl rfl hlogins
    · cases hstep
  -- stopping leaves the loop where it is
  | stop =>
    obtain rfl := Option.some.inj hstep
    exact h.keep id rfl rfl (fun _ => id) hlogins hended hlast

/-- **The delays of a run are determined by its history.** -/
theorem run_inv (h : sessionRun.Run tr s) : RunInv tr s := by
  induction h with
  | start h =>
    cases h
    exact ⟨rfl, fun _ => rfl, nofun⟩
  | step _ hstep ih => exact ih.step hstep

/-! ### The schedule -/

theorem backoff_mono (base doublings : Nat) : Monotone (backoff base doublings) := by
  intro m n h
  have hexp : min (m - 1) doublings ≤ min (n - 1) doublings := by omega
  have hmul : base * 2 ^ min (m - 1) doublings ≤ base * 2 ^ min (n - 1) doublings :=
    Nat.mul_le_mul_left _ (Nat.pow_le_pow_right (by decide) hexp)
  unfold backoff
  omega

/-- **Every delay follows the schedule of its kind**, in which the delays only grow. -/
theorem delays_follow_schedule :
    Monotone loginDelay ∧ Monotone reconnectDelay ∧
      ∀ (tr : List (RunState × RunEvent)) (s : RunState) (d : Nat),
        sessionRun.Run tr s → s.point = .waiting d → FollowsSchedule tr d := by
  refine ⟨backoff_mono _ _, backoff_mono _ _, fun tr s d hrun hwait => ?_⟩
  -- only one kind of failure is the last one, so the other clauses are void
  have hlast {kind kind' : AttemptKind} (h : latest failure tr = some kind)
      (h' : latest failure tr = some kind') : kind = kind' := Option.some.inj (h.symm.trans h')
  cases (run_inv hrun).delay d hwait with
  -- the delay doubles with each failed login
  | login hkind hd =>
    exact {
      le_minute := hd.trans_le (min_le_right _ _)
      known := ⟨.login, hkind⟩
      login := fun _ => hd
      gateway := fun h => nomatch hlast hkind h
      connection := fun h => nomatch hlast hkind h
      first := fun h => nomatch hlast hkind h }
  | gateway hkind hd =>
    exact {
      le_minute := hd.trans_le (by decide)
      known := ⟨.gateway, hkind⟩
      login := fun h => nomatch hlast hkind h
      gateway := fun _ => hd
      connection := fun h => nomatch hlast hkind h
      first := fun h => nomatch hlast hkind h }
  -- the delay doubles with each connection, whatever it had reached
  | connection hkind hd =>
    exact {
      le_minute := hd.trans_le (min_le_right _ _)
      known := ⟨.connection, hkind⟩
      login := fun h => nomatch hlast hkind h
      gateway := fun h => nomatch hlast hkind h
      connection := fun _ _ => hd
      first := fun _ hone => by rw [hd, hone]; rfl }

/-! ### Two runs -/

/-- The history of some events, and the state behind them. -/
def replayRun : RunState → List RunEvent → Option (List (RunState × RunEvent) × RunState)
  | s, [] => some ([], s)
  | s, e :: es => do
    let s' ← s.next e
    let (tr, last) ← replayRun s' es
    pure ((s, e) :: tr, last)

theorem run_of_replay {events : List RunEvent} {tr' : List (RunState × RunEvent)}
    (h : sessionRun.Run tr s) (hreplay : replayRun s events = some (tr', s')) :
    sessionRun.Run (tr ++ tr') s' := by
  induction events generalizing tr s tr' with
  | nil =>
    cases hreplay
    rwa [List.append_nil]
  | cons e events ih =>
    obtain ⟨s₁, hnext, hrest⟩ := Option.bind_eq_some_iff.mp hreplay
    obtain ⟨⟨tr₁, last⟩, hreplay₁, heq⟩ := Option.bind_eq_some_iff.mp hrest
    cases heq
    have hrun := ih (h.step hnext) hreplay₁
    rwa [List.append_assoc] at hrun

/-- A second login fails. -/
theorem second_failed_login :
    ∃ tr s, sessionRun.Run tr s ∧ s.point = .waiting 10 ∧ FollowsSchedule tr 10 := by
  have hrun := run_of_replay (.start rfl)
    (show replayRun {} [.login false, .wake false, .login false] = some (_, _) from rfl)
  exact ⟨_, _, hrun, rfl, delays_follow_schedule.2.2 _ _ _ hrun rfl⟩

/-- **The delay behind a failed connection is shorter than the one behind the failed login before
it.** -/
theorem shorter_delay : ¬ ∀ (tr : List (RunState × RunEvent)) (s : RunState),
    sessionRun.Run tr s → DependsOnStreak tr := by
  intro hall
  have hrun := run_of_replay (.start rfl)
    (show replayRun {} [.login false, .wake false, .login true, .fetchGateway true, .connect false,
      .leave, .wake false] = some (_, _) from rfl)
  obtain ⟨delay, hmono, -, hdelay⟩ := hall _ _ hrun
  have hlogin : 5 = delay 1 := hdelay [_] _ _ _ _ rfl rfl
  have hconnection : 3 = delay 2 := hdelay [_, _, _, _, _, _] _ _ [] _ rfl rfl
  have hle := hmono (show 1 ≤ 2 by decide)
  omega

end Aestival
