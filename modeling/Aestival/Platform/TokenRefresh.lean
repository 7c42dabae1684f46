import Aestival.Library.Json
import Aestival.Library.Runs
import Aestival.Library.Tables

/-!
# How a session keeps its access token

`login_async` fetches an access token and starts a coroutine, `token_refresh_timer_loop`, that waits
on the one timer of the session and logs in again when it expires. `run` logs in as well, on every
connection. A login that succeeds gives its coroutine a new generation and aborts whoever waits, so
only the newest coroutine goes on.

While the session runs and has a token, one coroutine of the current generation should be there,
waiting or logging in (`RefreshAlive`). `run` tries again when its login fails; the coroutine does
not. `refreshKept_iff` says that this is the only way to lose it: a refresh that fails before
another login has succeeded.
-/

namespace Aestival

open Json

/-! ### The response to a login -/

/-- `std::stoi`: blanks, a sign, and digits, whatever follows them. -/
def stoi (s : Bytes) : Option Int :=
  let s := s.dropWhile fun b => b = 32 || (9 ≤ b && b ≤ 13)
  let negative := s.head? = some 45
  let s := if negative ∨ s.head? = some 43 then s.drop 1 else s
  let digits := s.takeWhile fun b => 48 ≤ b && b ≤ 57
  let n : Int := digits.foldl (fun n b => 10 * n + (b.toNat - 48)) 0
  let n := if negative then -n else n
  if digits ≠ [] ∧ -2147483648 ≤ n ∧ n ≤ 2147483647 then some n else none

/-- `token_response`. -/
structure TokenResponse where
  accessToken : Bytes
  expiresIn : Int
  deriving DecidableEq, Repr

/-- `from_json` for a `token_response`. -/
def TokenResponse.fromJson (j : Json) : Except AccessError TokenResponse := do
  let accessToken ← j.value getStr (utf8 "access_token") []
  let expiresIn := match j.find? (utf8 "expires_in") with
    | some (.int n) => (Int32.ofInt n).toInt
    | some (.str s) => (stoi s).getD 0
    | _ => 0
  return { accessToken, expiresIn }

/-- What the HTTP client gives back: the status, -1 without a response, and the body. -/
structure HttpResponse where
  status : Int
  body : Json.Text

/-- The token of a response that `login_async` accepts, and after how many seconds it is
refreshed. -/
def loginToken (r : HttpResponse) : Option (Bytes × Int) :=
  if r.status ≠ 200 then none
  else match r.body with
    | .malformed => none
    | .document d =>
      match TokenResponse.fromJson d.json with
      | .error _ => none
      | .ok t =>
        if t.accessToken = [] then none
        else if t.expiresIn > 0 then some (t.accessToken, max 0 (t.expiresIn - 60))
        else some (t.accessToken, 3600)

/-- A token that is accepted is not empty. -/
theorem token_ne_nil {r : HttpResponse} {token : Bytes} {refreshAfter : Int}
    (h : loginToken r = some (token, refreshAfter)) : token ≠ [] := by
  unfold loginToken at h
  split at h
  · cases h
  · split at h
    · cases h
    · split at h
      · cases h
      · split at h
        · cases h
        · next hne =>
          split at h <;>
          · obtain ⟨rfl, -⟩ := Prod.mk.inj (Option.some.inj h)
            exact hne

/-! ### The session -/

/-- Where a `token_refresh_timer_loop` is: not begun, waiting, or behind the wait, which the timer
or an abort has ended, or in its login. -/
inductive LoopPhase where
  | spawned
  | waiting
  | expired
  | aborted
  | loggingIn
  deriving DecidableEq, Repr

/-- A coroutine `token_refresh_timer_loop(gen)` that has not ended. -/
structure RefreshLoop where
  gen : Nat
  phase : LoopPhase
  deriving DecidableEq, Repr

/-- The end of a wait. -/
def RefreshLoop.wake (by_ : LoopPhase) (l : RefreshLoop) : RefreshLoop :=
  if l.phase = .waiting then { l with phase := by_ } else l

/-- The session: `running_`, `access_token_`, `token_refresh_generation_` (fewer than 2^31 logins),
what the timer is set to, whether `run` is in its login, and the coroutines. -/
structure RefreshState where
  running : Bool := true
  token : Bytes := []
  generation : Nat := 0
  refreshAfter : Int := 0
  runLogin : Bool := false
  loops : List RefreshLoop := []
  deriving DecidableEq, Repr

namespace RefreshState

/-- The end of `login_async`, with the response it has got. -/
def endLogin (s : RefreshState) (r : HttpResponse) : RefreshState :=
  match loginToken r with
  | none => s
  | some (token, refreshAfter) =>
    { s with
      token, refreshAfter
      generation := s.generation + 1
      -- `cancel` and `expires_after` abort every wait
      loops := s.loops.map (RefreshLoop.wake .aborted) ++ [⟨s.generation + 1, .spawned⟩] }

/-- A coroutine goes on behind its wait: it logs in if the timer has expired and it is current. -/
def goOn (s : RefreshState) (l : RefreshLoop) : List RefreshLoop :=
  if l.phase = .expired ∧ s.running = true ∧ s.generation = l.gen then
    [{ l with phase := .loggingIn }]
  else []

end RefreshState

/-- What may happen: `run` begins or ends a login, a coroutine begins to wait, the timer expires, a
coroutine goes on behind its wait or ends its login, and the session is stopped. -/
inductive RefreshEvent where
  | runBegins
  | runEnds (r : HttpResponse)
  | waits (l : RefreshLoop)
  | expires
  | goesOn (l : RefreshLoop)
  | refreshEnds (l : RefreshLoop) (r : HttpResponse)
  | stop

/-- A step of the session. -/
inductive RefreshStep : RefreshState → RefreshEvent → RefreshState → Prop
  | runBegins {s : RefreshState} (hrunning : s.running = true) (hidle : s.runLogin = false) :
    RefreshStep s .runBegins { s with runLogin := true }
  | runEnds {s : RefreshState} (hlogin : s.runLogin = true) (r : HttpResponse) :
    RefreshStep s (.runEnds r) { s.endLogin r with runLogin := false }
  | waits {s : RefreshState} {pre post : List RefreshLoop} {gen : Nat}
    (hloops : s.loops = pre ++ ⟨gen, .spawned⟩ :: post) :
    RefreshStep s (.waits ⟨gen, .spawned⟩) { s with loops := pre ++ ⟨gen, .waiting⟩ :: post }
  | expires (s : RefreshState) :
    RefreshStep s .expires { s with loops := s.loops.map (RefreshLoop.wake .expired) }
  | goesOn {s : RefreshState} {pre post : List RefreshLoop} {l : RefreshLoop}
    (hloops : s.loops = pre ++ l :: post) (hwoken : l.phase = .expired ∨ l.phase = .aborted) :
    RefreshStep s (.goesOn l) { s with loops := pre ++ s.goOn l ++ post }
  | refreshEnds {s : RefreshState} {pre post : List RefreshLoop} {gen : Nat}
    (hloops : s.loops = pre ++ ⟨gen, .loggingIn⟩ :: post) (r : HttpResponse) :
    RefreshStep s (.refreshEnds ⟨gen, .loggingIn⟩ r)
      (RefreshState.endLogin { s with loops := pre ++ post } r)
  | stop (s : RefreshState) :
    RefreshStep s .stop
      { s with running := false, loops := s.loops.map (RefreshLoop.wake .aborted) }

/-- A session from its start on, until it is started anew. -/
def tokenRefresh : TransitionSystem RefreshState RefreshEvent where
  init s := s = {}
  step := RefreshStep

/-! ### What should hold -/

/-- While the session runs with a token, there is one coroutine of the current generation, and it
waits or logs in. -/
def RefreshAlive (s : RefreshState) : Prop :=
  s.running = true → s.token ≠ [] →
    ∃ l, s.loops.filter (fun l => l.gen = s.generation) = [l] ∧ l.phase ≠ .aborted

/-- What should hold of a run: this, and that only the current coroutine begins a login. -/
structure RefreshKept (tr : List (RefreshState × RefreshEvent)) (s : RefreshState) : Prop where
  alive : (∀ x ∈ tr, RefreshAlive x.1) ∧ RefreshAlive s
  current : ∀ t l, (t, .goesOn l) ∈ tr → t.goOn l ≠ [] → l.gen = t.generation

/-- No refresh fails while it is current. -/
def RefreshesSucceed (tr : List (RefreshState × RefreshEvent)) : Prop :=
  ∀ t l r, (t, .refreshEnds l r) ∈ tr → t.running = true → l.gen = t.generation →
    loginToken r ≠ none

/-! ### The invariant -/

/-- The coroutines have generations of their own, up to the current one; one that is aborted while
the session runs is older. -/
structure RefreshInv (s : RefreshState) : Prop where
  nodup : (s.loops.map RefreshLoop.gen).Nodup
  bound : ∀ l ∈ s.loops, l.gen ≤ s.generation
  token : 0 < s.generation ↔ s.token ≠ []
  positive : ∀ l ∈ s.loops, 0 < l.gen
  aborted : s.running = true → ∀ l ∈ s.loops, l.phase = .aborted → l.gen < s.generation

@[simp] theorem RefreshLoop.wake_gen (p : LoopPhase) (l : RefreshLoop) :
    (l.wake p).gen = l.gen := by
  unfold RefreshLoop.wake
  split <;> rfl

/-- Waking changes no generation. -/
theorem map_gen_wake (p : LoopPhase) (loops : List RefreshLoop) :
    (loops.map (RefreshLoop.wake p)).map RefreshLoop.gen = loops.map RefreshLoop.gen := by
  simp [Function.comp_def]

namespace RefreshInv

variable {s : RefreshState}

/-- Coroutines may end, and go on. -/
theorem setLoops (h : RefreshInv s) {loops : List RefreshLoop} {running : Bool}
    (hsub : (loops.map RefreshLoop.gen).Sublist (s.loops.map RefreshLoop.gen))
    (haborted : running = true → ∀ l ∈ loops, l.phase = .aborted → l.gen < s.generation) :
    RefreshInv { s with running, loops } := by
  have hgen : ∀ l ∈ loops, ∃ l₀ ∈ s.loops, l₀.gen = l.gen := by
    intro l hl
    exact List.mem_map.mp (hsub.subset (List.mem_map_of_mem hl))
  refine ⟨h.nodup.sublist hsub, ?_, h.token, ?_, haborted⟩
  · intro l hl
    obtain ⟨l₀, hl₀, heq⟩ := hgen l hl
    exact heq ▸ h.bound l₀ hl₀
  · intro l hl
    obtain ⟨l₀, hl₀, heq⟩ := hgen l hl
    exact heq ▸ h.positive l₀ hl₀

/-- The end of a login brings a new generation, if any. -/
theorem endLogin (h : RefreshInv s) (r : HttpResponse) : RefreshInv (s.endLogin r) := by
  unfold RefreshState.endLogin
  cases hresult : loginToken r with
  | none => exact h
  | some result =>
    obtain ⟨token, refreshAfter⟩ := result
    have hold : ∀ l ∈ s.loops.map (RefreshLoop.wake .aborted),
        0 < l.gen ∧ l.gen ≤ s.generation := by
      intro l hl
      obtain ⟨l₀, hl₀, rfl⟩ := List.mem_map.mp hl
      rw [RefreshLoop.wake_gen]
      exact ⟨h.positive l₀ hl₀, h.bound l₀ hl₀⟩
    refine ⟨?_, ?_, ⟨fun _ => token_ne_nil hresult, fun _ => Nat.succ_pos _⟩, ?_, ?_⟩
    -- the new coroutine has a generation above all others
    · rw [List.map_append, map_gen_wake, List.nodup_append]
      refine ⟨h.nodup, by simp, ?_⟩
      rintro g hg g' hg' rfl
      obtain ⟨l, hl, rfl⟩ := List.mem_map.mp hg
      have := h.bound l hl
      have := List.mem_singleton.mp hg'
      dsimp only at this
      omega
    · intro l hl
      rcases List.mem_append.mp hl with hl | hl
      · exact (hold l hl).2.trans (Nat.le_succ _)
      · obtain rfl := List.mem_singleton.mp hl
        exact le_rfl
    · intro l hl
      rcases List.mem_append.mp hl with hl | hl
      · exact (hold l hl).1
      · obtain rfl := List.mem_singleton.mp hl
        exact Nat.succ_pos _
    -- whoever is aborted by the login is older than it
    · intro _ l hl hphase
      rcases List.mem_append.mp hl with hl | hl
      · exact Nat.lt_succ_of_le (hold l hl).2
      · obtain rfl := List.mem_singleton.mp hl
        cases hphase

/-- A session that goes on has no newly aborted coroutine. -/
theorem setLoops_of_old (h : RefreshInv s) {loops : List RefreshLoop}
    (hsub : (loops.map RefreshLoop.gen).Sublist (s.loops.map RefreshLoop.gen))
    (hold : ∀ l ∈ loops, l.phase = .aborted → l ∈ s.loops) : RefreshInv { s with loops } :=
  h.setLoops hsub fun hrunning l hl hphase => h.aborted hrunning l (hold l hl hphase) hphase

/-- Every step keeps the invariant. -/
theorem step {s' : RefreshState} {e : RefreshEvent} (h : RefreshInv s)
    (hstep : RefreshStep s e s') : RefreshInv s' := by
  cases hstep with
  | runBegins => exact ⟨h.nodup, h.bound, h.token, h.positive, h.aborted⟩
  | runEnds _ r =>
    have hend := h.endLogin r
    exact ⟨hend.nodup, hend.bound, hend.token, hend.positive, hend.aborted⟩
  | @waits pre post gen hloops =>
    refine h.setLoops_of_old (by rw [hloops]; simp) ?_
    intro l hl hphase
    rw [hloops]
    simp only [List.mem_append, List.mem_cons] at hl ⊢
    rcases hl with hl | rfl | hl
    · exact .inl hl
    · cases hphase
    · exact .inr (.inr hl)
  | expires =>
    refine h.setLoops_of_old (by rw [map_gen_wake]) ?_
    intro l hl hphase
    obtain ⟨l₀, hl₀, rfl⟩ := List.mem_map.mp hl
    -- the timer aborts none, so this one was not waiting
    unfold RefreshLoop.wake at hphase ⊢
    split at hphase
    · cases hphase
    · next hwaiting => rwa [if_neg hwaiting]
  | @goesOn pre post l hloops hwoken =>
    have hsub : ((pre ++ s.goOn l ++ post).map RefreshLoop.gen).Sublist
        (s.loops.map RefreshLoop.gen) := by
      rw [hloops]
      unfold RefreshState.goOn
      split <;> simp
    refine h.setLoops_of_old hsub ?_
    intro l' hl' hphase
    rw [hloops]
    simp only [List.mem_append, List.mem_cons] at hl' ⊢
    rcases hl' with (hl' | hl') | hl'
    · exact .inl hl'
    · -- one that logs in is not aborted
      unfold RefreshState.goOn at hl'
      split at hl'
      · obtain rfl := List.mem_singleton.mp hl'
        cases hphase
      · cases hl'
    · exact .inr (.inr hl')
  | @refreshEnds pre post gen hloops r =>
    have hinv : RefreshInv { s with loops := pre ++ post } := by
      refine h.setLoops_of_old (by rw [hloops]; simp) ?_
      intro l hl _
      rw [hloops]
      simp only [List.mem_append, List.mem_cons] at hl ⊢
      exact hl.imp_right .inr
    exact hinv.endLogin r
  | stop =>
    refine h.setLoops (by rw [map_gen_wake]) ?_
    intro hrunning
    cases hrunning

end RefreshInv

/-! ### The current coroutine -/

/-- A session that runs and has logged in has a current coroutine. -/
def HasCurrent (s : RefreshState) : Prop :=
  s.running = true → 0 < s.generation → ∃ l ∈ s.loops, l.gen = s.generation

/-- A login keeps it, and one that succeeds brings it. -/
theorem HasCurrent.endLogin {s : RefreshState} (r : HttpResponse)
    (h : loginToken r = none → HasCurrent s) : HasCurrent (s.endLogin r) := by
  unfold RefreshState.endLogin
  cases hresult : loginToken r with
  | none => exact h hresult
  | some result =>
    intro _ _
    exact ⟨⟨s.generation + 1, .spawned⟩, by simp, rfl⟩

/-- It is kept by every step but a refresh that fails while it is current. -/
theorem HasCurrent.step {s s' : RefreshState} {e : RefreshEvent} (h : HasCurrent s)
    (hinv : RefreshInv s) (hstep : RefreshStep s e s')
    (hsucceeds : ∀ l r, e = .refreshEnds l r → s.running = true → l.gen = s.generation →
      loginToken r ≠ none) : HasCurrent s' := by
  cases hstep with
  | runBegins => exact h
  | runEnds _ r => exact HasCurrent.endLogin r fun _ => h
  | @waits pre post gen hloops =>
    intro hrunning hpos
    obtain ⟨l, hl, hgen⟩ := h hrunning hpos
    rw [hloops] at hl
    rcases List.mem_append.mp hl with hl | hl
    · exact ⟨l, List.mem_append_left _ hl, hgen⟩
    · rcases List.mem_cons.mp hl with rfl | hl
      · exact ⟨⟨gen, .waiting⟩, by simp, hgen⟩
      · exact ⟨l, List.mem_append_right _ (List.mem_cons_of_mem _ hl), hgen⟩
  -- the coroutine keeps its generation, whether it was waiting or not
  | expires =>
    intro hrunning hpos
    obtain ⟨l, hl, hgen⟩ := h hrunning hpos
    exact ⟨l.wake .expired, List.mem_map_of_mem hl, (l.wake_gen _).trans hgen⟩
  | @goesOn pre post l₀ hloops hwoken =>
    intro hrunning hpos
    obtain ⟨l, hl, hgen⟩ := h hrunning hpos
    have hl' := hl
    rw [hloops] at hl'
    rcases List.mem_append.mp hl' with hl' | hl'
    · exact ⟨l, by simp [hl'], hgen⟩
    · rcases List.mem_cons.mp hl' with rfl | hl'
      · -- the current one is not aborted, so it logs in
        have hexpired : l.phase = .expired := by
          refine hwoken.resolve_right fun haborted => ?_
          have := hinv.aborted hrunning l hl haborted
          omega
        have hgoes : s.goOn l = [{ l with phase := .loggingIn }] :=
          if_pos ⟨hexpired, hrunning, hgen.symm⟩
        exact ⟨{ l with phase := .loggingIn }, by simp [hgoes], hgen⟩
      · exact ⟨l, by simp [hl'], hgen⟩
  -- a failure matters only if it is that of the current coroutine
  | @refreshEnds pre post gen hloops r =>
    apply HasCurrent.endLogin
    intro hfails hrunning hpos
    obtain ⟨l, hl, hgen⟩ := h hrunning hpos
    rw [hloops] at hl
    rcases List.mem_append.mp hl with hl | hl
    · exact ⟨l, List.mem_append_left _ hl, hgen⟩
    · rcases List.mem_cons.mp hl with rfl | hl
      · exact absurd hfails (hsucceeds _ r rfl hrunning hgen)
      · exact ⟨l, List.mem_append_right _ hl, hgen⟩
  | stop =>
    intro hrunning
    cases hrunning

/-- A state with both invariants is in order. -/
theorem refreshAlive_of_hasCurrent {s : RefreshState} (hinv : RefreshInv s) (h : HasCurrent s) :
    RefreshAlive s := by
  intro hrunning htoken
  obtain ⟨l, hl, hgen⟩ := h hrunning (hinv.token.mpr htoken)
  refine ⟨l, ?_, ?_⟩
  · rw [← hgen]
    exact filter_key_eq hinv.nodup hl
  · intro haborted
    have := hinv.aborted hrunning l hl haborted
    omega

/-! ### Every run -/

section Run

variable {tr : List (RefreshState × RefreshEvent)} {s : RefreshState}

theorem refreshInv_of_run (h : TransitionSystem.Run tokenRefresh tr s) : RefreshInv s := by
  refine h.invariant ?_ fun s e s' => RefreshInv.step
  rintro s rfl
  exact ⟨by simp, by simp, by simp, by simp, by simp⟩

/-- While refreshes succeed, the session has a current coroutine. -/
theorem hasCurrent_of_run (h : TransitionSystem.Run tokenRefresh tr s)
    (hsucceed : RefreshesSucceed tr) : HasCurrent s := by
  induction h with
  | start h =>
    obtain rfl := h
    exact fun _ hpos => absurd hpos (Nat.lt_irrefl 0)
  | @step tr s s' e hrun hstep ih =>
    refine (ih ?_).step (refreshInv_of_run hrun) hstep ?_
    · exact fun t l r hmem => hsucceed t l r (List.mem_append_left _ hmem)
    · rintro l r rfl
      exact hsucceed s l r (by simp)

/-- **When the refresh never dies.** There is always one current coroutine that waits or logs in,
exactly if no refresh fails while it is current. -/
theorem refreshKept_iff (h : TransitionSystem.Run tokenRefresh tr s) :
    RefreshKept tr s ↔ RefreshesSucceed tr := by
  constructor
  · intro hkept t l r hmem hrunning hcurrent hfails
    obtain ⟨pre, post, rfl⟩ := List.append_of_mem hmem
    have hinv := refreshInv_of_run h.upTo
    obtain ⟨s', hstep, hbehind⟩ := h.stepAt
    -- the state behind the failure has no current coroutine
    have halive : RefreshAlive s' := by
      rcases hbehind with rfl | ⟨y, hy, rfl⟩
      · exact hkept.alive.2
      · exact hkept.alive.1 y (List.mem_append_right _ (List.mem_cons_of_mem _ hy))
    cases hstep with
    | @refreshEnds pre' post' gen hloops r =>
      have hsame : RefreshState.endLogin { t with loops := pre' ++ post' } r =
          { t with loops := pre' ++ post' } := by
        simp only [RefreshState.endLogin, hfails]
      rw [hsame] at halive
      have hpos : 0 < t.generation := by
        have : 0 < gen := hinv.positive ⟨gen, .loggingIn⟩ (by rw [hloops]; simp)
        exact hcurrent ▸ this
      obtain ⟨l', hfilter, -⟩ := halive hrunning (hinv.token.mp hpos)
      have hl' : l' ∈ (pre' ++ post').filter fun l => l.gen = t.generation := by
        rw [hfilter]
        exact List.mem_singleton_self l'
      obtain ⟨hmem', hgen'⟩ := List.mem_filter.mp hl'
      have hnodup := hinv.nodup
      rw [hloops, List.map_append, List.map_cons, List.nodup_middle, ← List.map_append] at hnodup
      -- a second coroutine of this generation is left, which there is not
      apply (List.nodup_cons.mp hnodup).1
      exact List.mem_map.mpr ⟨l', hmem', (of_decide_eq_true hgen').trans hcurrent.symm⟩
  · intro hsucceed
    have halive : ∀ {tr : List (RefreshState × RefreshEvent)} {s : RefreshState},
        TransitionSystem.Run tokenRefresh tr s → RefreshesSucceed tr → RefreshAlive s := by
      intro tr s hrun hok
      exact refreshAlive_of_hasCurrent (refreshInv_of_run hrun) (hasCurrent_of_run hrun hok)
    refine ⟨⟨?_, halive h hsucceed⟩, ?_⟩
    · intro x hx
      obtain ⟨pre, post, rfl⟩ := List.append_of_mem hx
      exact halive h.upTo fun t l r hmem => hsucceed t l r (List.mem_append_left _ hmem)
    · intro t l _ hgoes
      unfold RefreshState.goOn at hgoes
      split at hgoes
      · next hcurrent => exact hcurrent.2.2.symm
      · exact absurd rfl hgoes

end Run

/-- A response with a token. -/
def acceptedResponse : HttpResponse :=
  ⟨200, .document ⟨.obj [(utf8 "access_token", .str [116])], by decide +kernel⟩⟩

/-- A session that logs in and refreshes its token once. -/
theorem refreshKept_one_refresh :
    ∃ tr s, TransitionSystem.Run tokenRefresh tr s ∧ RefreshKept tr s ∧
      s.loops = [⟨2, .spawned⟩] := by
  -- one login, and one refresh that succeeds
  have h0 : TransitionSystem.Run tokenRefresh [] {} := .start rfl
  have h1 := h0.step (RefreshStep.runBegins rfl rfl)
  have h2 := h1.step (RefreshStep.runEnds rfl acceptedResponse)
  have h3 := h2.step (@RefreshStep.waits _ [] [] 1 rfl)
  have h4 := h3.step (RefreshStep.expires _)
  have h5 := h4.step (@RefreshStep.goesOn _ [] [] ⟨1, .expired⟩ rfl (.inl rfl))
  have h6 := h5.step (@RefreshStep.refreshEnds _ [] [] 1 rfl acceptedResponse)
  refine ⟨_, _, h6, (refreshKept_iff h6).mpr ?_, rfl⟩
  intro t l r hmem _ _
  simp only [List.nil_append, List.cons_append, List.mem_cons, Prod.mk.injEq, reduceCtorEq,
    and_false, RefreshEvent.refreshEnds.injEq, List.not_mem_nil, or_false, false_or] at hmem
  obtain ⟨-, -, rfl⟩ := hmem
  exact Option.some_ne_none _

/-- **A refresh that fails is the last one.** The session keeps running on the old token. -/
theorem failed_refresh_last :
    ¬ ∀ tr s, TransitionSystem.Run tokenRefresh tr s → RefreshKept tr s := by
  intro h
  have h0 : TransitionSystem.Run tokenRefresh [] {} := .start rfl
  have h1 := h0.step (RefreshStep.runBegins rfl rfl)
  have h2 := h1.step (RefreshStep.runEnds rfl acceptedResponse)
  have h3 := h2.step (@RefreshStep.waits _ [] [] 1 rfl)
  have h4 := h3.step (RefreshStep.expires _)
  have h5 := h4.step (@RefreshStep.goesOn _ [] [] ⟨1, .expired⟩ rfl (.inl rfl))
  have h6 := h5.step (@RefreshStep.refreshEnds _ [] [] 1 rfl ⟨-1, .malformed⟩)
  obtain ⟨l, hl, -⟩ := (h _ _ h6).alive.2 rfl (List.cons_ne_nil _ _)
  exact absurd hl (List.cons_ne_nil _ _).symm

end Aestival
