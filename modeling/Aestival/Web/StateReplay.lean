import Aestival.Library.Runs
import Aestival.Web.Tokens

/-!
# An OAuth state is accepted once

States are generated and verified in any order, and time does not go backwards (`stateTokens`).
Anything may be presented to `verifyState`, but a signed payload with a nonce is one that
`generateState` has signed before.

A token expires ten minutes after the second it was signed in has begun, and its nonce is remembered
for ten minutes from the moment it was accepted. So a nonce that has been purged belongs to a token
that has expired (`StateTokens.Inv`).

* `verifyState_accepts_once`: of all calls of `verifyState`, at most one returns the payload of a
  token.
-/

namespace Aestival

/-- What `oauth.ts` keeps, with the time of the last call and the payloads signed so far. -/
structure StateTokens where
  clock : Nat := 0
  consumedNonces : ConsumedNonces := []
  minted : List Claims := []

inductive StateCall where
  | generateState (now : Nat) (params : StateParams) (nonce : JsString)
  | verifyState (now : Nat) (token : Token)

/-- The time of a call. -/
def StateCall.now : StateCall → Nat
  | .generateState now _ _ => now
  | .verifyState now _ => now

namespace StateTokens

/-- What a call leaves. -/
def after (s : StateTokens) : StateCall → StateTokens
  | .generateState now params nonce =>
    { s with clock := now, minted := stateClaims now params nonce :: s.minted }
  | .verifyState now token =>
    { s with clock := now, consumedNonces := (Aestival.verifyState now s.consumedNonces token).2 }

/-- The payload a call of `verifyState` returns. -/
def returned (s : StateTokens) : StateCall → Option Claims
  | .generateState _ _ _ => none
  | .verifyState now token => (Aestival.verifyState now s.consumedNonces token).1

/-- A payload with a nonce is presented only after it was signed. -/
def Unforged (s : StateTokens) : StateCall → Prop
  | .generateState _ _ _ => True
  | .verifyState _ token => ∀ claims, token = .signed claims → claims.nonce ≠ none →
    claims ∈ s.minted

end StateTokens

/-- The calls of `generateState` and `verifyState`, at nondecreasing times. -/
def stateTokens : TransitionSystem StateTokens StateCall where
  init s := s = {}
  step s call s' := s.clock ≤ call.now ∧ s.Unforged call ∧ s' = s.after call

/-- The payloads that `verifyState` has returned, in order. -/
def acceptedStates (tr : List (StateTokens × StateCall)) : List Claims :=
  tr.filterMap fun p => p.1.returned p.2

theorem acceptedStates_append (tr : List (StateTokens × StateCall)) (s : StateTokens)
    (call : StateCall) :
    acceptedStates (tr ++ [(s, call)]) = acceptedStates tr ++ (s.returned call).toList := by
  rw [acceptedStates, List.filterMap_append]
  refine congrArg (acceptedStates tr ++ ·) ?_
  cases h : s.returned call with
  | none => exact List.filterMap_cons_none h
  | some claims => exact List.filterMap_cons_some h

namespace StateTokens

/-- What holds in every run. -/
structure Inv (tr : List (StateTokens × StateCall)) (s : StateTokens) : Prop where
  nonces : ∀ claims ∈ s.minted, claims.nonce ≠ none
  /-- A token expires at most ten minutes from now. -/
  soon : ∀ claims ∈ s.minted, claims.exp * 1000 ≤ s.clock + 600000
  /-- A token that was accepted has expired, or its nonce is remembered until it does. -/
  spent : ∀ claims ∈ acceptedStates tr, claims.nonce ≠ none →
    ReplayCache.Spent s.clock claims.nonce (claims.exp * 1000) s.consumedNonces
  once : ∀ claims, claims.nonce ≠ none → (acceptedStates tr).count claims ≤ 1

variable {tr : List (StateTokens × StateCall)} {s : StateTokens} {now : Nat}

/-- A new token changes nothing for those that were accepted. -/
theorem Inv.generateState {params : StateParams} {nonce : JsString} (h : Inv tr s)
    (hclock : s.clock ≤ now) :
    Inv (tr ++ [(s, .generateState now params nonce)])
      (s.after (.generateState now params nonce)) := by
  -- issuing a state accepts none
  have haccepted : acceptedStates (tr ++ [(s, .generateState now params nonce)]) =
      acceptedStates tr := by
    rw [acceptedStates_append]
    exact List.append_nil _
  refine ⟨fun claims hclaims => ?_, fun claims hclaims => ?_, fun claims hclaims hnonce => ?_, ?_⟩
  · rcases List.mem_cons.mp hclaims with rfl | hclaims
    · exact Option.some_ne_none nonce
    · exact h.nonces claims hclaims
  · rcases List.mem_cons.mp hclaims with rfl | hclaims
    -- the new state expires within ten minutes
    · show (now / 1000 + 600) * 1000 ≤ now + 600000
      omega
    · exact (h.soon claims hclaims).trans (Nat.add_le_add_right hclock _)
  · rw [haccepted] at hclaims
    exact (h.spent claims hclaims hnonce).mono hclock
  · rw [haccepted]
    exact h.once

/-- A token that is accepted was not accepted before: its nonce would still be remembered. -/
theorem Inv.not_mem_of_returned {token : Token} {claims : Claims} (h : Inv tr s)
    (hclock : s.clock ≤ now) (hreturned : s.returned (.verifyState now token) = some claims)
    (hnonce : claims.nonce ≠ none) : claims ∉ acceptedStates tr := by
  intro hmem
  obtain ⟨rfl, hexp, hnew⟩ := verifyState_eq_some.mp hreturned
  have hvalid : now < claims.exp * 1000 := by omega
  rw [(h.spent claims hmem hnonce).not_redeem hclock hvalid] at hnew
  cases hnew

theorem Inv.verifyState {token : Token} (h : Inv tr s) (hclock : s.clock ≤ now)
    (hunforged : s.Unforged (.verifyState now token)) :
    Inv (tr ++ [(s, .verifyState now token)]) (s.after (.verifyState now token)) := by
  -- what was accepted before stays spent
  have hkept : ∀ claims ∈ acceptedStates tr, claims.nonce ≠ none →
      ReplayCache.Spent now claims.nonce (claims.exp * 1000)
        (Aestival.verifyState now s.consumedNonces token).2 := by
    intro claims hclaims hnonce
    rcases verifyState_consumed now s.consumedNonces token with heq | ⟨key, heq⟩
    · rw [heq]
      exact (h.spent claims hclaims hnonce).mono hclock
    · rw [heq]
      exact (h.spent claims hclaims hnonce).redeem hclock
  have hsoon : ∀ claims ∈ s.minted, claims.exp * 1000 ≤ now + 600000 := fun claims hclaims =>
    (h.soon claims hclaims).trans (Nat.add_le_add_right hclock _)
  cases hreturned : s.returned (.verifyState now token) with
  | none =>
    have haccepted : acceptedStates (tr ++ [(s, .verifyState now token)]) = acceptedStates tr := by
      rw [acceptedStates_append, hreturned]
      exact List.append_nil _
    exact ⟨h.nonces, hsoon, haccepted ▸ hkept, haccepted ▸ h.once⟩
  | some claims =>
    have haccepted : acceptedStates (tr ++ [(s, .verifyState now token)]) =
        acceptedStates tr ++ [claims] := by
      rw [acceptedStates_append, hreturned]
      rfl
    obtain ⟨htoken, -, -⟩ := verifyState_eq_some.mp hreturned
    refine ⟨h.nonces, hsoon, ?_, ?_⟩
    · rw [haccepted]
      intro other hother hnonce
      rcases List.mem_append.mp hother with hother | hother
      · exact hkept other hother hnonce
      · obtain rfl := List.mem_singleton.mp hother
        exact spent_of_verifyState hreturned (hsoon other (hunforged other htoken hnonce))
    · rw [haccepted]
      intro other hnonce
      rw [List.count_append]
      -- a state that is accepted now was not accepted before
      by_cases heq : other = claims
      · subst heq
        rw [List.count_eq_zero.mpr (h.not_mem_of_returned hclock hreturned hnonce), Nat.zero_add]
        exact List.count_le_length (l := [other])
      · rw [List.count_eq_zero.mpr fun hmem => heq (List.mem_singleton.mp hmem)]
        exact h.once other hnonce

theorem Inv.of_run (h : stateTokens.Run tr s) : Inv tr s := by
  induction h with
  | @start s hinit =>
    obtain rfl : s = {} := hinit
    exact ⟨fun _ h => absurd h List.not_mem_nil, fun _ h => absurd h List.not_mem_nil,
      fun _ h => absurd h List.not_mem_nil, fun _ _ => Nat.zero_le _⟩
  | @step tr s _ call _ hstep ih =>
    obtain ⟨hclock, hunforged, rfl⟩ := hstep
    cases call with
    | generateState now params nonce => exact ih.generateState hclock
    | verifyState now token => exact ih.verifyState hclock hunforged

end StateTokens

/-- **An OAuth state is accepted at most once.** -/
theorem verifyState_accepts_once {tr : List (StateTokens × StateCall)} {s : StateTokens}
    {claims : Claims} (h : stateTokens.Run tr s) (hclaims : claims ∈ s.minted) :
    (acceptedStates tr).count claims ≤ 1 :=
  have hinv := StateTokens.Inv.of_run h
  hinv.once claims (hinv.nonces claims hclaims)

/-- A state is presented again after nine minutes, and after it has expired. -/
def replayedState : List StateCall :=
  let params : StateParams := ⟨.qq, js "/", js "login", none⟩
  let token := generateState 1500 params (js "n")
  [.generateState 1500 params (js "n"), .verifyState 2000 token, .verifyState 542000 token,
    .verifyState 602001 token]

/-- The states the calls are made in. -/
def callStates (s : StateTokens) : List StateCall → List (StateTokens × StateCall)
  | [] => []
  | call :: rest => (s, call) :: callStates (s.after call) rest

theorem verifyState_accepts_once_replayed :
    (acceptedStates (callStates {} replayedState)).length = 1 ∧
      (acceptedStates (callStates {} replayedState)).count
        (stateClaims 1500 ⟨.qq, js "/", js "login", none⟩ (js "n")) ≤ 1 := by
  have hstart : stateTokens.Run [] {} := .start rfl
  have h₁ := hstart.step (e := replayedState[0]) ⟨Nat.zero_le _, trivial, rfl⟩
  have hpresented : ∀ claims, generateState 1500 ⟨.qq, js "/", js "login", none⟩ (js "n") =
      .signed claims → claims.nonce ≠ none →
      claims ∈ (StateTokens.after {} replayedState[0]).minted := by
    rintro claims ⟨⟩ -
    exact List.mem_singleton_self _
  have h₂ := h₁.step (e := replayedState[1]) ⟨by decide, hpresented, rfl⟩
  have h₃ := h₂.step (e := replayedState[2]) ⟨by decide, hpresented, rfl⟩
  have h₄ := h₃.step (e := replayedState[3]) ⟨by decide, hpresented, rfl⟩
  exact ⟨by decide, verifyState_accepts_once h₄ (List.mem_singleton_self _)⟩

end Aestival
