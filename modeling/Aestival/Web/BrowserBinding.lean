import Aestival.Web.BackendSteps

/-!
# Whose callback takes effect

A state token should tie a callback to the browser that has started the flow. `verifyState` looks at
the signature, the expiry and the nonce, and nothing of the request that brings the token is
compared with it, so any browser that gets hold of a state can use it.

* `callbacks_own_iff`: in which runs every callback that takes effect comes from the browser its
  state was issued to.
* `callback_from_other_browser`: a browser uses the state of another one, and gets a session.
-/

namespace Aestival

namespace Backend

/-- No other browser was sent this state. -/
def IssuedOnlyTo (s : Backend) (claims : Claims) (browser : Browser) : Prop :=
  ∀ m ∈ s.minted, m.kind = .state → m.claims = claims → m.holder = some browser

/-- The callback with this state is accepted: its handler goes to the provider. -/
def Accepts (cfg : BackendConfig) (s : Backend) (e : WebEvent) (browser : Browser)
    (claims : Claims) :
    Prop :=
  ∃ provider, (s.react cfg e).2.pending = .oauth browser provider claims :: s.pending

/-- The handler of an accepted callback ends, with a session or with an identity that is linked. -/
def Completes (e : WebEvent) (browser : Browser) (claims : Claims) : Prop :=
  ∃ now draws provider outcome, e = .resume now draws (.oauth browser provider claims) outcome

/-- Whatever takes effect here, comes from the browser its state was issued to. -/
def OwnCallback (cfg : BackendConfig) (s : Backend) (e : WebEvent) : Prop :=
  ∀ browser claims, s.Accepts cfg e browser claims ∨ Completes e browser claims →
    s.IssuedOnlyTo claims browser

/-- The state has expired, or its nonce was consumed. -/
def Lapsed (s : Backend) (now : Nat) (claims : Claims) : Prop :=
  claims.exp ≤ now / 1000 ∨ claims.nonce ∈ (ReplayCache.purge now s.consumedNonces).map Prod.fst

/-- A callback with a code is sent by the browser its state was issued to, or comes too late. -/
def SentByOwner (s : Backend) (e : WebEvent) : Prop :=
  ∀ browser now cookie nonce request claims, e = .request browser now cookie nonce request →
    request.callback = some (.signed claims) → s.Lapsed now claims ∨ s.IssuedOnlyTo claims browser

theorem not_lapsed_iff {s : Backend} {now : Nat} {claims : Claims} :
    ¬ s.Lapsed now claims ↔ (verifyState now s.consumedNonces (.signed claims)).1 =
      some claims := by
  rw [verifyState_eq_some, Lapsed, not_or, Nat.not_le]
  unfold ReplayCache.redeem
  split
  · next h => exact iff_of_false (fun hn => hn.2 h) (fun hn => Bool.false_ne_true hn.2.2)
  · next h => exact ⟨fun hn => ⟨rfl, hn.1, rfl⟩, fun hn => ⟨hn.2.1, h⟩⟩

/-- **A callback with a code is accepted** whoever sends it, unless it comes too late. -/
theorem accepts_of_callback (cfg : BackendConfig) {s : Backend} {browser : Browser} {now : Nat}
    {cookie : Option Token} {nonce : JsString} {request : WebRequest} {claims : Claims}
    (hcallback : request.callback = some (.signed claims)) (hlapsed : ¬ s.Lapsed now claims) :
    s.Accepts cfg (.request browser now cookie nonce request) browser claims := by
  have hverify := not_lapsed_iff.mp hlapsed
  cases request with
  -- both callbacks redeem the state before anything else
  | githubToken code state =>
    obtain ⟨code', hcode, hstate⟩ := Option.bind_eq_some_iff.mp hcallback
    refine ⟨.github, ?_⟩
    show (s.githubToken browser now code state).2.pending = _
    unfold githubToken
    rw [hcode, hstate]
    dsimp only
    split
    · next stateData consumedNonces heq =>
      rw [heq] at hverify
      cases hverify
      rfl
    · next heq =>
      rw [heq] at hverify
      cases hverify
  | qqCallback code state =>
    obtain ⟨code', hcode, hstate⟩ := Option.bind_eq_some_iff.mp hcallback
    refine ⟨.qq, ?_⟩
    show (s.qqCallback browser now code state).2.pending = _
    unfold qqCallback
    rw [hcode, hstate]
    dsimp only
    split
    · next heq =>
      rw [heq] at hverify
      cases hverify
    · next hnone => cases hnone
    · next stateData consumedNonces _ heq _ =>
      rw [heq] at hverify
      cases hverify
      rfl
  | _ => cases hcallback

/-! ### The invariant -/

/-- Every handler that has gone to a provider was started by the browser of its state. -/
structure OwnInv (s : Backend) : Prop where
  own : ∀ browser provider claims, Pending.oauth browser provider claims ∈ s.pending →
    s.IssuedOnlyTo claims browser
  minted : ∀ browser provider claims, Pending.oauth browser provider claims ∈ s.pending →
    ∃ m ∈ s.minted, m.claims = claims

variable {cfg : BackendConfig} {s s' : Backend} {e : WebEvent}

/-- A payload that was signed before is not issued again: new states have new nonces. -/
theorem Change.issuedOnlyTo (h : Change s e s') (hallowed : e.Allowed s) {claims : Claims}
    {browser : Browser} (hminted : ∃ m ∈ s.minted, m.claims = claims)
    (hissued : s.IssuedOnlyTo claims browser) : s'.IssuedOnlyTo claims browser := by
  intro m hm hkind hclaims
  rcases h.minted_cases hm with hm | hsigned
  · exact hissued m hm hkind hclaims
  cases hsigned with
  | session => cases hkind
  | bot => cases hkind
  | state he =>
    -- the new state would have the nonce of an old one
    subst he
    obtain ⟨old, hold, holdClaims⟩ := hminted
    refine absurd ?_ (hallowed.2.2 old hold)
    rw [holdClaims, ← hclaims]
    rfl

/-- A handler that waits for a provider was waiting before, or has accepted a callback. -/
theorem Change.oauth_cases (h : Change s e s') {browser : Browser} {provider : Provider}
    {claims : Claims} (hp : .oauth browser provider claims ∈ s'.pending) :
    .oauth browser provider claims ∈ s.pending ∨
      ∃ now cookie nonce request, e = .request browser now cookie nonce request ∧
        request.callback = some (.signed claims) ∧ ¬ s.Lapsed now claims := by
  rcases h.pending _ hp with hp | horigin
  · exact Or.inl hp
  cases horigin with
  | @oauth _ now cookie nonce request _ token _ he hcallback haccepted =>
    obtain ⟨rfl, -, -⟩ := verifyState_eq_some.mp haccepted
    exact Or.inr ⟨now, cookie, nonce, request, he, hcallback, not_lapsed_iff.mpr haccepted⟩

/-- What is accepted in a step that meets the condition. -/
theorem OwnInv.of_mem (h : OwnInv s) (hallowed : e.Allowed s) (hsent : s.SentByOwner e)
    (hchange : Change s e s') {browser : Browser} {provider : Provider} {claims : Claims}
    (hp : .oauth browser provider claims ∈ s'.pending) :
    s.IssuedOnlyTo claims browser ∧ ∃ m ∈ s.minted, m.claims = claims := by
  rcases hchange.oauth_cases hp with hp | ⟨now, cookie, nonce, request, rfl, hcallback, hlapsed⟩
  · exact ⟨h.own _ _ _ hp, h.minted _ _ _ hp⟩
  · refine ⟨(hsent _ _ _ _ _ _ rfl hcallback).resolve_left hlapsed, ?_⟩
    exact hallowed.2.1 claims (state_of_callback hcallback)

theorem OwnInv.step (h : OwnInv s) (hallowed : e.Allowed s) (hsent : s.SentByOwner e)
    (hchange : Change s e s') : OwnInv s' where
  own browser provider claims hp := by
    obtain ⟨hissued, hminted⟩ := h.of_mem hallowed hsent hchange hp
    exact hchange.issuedOnlyTo hallowed hminted hissued
  minted browser provider claims hp := by
    obtain ⟨-, m, hm, hclaims⟩ := h.of_mem hallowed hsent hchange hp
    exact ⟨m, hchange.mem_minted hm, hclaims⟩

/-- A step that meets the condition lets only own callbacks take effect. -/
theorem OwnInv.ownCallback (h : OwnInv s) (hallowed : e.Allowed s) (hsent : s.SentByOwner e) :
    s.OwnCallback cfg e := by
  rintro browser claims (⟨provider, haccepts⟩ | ⟨now, draws, provider, outcome, rfl⟩)
  · have hp : .oauth browser provider claims ∈ (s.react cfg e).2.pending :=
      haccepts ▸ List.mem_cons_self
    exact (h.of_mem hallowed hsent (change_react cfg hallowed) hp).1
  · exact h.own _ _ _ hallowed.1

end Backend

open Backend

/-- **A callback takes effect only in the browser that has started the flow**, in exactly the runs
in which every callback with a code is sent by the browser its state was issued to, or comes too
late to be accepted. -/
theorem callbacks_own_iff {cfg : BackendConfig} {tr : List (Backend × WebEvent)} {s : Backend}
    (h : (backend cfg).Run tr s) :
    (∀ p ∈ tr, p.1.OwnCallback cfg p.2) ↔ ∀ p ∈ tr, p.1.SentByOwner p.2 := by
  constructor
  -- a callback that is accepted takes effect, so it has to be an own one
  · rintro hown ⟨t, e⟩ hp browser now cookie nonce request claims rfl hcallback
    by_cases hlapsed : t.Lapsed now claims
    · exact Or.inl hlapsed
    · exact Or.inr (hown _ hp browser claims (Or.inl (accepts_of_callback cfg hcallback hlapsed)))
  · intro hsent
    -- the invariant holds in front of every step, since the steps before it meet the condition
    suffices hinv : OwnInv s ∧ ∀ p ∈ tr, p.1.OwnCallback cfg p.2 from hinv.2
    induction h with
    | start hinit =>
      refine ⟨?_, fun p hp => absurd hp List.not_mem_nil⟩
      rw [show _ = ({} : Backend) from hinit]
      exact ⟨fun _ _ _ hp => absurd hp List.not_mem_nil, fun _ _ _ hp => absurd hp List.not_mem_nil⟩
    | @step tr s _ e _ hstep ih =>
      obtain ⟨hallowed, rfl⟩ := hstep
      have hlast := hsent _ (List.mem_append_right _ (List.mem_singleton_self _))
      obtain ⟨hinv, hown⟩ := ih fun p hp => hsent p (List.mem_append_left _ hp)
      refine ⟨hinv.step hallowed hlast (change_react cfg hallowed), fun p hp => ?_⟩
      rcases List.mem_append.mp hp with hp | hp
      · exact hown p hp
      · obtain rfl := List.mem_singleton.mp hp
        exact hinv.ownCallback hallowed hlast

/-! ### The state of another browser -/

/-- A callback with the state that browser 0 was sent. -/
def callbackFrom (browser : Browser) : WebEvent :=
  .request browser 2000 none (js "m") (.githubToken (some (js "c")) (some (.signed configState)))

theorem callbackFrom_run (browser : Browser) :
    (backend githubConfigured).Run
      (Backend.play githubConfigured {} [configRequest, callbackFrom browser]).1
      (afterConfig.react githubConfigured (callbackFrom browser)).2 :=
  run_of_events [configRequest, callbackFrom browser]
    ⟨by decide, (by decide : (callbackFrom 0).Allowed afterConfig), trivial⟩

theorem callbackFrom_accepts (browser : Browser) :
    afterConfig.Accepts githubConfigured (callbackFrom browser) browser configState := by
  refine accepts_of_callback githubConfigured (by decide) ?_
  rw [not_lapsed_iff]
  decide

theorem callbacks_own_first :
    (backend githubConfigured).Reachable (afterConfig.react githubConfigured (callbackFrom 0)).2 ∧
      afterConfig.OwnCallback githubConfigured (callbackFrom 0) := by
  refine ⟨(callbackFrom_run 0).reachable, (callbacks_own_iff (callbackFrom_run 0)).mpr ?_ _
    (List.mem_cons_of_mem _ (List.mem_singleton_self _))⟩
  intro p hp browser now cookie nonce request claims he hcallback
  rcases List.mem_cons.mp hp with rfl | hp
  · cases he
    cases hcallback
  · obtain rfl := List.mem_singleton.mp hp
    cases he
    right
    intro m hm _ _
    have hm : m ∈ afterConfig.minted := hm
    rw [afterConfig_minted] at hm
    rw [List.mem_singleton.mp hm]

/-- The answer to browser 1 when the provider has answered. -/
def foreignAnswer : Option Reply :=
  ((afterConfig.react githubConfigured (callbackFrom 1)).2.react githubConfigured
    (.resume 3000 { userId := js "u", accountId := js "a" } (.oauth 1 .github configState)
      { answer := .ok { provider := .github, providerUserId := js "42",
                        providerUsername := js "eve" } })).1

/-- **A callback with the state of browser 0 is accepted from browser 1**, which gets a session. -/
theorem callback_from_other_browser :
    (backend githubConfigured).Reachable (afterConfig.react githubConfigured (callbackFrom 1)).2 ∧
      ¬ afterConfig.OwnCallback githubConfigured (callbackFrom 1) ∧
      foreignAnswer.map Reply.cookie =
        some (.set (signSession 3000 { id := js "u", username := js "eve" })) := by
  refine ⟨(callbackFrom_run 1).reachable, fun hown => ?_, by decide⟩
  have hissued := hown 1 configState (Or.inl (callbackFrom_accepts 1)) ⟨.state, configState, some 0⟩
    (afterConfig_minted ▸ List.mem_singleton_self _) rfl rfl
  cases hissued

end Aestival
