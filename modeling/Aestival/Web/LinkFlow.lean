import Aestival.Web.BackendSteps

/-!
# Linking another provider

A user who is logged in starts the flow with `mode=link`, and the state carries the mode and the id
of the user through the provider to `handleOAuthProfile`. The entry point of QQ puts the id into the
state. The two entry points of GitHub leave it out, so the end of the flow does not know who has
started it: a new identity is refused, and an identity with an owner logs the browser in as this
owner.

* `link_keeps_account_iff`: when the flow ends as it should (`LinkOutcome`).
* `link_switches_account`: a link of a GitHub identity ends in the session of somebody else.
-/

namespace Aestival

/-- Where a flow starts. -/
inductive EntryPoint where
  | githubConfig
  | github
  | qq
  deriving DecidableEq, Repr

def EntryPoint.provider : EntryPoint → Provider
  | .githubConfig => .github
  | .github => .github
  | .qq => .qq

/-- The request that starts the flow with `mode=link`. -/
def EntryPoint.link (redirect : Option JsString) : EntryPoint → WebRequest
  | .githubConfig => .githubConfig redirect (some (js "link"))
  | .github => .github redirect (some (js "link"))
  | .qq => .qq redirect (some (js "link"))

namespace Backend

/-- How the flow of the user should end: the identity is linked to the user, who gets a new session;
or the present owner of the identity is named, and nobody gets a session. -/
def LinkOutcome (user : JsString) (provider : Provider) (providerUserId : JsString) (s : Backend)
    (handled : Handled) : Prop :=
  (handled.2.db.logins.owner (provider, providerUserId) = some user ∧
      ∃ now row reply, row.id = user ∧ handled.1 = some reply ∧
        reply.cookie = .set (signSession now row)) ∨
    ∃ target source, target.id = user ∧ source.id ≠ user ∧
      s.db.logins.owner (provider, providerUserId) = some source.id ∧
      handled.1 = some
        { status := (conflictBody provider target source).1
          body := (conflictBody provider target source).2 } ∧
      handled.2.minted = s.minted

/-! ### The state -/

variable {cfg : BackendConfig} {start s : Backend} {browser : Browser} {now : Nat}
  {cookie : Option Token} {claims stateData : Claims} {nonce : JsString}
  {redirect : Option JsString}

/-- **The state of the flow** carries the mode, and the user only when the provider is QQ. -/
theorem link_state {entry : EntryPoint} (hauth : requireAuth now cookie = .ok claims)
    (hstate : (start.react cfg (.request browser now cookie nonce (entry.link redirect))).2.minted =
      ⟨.state, stateData, some browser⟩ :: start.minted) :
    stateData.mode = some (js "link") ∧
      stateData.userId = if entry.provider = .qq then claims.sub else none := by
  -- a provider that is not configured signs nothing
  have hnone : ∀ {m : Minted}, start.minted ≠ m :: start.minted := (List.cons_ne_self _ _).symm
  cases entry with
  | githubConfig =>
    change (start.githubConfig cfg browser now nonce redirect _).2.minted = _ at hstate
    unfold githubConfig at hstate
    split at hstate
    · exact absurd hstate hnone
    · cases hstate
      exact ⟨rfl, rfl⟩
  | github =>
    change (start.github cfg browser now nonce redirect _).2.minted = _ at hstate
    unfold github at hstate
    split at hstate
    · exact absurd hstate hnone
    · cases hstate
      exact ⟨rfl, rfl⟩
  | qq =>
    change (start.qq cfg browser now cookie nonce redirect _).2.minted = _ at hstate
    unfold qq at hstate
    split at hstate
    · exact absurd hstate hnone
    · obtain ⟨rfl, hexp⟩ := requireAuth_eq_ok.mp hauth
      have hverify : Jwt.verify now (.signed claims) = some claims :=
        Jwt.verify_eq_some.mpr ⟨rfl, hexp⟩
      -- only this entry point puts the user of the session into the state
      have hparams : qqStateParams now (some (.signed claims)) redirect (some (js "link")) =
          ⟨.qq, (redirect.getD []).orElse (js "/"), js "link", claims.sub⟩ := by
        have hmode : oauthMode (some (js "link")) = js "link" := if_pos rfl
        unfold qqStateParams
        dsimp only
        rw [if_pos hmode, Option.bind_some, hverify, hmode]
      rw [hparams] at hstate
      cases hstate
      exact ⟨rfl, rfl⟩

/-! ### The end of the flow -/

/-- A failure signs nothing, and is no conflict. -/
theorem not_linkOutcome_oauthFailure {user providerUserId : JsString} {provider : Provider}
    (hfree : s.db.logins.owner (provider, providerUserId) = none) {err : ProviderError} :
    ¬ LinkOutcome user provider providerUserId s (s.oauthFailure provider err) := by
  rintro (⟨howner, -⟩ | ⟨_, source, -, -, howner, -⟩)
  · rw [oauthFailure_eq, hfree] at howner
    cases howner
  · rw [hfree] at howner
    cases howner

/-- The identity is the user's now, and the session is the user's. -/
theorem linkOutcome_signIn {user providerUserId : JsString} {provider : Provider} {db : AuthDb}
    {row : UserRow} {status : Nat} {body : Body} (hrow : row.id = user)
    (howner : db.logins.owner (provider, providerUserId) = some user) :
    LinkOutcome user provider providerUserId s
      (Backend.signIn { s with db } browser now row status body) :=
  Or.inl ⟨howner, now, row, _, hrow, rfl, rfl⟩

end Backend

open Backend

/-- **The link flow keeps the account** in exactly these cases: the provider is QQ, or the identity
already belongs to the user. It is started with a session of the user, and it ends in any state of
the tables in which the user is there. -/
theorem link_keeps_account_iff {cfg : BackendConfig} (entry : EntryPoint) {start s : Backend}
    {browser browser' : Browser} {now later : Nat} {cookie : Option Token}
    {claims stateData : Claims}
    {nonce user : JsString} {redirect : Option JsString} {draws : Draws} {profile : OAuthProfile}
    (hauth : requireAuth now cookie = .ok claims) (hsub : claims.sub = some user)
    (huuid : user ≠ [])
    (hstate : (start.react cfg (.request browser now cookie nonce (entry.link redirect))).2.minted =
      ⟨.state, stateData, some browser⟩ :: start.minted)
    (huser : user ∈ s.db.users.map UserRow.id)
    (haccount : draws.accountId ∉ s.db.accounts.map OAuthRow.id) :
    LinkOutcome user entry.provider profile.providerUserId s
        (s.oauthAnswered browser' later draws entry.provider stateData (.ok profile)) ↔
      entry.provider = .qq ∨
        s.db.logins.owner (entry.provider, profile.providerUserId) = some user := by
  obtain ⟨hmode, huserId⟩ := link_state hauth hstate
  have h := findOrCreateUser_resolved { profile with provider := entry.provider } stateData.mode
    stateData.userId haccount
  rw [hmode, huserId, hsub] at h
  unfold oauthAnswered
  dsimp only
  unfold handleOAuthProfile
  rw [hmode, huserId, hsub]
  generalize (findOrCreateUser draws { profile with provider := entry.provider } (some (js "link"))
    (if entry.provider = .qq then some user else none)).call s.db = result at h ⊢
  obtain ⟨r, db⟩ := result
  dsimp only at h
  -- with the user in the state the flow links or reports a conflict; without, it cannot know the
  -- user
  by_cases hqq : entry.provider = .qq
  · rw [if_pos hqq] at h
    have hcurrent : truthy (some user) = some user := truthy_eq_some.mpr ⟨rfl, huuid⟩
    refine iff_of_true ?_ (Or.inl hqq)
    cases h with
    | owned howner hlink hsame hnamed =>
      have hid := hlink rfl user hcurrent
      refine linkOutcome_signIn hid ?_
      rw [hsame.logins]
      exact hid ▸ howner
    | @conflict _ owner oa current howner _ hcur hne hsame =>
      obtain rfl : user = current := Option.some.inj (hcurrent.symm.trans hcur)
      have hthere : user ∈ db.logins.users := by
        rw [hsame.logins]
        exact huser
      obtain ⟨row, hrow, hid⟩ := List.mem_map.mp hthere
      rw [AuthDb.findUser_eq_some.mpr ⟨hrow, hid⟩]
      exact Or.inr ⟨row, owner, hid, hne, howner, rfl, rfl⟩
    -- a link creates no user
    | created hlogin => exact absurd hlogin (by decide)
    | @attached _ row current _ hcur happlied hid hrow =>
      obtain rfl : user = current := Option.some.inj (hcurrent.symm.trans hcur)
      refine linkOutcome_signIn hid ?_
      cases happlied.step with
      | attach _ _ _ howner =>
        rw [howner]
        exact Function.update_self ..
    | failed hfree hlink => exact absurd huser (hlink (by decide) user hcurrent)
  · rw [if_neg hqq] at h
    cases h with
    | @owned _ row howner hlink hsame hnamed =>
      constructor
      · rintro (⟨hlinked, -⟩ | ⟨target, source, -, -, -, hreply, -⟩)
        · have hlinked : db.logins.owner (entry.provider, profile.providerUserId) = some user :=
            hlinked
          rw [hsame.logins] at hlinked
          exact Or.inr hlinked
        · -- the session of the owner is no report of a conflict
          cases congrArg (Option.map Reply.cookie) hreply
      · rintro (hprovider | hlinked)
        · exact absurd hprovider hqq
        · have hid : row.id = user := Option.some.inj (howner.symm.trans hlinked)
          exact linkOutcome_signIn hid (hsame.logins ▸ hlinked)
    -- no user is known, so there is neither a conflict nor somebody to attach the identity to
    | conflict _ _ hcur => cases hcur
    | created hlogin => exact absurd hlogin (by decide)
    | attached _ hcur => cases hcur
    | failed hfree hlink =>
      refine iff_of_false (not_linkOutcome_oauthFailure hfree) ?_
      rintro (hprovider | hlinked)
      · exact hqq hprovider
      · cases hfree.symm.trans hlinked

/-! ### A link that logs in as somebody else -/

/-- Browser 0 registers, and browser 1 logs in with an account at GitHub. Then browser 0 asks for
the configuration of GitHub, to link the account. -/
def linkAtGithub : List WebEvent :=
  [.request 0 0 none (js "1") (.register (some (js "bob")) (some (js "password"))),
    .resume 500 { userId := js "u1", accountId := js "a" } (.register 0 (js "bob")) {},
    configRequest,
    .request 1 2000 none (js "2") (.githubToken (some (js "c")) (some (.signed configState))),
    .resume 3000 { userId := js "u2", accountId := js "a" } (.oauth 1 .github configState)
      { answer := .ok { provider := .github, providerUserId := js "42",
                        providerUsername := js "ann" } }]

def beforeLink : Backend := (play githubConfigured {} linkAtGithub).2

/-- The session of browser 1. -/
def annSession : Claims := sessionClaims 3000 { id := js "u2", username := js "ann" }

/-- The state that a browser gets. It says nothing of the user. -/
def linkedState : Claims := stateClaims 4000 ⟨.github, js "/", js "link", none⟩ (js "3")

/-- The end of the flow, with an identity at GitHub. -/
def linkAnswered (providerUserId : JsString) : Handled :=
  beforeLink.oauthAnswered 0 5000 { userId := js "u3", accountId := js "b" } .github linkedState
    (.ok { provider := .github, providerUserId, providerUsername := js "bob" })

/-- The owner of the identity may link it again. -/
theorem link_keeps_account_owner :
    LinkOutcome (js "u2") .github (js "42") beforeLink (linkAnswered (js "42")) := by
  have hauth : requireAuth 4000 (some (.signed annSession)) = .ok annSession := by decide
  have hstate : (beforeLink.react githubConfigured (.request 1 4000 (some (.signed annSession))
      (js "3") (EntryPoint.githubConfig.link none))).2.minted =
        ⟨.state, linkedState, some 1⟩ :: beforeLink.minted := rfl
  exact (link_keeps_account_iff .githubConfig hauth rfl (by decide) hstate (by decide)
    (by decide)).mpr (.inr (by decide))

/-- **A link of an identity at GitHub ends in the session of its owner**, and one of a new identity
ends in an error. -/
theorem link_switches_account :
    (backend githubConfigured).Reachable beforeLink ∧
      (linkAnswered (js "42")).1.map Reply.cookie =
        some (.set (signSession 5000 { id := js "u2", username := js "ann" })) ∧
      ¬ LinkOutcome (js "u1") .github (js "42") beforeLink (linkAnswered (js "42")) ∧
      (linkAnswered (js "43")).1.map Reply.status = some 502 ∧
      ¬ LinkOutcome (js "u1") .github (js "43") beforeLink (linkAnswered (js "43")) := by
  have hsession : (linkAnswered (js "42")).1.map Reply.cookie =
      some (.set (signSession 5000 { id := js "u2", username := js "ann" })) := by decide
  have hfailed : (linkAnswered (js "43")).1.map Reply.status = some 502 := by decide
  refine ⟨(run_of_events linkAtGithub (by decide)).reachable, hsession, ?_, hfailed, ?_⟩
  · rintro (⟨howner, -⟩ | ⟨_, _, -, -, -, hreply, -⟩)
    · exact absurd howner (by decide)
    · rw [hreply] at hsession
      cases hsession
  · rintro (⟨howner, -⟩ | ⟨_, source, -, -, howner, -⟩)
    · exact absurd howner (by decide)
    · have hfree : beforeLink.db.logins.owner (.github, js "43") = none := by decide
      cases hfree.symm.trans howner

end Aestival
