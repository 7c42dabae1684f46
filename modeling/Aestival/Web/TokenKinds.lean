import Aestival.Web.BackendSteps

/-!
# Which tokens are accepted where

All tokens are signed with one secret and verified by one call, and neither `requireAuth` nor
`verifyState` looks at the claims that tell the kinds apart. So `requireAuth` accepts a token for
the bot or an OAuth state as a session, and `verifyState` accepts a session or a token for the bot
as a state. A state is handed out by `GET /api/ui/auth/github/config`, to anyone.

* `KindInv`: the claims of each kind, in every state of the backend. No payload has two kinds.
* `tokens_kept_apart_iff`: when the two verifications accept only their own kind.
* `state_accepted_as_session`: a state from the configuration of GitHub passes as a session.
-/

namespace Aestival

/-- The claims of each kind. -/
def TokenKind.Shapes : TokenKind → Claims → Prop
  | .session, claims => ∃ now user, claims = sessionClaims now user
  | .bot, claims => ∃ now name, claims = botClaims now name
  | .state, claims => ∃ now params nonce, claims = stateClaims now params nonce

/-- The name and the nonce give the kind away. -/
theorem TokenKind.Shapes.username {kind : TokenKind} {claims : Claims} (h : kind.Shapes claims) :
    claims.username.isSome = decide (kind = .session) := by
  cases kind with
  | session =>
    obtain ⟨now, user, rfl⟩ := h
    rfl
  | bot =>
    obtain ⟨now, name, rfl⟩ := h
    rfl
  | state =>
    obtain ⟨now, params, nonce, rfl⟩ := h
    rfl

theorem TokenKind.Shapes.nonce {kind : TokenKind} {claims : Claims} (h : kind.Shapes claims) :
    claims.nonce.isSome = decide (kind = .state) := by
  cases kind with
  | session =>
    obtain ⟨now, user, rfl⟩ := h
    rfl
  | bot =>
    obtain ⟨now, name, rfl⟩ := h
    rfl
  | state =>
    obtain ⟨now, params, nonce, rfl⟩ := h
    rfl

/-- A payload has one kind. -/
theorem TokenKind.Shapes.unique {kind kind' : TokenKind} {claims : Claims} (h : kind.Shapes claims)
    (h' : kind'.Shapes claims) : kind = kind' := by
  have husername := h.username.symm.trans h'.username
  have hnonce := h.nonce.symm.trans h'.nonce
  revert husername hnonce
  cases kind <;> cases kind' <;> decide

/-! ### The invariant -/

/-- Everything that was signed has the claims of its kind. -/
structure KindInv (s : Backend) : Prop where
  minted : ∀ m ∈ s.minted, m.kind.Shapes m.claims
  cache : ∀ entry ∈ s.botTokenCache, ∃ now name, entry.2.token = .signed (botClaims now name)

variable {cfg : BackendConfig} {s s' : Backend} {e : WebEvent}

theorem KindInv.step (h : KindInv s) (hchange : Backend.Change s e s') : KindInv s' where
  minted m hm := by
    rcases hchange.minted_cases hm with hm | hsigned
    · exact h.minted m hm
    cases hsigned with
    | session => exact ⟨_, _, rfl⟩
    | state => exact ⟨_, _, _, rfl⟩
    | bot hclaims =>
      -- a token for the bot is new, or one of the cache, which only has such tokens
      rcases hclaims with ⟨now, name, rfl⟩ | ⟨entry, hentry, htoken⟩
      · exact ⟨now, name, rfl⟩
      · obtain ⟨now, name, hcached⟩ := h.cache entry hentry
        rw [htoken] at hcached
        exact ⟨now, name, Jwt.signed.inj hcached⟩
  cache entry hentry := (hchange.cache entry hentry).elim (h.cache entry) id

theorem kindInv (h : (backend cfg).Reachable s) : KindInv s := by
  obtain ⟨tr, hrun⟩ := h
  refine hrun.invariant ?_ ?_
  · rintro s rfl
    exact ⟨fun _ h => absurd h List.not_mem_nil, fun _ h => absurd h List.not_mem_nil⟩
  · rintro s e s' hs ⟨hallowed, rfl⟩
    exact hs.step (Backend.change_react cfg hallowed)

/-! ### Verification -/

namespace Backend

/-- The backend has signed the payload for this purpose. -/
def MintedAs (s : Backend) (kind : TokenKind) (claims : Claims) : Prop :=
  ∃ m ∈ s.minted, m.kind = kind ∧ m.claims = claims

/-- `requireAuth` lets this token pass only if it is an unexpired session. -/
def AuthSound (s : Backend) (now : Nat) (token : Token) : Prop :=
  ∀ claims, requireAuth now (some token) = .ok claims →
    now / 1000 < claims.exp ∧ s.MintedAs .session claims

/-- `verifyState` accepts this token only if it is an OAuth state. -/
def StateSound (s : Backend) (now : Nat) (token : Token) : Prop :=
  ∀ claims, (verifyState now s.consumedNonces token).1 = some claims → s.MintedAs .state claims

/-- An unexpired token that was signed for something else. -/
def Foreign (s : Backend) (now : Nat) (kind : TokenKind) (token : Token) : Prop :=
  ∃ claims other, token = .signed claims ∧ now / 1000 < claims.exp ∧ other ≠ kind ∧
    s.MintedAs other claims

/-- The nonce `undefined` was accepted in the last ten minutes. -/
def UndefinedConsumed (s : Backend) (now : Nat) : Prop :=
  none ∈ (ReplayCache.purge now s.consumedNonces).map Prod.fst

/-- A payload is signed for one purpose. -/
theorem MintedAs.unique (hinv : KindInv s) {kind kind' : TokenKind} {claims : Claims}
    (h : s.MintedAs kind claims) (h' : s.MintedAs kind' claims) : kind = kind' := by
  obtain ⟨m, hm, rfl, rfl⟩ := h
  obtain ⟨m', hm', rfl, hclaims⟩ := h'
  exact (hinv.minted m hm).unique (hclaims ▸ hinv.minted m' hm')

theorem authSound_iff (hinv : KindInv s) {now : Nat} {token : Token}
    (htoken : s.Presentable (some token)) :
    s.AuthSound now token ↔ ¬ s.Foreign now .session token := by
  constructor
  · rintro h ⟨claims, other, rfl, hexp, hne, hminted⟩
    -- the signature and the expiry are all that is checked, so the foreign token passes
    obtain ⟨-, hsession⟩ := h claims (requireAuth_eq_ok.mpr ⟨rfl, hexp⟩)
    exact hne (hminted.unique hinv hsession)
  · intro h claims hauth
    obtain ⟨heq, hexp⟩ := requireAuth_eq_ok.mp hauth
    obtain rfl := Option.some.inj heq
    obtain ⟨m, hm, hclaims⟩ := htoken claims rfl
    refine ⟨hexp, by_contra fun hsession => h ⟨claims, m.kind, rfl, hexp, ?_, m, hm, rfl, hclaims⟩⟩
    exact fun hkind => hsession ⟨m, hm, hkind, hclaims⟩

/-- The payloads of the other kinds have no nonce. -/
theorem nonce_eq_none (hinv : KindInv s) {kind : TokenKind} {claims : Claims}
    (h : s.MintedAs kind claims) (hne : kind ≠ .state) : claims.nonce = none := by
  obtain ⟨m, hm, rfl, rfl⟩ := h
  have hnonce := (hinv.minted m hm).nonce
  rw [decide_eq_false hne] at hnonce
  exact Option.not_isSome_iff_eq_none.mp (Bool.eq_false_iff.mp hnonce)

theorem redeem_none {now lifetime : Nat} :
    (ReplayCache.redeem now lifetime none s.consumedNonces).1 = true ↔
      ¬ s.UndefinedConsumed now := by
  unfold ReplayCache.redeem UndefinedConsumed
  split
  · next h => exact iff_of_false Bool.false_ne_true (not_not.mpr h)
  · next h => exact iff_of_true rfl h

theorem stateSound_iff (hinv : KindInv s) {now : Nat} {token : Token}
    (htoken : s.Presentable (some token)) :
    s.StateSound now token ↔ ¬ (s.Foreign now .state token ∧ ¬ s.UndefinedConsumed now) := by
  constructor
  · rintro h ⟨⟨claims, other, rfl, hexp, hne, hminted⟩, hnew⟩
    -- its nonce is `undefined`, which is redeemed as any other
    have hnonce := nonce_eq_none hinv hminted hne
    have haccepted := verifyState_eq_some.mpr ⟨rfl, hexp, hnonce ▸ redeem_none.mpr hnew⟩
    exact hne (hminted.unique hinv (h claims haccepted))
  · intro h claims haccepted
    obtain ⟨rfl, hexp, hnew⟩ := verifyState_eq_some.mp haccepted
    obtain ⟨m, hm, hclaims⟩ := htoken claims rfl
    by_contra hstate
    have hne : m.kind ≠ .state := fun hkind => hstate ⟨m, hm, hkind, hclaims⟩
    have hminted : s.MintedAs m.kind claims := ⟨m, hm, rfl, hclaims⟩
    rw [nonce_eq_none hinv hminted hne] at hnew
    exact h ⟨⟨claims, m.kind, rfl, hexp, hne, hminted⟩, redeem_none.mp hnew⟩

end Backend

/-- **Each verification accepts only its own kind** of tokens, as long as no other kind is presented
to it: in every state of the backend, at any time, and for any token. -/
theorem tokens_kept_apart_iff (h : (backend cfg).Reachable s) (now : Nat) (token : Token)
    (htoken : s.Presentable (some token)) :
    (s.AuthSound now token ↔ ¬ s.Foreign now .session token) ∧
      (s.StateSound now token ↔ ¬ (s.Foreign now .state token ∧ ¬ s.UndefinedConsumed now)) :=
  ⟨Backend.authSound_iff (kindInv h) htoken, Backend.stateSound_iff (kindInv h) htoken⟩

/-! ### A state as a session -/

theorem afterConfig_reachable : (backend githubConfigured).Reachable afterConfig :=
  (Backend.run_of_events [configRequest] (by decide)).reachable

theorem tokens_kept_apart_config :
    ¬ afterConfig.AuthSound 2000 (.signed configState) ∧
      afterConfig.StateSound 2000 (.signed configState) := by
  have h := tokens_kept_apart_iff afterConfig_reachable 2000 (.signed configState) (by decide)
  refine ⟨fun hauth => h.1.mp hauth ?_, h.2.mpr ?_⟩
  · refine ⟨configState, .state, rfl, by decide, by decide, ⟨.state, configState, some 0⟩, ?_,
      rfl, rfl⟩
    rw [afterConfig_minted]
    exact List.mem_singleton_self _
  · rintro ⟨⟨claims, other, h, -, hne, m, hm, rfl, rfl⟩, -⟩
    rw [afterConfig_minted] at hm
    obtain rfl := List.mem_singleton.mp hm
    exact hne rfl

/-- **A state from the configuration of GitHub passes as a session.** Nobody was logged in. -/
theorem state_accepted_as_session :
    (backend githubConfigured).Reachable afterConfig ∧
      afterConfig.Presentable (some (.signed configState)) ∧
      requireAuth 2000 (some (.signed configState)) = .ok configState ∧
      ¬ afterConfig.AuthSound 2000 (.signed configState) := by
  have hpass : requireAuth 2000 (some (.signed configState)) = .ok configState := by decide
  refine ⟨afterConfig_reachable, by decide, hpass, fun h => ?_⟩
  obtain ⟨-, m, hm, hkind, -⟩ := h configState hpass
  rw [afterConfig_minted] at hm
  rw [List.mem_singleton.mp hm] at hkind
  cases hkind

end Aestival
