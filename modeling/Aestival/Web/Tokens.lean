import Aestival.Library.Jwt
import Aestival.Library.ReplayCache
import Aestival.Web.Accounts

/-!
# Tokens

The three kinds of tokens that the backend signs with its one secret, and where it verifies them:
sessions and the tokens for the bot (`auth.ts`), and OAuth states (`oauth.ts`). They differ in their
claims only. A claim that is `undefined` is `none`. `now` is `Date.now()`, in milliseconds.
-/

namespace Aestival

/-- The payloads of all kinds. -/
structure Claims where
  sub : Option JsString := none
  username : Option JsString := none
  avatarUrl : Option JsString := none
  provider : Option Provider := none
  redirect : Option JsString := none
  mode : Option JsString := none
  userId : Option JsString := none
  nonce : Option JsString := none
  iat : Nat
  exp : Nat
  deriving DecidableEq, Repr

instance : Expiring Claims := ⟨Claims.exp⟩

abbrev Token := Jwt Claims

/-! ### Answers -/

/-- What an answer does to the cookie `auth_token`. -/
inductive CookieChange where
  | keep
  | set (token : Token)
  | clear
  deriving DecidableEq, Repr

/-- The bodies of the answers, and the pages they lead to. -/
inductive Body where
  | error (message : JsString)
  /-- The message of what was thrown. -/
  | thrown (err : JsError)
  | success
  | signedIn (user : UserRow)
  | merged (user : UserRow)
  | unlinked (provider : JsString)
  | completed (user : UserRow) (isNew : Bool) (redirect : JsString)
  | conflict (target source : UserRow)
  | oauthConfig (clientId redirectUri : JsString) (state : Token)
  /-- The page where the provider asks the user. -/
  | authorize (provider : Provider) (clientId redirectUri : JsString) (state : Token)
  /-- `/auth/callback`, with these parameters. -/
  | callback (params : List (JsString × JsString))
  deriving DecidableEq, Repr

structure Reply where
  status : Nat
  body : Body
  cookie : CookieChange := .keep
  deriving DecidableEq, Repr

/-! ### Sessions -/

/-- The payload of `signSession`. `expiresIn` is 24 hours. -/
def sessionClaims (now : Nat) (user : UserRow) : Claims where
  sub := some user.id
  username := some user.username
  avatarUrl := some user.avatarUrl
  iat := now / 1000
  exp := now / 1000 + 86400

/-- `signSession`. -/
def signSession (now : Nat) (user : UserRow) : Token := .signed (sessionClaims now user)

/-- `requireAuth`: the user of the request, or what is answered. An empty cookie is falsy. -/
def requireAuth (now : Nat) (cookie : Option Token) : Except Reply Claims :=
  match cookie with
  | none | some (.other []) =>
    .error { status := 401, body := .error (js "authentication required") }
  | some token =>
    match token.verify now with
    | some payload => .ok payload
    | none => .error
      { status := 401, body := .error (js "invalid or expired session"), cookie := .clear }

/-- `requireAdmin`. No name is `undefined`. -/
def requireAdmin (adminUsers : List JsString) (user : Option Claims) : Except Reply Unit :=
  match user with
  | none => .error { status := 401, body := .error (js "authentication required") }
  | some user =>
    if user.username.any fun name => name ∈ adminUsers then .ok ()
    else .error { status := 403, body := .error (js "admin access required") }

/-! ### Tokens for the bot -/

structure CachedToken where
  token : Token
  expiresAt : Nat
  deriving DecidableEq, Repr

/-- `botTokenCache`. -/
abbrev BotTokenCache := List (JsString × CachedToken)

/-- The payload of `getBotToken`, with the time in seconds. -/
def botClaims (now : Nat) (username : JsString) : Claims where
  sub := some username
  iat := now
  exp := now + 3600

/-- A token that is signed anew, and remembered. -/
def mintBotToken (now : Nat) (cache : BotTokenCache) (username : JsString) :
    Token × BotTokenCache :=
  let token : Token := .signed (botClaims now username)
  (token, (username, ⟨token, now + 3600⟩) :: cache.filter fun e => e.1 ≠ username)

/-- `getBotToken`. -/
def getBotToken (nowMs : Nat) (cache : BotTokenCache) (username : JsString) :
    Token × BotTokenCache :=
  let now := nowMs / 1000
  match cache.lookup username with
  | some cached =>
    if now < cached.expiresAt - 300 then (cached.token, cache) else mintBotToken now cache username
  | none => mintBotToken now cache username

/-- The name that `userToken` asks a token for. -/
def userTokenName (user : Option Claims) : JsString :=
  ((user.bind Claims.username).getD []).orElse (js "system")

/-! ### OAuth states -/

/-- The parameters of `generateState`. -/
structure StateParams where
  provider : Provider
  redirect : JsString
  mode : JsString
  userId : Option JsString := none
  deriving DecidableEq, Repr

/-- The payload of `generateState`. `STATE_EXPIRY` is ten minutes. -/
def stateClaims (now : Nat) (params : StateParams) (nonce : JsString) : Claims where
  provider := some params.provider
  redirect := some params.redirect
  mode := some params.mode
  userId := params.userId
  nonce := some nonce
  iat := now / 1000
  exp := now / 1000 + 600

/-- `generateState`. -/
def generateState (now : Nat) (params : StateParams) (nonce : JsString) : Token :=
  .signed (stateClaims now params nonce)

/-- `consumedNonces`. -/
abbrev ConsumedNonces := ReplayCache (Option JsString)

/-- `verifyState`. -/
def verifyState (now : Nat) (consumedNonces : ConsumedNonces) (token : Token) :
    Option Claims × ConsumedNonces :=
  match token.verify now with
  | none => (none, consumedNonces)
  | some payload =>
    match ReplayCache.redeem now (10 * 60 * 1000) payload.nonce consumedNonces with
    | (true, consumedNonces) => (some payload, consumedNonces)
    | (false, consumedNonces) => (none, consumedNonces)

/-! ### What is accepted -/

variable {now : Nat} {cookie : Option Token} {token : Token} {claims : Claims}
  {consumedNonces : ConsumedNonces}

/-- **What `requireAuth` accepts**: whatever is signed and has not expired. -/
theorem requireAuth_eq_ok :
    requireAuth now cookie = .ok claims ↔ cookie = some (.signed claims) ∧
      now / 1000 < claims.exp := by
  -- a token is verified only if it was signed and has not expired
  have hverified : ∀ token : Token, token.verify now = some claims ↔
      some token = some (.signed claims) ∧ now / 1000 < claims.exp := fun token => by
    rw [Option.some.injEq]
    exact Jwt.verify_eq_some
  unfold requireAuth
  split
  · exact iff_of_false (fun h => by cases h) (fun h => by cases h.1)
  · exact iff_of_false (fun h => by cases h) (fun h => by cases h.1)
  · next token hempty =>
    rw [← hverified]
    cases token.verify now with
    | some payload => rw [Except.ok.injEq, Option.some.injEq]
    | none => exact iff_of_false (fun h => by cases h) (fun h => by cases h)

theorem requireAdmin_eq_ok {adminUsers : List JsString} {user : Option Claims} :
    requireAdmin adminUsers user = .ok () ↔
      ∃ claims username, user = some claims ∧ claims.username = some username ∧
        username ∈ adminUsers := by
  unfold requireAdmin
  cases user with
  -- nobody is logged in
  | none =>
    refine iff_of_false (fun h => by cases h) ?_
    rintro ⟨_, _, h, -⟩
    cases h
  -- the name is that of the token, which may have none
  | some claims =>
    dsimp only
    constructor
    · intro h
      split at h
      · next hany =>
        obtain ⟨name, hname, hmem⟩ := (Option.any_eq_true ..).mp hany
        exact ⟨claims, name, rfl, hname, of_decide_eq_true hmem⟩
      · cases h
    · rintro ⟨_, name, ⟨⟩, hname, hmem⟩
      rw [hname, Option.any_some, if_pos (decide_eq_true hmem)]

/-- **What `verifyState` accepts**: whatever is signed, has not expired, and has a nonce that is not
remembered. It does not look at the kind of the token, nor at who sends it. -/
theorem verifyState_eq_some :
    (verifyState now consumedNonces token).1 = some claims ↔
      token = .signed claims ∧ now / 1000 < claims.exp ∧
        (ReplayCache.redeem now (10 * 60 * 1000) claims.nonce consumedNonces).1 = true := by
  rw [← and_assoc]
  show _ ↔ (token = .signed claims ∧ now / 1000 < Expiring.exp claims) ∧ _
  rw [← Jwt.verify_eq_some]
  unfold verifyState
  -- the signature and the time first, then the nonce
  cases hv : token.verify now with
  | none => exact iff_of_false (fun h => by cases h) (fun h => by cases h.1)
  | some payload =>
    dsimp only
    split
    · next hredeem =>
      constructor
      · rintro ⟨⟩
        exact ⟨rfl, congrArg Prod.fst hredeem⟩
      · exact And.left
    · next hredeem =>
      refine iff_of_false (fun h => by cases h) ?_
      rintro ⟨⟨⟩, h⟩
      rw [hredeem] at h
      cases h

/-- The nonces behind `verifyState`: those behind the look at the nonce of the token, if it got so
far. -/
theorem verifyState_consumed (now : Nat) (consumedNonces : ConsumedNonces) (token : Token) :
    (verifyState now consumedNonces token).2 = consumedNonces ∨
      ∃ key, (verifyState now consumedNonces token).2 =
        (ReplayCache.redeem now (10 * 60 * 1000) key consumedNonces).2 := by
  unfold verifyState
  cases token.verify now with
  | none => exact Or.inl rfl
  | some payload =>
    refine Or.inr ⟨payload.nonce, ?_⟩
    dsimp only
    split
    · next hredeem => rw [hredeem]
    · next hredeem => rw [hredeem]

/-- A token that is accepted is spent, if it does not expire later than its nonce is forgotten. -/
theorem spent_of_verifyState (h : (verifyState now consumedNonces token).1 = some claims)
    (hsoon : claims.exp * 1000 ≤ now + 10 * 60 * 1000) :
    ReplayCache.Spent now claims.nonce (claims.exp * 1000)
      (verifyState now consumedNonces token).2 := by
  obtain ⟨htoken, hexp, hnew⟩ := verifyState_eq_some.mp h
  have hverify : token.verify now = some claims := Jwt.verify_eq_some.mpr ⟨htoken, hexp⟩
  -- the nonce is in the cache, until the state expires
  have hspent := ReplayCache.spent_of_redeem hnew hsoon
  unfold verifyState
  rw [hverify]
  dsimp only
  split
  · next hredeem => rwa [hredeem] at hspent
  · next hredeem =>
    rw [hredeem] at hnew
    cases hnew

end Aestival
