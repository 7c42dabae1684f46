import Aestival.Web.Credentials

/-!
# Accounts

`accounts.ts`: which user an OAuth profile belongs to, and how accounts are linked, merged and
unlinked. A user that is `null` in the source is `none`.
-/

namespace Aestival

/-- `OAuthProfile`. -/
structure OAuthProfile where
  provider : Provider
  providerUserId : JsString
  providerUsername : JsString := []
  avatarUrl : JsString := []
  accessToken : JsString := []
  refreshToken : Option JsString := none
  tokenExpiresAt : Option JsString := none
  deriving DecidableEq, Repr

def OAuthProfile.identity (p : OAuthProfile) : Identity := (p.provider, p.providerUserId)

/-- The owner of an identity that someone else wants to link. -/
structure Conflict where
  existingUser : UserRow
  existingOAuth : OAuthRow
  deriving DecidableEq, Repr

/-- `FindOrCreateResult`. -/
structure FindOrCreateResult where
  user : Option UserRow
  isNew : Bool
  conflict : Option Conflict := none
  deriving DecidableEq, Repr

/-- A value that is neither `undefined` nor empty. -/
def truthy (s : Option JsString) : Option JsString := s.filter fun t => t ≠ []

/-! ### Helpers -/

/-- The loop of `uniqueUsername`. It runs out of its bound only when all names it has tried are
taken. -/
def uniqueSuffix (base : JsString) : (rounds counter : Nat) → SqlM JsString
  | 0, _ => .throw .typeError
  | rounds + 1, counter => do
    let candidate := base ++ js "-" ++ JsString.ofNat counter
    let taken : Option UserRow ← sql (.selectUsername candidate)
    if taken.isSome then uniqueSuffix base rounds (counter + 1) else pure candidate

/-- `uniqueUsername`. -/
def uniqueUsername (rounds : Nat) (base : JsString) : SqlM JsString := do
  let existing : Option UserRow ← sql (.selectUsername base)
  if existing.isSome then uniqueSuffix base rounds 2 else pure base

/-- `getUserById`. -/
def getUserById (userId : JsString) : SqlM (Option UserRow) := sql (.selectUser userId)

/-- `getLinkedAccounts`. -/
def getLinkedAccounts (userId : JsString) : SqlM (List OAuthRow) := sql (.selectLinked userId)

/-- The row `findOrCreateUser` inserts for a profile. -/
def OAuthProfile.row (p : OAuthProfile) (draws : Draws) (userId : JsString) : OAuthRow where
  id := draws.accountId
  userId := userId
  provider := p.provider
  providerUserId := p.providerUserId
  providerUsername := p.providerUsername
  accessToken := p.accessToken
  refreshToken := p.refreshToken.getD []
  tokenExpiresAt := truthy p.tokenExpiresAt
  createdAt := draws.datetime

/-- What `findOrCreateUser` updates of an account that exists. -/
def OAuthProfile.tokens (p : OAuthProfile) : AuthDb.AccountTokens where
  accessToken := p.accessToken
  refreshToken := p.refreshToken.getD []
  tokenExpiresAt := truthy p.tokenExpiresAt
  providerUsername := p.providerUsername

/-! ### Find or create -/

/-- The avatar of the owner, updated when the profile has a new one. -/
def refreshAvatar (profile : OAuthProfile) (user : UserRow) : SqlM UserRow :=
  if profile.avatarUrl ≠ [] ∧ user.avatarUrl ≠ profile.avatarUrl then do
    sql (.updateAvatar profile.avatarUrl user.id)
    pure { user with avatarUrl := profile.avatarUrl }
  else pure user

/-- The account exists. -/
def useAccount (profile : OAuthProfile) (mode currentUserId : Option JsString) (oa : OAuthRow)
    (owner : UserRow) : SqlM FindOrCreateResult := do
  sql (.updateTokens profile.tokens oa.id)
  let user ← refreshAvatar profile owner
  match truthy currentUserId with
  | some current =>
    if mode = some (js "link") ∧ oa.userId ≠ current then do
      let currentUser ← getUserById current
      pure { user := currentUser, isNew := false, conflict := some ⟨user, oa⟩ }
    else pure { user := some user, isNew := false }
  | none => pure { user := some user, isNew := false }

/-- The account does not exist, and a session is to be established: a new user is created. -/
def createUser (draws : Draws) (profile : OAuthProfile) : SqlM FindOrCreateResult := do
  let username ← uniqueUsername draws.rounds
    (profile.providerUsername.orElse (profile.provider.name ++ js "_user"))
  sql (.insertUser
    { id := draws.userId, username, avatarUrl := profile.avatarUrl, createdAt := draws.datetime })
  sql (.insertAccount (profile.row draws draws.userId))
  pure
    { user := some
        { id := draws.userId, username, avatarUrl := profile.avatarUrl, createdAt := draws.isoDate }
      isNew := true }

/-- The account does not exist, and is to be added to a user. -/
def attachAccount (draws : Draws) (profile : OAuthProfile) (currentUserId : Option JsString) :
    SqlM FindOrCreateResult :=
  match truthy currentUserId with
  | none => .throw (.error (js "currentUserId is required for link mode"))
  | some current => do
    sql (.insertAccount (profile.row draws current))
    let user ← getUserById current
    pure { user, isNew := false }

/-- `findOrCreateUser`. -/
def findOrCreateUser (draws : Draws) (profile : OAuthProfile)
    (mode currentUserId : Option JsString) :
    SqlM FindOrCreateResult := do
  let oauthRow : Option (OAuthRow × UserRow) ← sql (.selectOwner profile.identity)
  match oauthRow with
  | some (oa, owner) => useAccount profile mode currentUserId oa owner
  | none =>
    if mode = some (js "login") then createUser draws profile
    else attachAccount draws profile currentUserId

/-! ### Merge and unlink -/

/-- The key of an account in `targetKeys`. -/
def OAuthRow.key (a : OAuthRow) : JsString := a.provider.name ++ js ":" ++ a.providerUserId

/-- The loop of `mergeAccounts` over the accounts of the source. -/
def moveAccounts (targetUserId : JsString) : List OAuthRow → (targetKeys : List JsString) →
    SqlM Unit
  | [], _ => pure ()
  | oa :: rest, targetKeys =>
    if oa.key ∈ targetKeys then do
      sql (.deleteAccount oa.id)
      moveAccounts targetUserId rest targetKeys
    else do
      sql (.updateOwner targetUserId oa.id)
      moveAccounts targetUserId rest (oa.key :: targetKeys)

/-- The transaction of `mergeAccounts`. -/
def migrateAll (targetUserId sourceUserId : JsString) (target source : UserRow) : SqlM Unit := do
  let sourceOAuths : List OAuthRow ← sql (.selectAccounts sourceUserId)
  let targetOAuths : List OAuthRow ← sql (.selectAccounts targetUserId)
  moveAccounts targetUserId sourceOAuths (targetOAuths.map OAuthRow.key)
  if source.avatarUrl ≠ [] ∧ target.avatarUrl = [] then
    sql (.updateAvatar source.avatarUrl targetUserId)
  else pure ()
  sql (.deleteUser sourceUserId)

/-- `mergeAccounts`. -/
def mergeAccounts (targetUserId sourceUserId : JsString) : SqlM (Option UserRow) := do
  if targetUserId = sourceUserId then .throw (.error (js "Cannot merge an account into itself"))
  else do
    let target ← getUserById targetUserId
    let source ← getUserById sourceUserId
    match target, source with
    | none, _ => .throw (.error (js "Target user not found"))
    | some _, none => .throw (.error (js "Source user not found"))
    | some target, some source => do
      transaction (migrateAll targetUserId sourceUserId target source)
      getUserById targetUserId

/-- `unlinkAccount`. -/
def unlinkAccount (userId provider : JsString) : SqlM Unit := do
  let linked ← getLinkedAccounts userId
  let credExists ← hasPassword userId
  let remainingAfterUnlink : Int := linked.length - 1
  if remainingAfterUnlink = 0 ∧ credExists = false then
    .throw (.error (js "Cannot unlink the only login method. Add another platform or set a password first."))
  else
    match linked.find? fun a => a.provider.name = provider with
    | none => .throw (.error (js "No " ++ provider ++ js " account linked to this user"))
    | some target => sql (.deleteAccount target.id)

end Aestival
