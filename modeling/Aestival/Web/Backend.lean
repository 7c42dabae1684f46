import Aestival.Library.Runs
import Aestival.Web.Tokens

/-!
# The backend

The routes of `auth.ts`, `oauth_github.ts` and `oauth_qq.ts`, and the routes of `proxy.ts` as far as
they ask for a token. The backend runs one piece of code at a time: a handler runs to its end, or to
the point where it waits for a hash of a password or for a provider (`Pending`), and whatever
happens in between changes the state that it finds when it goes on.

`Backend.minted` records every payload that was signed, what for, and which browser was sent it. No
handler reads it.

A text in a request that is missing is `none`. Texts that the library of the provider or of the
database gives are not modelled: `Body.thrown` stands for the message of what was thrown.
-/

namespace Aestival

/-- `config`, as far as it is read here. -/
structure BackendConfig where
  adminUsers : List JsString := []
  registrationOpen : Bool := true
  githubClientId : JsString := []
  githubRedirectUri : JsString := []
  qqAppId : JsString := []
  qqRedirectUri : JsString := []
  deriving DecidableEq, Repr

abbrev Browser := Nat

inductive TokenKind where
  | session
  | bot
  | state
  deriving DecidableEq, Repr

/-- A payload that was signed. The tokens for the bot are sent to no browser. -/
structure Minted where
  kind : TokenKind
  claims : Claims
  holder : Option Browser
  deriving DecidableEq, Repr

/-- A handler that waits. -/
inductive Pending where
  | register (browser : Browser) (username : JsString)
  | login (browser : Browser) (row : Option (UserRow × CredentialRow))
  | setPassword (browser : Browser) (sub : Option JsString)
  | oauth (browser : Browser) (provider : Provider) (stateData : Claims)
  | ensureAdminPassword (user : Option UserRow)
  deriving DecidableEq, Repr

structure Backend where
  db : AuthDb := .empty
  consumedNonces : ConsumedNonces := []
  botTokenCache : BotTokenCache := []
  pending : List Pending := []
  minted : List Minted := []

/-- How a provider fails: without a token, without a user, or with an exception. -/
inductive ProviderError where
  | exchange
  | user
  | exception
  deriving DecidableEq, Repr

/-- What a handler has waited for. -/
structure Outcome where
  hash : JsString := []
  valid : Bool := false
  answer : Except ProviderError OAuthProfile := .error .exception

namespace Backend

/-- A handler has ended with an answer, or it waits. -/
abbrev Handled := Option Reply × Backend

/-- Answer, and leave the state as it is. -/
def answer (s : Backend) (status : Nat) (body : Body) : Handled := (some { status, body }, s)

/-- Wait. -/
def wait (s : Backend) (p : Pending) : Handled := (none, { s with pending := p :: s.pending })

/-- Answer with a new session. -/
def signIn (s : Backend) (browser : Browser) (now : Nat) (user : UserRow) (status : Nat)
    (body : Body) : Handled :=
  (some { status, body, cookie := .set (signSession now user) },
    { s with minted := ⟨.session, sessionClaims now user, some browser⟩ :: s.minted })

/-- Answer with a new OAuth state. -/
def signState (s : Backend) (browser : Browser) (now : Nat) (params : StateParams)
    (nonce : JsString)
    (status : Nat) (body : Token → Body) : Handled :=
  (some { status, body := body (generateState now params nonce) },
    { s with minted := ⟨.state, stateClaims now params nonce, some browser⟩ :: s.minted })

/-! ### Passwords -/

/-- `POST /api/ui/auth/register`, up to the hash. -/
def register (cfg : BackendConfig) (s : Backend) (browser : Browser)
    (username password : Option JsString) : Handled :=
  if cfg.registrationOpen = false then s.answer 403 (.error (js "注册已关闭"))
  else
    match validateUsername username, validatePassword password with
    | some nameErr, _ => s.answer 400 (.error nameErr)
    | none, some passErr => s.answer 400 (.error passErr)
    | none, none => s.wait (.register browser (username.getD []))

/-- `POST /api/ui/auth/register`, behind the hash. -/
def registered (s : Backend) (browser : Browser) (now : Nat) (draws : Draws)
    (username hash : JsString) : Handled :=
  match (registerWithPassword draws username hash).call s.db with
  | (.ok (some user), db) => signIn { s with db } browser now user 201 (.signedIn user)
  | (.error (.error message), db) =>
    if message = js "用户名已被占用" then answer { s with db } 409 (.error message)
    else answer { s with db } 500 (.error (js "注册失败，请稍后重试"))
  | (_, db) => answer { s with db } 500 (.error (js "注册失败，请稍后重试"))

/-- `POST /api/ui/auth/login`, up to the comparison of the password. -/
def login (s : Backend) (browser : Browser) (username password : Option JsString) : Handled :=
  match truthy username, truthy password with
  | some username, some _ =>
    match ((loginRow username).call s.db).1 with
    | .ok row => s.wait (.login browser row)
    | .error _ => s.answer 500 (.error (js "登录失败，请稍后重试"))
  | _, _ => s.answer 400 (.error (js "用户名和密码不能为空"))

/-- `POST /api/ui/auth/login`, behind the comparison. -/
def loggedIn (s : Backend) (browser : Browser) (now : Nat) (row : Option (UserRow × CredentialRow))
    (valid : Bool) : Handled :=
  match loginResult row valid with
  | none => s.answer 401 (.error (js "用户名或密码错误"))
  | some user => s.signIn browser now user 200 (.signedIn user)

/-- `POST /api/ui/auth/set-password`, up to the hash. -/
def setPassword (s : Backend) (browser : Browser) (now : Nat) (cookie : Option Token)
    (password : Option JsString) : Handled :=
  match requireAuth now cookie with
  | .error reply => (some reply, s)
  | .ok user =>
    match validatePassword password with
    | some passErr => s.answer 400 (.error passErr)
    | none => s.wait (.setPassword browser user.sub)

/-- `POST /api/ui/auth/set-password`, behind the hash. A session without `sub` writes a row of no
user, which no query finds; it is left out. -/
def passwordSet (s : Backend) (draws : Draws) (sub : Option JsString) (hash : JsString) : Handled :=
  match sub with
  | none => s.answer 200 .success
  | some sub =>
    match (Aestival.setPassword draws sub hash).call s.db with
    | (.ok _, db) => answer { s with db } 200 .success
    | (.error _, db) => answer { s with db } 500 (.error (js "设置密码失败，请稍后重试"))

/-- `ensureAdminPassword` behind the hash, when the server has started. -/
def adminPasswordSet (s : Backend) (draws : Draws) (user : Option UserRow) (hash : JsString) :
    Handled :=
  (none, { s with db := ((ensureAdminPassword draws user hash).call s.db).2 })

/-! ### Accounts -/

/-- `POST /api/ui/auth/merge`. -/
def merge (s : Backend) (browser : Browser) (now : Nat) (cookie : Option Token)
    (targetUserId sourceUserId : Option JsString) : Handled :=
  match requireAuth now cookie with
  | .error reply => (some reply, s)
  | .ok user =>
    match truthy targetUserId, truthy sourceUserId with
    | some target, some source =>
      -- only the target is compared with the user of the session
      if some target ≠ user.sub then
        s.answer 403 (.error (js "can only merge into your own account"))
      else
        match (mergeAccounts target source).call s.db with
        | (.ok (some merged), db) => signIn { s with db } browser now merged 200 (.merged merged)
        | (.ok none, db) => answer { s with db } 400 (.thrown .typeError)
        | (.error err, db) => answer { s with db } 400 (.thrown err)
    | _, _ => s.answer 400 (.error (js "targetUserId and sourceUserId are required"))

/-- `POST /api/ui/auth/unlink`. Without `sub` no account is found. -/
def unlink (s : Backend) (browser : Browser) (now : Nat) (cookie : Option Token)
    (provider : Option JsString) : Handled :=
  match requireAuth now cookie with
  | .error reply => (some reply, s)
  | .ok user =>
    match provider.filter fun p => p = js "github" ∨ p = js "qq", user.sub with
    | none, _ => s.answer 400 (.error (js "valid provider is required"))
    -- a token without a user has no accounts
    | some provider, none =>
      s.answer 400 (.thrown (.error (js "No " ++ provider ++ js " account linked to this user")))
    | some provider, some sub =>
      match (unlinkAccount sub provider).call s.db with
      | (.error err, db) => answer { s with db } 400 (.thrown err)
      | (.ok _, db) =>
        match db.findUser sub with
        -- the token is issued anew, with what is left
        | some updatedUser =>
          signIn { s with db } browser now updatedUser 200 (.unlinked provider)
        | none => answer { s with db } 200 (.unlinked provider)

/-! ### OAuth -/

/-- `mode`, as the entry points read it. -/
def oauthMode (mode : Option JsString) : JsString :=
  if mode = some (js "link") then js "link" else js "login"

/-- The parameters of the state that both entry points of GitHub sign. -/
def githubStateParams (redirect mode : Option JsString) : StateParams where
  provider := .github
  redirect := (redirect.getD []).orElse (js "/")
  mode := oauthMode mode

/-- `GET /api/ui/auth/github/config`. -/
def githubConfig (cfg : BackendConfig) (s : Backend) (browser : Browser) (now : Nat)
    (nonce : JsString) (redirect mode : Option JsString) : Handled :=
  if cfg.githubClientId = [] then s.answer 500 (.error (js "GitHub OAuth is not configured"))
  else
    s.signState browser now (githubStateParams redirect mode) nonce 200
      (.oauthConfig cfg.githubClientId cfg.githubRedirectUri)

/-- `GET /api/ui/auth/github`. -/
def github (cfg : BackendConfig) (s : Backend) (browser : Browser) (now : Nat)
    (nonce : JsString) (redirect mode : Option JsString) : Handled :=
  if cfg.githubClientId = [] then s.answer 500 (.error (js "GitHub OAuth is not configured"))
  else
    s.signState browser now (githubStateParams redirect mode) nonce 302
      (.authorize .github cfg.githubClientId cfg.githubRedirectUri)

/-- The parameters of the state that the entry point of QQ signs. To link, there must be a session,
whose user goes into the state. -/
def qqStateParams (now : Nat) (cookie : Option Token) (redirect mode : Option JsString) :
    StateParams :=
  let params : StateParams :=
    { provider := .qq, redirect := (redirect.getD []).orElse (js "/"), mode := oauthMode mode }
  if params.mode = js "link" then
    match cookie.bind fun token => token.verify now with
    | some payload => { params with userId := payload.sub }
    | none => { params with mode := js "login" }
  else params

/-- `GET /api/ui/auth/qq`. -/
def qq (cfg : BackendConfig) (s : Backend) (browser : Browser) (now : Nat) (cookie : Option Token)
    (nonce : JsString) (redirect mode : Option JsString) : Handled :=
  if cfg.qqAppId = [] then s.answer 500 (.error (js "QQ OAuth is not configured"))
  else
    s.signState browser now (qqStateParams now cookie redirect mode) nonce 302
      (.authorize .qq cfg.qqAppId cfg.qqRedirectUri)

/-- A token that is missing or empty is falsy. -/
def truthyToken (token : Option Token) : Option Token := token.filter fun t => t ≠ .other []

/-- `POST /api/ui/auth/github/token`, up to the exchange of the code. -/
def githubToken (s : Backend) (browser : Browser) (now : Nat) (code : Option JsString)
    (state : Option Token) : Handled :=
  match truthy code, truthyToken state with
  | some _, some state =>
    match verifyState now s.consumedNonces state with
    | (some stateData, consumedNonces) =>
      wait { s with consumedNonces } (.oauth browser .github stateData)
    | (none, consumedNonces) =>
      answer { s with consumedNonces } 400 (.error (js "invalid or expired state token"))
  | _, _ => s.answer 400 (.error (js "code and state are required"))

/-- `GET /api/ui/auth/qq/callback`, up to the exchange of the code. -/
def qqCallback (s : Backend) (browser : Browser) (now : Nat) (code : Option JsString)
    (state : Option Token) : Handled :=
  match truthyToken state with
  | none => s.answer 302 (.callback [(js "error", js "invalid_state")])
  | some state =>
    -- the state is used up even if there is no code
    match verifyState now s.consumedNonces state, truthy code with
    | (none, consumedNonces), _ =>
      answer { s with consumedNonces } 302 (.callback [(js "error", js "invalid_state")])
    | (some _, consumedNonces), none =>
      answer { s with consumedNonces } 302
        (.callback [(js "error", js "no_code"), (js "provider", js "qq")])
    | (some stateData, consumedNonces), some _ =>
      -- the provider is asked next
      wait { s with consumedNonces } (.oauth browser .qq stateData)

/-- What the routes answer when the provider or the code behind it fails. -/
def oauthFailure (s : Backend) (provider : Provider) (err : ProviderError) : Handled :=
  match provider, err with
  | .github, .exchange => s.answer 502 (.error (js "github returned no access_token"))
  | .github, _ => s.answer 502 (.error (js "OAuth 认证失败，请稍后重试"))
  | .qq, .exchange =>
    s.answer 302 (.callback [(js "error", js "token_exchange"), (js "provider", js "qq")])
  | .qq, .user => s.answer 302 (.callback [(js "error", js "user_fetch"), (js "provider", js "qq")])
  | .qq, .exception =>
    s.answer 302 (.callback [(js "error", js "server_error"), (js "provider", js "qq")])

/-- What is answered when the identity has another owner. -/
def conflictBody (provider : Provider) (target source : UserRow) : Nat × Body :=
  match provider with
  | .github => (200, .conflict target source)
  | .qq => (302, .callback
    [(js "error", js "conflict"), (js "provider", js "qq"), (js "targetUserId", target.id),
      (js "targetUsername", target.username), (js "sourceUserId", source.id),
      (js "sourceUsername", source.username)])

/-- What is answered with the new session. -/
def completedBody (provider : Provider) (stateData : Claims) (user : UserRow) (isNew : Bool) :
    Nat × Body :=
  let redirect := (stateData.redirect.getD []).orElse (js "/")
  match provider with
  | .github => (200, .completed user isNew redirect)
  | .qq => (302, .callback [(js "login", js "success"), (js "redirect", redirect)])

/-- `handleOAuthProfile`. What it throws is caught by the route. -/
def handleOAuthProfile (s : Backend) (browser : Browser) (now : Nat) (draws : Draws)
    (profile : OAuthProfile) (stateData : Claims) : Handled :=
  match (findOrCreateUser draws profile stateData.mode stateData.userId).call s.db with
  | (.error _, db) => oauthFailure { s with db } profile.provider .exception
  | (.ok { user := none, .. }, db) => oauthFailure { s with db } profile.provider .exception
  | (.ok { user := some user, conflict := some conflict, .. }, db) =>
    let (status, body) := conflictBody profile.provider user conflict.existingUser
    answer { s with db } status body
  | (.ok { user := some user, isNew, conflict := none }, db) =>
    let (status, body) := completedBody profile.provider stateData user isNew
    signIn { s with db } browser now user status body

/-- The end of both callbacks. The profile is one of the provider that was asked. -/
def oauthAnswered (s : Backend) (browser : Browser) (now : Nat) (draws : Draws)
    (provider : Provider)
    (stateData : Claims) (answer : Except ProviderError OAuthProfile) : Handled :=
  match answer with
  | .error err => s.oauthFailure provider err
  | .ok profile => s.handleOAuthProfile browser now draws { profile with provider } stateData

/-! ### Calls of the bot -/

/-- `userToken`. The token goes to the bot. One from the cache is recorded once more. -/
def userToken (s : Backend) (now : Nat) (user : Option Claims) : Backend :=
  let name := userTokenName user
  let (token, botTokenCache) := getBotToken now s.botTokenCache name
  match token with
  | .signed claims => { s with botTokenCache, minted := ⟨.bot, claims, none⟩ :: s.minted }
  | .other _ => { s with botTokenCache }

/-- A route behind `requireAuth` and `requireAdmin`, up to the call of the bot. -/
def adminRoute (cfg : BackendConfig) (s : Backend) (now : Nat) (cookie : Option Token) : Handled :=
  match requireAuth now cookie with
  | .error reply => (some reply, s)
  | .ok user =>
    match requireAdmin cfg.adminUsers (some user) with
    | .error reply => (some reply, s)
    | .ok _ => (none, s.userToken now (some user))

/-- The routes of the plugins, up to the call of the bot. -/
def pluginRoute (s : Backend) (now : Nat) : Handled := (none, s.userToken now none)

end Backend

/-! ### Events -/

/-- The requests. -/
inductive WebRequest where
  | register (username password : Option JsString)
  | login (username password : Option JsString)
  | setPassword (password : Option JsString)
  | merge (targetUserId sourceUserId : Option JsString)
  | unlink (provider : Option JsString)
  | githubConfig (redirect mode : Option JsString)
  | github (redirect mode : Option JsString)
  | qq (redirect mode : Option JsString)
  | githubToken (code : Option JsString) (state : Option Token)
  | qqCallback (code : Option JsString) (state : Option Token)
  | admin
  | plugins

/-- A piece of code that runs. -/
inductive WebEvent where
  | listen (adminUser : JsString)
  | request (browser : Browser) (now : Nat) (cookie : Option Token) (nonce : JsString)
    (request : WebRequest)
  | resume (now : Nat) (draws : Draws) (waiting : Pending) (outcome : Outcome)

namespace Backend

/-- A request comes in. -/
def handle (cfg : BackendConfig) (s : Backend) (browser : Browser) (now : Nat)
    (cookie : Option Token) (nonce : JsString) : WebRequest → Handled
  | .register username password => s.register cfg browser username password
  | .login username password => s.login browser username password
  | .setPassword password => s.setPassword browser now cookie password
  | .merge targetUserId sourceUserId => s.merge browser now cookie targetUserId sourceUserId
  | .unlink provider => s.unlink browser now cookie provider
  | .githubConfig redirect mode => s.githubConfig cfg browser now nonce redirect mode
  | .github redirect mode => s.github cfg browser now nonce redirect mode
  | .qq redirect mode => s.qq cfg browser now cookie nonce redirect mode
  | .githubToken code state => s.githubToken browser now code state
  | .qqCallback code state => s.qqCallback browser now code state
  | .admin => s.adminRoute cfg now cookie
  | .plugins => s.pluginRoute now

/-- A handler goes on. -/
def resume (s : Backend) (now : Nat) (draws : Draws) (outcome : Outcome) : Pending → Handled
  | .register browser username => s.registered browser now draws username outcome.hash
  | .login browser row => s.loggedIn browser now row outcome.valid
  | .setPassword _ sub => s.passwordSet draws sub outcome.hash
  | .oauth browser provider stateData =>
    s.oauthAnswered browser now draws provider stateData outcome.answer
  | .ensureAdminPassword user => s.adminPasswordSet draws user outcome.hash

/-- What happens. When the server starts, the administrator is looked up. -/
def react (cfg : BackendConfig) (s : Backend) : WebEvent → Handled
  | .listen adminUser => s.wait (.ensureAdminPassword (s.db.findUsername adminUser))
  | .request browser now cookie nonce request => s.handle cfg browser now cookie nonce request
  | .resume now draws waiting outcome =>
    resume { s with pending := s.pending.erase waiting } now draws outcome waiting

/-! ### The system -/

end Backend

/-- The state token of a request. -/
def WebRequest.state : WebRequest → Option Token
  | .githubToken _ state => state
  | .qqCallback _ state => state
  | _ => none

/-- The state of a callback that has a code as well. -/
def WebRequest.callback : WebRequest → Option Token
  | .githubToken code state | .qqCallback code state =>
    (truthy code).bind fun _ => Backend.truthyToken state
  | _ => none

/-- Signatures are not forged: what is signed was signed by the backend. -/
def Backend.Presentable (s : Backend) (token : Option Token) : Prop :=
  ∀ claims, token = some (.signed claims) → ∃ m ∈ s.minted, m.claims = claims

instance (s : Backend) (token : Option Token) : Decidable (s.Presentable token) :=
  match token with
  | some (.signed claims) =>
    decidable_of_iff (∃ m ∈ s.minted, m.claims = claims)
      ⟨fun h _ heq => Jwt.signed.inj (Option.some.inj heq) ▸ h, fun h => h claims rfl⟩
  | some (.other _) => .isTrue fun _ h => by cases h
  | none => .isTrue fun _ h => by cases h

/-- What the surroundings keep to. Tokens are not forged, and the nonces and the ids of accounts
that are drawn are new. -/
def WebEvent.Allowed (s : Backend) : WebEvent → Prop
  | .listen _ => True
  | .request _ _ cookie nonce r =>
    s.Presentable cookie ∧ s.Presentable r.state ∧ ∀ m ∈ s.minted, m.claims.nonce ≠ some nonce
  | .resume _ draws waiting _ =>
    waiting ∈ s.pending ∧ draws.accountId ∉ s.db.accounts.map OAuthRow.id

instance (s : Backend) (e : WebEvent) : Decidable (e.Allowed s) :=
  match e with
  | .listen _ => .isTrue trivial
  | .request .. => inferInstanceAs (Decidable (_ ∧ _ ∧ _))
  | .resume .. => inferInstanceAs (Decidable (_ ∧ _))

/-- The backend, with any requests from any browsers at any times. -/
def backend (cfg : BackendConfig) : TransitionSystem Backend WebEvent where
  init s := s = {}
  step s e s' := e.Allowed s ∧ s' = (s.react cfg e).2

/-! ### Given events -/

namespace Backend

/-- The history and the end of a run with these events. -/
def play (cfg : BackendConfig) (s : Backend) : List WebEvent → List (Backend × WebEvent) × Backend
  | [] => ([], s)
  | e :: rest =>
    let (tr, s') := play cfg (s.react cfg e).2 rest
    ((s, e) :: tr, s')

/-- The events may happen one after the other. -/
def AllAllowed (cfg : BackendConfig) (s : Backend) : List WebEvent → Prop
  | [] => True
  | e :: rest => e.Allowed s ∧ AllAllowed cfg (s.react cfg e).2 rest

instance (cfg : BackendConfig) : (s : Backend) → (events : List WebEvent) →
    Decidable (AllAllowed cfg s events)
  | _, [] => .isTrue trivial
  | s, e :: rest =>
    have := instDecidableAllAllowed cfg (s.react cfg e).2 rest
    inferInstanceAs (Decidable (_ ∧ _))

theorem run_play {cfg : BackendConfig} {events : List WebEvent} :
    ∀ {tr : List (Backend × WebEvent)} {s : Backend}, (backend cfg).Run tr s →
      AllAllowed cfg s events → (backend cfg).Run (tr ++ (play cfg s events).1)
        (play cfg s events).2 := by
  induction events with
  | nil =>
    intro tr s h _
    rw [play, List.append_nil]
    exact h
  | cons e rest ih =>
    intro tr s h hall
    have hrest := ih (h.step ⟨hall.1, rfl⟩) hall.2
    rw [List.append_assoc] at hrest
    exact hrest

/-- A run from the start. -/
theorem run_of_events {cfg : BackendConfig} (events : List WebEvent)
    (h : AllAllowed cfg {} events) : (backend cfg).Run (play cfg {} events).1
    (play cfg {} events).2 :=
  run_play (.start rfl) h

end Backend

def githubConfigured : BackendConfig := { githubClientId := js "id" }

/-- The state that `GET /api/ui/auth/github/config` hands out. -/
def configState : Claims := stateClaims 1000 ⟨.github, js "/", js "login", none⟩ (js "n")

def configRequest : WebEvent := .request 0 1000 none (js "n") (.githubConfig none none)

/-- The backend, when this is all that has happened. -/
def afterConfig : Backend := (Backend.react githubConfigured {} configRequest).2

theorem afterConfig_minted : afterConfig.minted = [⟨.state, configState, some 0⟩] := by decide

end Aestival
