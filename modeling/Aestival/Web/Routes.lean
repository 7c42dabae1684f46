import Aestival.Library.Express
import Aestival.Library.Json
import Aestival.Web.Backend

/-!
# The routes

`index.ts` and `proxy.ts`: the layers of the backend in the order in which they are registered. The
routes of `auth.ts`, `oauth_github.ts` and `oauth_qq.ts` do what `Backend` says. Those of `proxy.ts`
are modelled up to the call of the bot (`BotCall`); what the bot answers is passed on.

`Visit.authPassed` and `Visit.adminPassed` record that a guard has called `next`, and `Visit.calls`
records the calls of the bot. No handler reads them. Answers that come from elsewhere (files, logs,
conversations, the account of the session) are left out.
-/

namespace Aestival

open Express

/-- The errors that reach the error handler. -/
inductive LayerError where
  | param
  | body
  | file
  deriving DecidableEq, Repr

structure WebConfig extends BackendConfig where
  corsOrigin : JsString := js "http://localhost:5173"
  /-- What `express.static` does with a path. -/
  serveStatic : JsString → Verdict LayerError := fun _ => .next

/-- A parameter of the query. -/
inductive QueryValue where
  | text (text : JsString)
  /-- An array or an object, and what `String` makes of it. Nothing if it throws. -/
  | other (string : Option JsString)
  deriving DecidableEq, Repr

/-- The value of a field of a body. -/
inductive BodyValue where
  | text (text : JsString)
  /-- A number, a truth value, `null`, an array or an object: whether it is truthy, and what is read
  back when it has been written. Nothing if that is refused. -/
  | other (truthy : Bool) (json : Option Json)
  deriving Repr

def BodyValue.isTruthy : BodyValue → Bool
  | .text t => t ≠ []
  | .other truthy _ => truthy

/-- A body. `express.json` takes objects and arrays. -/
inductive RequestBody where
  | object (fields : List (JsString × BodyValue))
  | array (json : Option Json)
  deriving Repr

structure HttpRequest where
  method : Method
  /-- The path of the URL, if it has one. -/
  pathname : Option JsString
  /-- `req.ip`, or what stands for it. -/
  ip : JsString := []
  browser : Browser := 0
  now : Nat := 0
  /-- The cookie `auth_token`. -/
  cookie : Option Token := none
  query : List (JsString × QueryValue) := []
  /-- What `express.json` makes of the body. Nothing if it calls `next` with an error. -/
  body : Option RequestBody := some (.object [])
  /-- The text `state`, of the body or of the query. -/
  state : Option Token := none
  /-- The nonce that is drawn, if a state is signed. -/
  nonce : JsString := []
  deriving Repr

namespace HttpRequest

/-- A field of the body. An array has none of those that are asked for. -/
def field (req : HttpRequest) (name : String) : Option BodyValue :=
  match req.body with
  | some (.object fields) => fields.lookup (js name)
  | _ => none

/-- A field that is a text. -/
def text (req : HttpRequest) (name : String) : Option JsString :=
  match req.field name with
  | some (.text text) => some text
  | _ => none

/-- A field is there, and truthy. -/
def has (req : HttpRequest) (name : String) : Bool := (req.field name).any BodyValue.isTruthy

def queryText (req : HttpRequest) (name : String) : Option JsString :=
  match req.query.lookup (js name) with
  | some (.text text) => some text
  | _ => none

end HttpRequest

/-! ### Rate limits -/

structure HitCount where
  count : Nat
  resetAt : Nat
  deriving DecidableEq, Repr

/-- `hits`, of one limiter. -/
abbrev Hits := List (JsString × HitCount)

/-- The entry that is counted up. -/
def currentEntry (windowMs now : Nat) (key : JsString) (hits : Hits) : HitCount :=
  match hits.lookup key with
  | some entry => if now > entry.resetAt then ⟨0, now + windowMs⟩ else entry
  | none => ⟨0, now + windowMs⟩

/-- The handler of `rateLimit`: whether the request passes, and what is remembered. -/
def Hits.rateLimit (maxRequests windowMs now : Nat) (key : JsString) (hits : Hits) : Bool × Hits :=
  let entry := currentEntry windowMs now key hits
  let entry := { entry with count := entry.count + 1 }
  (decide (entry.count ≤ maxRequests), (key, entry) :: hits.filter fun e => e.1 ≠ key)

/-! ### Visits -/

/-- What the process remembers between requests. -/
structure WebServer where
  backend : Backend := {}
  loginHits : Hits := []
  registerHits : Hits := []

/-- A call of `proxyToBot`. -/
structure BotCall where
  method : Method
  path : JsString
  body : Option RequestBody
  token : Token
  deriving Repr

/-- There is a header `Authorization`. -/
def BotCall.CarriesToken (call : BotCall) : Prop := call.token ≠ .other []

instance (call : BotCall) : Decidable call.CarriesToken := inferInstanceAs (Decidable (_ ≠ _))

/-- A request on its way through the layers. -/
structure Visit where
  server : WebServer
  /-- `req.user`. -/
  user : Option Claims := none
  reply : Option Reply := none
  authPassed : Bool := false
  adminPassed : Bool := false
  calls : List BotCall := []

abbrev WebHandler := Handler Visit LayerError
abbrev WebLayer := Layer Visit LayerError

namespace Visit

def answer (v : Visit) (status : Nat) (body : Body) : Visit × Verdict LayerError :=
  ({ v with reply := some { status, body } }, .done)

/-- A route that is modelled in `Backend`. -/
def handle (v : Visit) (f : Backend → Backend.Handled) : Visit × Verdict LayerError :=
  let (reply, backend) := f v.server.backend
  ({ v with reply, server := { v.server with backend } }, .done)

/-- `proxyToBot`, up to the call. -/
def proxyToBot (v : Visit) (method : Method) (path : JsString) (body : Option RequestBody)
    (token : Token) : Visit :=
  { v with calls := ⟨method, path, if method ≠ .get then body else none, token⟩ :: v.calls }

/-- `internalError`. -/
def internalError (v : Visit) : Visit × Verdict LayerError :=
  v.answer 502 (.error (js "Bot API 无响应，请稍后重试"))

/-- `await proxyToBot(method, path, body, userToken(req))`, in its `try`. The path is nothing if it
throws. -/
def askBot (v : Visit) (now : Nat) (method : Method) (path : Option JsString)
    (body : Option RequestBody) : Visit × Verdict LayerError :=
  match path with
  | none => v.internalError
  | some path =>
    let token := (getBotToken now v.server.backend.botTokenCache (userTokenName v.user)).1
    let server := { v.server with backend := v.server.backend.userToken now v.user }
    (proxyToBot { v with server } method path body token, .done)

end Visit

/-- A route whose answer comes from elsewhere. -/
def elsewhere : WebHandler := fun _ v => (v, .done)

/-! ### Guards -/

/-- `requireAuth`, as a handler. -/
def authGuard (req : HttpRequest) : WebHandler := fun _ v =>
  match requireAuth req.now req.cookie with
  | .error reply => ({ v with reply := some reply }, .done)
  | .ok user => ({ v with user := some user, authPassed := true }, .next)

/-- `requireAdmin`, as a handler. -/
def adminGuard (cfg : WebConfig) : WebHandler := fun _ v =>
  match requireAdmin cfg.adminUsers v.user with
  | .error reply => ({ v with reply := some reply }, .done)
  | .ok _ => ({ v with adminPassed := true }, .next)

/-- `rateLimit(30, 15 * 60 * 1000)`. -/
def loginLimit (req : HttpRequest) : WebHandler := fun _ v =>
  let (pass, loginHits) := Hits.rateLimit 30 (15 * 60 * 1000) req.now req.ip v.server.loginHits
  let v := { v with server := { v.server with loginHits } }
  if pass then (v, .next) else v.answer 429 (.error (js "请求过于频繁，请稍后重试"))

/-- `rateLimit(10, 15 * 60 * 1000)`. -/
def registerLimit (req : HttpRequest) : WebHandler := fun _ v =>
  let (pass, registerHits) := Hits.rateLimit 10 (15 * 60 * 1000) req.now req.ip
    v.server.registerHits
  let v := { v with server := { v.server with registerHits } }
  if pass then (v, .next) else v.answer 429 (.error (js "请求过于频繁，请稍后重试"))

/-! ### Routes -/

def get (path : String) (f : WebHandler) : WebLayer := .route .get (.pieces (pieces path)) [f]
def post (path : String) (fs : List WebHandler) : WebLayer :=
  .route .post (.pieces (pieces path)) fs
def put (path : String) (f : WebHandler) : WebLayer := .route .put (.pieces (pieces path)) [f]
def delete (path : String) (f : WebHandler) : WebLayer := .route .delete (.pieces (pieces path)) [f]

/-- `app.use` with a path. -/
def use (path : String) (fs : List WebHandler) : List WebLayer := fs.map (.use (pieces path))

section App

variable (cfg : WebConfig) (req : HttpRequest)

/-- `POST /api/ui/auth/login`. What is truthy gets to `loginWithPassword`. A name that is no text
throws there, as it has no `trim`, and so does the comparison with a password that is none. -/
def login : WebHandler := fun _ v =>
  if req.has "username" && req.has "password" &&
      !((req.text "username").isSome && (req.text "password").isSome) then
    v.answer 500 (.error (js "登录失败，请稍后重试"))
  else v.handle fun s => s.login req.browser (req.text "username") (req.text "password")

/-- `setupAuth`. An id that is no text counts as missing in `merge`. -/
def setupAuth : List WebLayer :=
  [get "/api/ui/auth/me" elsewhere,
    get "/api/ui/auth/logout" elsewhere,
    -- neither route has the limiter, which is registered behind them
    post "/api/ui/auth/register" [fun _ v => v.handle fun s =>
      s.register cfg.toBackendConfig req.browser (req.text "username") (req.text "password")],
    post "/api/ui/auth/login" [login req],
    post "/api/ui/auth/merge" [authGuard req, fun _ v => v.handle fun s =>
      s.merge req.browser req.now req.cookie (req.text "targetUserId") (req.text "sourceUserId")],
    post "/api/ui/auth/unlink" [authGuard req, fun _ v => v.handle fun s =>
      s.unlink req.browser req.now req.cookie (req.text "provider")],
    post "/api/ui/auth/set-password" [authGuard req, fun _ v => v.handle fun s =>
      s.setPassword req.browser req.now req.cookie (req.text "password")]]

/-- The field `code`. It is converted to a text, and here it only matters whether it is truthy. -/
def HttpRequest.code : Option JsString :=
  if req.has "code" then some ((req.text "code").getD (js "code")) else none

/-- `setupGithubAuth`. -/
def setupGithubAuth : List WebLayer :=
  [get "/api/ui/auth/github/config" fun _ v => v.handle fun s =>
      s.githubConfig cfg.toBackendConfig req.browser req.now req.nonce (req.queryText "redirect")
        (req.queryText "mode"),
    get "/api/ui/auth/github/callback" elsewhere,
    get "/api/ui/auth/github" fun _ v => v.handle fun s =>
      s.github cfg.toBackendConfig req.browser req.now req.nonce (req.queryText "redirect")
        (req.queryText "mode"),
    post "/api/ui/auth/github/token" [fun _ v => v.handle fun s =>
      s.githubToken req.browser req.now req.code req.state]]

/-- `setupQQAuth`. -/
def setupQQAuth : List WebLayer :=
  [get "/api/ui/auth/qq" fun _ v => v.handle fun s =>
      s.qq cfg.toBackendConfig req.browser req.now req.cookie req.nonce (req.queryText "redirect")
        (req.queryText "mode"),
    get "/api/ui/auth/qq/callback" fun _ v => v.handle fun s =>
      s.qqCallback req.browser req.now (req.queryText "code") req.state]

/-! ### The proxy -/

/-- The characters of `[a-zA-Z0-9_-]`. -/
def isAgentIdChar (c : UInt16) : Bool :=
  (0x61 ≤ c && c ≤ 0x7A) || (0x41 ≤ c && c ≤ 0x5A) || (0x30 ≤ c && c ≤ 0x39) || c = 0x5F || c = 0x2D

/-- `sanitizeAgentId`. -/
def sanitizeAgentId (raw : JsString) : JsString :=
  if 1 ≤ raw.length ∧ raw.length ≤ 64 ∧ raw.all isAgentIdChar then raw else js "_invalid_"

def paramText (params : Params) (name : String) : JsString := (params.lookup (js name)).getD []

/-- The check of the id, at the beginning of the routes that have one. -/
def withAgentId (f : JsString → Visit → Visit × Verdict LayerError) : WebHandler := fun params v =>
  let id := sanitizeAgentId (paramText params "id")
  if id = js "_invalid_" then v.answer 400 (.error (js "invalid agent id")) else f id v

/-- The path of an agent, and what stands behind it. -/
def botAgentPath (id behind : JsString) : Option JsString :=
  id.encodeURIComponent.map fun id => js "/api/v1/agents/" ++ id ++ behind

/-- `POST /api/ui/agents/:id/:action`. -/
def agentAction : WebHandler := fun params v =>
  let action := paramText params "action"
  if action ≠ js "start" ∧ action ≠ js "stop" then v.answer 400 (.error (js "invalid action"))
  else
    withAgentId (fun id v => v.askBot req.now .post
      (action.encodeURIComponent.bind fun action => botAgentPath id (js "/" ++ action)) none)
        params v

/-- `encodeURIComponent(agentId)` of `GET /api/ui/plugins`. -/
def pluginAgent : Option JsString :=
  match req.query.lookup (js "agent") with
  | none => (js "default").encodeURIComponent
  | some (.text text) => (text.orElse (js "default")).encodeURIComponent
  | some (.other string) => string.bind JsString.encodeURIComponent

/-- `GET /api/ui/plugins`. -/
def getPlugins : WebHandler := fun _ v =>
  v.askBot req.now .get ((pluginAgent req).map (js "/api/v1/plugins?agent=" ++ ·)) none

/-- `PUT /api/ui/plugins/:name`. -/
def putPlugin : WebHandler := fun params v =>
  v.askBot req.now .put
    ((paramText params "name").encodeURIComponent.map (js "/api/v1/plugins/" ++ ·)) req.body

/-- `setupProxy`. -/
def setupProxy : List WebLayer :=
  [get "/api/ui/agents" fun _ v => v.askBot req.now .get (some (js "/api/v1/agents")) none,
    post "/api/ui/agents" [fun _ v => v.askBot req.now .post (some (js "/api/v1/agents")) req.body],
    delete "/api/ui/agents/:id"
      (withAgentId fun id v => v.askBot req.now .delete (botAgentPath id []) none),
    post "/api/ui/agents/:id/:action" [agentAction req],
    put "/api/ui/agents/:id/config"
      (withAgentId fun id v => v.askBot req.now .put (botAgentPath id (js "/config")) req.body),
    -- the health of the bot is public, the call has no token
    get "/api/ui/status" fun _ v =>
      (v.proxyToBot .get (js "/api/v1/health") none (.other []), .done),
    get "/api/ui/metrics/history" elsewhere,
    get "/api/ui/metrics" fun _ v => v.askBot req.now .get (some (js "/api/v1/metrics")) none,
    get "/api/ui/agents/:id/metrics"
      (withAgentId fun id v => v.askBot req.now .get (botAgentPath id (js "/metrics")) none),
    get "/api/ui/tokens" fun _ v => v.askBot req.now .get (some (js "/api/v1/tokens/stats")) none,
    get "/api/ui/plugins" (getPlugins req),
    put "/api/ui/plugins/:name" (putPlugin req)]

/-! ### The application -/

/-- `cors`. It answers every preflight by itself. -/
def cors : WebHandler := fun _ v =>
  if req.method = .options ∧ cfg.corsOrigin ≠ [] then (v, .done) else (v, .next)

/-- `express.json`. -/
def expressJson : WebHandler := fun _ v =>
  match req.body with
  | none => (v, .fail .body)
  | some _ => (v, .next)

/-- `cookieParser`. The cookie of the request is at hand already. -/
def cookieParser : WebHandler := fun _ v => (v, .next)

/-- `express.static`. -/
def expressStatic : WebHandler := fun _ v =>
  if req.method = .get ∨ req.method = .head then (v, cfg.serveStatic (req.pathname.getD []))
  else (v, .next)

/-- The error handler. -/
def onError : LayerError → Visit → Visit × Verdict LayerError :=
  fun _ v => v.answer 500 (.error (js "Internal server error"))

/-- The paths behind `requireAuth` and `requireAdmin`. -/
def adminPaths : List String :=
  ["/api/ui/agents", "/api/ui/conversations", "/api/ui/logs", "/api/ui/metrics", "/api/ui/tokens"]

/-- `app.use(path, requireAuth, requireAdmin)`, for each path. -/
def adminGuards : List WebLayer := adminPaths.flatMap fun path =>
    use path [authGuard req, adminGuard cfg]

/-- What is registered before the guards. -/
def publicLayers : List WebLayer :=
  setupAuth cfg req ++ setupGithubAuth cfg req ++ setupQQAuth cfg req ++
    use "/api/ui/auth/login" [loginLimit req] ++
    use "/api/ui/auth/register" [registerLimit req] ++
    [get "/api/ui/health" elsewhere]

/-- What is registered behind the proxy. -/
def lastLayers : List WebLayer :=
  [get "/api/ui/logs" elsewhere, get "/api/ui/conversations" elsewhere,
    get "/api/ui/conversations/:id" elsewhere, .use [] (expressStatic cfg req),
    .route .get .star [elsewhere], .onError onError]

/-- The layers of `app`. -/
def app : List WebLayer :=
  [.use [] (cors cfg req), .use [] (expressJson req), .use [] cookieParser] ++
    publicLayers cfg req ++
    adminGuards cfg req ++ use "/api/ui/status" [authGuard req] ++ setupProxy req ++
      lastLayers cfg req

/-- A request, from its arrival to its answer, or to the point where its handler waits. -/
def serve (server : WebServer) : Visit :=
  match req.pathname with
  | none => { server }
  | some path => (run .param req.method path (app cfg req) none { server }).state

end App

end Aestival
