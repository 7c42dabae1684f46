import Aestival.Web.AccountSpecs
import Aestival.Web.Backend

/-!
# What a step of the backend can do

`Backend.Change` says all that an event can change: at most one operation is applied to the
accounts, and only by the request that may apply it (`WebEvent.Permits`); at most one token is
signed, for the browser whose request is handled (`Signed`); at most one handler begins to wait
(`Origin`).

* `Backend.change_react`: every event keeps to it. The invariants of the system are derived from
  this and do not unfold the handlers.
-/

namespace Aestival

/-- The browser that is answered. -/
def WebEvent.browser : WebEvent → Option Browser
  | .listen _ => none
  | .request browser _ _ _ _ => some browser
  | .resume _ _ (.register browser _) _ => some browser
  | .resume _ _ (.login browser _) _ => some browser
  | .resume _ _ (.setPassword browser _) _ => some browser
  | .resume _ _ (.oauth browser _ _) _ => some browser
  | .resume _ _ (.ensureAdminPassword _) _ => none

/-- The operations an event may apply. -/
inductive WebEvent.Permits : WebEvent → Logins.Op JsString Identity → Prop
  | merge {browser : Browser} {now : Nat} {cookie : Option Token} {nonce target source : JsString}
      {claims : Claims} (hauth : requireAuth now cookie = .ok claims)
      (hsub : claims.sub = some target)
      (htarget : target ≠ []) (hsource : source ≠ []) :
      Permits (.request browser now cookie nonce (.merge (some target) (some source)))
        (.absorb target source)
  | unlink {browser : Browser} {now : Nat} {cookie : Option Token} {nonce sub : JsString}
      {provider : Option JsString} {claims : Claims} {i : Identity}
      (hauth : requireAuth now cookie = .ok claims) (hsub : claims.sub = some sub) :
      Permits (.request browser now cookie nonce (.unlink provider)) (.detach sub i)
  | register {now : Nat} {draws : Draws} {browser : Browser} {username : JsString}
    {outcome : Outcome} :
      Permits (.resume now draws (.register browser username) outcome) (.register draws.userId)
  | setPassword {now : Nat} {draws : Draws} {browser : Browser} {sub : JsString}
    {outcome : Outcome} :
      Permits (.resume now draws (.setPassword browser (some sub)) outcome) (.setPassword sub)
  | ensureAdminPassword {now : Nat} {draws : Draws} {user : UserRow} {outcome : Outcome} :
      Permits (.resume now draws (.ensureAdminPassword (some user)) outcome) (.setPassword user.id)
  | create {now : Nat} {draws : Draws} {browser : Browser} {provider : Provider}
    {stateData : Claims}
      {outcome : Outcome} {profile : OAuthProfile} (hanswer : outcome.answer = .ok profile) :
      Permits (.resume now draws (.oauth browser provider stateData) outcome)
        (.create draws.userId (provider, profile.providerUserId))
  | attach {now : Nat} {draws : Draws} {browser : Browser} {provider : Provider}
    {stateData : Claims}
      {outcome : Outcome} {profile : OAuthProfile} {current : JsString}
      (hanswer : outcome.answer = .ok profile) (hcurrent : truthy stateData.userId = some current) :
      Permits (.resume now draws (.oauth browser provider stateData) outcome)
        (.attach current (provider, profile.providerUserId))

namespace Backend

/-- What a signed payload may be. -/
inductive Signed (s : Backend) (e : WebEvent) (s' : Backend) : Minted → Prop
  /-- A session is for a user of the tables, or for the one whose password was compared. -/
  | session {browser : Browser} {now : Nat} {user : UserRow} (hbrowser : e.browser = some browser)
      (huser : s'.db.Named user ∨ ∃ later draws credential outcome,
        e = .resume later draws (.login browser (some (user, credential))) outcome) :
      Signed s e s' ⟨.session, sessionClaims now user, some browser⟩
  | state {browser : Browser} {now : Nat} {cookie : Option Token} {nonce : JsString}
    {request : WebRequest}
      {params : StateParams} (he : e = .request browser now cookie nonce request) :
      Signed s e s' ⟨.state, stateClaims now params nonce, some browser⟩
  | bot {claims : Claims} (hclaims : (∃ now name, claims = botClaims now name) ∨
        ∃ entry ∈ s.botTokenCache, entry.2.token = .signed claims) :
      Signed s e s' ⟨.bot, claims, none⟩

/-- What a handler that waits may wait with. -/
inductive Origin (s : Backend) (e : WebEvent) : Pending → Prop
  | register {browser : Browser} {username : JsString} (hbrowser : e.browser = some browser) :
      Origin s e (.register browser username)
  | login {browser : Browser} {row : Option (UserRow × CredentialRow)}
      (hrow : ∀ user credential, row = some (user, credential) → s.db.Named user) :
      Origin s e (.login browser row)
  | setPassword {browser : Browser} {now : Nat} {cookie : Option Token} {nonce : JsString}
      {request : WebRequest} {claims : Claims} (he : e = .request browser now cookie nonce request)
      (hauth : requireAuth now cookie = .ok claims) : Origin s e (.setPassword browser claims.sub)
  | oauth {browser : Browser} {now : Nat} {cookie : Option Token} {nonce : JsString}
      {request : WebRequest} {provider : Provider} {token : Token} {claims : Claims}
      (he : e = .request browser now cookie nonce request)
      (hcallback : request.callback = some token)
      (haccepted : (verifyState now s.consumedNonces token).1 = some claims) :
      Origin s e (.oauth browser provider claims)
  | ensureAdminPassword {user : Option UserRow} : Origin s e (.ensureAdminPassword user)

/-- What an event may change. -/
structure Change (s : Backend) (e : WebEvent) (s' : Backend) : Prop where
  db : (∃ op, e.Permits op ∧ s.db.Applied op s'.db) ∨ s.db.SameAccounts s'.db
  minted : s'.minted = s.minted ∨ ∃ m, s'.minted = m :: s.minted ∧ Signed s e s' m
  pending : ∀ p ∈ s'.pending, p ∈ s.pending ∨ Origin s e p
  cache : ∀ entry ∈ s'.botTokenCache, entry ∈ s.botTokenCache ∨
    ∃ now name, entry.2.token = .signed (botClaims now name)

variable {s s' : Backend} {e : WebEvent} {browser : Browser} {now : Nat} {draws : Draws}

/-- What was signed before stays signed. -/
theorem Change.mem_minted (h : Change s e s') {m : Minted} (hm : m ∈ s.minted) : m ∈ s'.minted := by
  rcases h.minted with heq | ⟨new, heq, -⟩
  · exact heq ▸ hm
  · exact heq ▸ List.mem_cons_of_mem _ hm

/-- A signed payload was signed before, or by this event. -/
theorem Change.minted_cases (h : Change s e s') {m : Minted} (hm : m ∈ s'.minted) :
    m ∈ s.minted ∨ Signed s e s' m := by
  rcases h.minted with heq | ⟨new, heq, hsigned⟩
  · exact Or.inl (heq ▸ hm)
  rw [heq] at hm
  rcases List.mem_cons.mp hm with rfl | hm
  · exact Or.inr hsigned
  · exact Or.inl hm

/-- Nothing has changed but the nonces. -/
theorem Change.idle (hdb : s'.db = s.db) (hminted : s'.minted = s.minted)
    (hpending : s'.pending = s.pending) (hcache : s'.botTokenCache = s.botTokenCache) :
    Change s e s' where
  db := Or.inr (hdb ▸ .refl s.db)
  minted := Or.inl hminted
  pending _ hp := Or.inl (hpending ▸ hp)
  cache _ hentry := Or.inl (hcache ▸ hentry)

/-- A handler begins to wait. -/
theorem Change.waits {p : Pending} (horigin : Origin s e p) (hdb : s'.db = s.db)
    (hminted : s'.minted = s.minted) (hpending : s'.pending = p :: s.pending)
    (hcache : s'.botTokenCache = s.botTokenCache) : Change s e s' where
  db := Or.inr (hdb ▸ .refl s.db)
  minted := Or.inl hminted
  pending q hq := by
    rw [hpending] at hq
    rcases List.mem_cons.mp hq with rfl | hq
    · exact Or.inr horigin
    · exact Or.inl hq
  cache _ hentry := Or.inl (hcache ▸ hentry)

/-- The accounts have changed, and nothing is signed. -/
theorem Change.accounts {db : AuthDb}
    (hdb : (∃ op, e.Permits op ∧ s.db.Applied op db) ∨ s.db.SameAccounts db) :
    Change s e { s with db } where
  db := hdb
  minted := Or.inl rfl
  pending _ hp := Or.inl hp
  cache _ hentry := Or.inl hentry

/-- The accounts may have changed, and a session is signed. -/
theorem Change.signIn {db : AuthDb} {user : UserRow} {status : Nat} {body : Body}
    (hdb : (∃ op, e.Permits op ∧ s.db.Applied op db) ∨ s.db.SameAccounts db)
    (hbrowser : e.browser = some browser)
    (huser : db.Named user ∨ ∃ later draws credential outcome,
      e = .resume later draws (.login browser (some (user, credential))) outcome) :
    Change s e (Backend.signIn { s with db } browser now user status body).2 where
  db := hdb
  minted := Or.inr ⟨_, rfl, .session hbrowser huser⟩
  pending _ hp := Or.inl hp
  cache _ hentry := Or.inl hentry

/-- What is changed from the state without the handler that goes on. -/
theorem Change.of_erase (waiting : Pending)
    (h : Change { s with pending := s.pending.erase waiting } e s') : Change s e s' where
  db := h.db
  minted := by
    refine h.minted.imp_right ?_
    rintro ⟨m, hm, hsigned⟩
    refine ⟨m, hm, ?_⟩
    -- nothing that is signed depends on what is waited for
    cases hsigned with
    | session hbrowser huser => exact .session hbrowser huser
    | state he => exact .state he
    | bot hclaims => exact .bot hclaims
  pending p hp := by
    rcases h.pending p hp with hp | horigin
    · exact Or.inl (List.mem_of_mem_erase hp)
    · right
      -- nor does the origin of a new wait
      cases horigin with
      | register hbrowser => exact .register hbrowser
      | login hrow => exact .login hrow
      | setPassword he hauth => exact .setPassword he hauth
      | oauth he hcallback haccepted => exact .oauth he hcallback haccepted
      | ensureAdminPassword => exact .ensureAdminPassword
  cache := h.cache

/-! ### Passwords -/

theorem change_register (cfg : BackendConfig) (username password : Option JsString)
    (hbrowser : e.browser = some browser) :
    Change s e (s.register cfg browser username password).2 := by
  unfold register
  split
  · exact .idle rfl rfl rfl rfl
  split
  · exact .idle rfl rfl rfl rfl
  · exact .idle rfl rfl rfl rfl
  · exact .waits (.register hbrowser) rfl rfl rfl rfl

theorem change_registered (username : JsString) (outcome : Outcome) :
    Change s (.resume now draws (.register browser username) outcome)
      (s.registered browser now draws username outcome.hash).2 := by
  obtain ⟨_, h⟩ :=
    (ensures_registerWithPassword (c := { db := s.db }) draws username outcome.hash).call
  unfold registered
  generalize (registerWithPassword draws username outcome.hash).call s.db = result at h ⊢
  obtain ⟨r, db⟩ := result
  -- the user is there and gets a session, or the transaction was rolled back
  rcases h with ⟨row, rfl, happlied, hrow, -⟩ | ⟨⟨err, rfl⟩, hdb⟩
  · exact .signIn (Or.inl ⟨_, .register, happlied⟩) rfl (Or.inl ⟨row, hrow, rfl, rfl⟩)
  · obtain rfl : db = s.db := hdb
    -- each kind of error has an answer of its own, and none changes anything
    cases err with
    | error message =>
      dsimp only
      split
      · exact .idle rfl rfl rfl rfl
      · exact .idle rfl rfl rfl rfl
    | sqlite err => exact .idle rfl rfl rfl rfl
    | typeError => exact .idle rfl rfl rfl rfl

/-- The user that a login finds is one of the tables. -/
theorem named_of_findLogin {db : AuthDb} {username : JsString} {user : UserRow}
    {credential : CredentialRow} (h : db.findLogin username = some (user, credential)) :
    db.Named user := by
  unfold AuthDb.findLogin at h
  simp only [Option.bind_eq_bind, Option.bind_eq_some_iff, Option.pure_def, Option.some.injEq,
    Prod.mk.injEq] at h
  obtain ⟨row, hrow, _, _, rfl, rfl⟩ := h
  exact ⟨row, (AuthDb.findUsername_eq_some.mp hrow).1, rfl, rfl⟩

theorem change_login (username password : Option JsString) :
    Change s e (s.login browser username password).2 := by
  unfold login
  split
  · next username _ _ _ =>
    split
    · next row hrow =>
      refine .waits (.login fun user credential heq => ?_) rfl rfl rfl rfl
      have hfound : s.db.findLogin username.trim = row := Except.ok.inj hrow
      exact named_of_findLogin (hfound.trans heq)
    · exact .idle rfl rfl rfl rfl
  · exact .idle rfl rfl rfl rfl

theorem change_loggedIn (row : Option (UserRow × CredentialRow)) (outcome : Outcome) :
    Change s (.resume now draws (.login browser row) outcome)
      (s.loggedIn browser now row outcome.valid).2 := by
  unfold loggedIn
  split
  · exact .idle rfl rfl rfl rfl
  · next user hresult =>
    -- the password was compared for a row that was found
    obtain ⟨credential, rfl⟩ : ∃ credential, row = some (user, credential) := by
      unfold loginResult at hresult
      split at hresult
      · cases hresult
      split at hresult
      · cases hresult
        exact ⟨_, rfl⟩
      · cases hresult
    have hsame : s.db.SameAccounts s.db := .refl s.db
    exact .signIn (Or.inr hsame) rfl (Or.inr ⟨_, _, _, _, rfl⟩)

theorem change_setPassword {cookie : Option Token} {nonce : JsString} {request : WebRequest}
    (password : Option JsString) :
    Change s (.request browser now cookie nonce request)
      (s.setPassword browser now cookie password).2 := by
  unfold setPassword
  split
  · exact .idle rfl rfl rfl rfl
  next claims hauth =>
  split
  · exact .idle rfl rfl rfl rfl
  · exact .waits (.setPassword rfl hauth) rfl rfl rfl rfl

theorem change_passwordSet (sub : Option JsString) (outcome : Outcome) :
    Change s (.resume now draws (.setPassword browser sub) outcome)
      (s.passwordSet draws sub outcome.hash).2 := by
  unfold passwordSet
  cases sub with
  -- a session without a user
  | none => exact .idle rfl rfl rfl rfl
  | some sub =>
    obtain ⟨_, h⟩ := (ensures_setPassword (c := { db := s.db }) draws sub outcome.hash).call
    dsimp only
    generalize (Aestival.setPassword draws sub outcome.hash).call s.db = result at h ⊢
    obtain ⟨r, db⟩ := result
    -- the password is set, or nothing is
    rcases h with ⟨rfl, happlied⟩ | ⟨⟨err, rfl⟩, hdb⟩
    · exact .accounts (Or.inl ⟨_, .setPassword, happlied⟩)
    · obtain rfl : db = s.db := hdb
      exact .idle rfl rfl rfl rfl

theorem change_adminPasswordSet (user : Option UserRow) (outcome : Outcome) :
    Change s (.resume now draws (.ensureAdminPassword user) outcome)
      (s.adminPasswordSet draws user outcome.hash).2 := by
  cases user with
  | none => exact .idle rfl rfl rfl rfl
  | some user =>
    obtain ⟨_, h⟩ :=
      (ensures_ensureAdminPassword (c := { db := s.db }) draws user outcome.hash).call
    rcases h with ⟨-, happlied⟩ | ⟨-, hdb⟩
    · exact .accounts (Or.inl ⟨_, .ensureAdminPassword, happlied⟩)
    · exact .idle hdb rfl rfl rfl

/-! ### Accounts -/

theorem truthy_eq_some {t : Option JsString} {value : JsString} :
    truthy t = some value ↔ t = some value ∧ value ≠ [] := by
  rw [truthy, Option.filter_eq_some_iff, decide_eq_true_iff]

theorem change_merge {cookie : Option Token} {nonce : JsString}
    (targetUserId sourceUserId : Option JsString) :
    Change s (.request browser now cookie nonce (.merge targetUserId sourceUserId))
      (s.merge browser now cookie targetUserId sourceUserId).2 := by
  unfold merge
  split
  · exact .idle rfl rfl rfl rfl
  next claims hauth =>
  -- an id is missing or empty
  split
  swap
  · exact .idle rfl rfl rfl rfl
  next target source htarget hsource =>
  obtain ⟨rfl, htargetNe⟩ := truthy_eq_some.mp htarget
  obtain ⟨rfl, hsourceNe⟩ := truthy_eq_some.mp hsource
  -- the target is not the user of the session
  split
  · exact .idle rfl rfl rfl rfl
  next hsub =>
  obtain ⟨_, h⟩ := (ensures_mergeAccounts (c := { db := s.db }) target source).call
  generalize (mergeAccounts target source).call s.db = result at h ⊢
  obtain ⟨r, db⟩ := result
  rcases h with ⟨-, row, rfl, happlied, hrow, -⟩ | ⟨-, ⟨err, rfl⟩, hdb⟩
  · have hsub : claims.sub = some target := (not_not.mp hsub).symm
    exact .signIn (Or.inl ⟨_, .merge hauth hsub htargetNe hsourceNe, happlied⟩) rfl
      (Or.inl ⟨row, hrow, rfl, rfl⟩)
  · obtain rfl : db = s.db := hdb
    exact .idle rfl rfl rfl rfl

theorem change_unlink {cookie : Option Token} {nonce : JsString} (provider : Option JsString) :
    Change s (.request browser now cookie nonce (.unlink provider))
      (s.unlink browser now cookie provider).2 := by
  unfold unlink
  split
  · exact .idle rfl rfl rfl rfl
  next claims hauth =>
  -- no provider is named, or the session has no user
  split
  · exact .idle rfl rfl rfl rfl
  · exact .idle rfl rfl rfl rfl
  next name sub hname hsub =>
  obtain ⟨_, h⟩ := (ensures_unlinkAccount (c := { db := s.db }) sub name).call
  generalize (unlinkAccount sub name).call s.db = result at h ⊢
  obtain ⟨r, db⟩ := result
  rcases h with ⟨i, rfl, happlied⟩ | ⟨⟨err, rfl⟩, hdb⟩
  · have happlied : ∃ op, WebEvent.Permits (.request browser now cookie nonce (.unlink provider))
      op ∧
        s.db.Applied op db := ⟨_, .unlink hauth hsub, happlied⟩
    dsimp only
    split
    · next row hfound =>
      exact .signIn (Or.inl happlied) rfl
        (Or.inl ⟨row, (AuthDb.findUser_eq_some.mp hfound).1, rfl, rfl⟩)
    · exact .accounts (Or.inl happlied)
  · obtain rfl : db = s.db := hdb
    exact .idle rfl rfl rfl rfl

/-! ### OAuth -/

/-- A state is signed for the browser. -/
theorem Change.signState {cookie : Option Token} {nonce : JsString} {request : WebRequest}
    {params : StateParams} {status : Nat} {body : Token → Body} :
    Change s (.request browser now cookie nonce request)
      (s.signState browser now params nonce status body).2 where
  db := Or.inr (.refl s.db)
  minted := Or.inr ⟨_, rfl, .state rfl⟩
  pending _ hp := Or.inl hp
  cache _ hentry := Or.inl hentry

theorem change_githubConfig (cfg : BackendConfig) {cookie : Option Token} {nonce : JsString}
    {request : WebRequest} (redirect mode : Option JsString) :
    Change s (.request browser now cookie nonce request)
      (s.githubConfig cfg browser now nonce redirect mode).2 := by
  unfold githubConfig
  split
  · exact .idle rfl rfl rfl rfl
  · exact .signState

theorem change_github (cfg : BackendConfig) {cookie : Option Token} {nonce : JsString}
    {request : WebRequest} (redirect mode : Option JsString) :
    Change s (.request browser now cookie nonce request)
      (s.github cfg browser now nonce redirect mode).2 := by
  unfold github
  split
  · exact .idle rfl rfl rfl rfl
  · exact .signState

theorem change_qq (cfg : BackendConfig) {cookie : Option Token} {nonce : JsString}
    {request : WebRequest} (redirect mode : Option JsString) :
    Change s (.request browser now cookie nonce request)
      (s.qq cfg browser now cookie nonce redirect mode).2 := by
  unfold qq
  split
  · exact .idle rfl rfl rfl rfl
  · exact .signState

/-- A callback presents its state. -/
theorem state_of_callback {request : WebRequest} {token : Token}
    (h : request.callback = some token) :
    request.state = some token := by
  have htruthy : ∀ {code : Option JsString} {state : Option Token},
      ((truthy code).bind fun _ => truthyToken state) = some token → state = some token := by
    intro code state h
    obtain ⟨_, -, hstate⟩ := Option.bind_eq_some_iff.mp h
    exact (Option.filter_eq_some_iff.mp hstate).1
  cases request with
  | githubToken code state => exact htruthy h
  | qqCallback code state => exact htruthy h
  | _ => cases h

theorem change_githubToken {cookie : Option Token} {nonce : JsString} (code : Option JsString)
    (state : Option Token) :
    Change s (.request browser now cookie nonce (.githubToken code state))
      (s.githubToken browser now code state).2 := by
  unfold githubToken
  split
  swap
  · exact .idle rfl rfl rfl rfl
  next code token hcode hstate =>
  split
  · next stateData consumedNonces hverify =>
    -- the nonce is consumed here, before the provider is asked
    have hcallback : (WebRequest.githubToken _ _).callback = some token :=
      Option.bind_eq_some_iff.mpr ⟨code, hcode, hstate⟩
    refine .waits (.oauth rfl hcallback ?_) rfl rfl rfl rfl
    rw [hverify]
  · exact .idle rfl rfl rfl rfl

theorem change_qqCallback {cookie : Option Token} {nonce : JsString} (code : Option JsString)
    (state : Option Token) :
    Change s (.request browser now cookie nonce (.qqCallback code state))
      (s.qqCallback browser now code state).2 := by
  unfold qqCallback
  split
  · exact .idle rfl rfl rfl rfl
  next token hstate =>
  split
  · exact .idle rfl rfl rfl rfl
  · exact .idle rfl rfl rfl rfl
  -- the state is accepted, and the provider is asked
  · next stateData consumedNonces code hverify hcode =>
    have hcallback : (WebRequest.qqCallback _ _).callback = some token :=
      Option.bind_eq_some_iff.mpr ⟨code, hcode, hstate⟩
    refine .waits (.oauth rfl hcallback ?_) rfl rfl rfl rfl
    rw [hverify]

theorem oauthFailure_eq (provider : Provider) (err : ProviderError) :
    (s.oauthFailure provider err).2 = s := by
  unfold oauthFailure
  split <;> rfl

theorem change_oauthAnswered (provider : Provider) (stateData : Claims) (outcome : Outcome)
    (haccount : draws.accountId ∉ s.db.accounts.map OAuthRow.id) :
    Change s (.resume now draws (.oauth browser provider stateData) outcome)
      (s.oauthAnswered browser now draws provider stateData outcome.answer).2 := by
  unfold oauthAnswered
  split
  · rw [oauthFailure_eq]
    exact .idle rfl rfl rfl rfl
  next profile hanswer =>
  have h := findOrCreateUser_resolved { profile with provider } stateData.mode stateData.userId
    haccount
  unfold handleOAuthProfile
  generalize (findOrCreateUser draws { profile with provider } stateData.mode
    stateData.userId).call s.db = result at h ⊢
  obtain ⟨r, db⟩ := result
  dsimp only at h
  cases h with
  -- the identity belongs to somebody, who gets the session
  | owned howner hmode hsame hnamed =>
    exact .signIn (Or.inr hsame) rfl (Or.inl hnamed)
  | conflict howner hmode hcurrent hne hsame =>
    -- the conflict is reported for the user who links, if that user still exists
    cases db.findUser _ with
    | none =>
      dsimp only
      rw [oauthFailure_eq]
      exact .accounts (Or.inr hsame)
    | some user => exact .accounts (Or.inr hsame)
  | created hmode happlied hid hnamed =>
    exact .signIn (Or.inl ⟨_, .create hanswer, happlied⟩) rfl (Or.inl hnamed)
  | attached hmode hcurrent happlied hid hrow =>
    exact .signIn (Or.inl ⟨_, .attach hanswer hcurrent, happlied⟩) rfl
      (Or.inl ⟨_, hrow, rfl, rfl⟩)
  | failed hfree hmode =>
    dsimp only
    rw [oauthFailure_eq]
    exact .idle rfl rfl rfl rfl

/-! ### Calls of the bot -/

/-- What `getBotToken` hands out and remembers: tokens of the cache, and at most one that is new. -/
def FromCache (cache : BotTokenCache) (result : Token × BotTokenCache) : Prop :=
  ((∃ entry ∈ cache, result.1 = entry.2.token) ∨ ∃ at' name,
    result.1 = .signed (botClaims at' name)) ∧
    ∀ entry ∈ result.2, entry ∈ cache ∨ ∃ at' name, entry.2.token = .signed (botClaims at' name)

theorem fromCache_mintBotToken (now : Nat) (cache : BotTokenCache) (name : JsString) :
    FromCache cache (mintBotToken now cache name) := by
  refine ⟨Or.inr ⟨now, name, rfl⟩, fun entry hentry => ?_⟩
  rcases List.mem_cons.mp hentry with rfl | hentry
  · exact Or.inr ⟨now, name, rfl⟩
  · exact Or.inl (List.mem_of_mem_filter hentry)

theorem fromCache_getBotToken (now : Nat) (cache : BotTokenCache) (name : JsString) :
    FromCache cache (getBotToken now cache name) := by
  unfold getBotToken
  dsimp only
  split
  · next cached hcached =>
    split
    · obtain ⟨before, behind, rfl, -⟩ := List.lookup_eq_some_iff.mp hcached
      have hentry : (name, cached) ∈ before ++ (name, cached) :: behind :=
        List.mem_append_right _ List.mem_cons_self
      exact ⟨Or.inl ⟨_, hentry, rfl⟩, fun _ h => Or.inl h⟩
    · exact fromCache_mintBotToken _ cache name
  · exact fromCache_mintBotToken _ cache name

theorem change_userToken (user : Option Claims) : Change s e (s.userToken now user) := by
  have h := fromCache_getBotToken now s.botTokenCache (userTokenName user)
  unfold userToken
  dsimp only
  generalize getBotToken now s.botTokenCache (userTokenName user) = result at h ⊢
  obtain ⟨token, cache⟩ := result
  obtain ⟨htoken, hcache⟩ := h
  cases token with
  | signed claims =>
    refine ⟨Or.inr (.refl s.db), Or.inr ⟨_, rfl, .bot ?_⟩, fun _ hp => Or.inl hp, hcache⟩
    -- a token of the cache is sent once more, or a new one is signed
    rcases htoken with ⟨entry, hentry, heq⟩ | ⟨at', name, heq⟩
    · exact Or.inr ⟨entry, hentry, heq.symm⟩
    · exact Or.inl ⟨at', name, Jwt.signed.inj heq⟩
  | other text => exact ⟨Or.inr (.refl s.db), Or.inl rfl, fun _ hp => Or.inl hp, hcache⟩

theorem change_adminRoute (cfg : BackendConfig) (cookie : Option Token) :
    Change s e (s.adminRoute cfg now cookie).2 := by
  unfold adminRoute
  split
  · exact .idle rfl rfl rfl rfl
  split
  · exact .idle rfl rfl rfl rfl
  · exact change_userToken _

/-! ### All events -/

/-- **Every event keeps to what it may change.** -/
theorem change_react (cfg : BackendConfig) (hallowed : e.Allowed s) :
    Change s e (s.react cfg e).2 := by
  cases e with
  | listen adminUser => exact .waits .ensureAdminPassword rfl rfl rfl rfl
  | request browser now cookie nonce request =>
    cases request with
    | register username password => exact change_register cfg username password rfl
    | login username password => exact change_login username password
    | setPassword password => exact change_setPassword password
    | merge target source => exact change_merge target source
    | unlink provider => exact change_unlink provider
    | githubConfig redirect mode => exact change_githubConfig cfg redirect mode
    | github redirect mode => exact change_github cfg redirect mode
    | qq redirect mode => exact change_qq cfg redirect mode
    | githubToken code state => exact change_githubToken code state
    | qqCallback code state => exact change_qqCallback code state
    | admin => exact change_adminRoute cfg cookie
    | plugins => exact change_userToken none
  -- the handler that goes on waits no longer
  | resume now draws waiting outcome =>
    refine .of_erase waiting ?_
    cases waiting with
    | register browser username => exact change_registered username outcome
    | login browser row => exact change_loggedIn row outcome
    | setPassword browser sub => exact change_passwordSet sub outcome
    | oauth browser provider stateData =>
      exact change_oauthAnswered provider stateData outcome hallowed.2
    | ensureAdminPassword user => exact change_adminPasswordSet user outcome

end Backend

end Aestival
