import Aestival.Web.PasswordHashes

/-!
# Logging in with a password

The backend with the passwords that it hashes and compares. A handler hands a password to `bcrypt`
and waits; other handlers run in the meantime, so a login is answered long after the hash was read
that it compares with. `PasswordWeb` records which password each handler has handed over
(`BcryptCall`), and which password was last set for each user (`PasswordWeb.passwords`).

* `PasswordInv`: the tables have a hash of the last password of each user, and of no other.
* `password_login`: a login is answered with a session exactly when the user it names had, as the
  login came in, a password with the same key.

What `bcrypt` looks at of a password is its `key`: the real one ignores all but 72 octets.
-/

namespace Aestival

open AuthDb

/-- `bcryptjs`. -/
structure Bcrypt where
  /-- What is looked at of a password. -/
  key : JsString → List UInt8
  hash : (salt password : JsString) → JsString
  compare : (password hash : JsString) → Bool
  /-- No two keys have a hash in common. -/
  compare_hash : ∀ salt p q, compare q (hash salt p) = true ↔ key q = key p

/-- A password that is hashed or compared, and the handler that waits for it. -/
structure BcryptCall where
  waiting : Pending
  password : JsString
  deriving DecidableEq

structure PasswordWeb where
  backend : Backend := {}
  calls : List BcryptCall := []
  /-- The password that was set last for a user that is there. -/
  passwords : JsString → Option JsString := fun _ => none

/-- What happens: an event of the backend that is no end of a call of `bcrypt`, or such an end. -/
inductive PasswordEvent where
  | other (e : WebEvent)
  | answered (now : Nat) (draws : Draws) (call : BcryptCall) (salt : JsString)

/-- A hash of no password, with which a login without a user is compared. -/
def DUMMY_HASH : JsString := js "$2a$12$LJ3m4ys3LkBCVxJGqOjPkuYVOYpGOKbHgEMoJxYzRqcMdFNP2sKuS"

namespace BcryptCall

variable (b : Bcrypt) (call : BcryptCall)

/-- The hash that a login compares its password with. -/
def comparedHash : JsString :=
  match call.waiting with
  | .login _ (some (_, credential)) => credential.passwordHash
  | _ => DUMMY_HASH

/-- What `bcrypt` answers. -/
def outcome (salt : JsString) : Outcome where
  hash := b.hash salt call.password
  valid := b.compare call.password call.comparedHash

end BcryptCall

/-- The event of the backend. -/
def PasswordEvent.event (b : Bcrypt) : PasswordEvent → WebEvent
  | .other e => e
  | .answered now draws call salt => .resume now draws call.waiting (call.outcome b salt)

/-- The handler waits for `bcrypt`. -/
def Pending.usesBcrypt : Pending → Bool
  | .oauth .. => false
  | _ => true

/-- The password that an event hands to `bcrypt`, if its handler goes on to wait. -/
def WebEvent.password (adminPass : JsString) : WebEvent → Option JsString
  | .listen _ => some adminPass
  | .request _ _ _ _ (.register _ password) => password
  | .request _ _ _ _ (.login _ password) => password
  | .request _ _ _ _ (.setPassword password) => password
  | _ => none

namespace PasswordWeb

variable (b : Bcrypt) (cfg : BackendConfig) (adminPass : JsString)

/-- The handler that has begun to wait, with its password. -/
def begun (e : WebEvent) (s s' : Backend) : List BcryptCall :=
  if s.pending.length < s'.pending.length then
    match s'.pending.head?, e.password adminPass with
    | some waiting, some password => [⟨waiting, password⟩]
    | _, _ => []
  else []

/-- The calls of `bcrypt` behind an event. -/
def callsAfter (s : PasswordWeb) (s' : Backend) : PasswordEvent → List BcryptCall
  | .other e => begun adminPass e s.backend s' ++ s.calls
  | .answered _ _ call _ => s.calls.erase call

/-- The passwords behind an event: those of the users that are there, and the one that was set. -/
def passwordsAfter (s : PasswordWeb) (s' : Backend) (e : PasswordEvent) (u : JsString) :
    Option JsString :=
  if u ∈ s'.db.users.map UserRow.id then
    match e with
    | .other _ => s.passwords u
    | .answered _ _ call _ =>
      if s.backend.sets cfg (e.event b) = some u then some call.password else s.passwords u
  else none

/-- An event happens. -/
def after (s : PasswordWeb) (e : PasswordEvent) : PasswordWeb :=
  let s' := (s.backend.react cfg (e.event b)).2
  { backend := s'
    calls := s.callsAfter adminPass s' e
    passwords := s.passwordsAfter b cfg s' e }

/-- A handler goes on when `bcrypt` has answered it, and not otherwise. -/
def Proper (s : PasswordWeb) : PasswordEvent → Prop
  | .other (.resume _ _ waiting _) => waiting.usesBcrypt = false
  | .other _ => True
  | .answered _ _ call _ => call ∈ s.calls

/-- The user that a login names, and its password. -/
def account (s : PasswordWeb) (username : JsString) : Option (UserRow × JsString) :=
  (s.backend.db.findUsername username.trim).bind fun user =>
    (s.passwords user.id).map fun password => (user, password)

end PasswordWeb

/-- The backend, with any requests from any browsers at any times. -/
def passwordWeb (b : Bcrypt) (cfg : BackendConfig) (adminPass : JsString) :
    TransitionSystem PasswordWeb PasswordEvent where
  init s := s = {}
  step s e s' := (e.event b).Allowed s.backend ∧ s.Proper e ∧ s' = s.after b cfg adminPass e

/-- What a login is answered, given the user it names with its password. -/
def loginReply (b : Bcrypt) (now : Nat) (account : Option (UserRow × JsString))
    (password : JsString) : Reply :=
  match account with
  | some (user, last) =>
    if b.key password = b.key last then
      { status := 200, body := .signedIn user, cookie := .set (signSession now user) }
    else { status := 401, body := .error (js "用户名或密码错误") }
  | none => { status := 401, body := .error (js "用户名或密码错误") }

/-! ### The invariant -/

/-- The hash of a user, and its last password. -/
def Bcrypt.Stored (b : Bcrypt) : Option JsString → Option JsString → Prop :=
  Option.Rel fun hash password => ∃ salt, hash = b.hash salt password

/-- The row that a login has read, and the user it names with its password. -/
def Bcrypt.Looked (b : Bcrypt) :
    Option (UserRow × CredentialRow) → Option (UserRow × JsString) → Prop :=
  Option.Rel fun row account =>
    row.1 = account.1 ∧ ∃ salt, row.2.passwordHash = b.hash salt account.2

/-- A login has come in. -/
def AskedAt (tr : List (PasswordWeb × PasswordEvent)) (browser : Browser)
    (username password : JsString) (s : PasswordWeb) : Prop :=
  ∃ now cookie nonce,
    (s, .other (.request browser now cookie nonce (.login (some username) (some password)))) ∈ tr

structure PasswordInv (b : Bcrypt) (tr : List (PasswordWeb × PasswordEvent)) (s : PasswordWeb) :
    Prop where
  /-- the tables have the hashes of the last passwords -/
  stored : ∀ u, b.Stored (s.backend.db.hashOf u) (s.passwords u)
  /-- a login has read what was there when it came in -/
  looked : ∀ call ∈ s.calls, ∀ browser row, call.waiting = .login browser row →
    ∃ asked username, AskedAt tr browser username call.password asked ∧
      b.Looked row (asked.account username)

namespace PasswordWeb

variable {b : Bcrypt} {cfg : BackendConfig} {adminPass : JsString}
  {tr : List (PasswordWeb × PasswordEvent)} {s : PasswordWeb}

theorem sets_of_proper {e : WebEvent} (h : s.Proper (.other e)) : s.backend.sets cfg e = none := by
  cases e with
  | listen adminUser => rfl
  | request => rfl
  | resume now draws waiting outcome =>
    have huses : waiting.usesBcrypt = false := h
    cases waiting with
    | oauth => rfl
    | _ => cases huses

theorem stored_after {e : PasswordEvent} (h : ∀ u, b.Stored (s.backend.db.hashOf u) (s.passwords u))
    (hproper : s.Proper e) (u : JsString) :
    b.Stored ((s.after b cfg adminPass e).backend.db.hashOf u)
      ((s.after b cfg adminPass e).passwords u) := by
  show b.Stored ((s.backend.react cfg (e.event b)).2.db.hashOf u)
    (s.passwordsAfter b cfg (s.backend.react cfg (e.event b)).2 e u)
  rw [Backend.hashOf_react]
  unfold passwordsAfter
  split
  swap
  -- the user is gone, and the password with the row
  · exact .none
  cases e with
  -- no hash is written but behind a wait for bcrypt
  | other e =>
    have hsets : s.backend.sets cfg ((PasswordEvent.other e).event b) = none :=
      sets_of_proper hproper
    rw [hsets, if_neg (nofun : (none : Option JsString) ≠ some u)]
    exact h u
  -- what is written there is the hash of the password of the call
  | answered now draws call salt =>
    dsimp only
    split
    · exact .some ⟨salt, rfl⟩
    · exact h u

/-- What a login reads is the user it names, with a hash of its password. -/
theorem looked_account (h : ∀ u, b.Stored (s.backend.db.hashOf u) (s.passwords u))
    (username : JsString) :
    b.Looked (s.backend.db.findLogin username.trim) (s.account username) := by
  rw [account]
  show b.Looked ((s.backend.db.findUsername username.trim).bind fun user =>
    (s.backend.db.findCredential user.id).bind fun credential => some (user, credential)) _
  cases s.backend.db.findUsername username.trim with
  -- no user of this name
  | none => exact .none
  | some user =>
    -- the row of the hash and the password are there together
    have hstored := h user.id
    rw [hashOf] at hstored
    show b.Looked ((s.backend.db.findCredential user.id).bind _) ((s.passwords user.id).map _)
    cases hcredential : s.backend.db.findCredential user.id with
    | none =>
      rw [hcredential] at hstored
      cases hpassword : s.passwords user.id with
      | none => exact .none
      | some password =>
        rw [hpassword] at hstored
        cases hstored
    | some credential =>
      rw [hcredential] at hstored
      cases hpassword : s.passwords user.id with
      | none =>
        rw [hpassword] at hstored
        cases hstored
      | some password =>
        rw [hpassword] at hstored
        cases hstored with
        | some hhash => exact .some ⟨rfl, hhash⟩

/-- A handler that has begun to wait is the last that did, with the password of its request. -/
theorem mem_begun {e : WebEvent} {before behind : Backend} {call : BcryptCall}
    (h : call ∈ begun adminPass e before behind) :
    before.pending.length < behind.pending.length ∧
      (∃ rest, behind.pending = call.waiting :: rest) ∧
        e.password adminPass = some call.password := by
  unfold begun at h
  split at h
  swap
  · cases h
  next hlength =>
  split at h
  · next hhead hpassword =>
    obtain rfl := List.mem_singleton.mp h
    exact ⟨hlength, List.head?_eq_some_iff.mp hhead, hpassword⟩
  · cases h

/-- A handler of a password waits behind the others, or does not wait. -/
theorem pending_register (before : Backend) (browser : Browser)
    (username password : Option JsString) :
    (before.register cfg browser username password).2.pending = before.pending ∨
      ∃ name, (before.register cfg browser username password).2.pending =
        .register browser name :: before.pending := by
  unfold Backend.register
  split
  · exact Or.inl rfl
  split
  · exact Or.inl rfl
  · exact Or.inl rfl
  · exact Or.inr ⟨_, rfl⟩

theorem pending_setPassword (before : Backend) (browser : Browser) (now : Nat)
    (cookie : Option Token) (password : Option JsString) :
    (before.setPassword browser now cookie password).2.pending = before.pending ∨
      ∃ sub, (before.setPassword browser now cookie password).2.pending =
        .setPassword browser sub :: before.pending := by
  unfold Backend.setPassword
  split
  · exact Or.inl rfl
  split
  · exact Or.inl rfl
  · exact Or.inr ⟨_, rfl⟩

theorem pending_login (before : Backend) (browser : Browser) (username password : Option JsString) :
    (before.login browser username password).2.pending = before.pending ∨
      ∃ name, username = some name ∧
        (before.login browser username password).2.pending =
          .login browser (before.db.findLogin name.trim) :: before.pending := by
  unfold Backend.login
  split
  swap
  · exact Or.inl rfl
  next name _ hname _ => exact Or.inr ⟨name, (Backend.truthy_eq_some.mp hname).1, rfl⟩

/-- A login that has begun to wait has read the row of the user it names. -/
theorem login_begun {e : WebEvent} {before : Backend} {call : BcryptCall} {browser : Browser}
    {row : Option (UserRow × CredentialRow)}
    (h : call ∈ begun adminPass e before (before.react cfg e).2)
    (hwaiting : call.waiting = .login browser row) :
    ∃ now cookie nonce username,
      e = .request browser now cookie nonce (.login (some username) (some call.password)) ∧
        row = before.db.findLogin username.trim := by
  obtain ⟨hlength, ⟨rest, hrest⟩, hpassword⟩ := mem_begun h
  rw [hwaiting] at hrest
  -- a handler that does not wait is not among the new ones
  have hwaits : (before.react cfg e).2.pending ≠ before.pending := by
    intro heq
    rw [heq] at hlength
    exact lt_irrefl _ hlength
  cases e with
  | listen adminUser => cases hrest
  | resume => cases hpassword
  | request browser' now cookie nonce request =>
    cases request with
    | register username password =>
      obtain ⟨name, hpending⟩ :=
        (pending_register before browser' username password).resolve_left hwaits
      cases (List.cons.inj (hpending.symm.trans hrest)).1
    | login username password =>
      obtain ⟨name, rfl, hpending⟩ :=
        (pending_login before browser' username password).resolve_left hwaits
      obtain rfl : password = some call.password := hpassword
      cases (List.cons.inj (hpending.symm.trans hrest)).1
      exact ⟨now, cookie, nonce, name, rfl, rfl⟩
    | setPassword password =>
      obtain ⟨sub, hpending⟩ :=
        (pending_setPassword before browser' now cookie password).resolve_left hwaits
      cases (List.cons.inj (hpending.symm.trans hrest)).1
    | _ => cases hpassword

theorem AskedAt.mono {browser : Browser} {username password : JsString} {asked : PasswordWeb}
    (h : AskedAt tr browser username password asked) (p : PasswordWeb × PasswordEvent) :
    AskedAt (tr ++ [p]) browser username password asked := by
  obtain ⟨now, cookie, nonce, hmem⟩ := h
  exact ⟨now, cookie, nonce, List.mem_append_left _ hmem⟩

end PasswordWeb

section Runs

open PasswordWeb

variable {b : Bcrypt} {cfg : BackendConfig} {adminPass : JsString}
  {tr : List (PasswordWeb × PasswordEvent)} {s : PasswordWeb}

/-- **Each event keeps the invariant.** -/
theorem PasswordInv.step (h : PasswordInv b tr s) {e : PasswordEvent} (hproper : s.Proper e) :
    PasswordInv b (tr ++ [(s, e)]) (s.after b cfg adminPass e) where
  stored := stored_after h.stored hproper
  looked call hcall browser row hwaiting := by
    have hold : call ∈ s.calls → ∃ asked username,
        AskedAt (tr ++ [(s, e)]) browser username call.password asked ∧
          b.Looked row (asked.account username) := by
      intro hcall
      obtain ⟨asked, username, hasked, hlooked⟩ := h.looked call hcall browser row hwaiting
      exact ⟨asked, username, AskedAt.mono hasked _, hlooked⟩
    cases e with
    | answered now draws ended salt => exact hold (List.mem_of_mem_erase hcall)
    | other e =>
      rcases List.mem_append.mp hcall with hnew | hcall
      swap
      · exact hold hcall
      obtain ⟨now, cookie, nonce, username, rfl, rfl⟩ := login_begun hnew hwaiting
      exact ⟨s, username, ⟨now, cookie, nonce, List.mem_append_right _ (List.mem_singleton_self _)⟩,
        looked_account h.stored username⟩

theorem PasswordInv.of_run (h : (passwordWeb b cfg adminPass).Run tr s) : PasswordInv b tr s := by
  induction h with
  | @start s hinit =>
    obtain rfl : s = {} := hinit
    exact ⟨fun _ => .none, fun _ hcall => absurd hcall List.not_mem_nil⟩
  | step _ hstep ih =>
    obtain ⟨-, hproper, rfl⟩ := hstep
    exact ih.step hproper

/-- **A password opens the account of its user, and no other does.** In every run of the backend, a
login whose password was compared is answered with a session for the user it names exactly when this
user had a password with the same key as the login came in, whatever has happened since. -/
theorem password_login (h : (passwordWeb b cfg adminPass).Run tr s) {call : BcryptCall}
    (hcall : call ∈ s.calls) {browser : Browser} {row : Option (UserRow × CredentialRow)}
    (hwaiting : call.waiting = .login browser row) (now : Nat) (draws : Draws) (salt : JsString) :
    ∃ asked username, AskedAt tr browser username call.password asked ∧
      (s.backend.react cfg ((PasswordEvent.answered now draws call salt).event b)).1 =
        some (loginReply b now (asked.account username) call.password) := by
  -- the call was made for what the login found when it was asked
  obtain ⟨asked, username, hasked, hlooked⟩ := (PasswordInv.of_run h).looked call hcall browser row
    hwaiting
  refine ⟨asked, username, hasked, ?_⟩
  -- what is there by now plays no part
  generalize asked.account username = account at hlooked ⊢
  show (Backend.resume _ now draws (call.outcome b salt) call.waiting).1 = _
  have hcompared : (call.outcome b salt).valid = b.compare call.password call.comparedHash := rfl
  rw [hwaiting]
  show (Backend.loggedIn _ browser now row (call.outcome b salt).valid).1 = _
  rw [hcompared, BcryptCall.comparedHash, hwaiting]
  cases hlooked with
  -- no account: the comparison with the dummy is thrown away
  | none => rfl
  | @some row account hlooked =>
    obtain ⟨huser, salt', hhash⟩ := hlooked
    obtain ⟨user, credential⟩ := row
    obtain ⟨user', last⟩ := account
    obtain rfl : user = user' := huser
    dsimp only at hhash ⊢
    rw [hhash]
    -- bcrypt compares what it reads of the two passwords
    by_cases hkey : b.key call.password = b.key last
    · rw [(b.compare_hash salt' last call.password).mpr hkey, loginReply, if_pos hkey]
      rfl
    · have hdiffers : b.compare call.password (b.hash salt' last) = false :=
        Bool.eq_false_of_not_eq_true fun heq => hkey ((b.compare_hash _ _ _).mp heq)
      rw [hdiffers, loginReply, if_neg hkey]
      rfl

end Runs

/-! ### A login while the password is changed -/

/-- Keys that are hashed as they are. -/
def plainBcrypt : Bcrypt where
  key password := (password.map UInt16.toUInt8).take 72
  hash _ password := ((password.map UInt16.toUInt8).take 72).map UInt8.toUInt16
  compare password hash := ((password.map UInt16.toUInt8).take 72).map UInt8.toUInt16 = hash
  compare_hash _ p q := by
    rw [decide_eq_true_iff]
    refine (List.map_injective_iff.mpr fun a c h => ?_).eq_iff
    rw [← UInt8.toUInt8_toUInt16 a, h, UInt8.toUInt8_toUInt16]

/-- `alice` registers. -/
def registerAlice : PasswordEvent :=
  .other (.request 0 1000 none (js "1") (.register (some (js "alice")) (some (js "password"))))

def aliceDraws : Draws := { userId := js "u", accountId := js "a" }

def aliceHashed : PasswordEvent :=
  .answered 1000 aliceDraws ⟨.register 0 (js "alice"), js "password"⟩ []

/-- Another browser logs in, and waits. -/
def loginAlice : PasswordEvent :=
  .other (.request 1 2000 none (js "2") (.login (some (js " alice")) (some (js "password"))))

/-- What it waits for. -/
def aliceLogin : BcryptCall where
  waiting := .login 1 (some
    ({ id := js "u", username := js "alice" }, { userId := js "u", passwordHash := js "password" }))
  password := js "password"

/-- `alice` sets another password. -/
def changeAlice : PasswordEvent :=
  .other (.request 0 3000 (some (signSession 1000 { id := js "u", username := js "alice" }))
    (js "3") (.setPassword (some (js "passphrase"))))

def aliceChanged : PasswordEvent :=
  .answered 3000 aliceDraws ⟨.setPassword 0 (some (js "u")), js "passphrase"⟩ []

/-- The backend behind some events. -/
def afterEvents (events : List PasswordEvent) : PasswordWeb :=
  events.foldl (PasswordWeb.after plainBcrypt {} []) {}

def slowLogin : List PasswordEvent :=
  [registerAlice, aliceHashed, loginAlice, changeAlice, aliceChanged]

theorem slowLogin_run :
    ∃ tr, (passwordWeb plainBcrypt {} []).Run tr (afterEvents slowLogin) := by
  have h₀ : (passwordWeb plainBcrypt {} []).Run [] {} := .start rfl
  have h₁ : (passwordWeb plainBcrypt {} []).Run _ (afterEvents (slowLogin.take 1)) :=
    h₀.step (e := registerAlice) ⟨by decide, trivial, rfl⟩
  have h₂ : (passwordWeb plainBcrypt {} []).Run _ (afterEvents (slowLogin.take 2)) :=
    h₁.step (e := aliceHashed) ⟨by decide, List.mem_singleton_self _, rfl⟩
  have h₃ : (passwordWeb plainBcrypt {} []).Run _ (afterEvents (slowLogin.take 3)) :=
    h₂.step (e := loginAlice) ⟨by decide, trivial, rfl⟩
  have h₄ : (passwordWeb plainBcrypt {} []).Run _ (afterEvents (slowLogin.take 4)) :=
    h₃.step (e := changeAlice) ⟨by decide, trivial, rfl⟩
  exact ⟨_, h₄.step (e := aliceChanged) ⟨by decide, List.mem_cons_self, rfl⟩⟩

theorem slowLogin_calls : (afterEvents slowLogin).calls = [aliceLogin] := by decide

/-- The login ends behind the change of the password, and is answered as it came in. -/
theorem slowLogin_answered : ∃ tr, (passwordWeb plainBcrypt {} []).Run tr (afterEvents slowLogin) ∧
    ∃ asked username, AskedAt tr 1 username (js "password") asked ∧
      ((afterEvents slowLogin).backend.react {}
        ((PasswordEvent.answered 4000 aliceDraws aliceLogin []).event plainBcrypt)).1 =
          some (loginReply plainBcrypt 4000 (asked.account username) (js "password")) := by
  obtain ⟨tr, hrun⟩ := slowLogin_run
  have hcall : aliceLogin ∈ (afterEvents slowLogin).calls :=
    slowLogin_calls ▸ List.mem_singleton_self _
  exact ⟨tr, hrun, password_login hrun hcall rfl 4000 aliceDraws []⟩

end Aestival
