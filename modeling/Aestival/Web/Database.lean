import Aestival.Library.JsString
import Aestival.Library.Prog
import Mathlib.Data.List.Nodup
import Mathlib.Data.List.Sort

/-!
# The auth database

The tables of `db.ts` and the SQL statements of the backend. `AuthDb` carries the constraints of the
schema, so a state that violates one cannot be built: a statement that would violate it fails and
leaves the tables as they are. Deleting a user deletes its accounts and its credentials.

The functions over the database are programs over its statements (`SqlM`). They are run by
`AuthDb.machine`, where a statement fails only because of a constraint. A transaction remembers the
tables it began with (`Connection.saved`).
-/

namespace Aestival

/-! ### Rows -/

/-- `CHECK(provider IN ('github', 'qq'))`. -/
inductive Provider where
  | github
  | qq
  deriving DecidableEq, Repr

def Provider.name : Provider → JsString
  | .github => js "github"
  | .qq => js "qq"

/-- A row of `users`. -/
structure UserRow where
  id : JsString
  username : JsString
  avatarUrl : JsString := []
  createdAt : JsString := []
  deriving DecidableEq, Repr

/-- What `UNIQUE(provider, provider_user_id)` is about. -/
abbrev Identity := Provider × JsString

/-- A row of `oauth_accounts`. -/
structure OAuthRow where
  id : JsString
  userId : JsString
  provider : Provider
  providerUserId : JsString
  providerUsername : JsString := []
  accessToken : JsString := []
  refreshToken : JsString := []
  tokenExpiresAt : Option JsString := none
  createdAt : JsString := []
  deriving DecidableEq, Repr

def OAuthRow.identity (a : OAuthRow) : Identity := (a.provider, a.providerUserId)

/-- A row of `credentials`. -/
structure CredentialRow where
  userId : JsString
  passwordHash : JsString
  updatedAt : JsString := []
  deriving DecidableEq, Repr

/-- The tables, with the constraints of the schema. -/
structure AuthDb where
  users : List UserRow := []
  accounts : List OAuthRow := []
  credentials : List CredentialRow := []
  userIds : (users.map UserRow.id).Nodup := by decide
  usernames : (users.map UserRow.username).Nodup := by decide
  accountIds : (accounts.map OAuthRow.id).Nodup := by decide
  identities : (accounts.map OAuthRow.identity).Nodup := by decide
  owners : ∀ a ∈ accounts, a.userId ∈ users.map UserRow.id := by decide
  credentialIds : (credentials.map CredentialRow.userId).Nodup := by decide
  credentialOwners : ∀ c ∈ credentials, c.userId ∈ users.map UserRow.id := by decide

/-- The tables as `getAuthDb` creates them. -/
def AuthDb.empty : AuthDb := {}

/-- Why a statement fails. -/
inductive SqliteError where
  | constraint
  | io
  deriving DecidableEq, Repr

/-! ### Queries -/

namespace AuthDb

def findUser (db : AuthDb) (id : JsString) : Option UserRow :=
  db.users.find? fun u => u.id = id

def findUsername (db : AuthDb) (username : JsString) : Option UserRow :=
  db.users.find? fun u => u.username = username

def findIdentity (db : AuthDb) (i : Identity) : Option OAuthRow :=
  db.accounts.find? fun a => a.identity = i

/-- The account of an identity, joined with its user. -/
def findOwner (db : AuthDb) (i : Identity) : Option (OAuthRow × UserRow) := do
  let a ← db.findIdentity i
  let u ← db.findUser a.userId
  return (a, u)

def accountsOf (db : AuthDb) (userId : JsString) : List OAuthRow :=
  db.accounts.filter fun a => a.userId = userId

def findCredential (db : AuthDb) (userId : JsString) : Option CredentialRow :=
  db.credentials.find? fun c => c.userId = userId

/-- `ORDER BY created_at`. -/
def orderByCreatedAt (rows : List OAuthRow) : List OAuthRow :=
  rows.insertionSort fun a b => JsString.le a.createdAt b.createdAt = true

/-- A user, joined with its credentials. -/
def findLogin (db : AuthDb) (username : JsString) : Option (UserRow × CredentialRow) := do
  let u ← db.findUsername username
  let c ← db.findCredential u.id
  return (u, c)

/-! ### Updates -/

/-- `INSERT INTO users`. -/
def insertUser (db : AuthDb) (u : UserRow) : Except SqliteError AuthDb :=
  if hid : u.id ∈ db.users.map UserRow.id then .error .constraint
  else if hname : u.username ∈ db.users.map UserRow.username then .error .constraint
  else .ok
    { db with
      users := db.users ++ [u]
      userIds := by
        rw [List.map_append, List.map_singleton]
        exact db.userIds.append (List.nodup_singleton _) (List.disjoint_singleton.mpr hid)
      usernames := by
        rw [List.map_append, List.map_singleton]
        exact db.usernames.append (List.nodup_singleton _) (List.disjoint_singleton.mpr hname)
      owners := fun a ha => by
        rw [List.map_append]
        exact List.mem_append_left _ (db.owners a ha)
      credentialOwners := fun c hc => by
        rw [List.map_append]
        exact List.mem_append_left _ (db.credentialOwners c hc) }

/-- `INSERT INTO oauth_accounts`. -/
def insertAccount (db : AuthDb) (a : OAuthRow) : Except SqliteError AuthDb :=
  if hid : a.id ∈ db.accounts.map OAuthRow.id then .error .constraint
  else if hidentity : a.identity ∈ db.accounts.map OAuthRow.identity then .error .constraint
  else if howner : a.userId ∈ db.users.map UserRow.id then .ok
    { db with
      accounts := db.accounts ++ [a]
      accountIds := by
        rw [List.map_append, List.map_singleton]
        exact db.accountIds.append (List.nodup_singleton _) (List.disjoint_singleton.mpr hid)
      identities := by
        rw [List.map_append, List.map_singleton]
        exact db.identities.append (List.nodup_singleton _) (List.disjoint_singleton.mpr hidentity)
      owners := fun b hb => by
        rcases List.mem_append.mp hb with hb | hb
        · exact db.owners b hb
        · exact List.mem_singleton.mp hb ▸ howner }
  -- the foreign key has no user
  else .error .constraint

/-- `INSERT INTO credentials`. -/
def insertCredential (db : AuthDb) (c : CredentialRow) : Except SqliteError AuthDb :=
  if hid : c.userId ∈ db.credentials.map CredentialRow.userId then .error .constraint
  else if howner : c.userId ∈ db.users.map UserRow.id then .ok
    { db with
      credentials := db.credentials ++ [c]
      credentialIds := by
        rw [List.map_append, List.map_singleton]
        exact db.credentialIds.append (List.nodup_singleton _) (List.disjoint_singleton.mpr hid)
      credentialOwners := fun d hd => by
        rcases List.mem_append.mp hd with hd | hd
        · exact db.credentialOwners d hd
        · exact List.mem_singleton.mp hd ▸ howner }
  else .error .constraint

/-- Rows that are updated in place keep the key `f` when the update does. -/
theorem map_key_update {α κ : Type} {f : α → κ} {g : α → α} (h : ∀ a, f (g a) = f a)
    (rows : List α) : (rows.map g).map f = rows.map f := by
  rw [List.map_map]
  exact List.map_congr_left fun a _ => h a

/-- `UPDATE users`, of columns no constraint is about. -/
def updateUsers (db : AuthDb) (g : UserRow → UserRow) (hid : ∀ u, (g u).id = u.id)
    (hname : ∀ u, (g u).username = u.username) : AuthDb :=
  { db with
    users := db.users.map g
    userIds := by rw [map_key_update hid]; exact db.userIds
    usernames := by rw [map_key_update hname]; exact db.usernames
    owners := by rw [map_key_update hid]; exact db.owners
    credentialOwners := by rw [map_key_update hid]; exact db.credentialOwners }

/-- `UPDATE oauth_accounts`, of columns that are in no key. -/
def updateAccounts (db : AuthDb) (g : OAuthRow → OAuthRow) (hid : ∀ a, (g a).id = a.id)
    (hidentity : ∀ a, (g a).identity = a.identity)
    (howner : ∀ a ∈ db.accounts, (g a).userId ∈ db.users.map UserRow.id) : AuthDb :=
  { db with
    accounts := db.accounts.map g
    accountIds := by rw [map_key_update hid]; exact db.accountIds
    identities := by rw [map_key_update hidentity]; exact db.identities
    owners := fun b hb => by
      obtain ⟨a, ha, rfl⟩ := List.mem_map.mp hb
      exact howner a ha }

/-- The avatar of a user. -/
def updateAvatar (db : AuthDb) (avatarUrl userId : JsString) : AuthDb :=
  db.updateUsers (fun u => if u.id = userId then { u with avatarUrl } else u)
    (fun u => by split <;> rfl) (fun u => by split <;> rfl)

/-- The tokens and the name of an account, as the provider has given them. -/
structure AccountTokens where
  accessToken : JsString
  refreshToken : JsString
  tokenExpiresAt : Option JsString
  providerUsername : JsString
  deriving DecidableEq, Repr

def updateTokens (db : AuthDb) (t : AccountTokens) (accountId : JsString) : AuthDb :=
  db.updateAccounts
    (fun a => if a.id = accountId then
      { a with
        accessToken := t.accessToken
        refreshToken := t.refreshToken
        tokenExpiresAt := t.tokenExpiresAt
        providerUsername := t.providerUsername }
      else a)
    (fun a => by split <;> rfl) (fun a => by split <;> rfl)
    (fun a ha => by split <;> exact db.owners a ha)

/-- `UPDATE oauth_accounts SET user_id`. The new owner must exist. -/
def updateOwner (db : AuthDb) (userId accountId : JsString) : Except SqliteError AuthDb :=
  if h : accountId ∈ db.accounts.map OAuthRow.id → userId ∈ db.users.map UserRow.id then .ok
    (db.updateAccounts (fun a => if a.id = accountId then { a with userId } else a)
      (fun a => by split <;> rfl) (fun a => by split <;> rfl)
      (fun a ha => by
        split
        · next hid => exact h (hid ▸ List.mem_map_of_mem ha)
        · exact db.owners a ha))
  else .error .constraint

/-- `INSERT … ON CONFLICT(user_id) DO UPDATE`. -/
def upsertCredential (db : AuthDb) (c : CredentialRow) : Except SqliteError AuthDb :=
  if c.userId ∈ db.credentials.map CredentialRow.userId then
    -- the row that conflicts is updated, and keeps its first date
    let g : CredentialRow → CredentialRow := fun d =>
      if d.userId = c.userId then
        { d with passwordHash := c.passwordHash, updatedAt := c.updatedAt }
      else d
    have hid : ∀ d, (g d).userId = d.userId := fun d => by
      show CredentialRow.userId (if _ then _ else _) = _
      split <;> rfl
    .ok
      { db with
        credentials := db.credentials.map g
        credentialIds := by rw [map_key_update hid]; exact db.credentialIds
        credentialOwners := fun d hd => by
          obtain ⟨d', hd', rfl⟩ := List.mem_map.mp hd
          rw [hid]
          exact db.credentialOwners d' hd' }
  -- without a conflict it is a plain INSERT
  else db.insertCredential c

/-- `DELETE FROM oauth_accounts`. -/
def deleteAccount (db : AuthDb) (accountId : JsString) : AuthDb :=
  { db with
    accounts := db.accounts.filter fun a => a.id ≠ accountId
    accountIds := db.accountIds.sublist (List.filter_sublist.map _)
    identities := db.identities.sublist (List.filter_sublist.map _)
    owners := fun a ha => db.owners a (List.mem_of_mem_filter ha) }

/-- `DELETE FROM users`, with the cascades. -/
def deleteUser (db : AuthDb) (userId : JsString) : AuthDb where
  users := db.users.filter fun u => u.id ≠ userId
  -- ON DELETE CASCADE in both tables
  accounts := db.accounts.filter fun a => a.userId ≠ userId
  credentials := db.credentials.filter fun c => c.userId ≠ userId
  userIds := db.userIds.sublist (List.filter_sublist.map _)
  usernames := db.usernames.sublist (List.filter_sublist.map _)
  accountIds := db.accountIds.sublist (List.filter_sublist.map _)
  identities := db.identities.sublist (List.filter_sublist.map _)
  credentialIds := db.credentialIds.sublist (List.filter_sublist.map _)
  owners := fun a ha => by
    obtain ⟨ha, hne⟩ := List.mem_filter.mp ha
    obtain ⟨u, hu, hid⟩ := List.mem_map.mp (db.owners a ha)
    refine List.mem_map.mpr ⟨u, List.mem_filter.mpr ⟨hu, ?_⟩, hid⟩
    rw [hid]
    exact hne
  credentialOwners := fun c hc => by
    obtain ⟨hc, hne⟩ := List.mem_filter.mp hc
    obtain ⟨u, hu, hid⟩ := List.mem_map.mp (db.credentialOwners c hc)
    refine List.mem_map.mpr ⟨u, List.mem_filter.mpr ⟨hu, ?_⟩, hid⟩
    rw [hid]
    exact hne

end AuthDb

/-! ### Statements -/

/-- The statements of the backend. -/
inductive SqlEff where
  | beginTransaction
  | commit
  | rollback
  | selectUser (id : JsString)
  | selectUsername (username : JsString)
  | selectOwner (i : Identity)
  | selectAccounts (userId : JsString)
  | selectLinked (userId : JsString)
  | selectLogin (username : JsString)
  | selectCredential (userId : JsString)
  | insertUser (u : UserRow)
  | insertAccount (a : OAuthRow)
  | insertCredential (c : CredentialRow)
  | upsertCredential (c : CredentialRow)
  | updateAvatar (avatarUrl userId : JsString)
  | updateTokens (t : AuthDb.AccountTokens) (accountId : JsString)
  | updateOwner (userId accountId : JsString)
  | deleteAccount (accountId : JsString)
  | deleteUser (userId : JsString)

/-- What a statement returns. -/
@[reducible] def SqlEff.Res : SqlEff → Type
  | .selectUser _ => Option UserRow
  | .selectUsername _ => Option UserRow
  | .selectOwner _ => Option (OAuthRow × UserRow)
  | .selectAccounts _ => List OAuthRow
  | .selectLinked _ => List OAuthRow
  | .selectLogin _ => Option (UserRow × CredentialRow)
  | .selectCredential _ => Option CredentialRow
  | _ => Unit

abbrev SqlSig : Signature := ⟨SqlEff, fun e => Except SqliteError e.Res⟩

/-- What the code throws: an `Error` of its own, an error of the database, or a `TypeError`. -/
inductive JsError where
  | error (message : JsString)
  | sqlite (err : SqliteError)
  | typeError
  deriving DecidableEq, Repr

/-- A function over the database. -/
abbrev SqlM (α : Type) := Prog SqlSig JsError α

/-- Run a statement; its error is thrown. -/
def sql (e : SqlEff) : SqlM e.Res := do
  let answer : Except SqliteError e.Res ← Prog.perform (S := SqlSig) e
  Prog.ofExcept (answer.mapError JsError.sqlite)

/-- `db.transaction(p)()`. What is thrown inside undoes the statements. -/
def transaction {α : Type} (p : SqlM α) : SqlM α := do
  sql .beginTransaction
  let a ← p.tryCatch fun err => do
    sql .rollback
    .throw err
  sql .commit
  pure a

/-- The tables, and those the running transaction has begun with. -/
structure Connection where
  db : AuthDb
  saved : Option AuthDb := none

namespace Connection

/-- A statement that reads. -/
def query {α : Type} (c : Connection) (f : AuthDb → α) : Except SqliteError (α × Connection) :=
  .ok (f c.db, c)

/-- A statement that writes. -/
def write (c : Connection) (result : Except SqliteError AuthDb) :
    Except SqliteError (Unit × Connection) :=
  result.map fun db => ((), { c with db })

/-- What a statement does. -/
def exec (c : Connection) : (e : SqlEff) → Except SqliteError (e.Res × Connection)
  | .beginTransaction => .ok ((), { c with saved := some c.db })
  | .commit => .ok ((), { c with saved := none })
  -- what was written since the beginning is gone
  | .rollback => .ok ((), { db := c.saved.getD c.db })
  | .selectUser id => c.query (·.findUser id)
  | .selectUsername username => c.query (·.findUsername username)
  | .selectOwner i => c.query (·.findOwner i)
  | .selectAccounts userId => c.query (·.accountsOf userId)
  | .selectLinked userId => c.query fun db => AuthDb.orderByCreatedAt (db.accountsOf userId)
  | .selectLogin username => c.query (·.findLogin username)
  | .selectCredential userId => c.query (·.findCredential userId)
  | .insertUser u => c.write (c.db.insertUser u)
  | .insertAccount a => c.write (c.db.insertAccount a)
  | .insertCredential cr => c.write (c.db.insertCredential cr)
  | .upsertCredential cr => c.write (c.db.upsertCredential cr)
  | .updateAvatar avatarUrl userId => c.write (.ok (c.db.updateAvatar avatarUrl userId))
  | .updateTokens t accountId => c.write (.ok (c.db.updateTokens t accountId))
  | .updateOwner userId accountId => c.write (c.db.updateOwner userId accountId)
  | .deleteAccount accountId => c.write (.ok (c.db.deleteAccount accountId))
  | .deleteUser userId => c.write (.ok (c.db.deleteUser userId))

/-- What a statement answers. -/
def answer (c : Connection) (e : SqlEff) : Except SqliteError e.Res := (c.exec e).map Prod.fst

/-- The tables behind a statement. One that fails changes nothing. -/
def next (c : Connection) (e : SqlEff) : Connection :=
  match c.exec e with
  | .ok (_, c') => c'
  | .error _ => c

end Connection

/-- The database. -/
def AuthDb.machine : Machine SqlSig Connection where
  admits c e x := x = c.answer e
  next c e _ := c.next e

/-- Call a function over the database: its result and the tables it leaves. -/
def SqlM.call {α : Type} (p : SqlM α) (db : AuthDb) : Except JsError α × AuthDb :=
  let (_, c, r) := Prog.simulate AuthDb.machine Connection.answer { db } p
  (r, c.db)

/-! ### Rules -/

/-- Every run of the function from `c` ends in `Q`. -/
abbrev SqlM.Ensures {α : Type} (p : SqlM α) (Q : Except JsError α → Connection → Prop)
    (c : Connection) : Prop :=
  Prog.wp AuthDb.machine (fun _ _ => True) p Q c

section Rules

open Prog

variable {α β : Type} {c : Connection}

/-- A statement and what follows it. -/
theorem ensures_sql_bind {e : SqlEff} {f : e.Res → SqlM β}
    {Q : Except JsError β → Connection → Prop}
    (hok : ∀ a c', c.exec e = .ok (a, c') → (f a).Ensures Q c')
    (herror : ∀ err, c.exec e = .error err → Q (.error (.sqlite err)) c) :
    (sql e >>= f).Ensures Q c := by
  refine wp_bind.mpr ?_
  unfold sql
  rw [wp_perform_bind]
  refine ⟨trivial, fun x hx => ?_⟩
  -- a statement is answered as the database has it
  obtain rfl : x = c.answer e := hx
  rw [wp_ofExcept]
  show Then _ _ _ _ ((c.answer e).mapError JsError.sqlite) (c.next e)
  unfold Connection.answer Connection.next
  cases hexec : c.exec e with
  | error err => exact herror err hexec
  | ok r => exact hok r.1 r.2 hexec

/-- A statement that cannot fail, and what follows it. -/
theorem ensures_sql_ok {e : SqlEff} {f : e.Res → SqlM β}
    {Q : Except JsError β → Connection → Prop} {a : e.Res} {c' : Connection}
    (hexec : c.exec e = .ok (a, c')) (h : (f a).Ensures Q c') : (sql e >>= f).Ensures Q c := by
  refine ensures_sql_bind (fun b c'' hb => ?_) fun err herr => ?_
  · rw [hexec] at hb
    cases hb
    exact h
  · rw [hexec] at herr
    cases herr

/-- A statement at the end. -/
theorem ensures_sql {e : SqlEff} {Q : Except JsError e.Res → Connection → Prop}
    (hok : ∀ a c', c.exec e = .ok (a, c') → Q (.ok a) c')
    (herror : ∀ err, c.exec e = .error err → Q (.error (.sqlite err)) c) :
    (sql e).Ensures Q c := by
  unfold sql
  refine ⟨trivial, fun x hx => ?_⟩
  obtain rfl : x = c.answer e := hx
  show wp _ _ (ofExcept _) _ (c.next e)
  rw [wp_ofExcept]
  unfold Connection.answer Connection.next
  cases hexec : c.exec e with
  | error err => exact herror err hexec
  | ok r => exact hok r.1 r.2 hexec

/-- A transaction. What fails inside leaves the tables as they were. -/
theorem ensures_transaction {p : SqlM α} {Q : Except JsError α → Connection → Prop}
    (h : p.Ensures (fun r c' => c'.saved = some c.db ∧
      (∀ a, r = .ok a → Q (.ok a) { db := c'.db }) ∧
      ∀ err, r = .error err → Q (.error err) { db := c.db }) { c with saved := some c.db }) :
    (transaction p).Ensures Q c := by
  unfold transaction
  refine ensures_sql_ok (a := ()) rfl ?_
  refine wp_bind.mpr (wp_tryCatch.mpr (wp_mono h ?_))
  rintro r c' ⟨hsaved, hok, herror⟩
  cases r with
  -- COMMIT
  | ok a => exact ensures_sql_ok (a := ()) rfl (hok a rfl)
  -- ROLLBACK
  | error err =>
    refine ensures_sql_ok (a := ()) rfl ?_
    rw [hsaved]
    exact herror err rfl

/-- A function has a run from every connection. -/
theorem SqlM.exec_answer (p : SqlM α) (c : Connection) :
    Exec AuthDb.machine c p (Prog.simulate AuthDb.machine Connection.answer c p).1
      (Prog.simulate AuthDb.machine Connection.answer c p).2.1
      (Prog.simulate AuthDb.machine Connection.answer c p).2.2 :=
  exec_simulate (fun _ _ => rfl) c p

/-- What is verified of a function holds of its calls. -/
theorem SqlM.Ensures.call {p : SqlM α} {db : AuthDb} {Q : Except JsError α → Connection → Prop}
    (h : p.Ensures Q { db }) : ∃ saved, Q (p.call db).1 { db := (p.call db).2, saved } :=
  ⟨_, ((p.exec_answer { db }).of_wp h).1⟩

end Rules

end Aestival
