import Aestival.Web.Database

/-!
# Passwords

`credentials.ts`. Hashes are texts that the hash function has returned; computing and comparing them
happens outside the database, between the parts of a function that are given here.
-/

namespace Aestival

/-- What a call draws from its surroundings: new ids and the present time. `rounds` bounds the
loop that looks for a free name. -/
structure Draws where
  userId : JsString
  accountId : JsString
  datetime : JsString := []
  isoDate : JsString := []
  rounds : Nat := 1
  deriving DecidableEq, Repr

/-! ### Checks -/

def MIN_PASSWORD_LEN : Nat := 8
def MAX_PASSWORD_LEN : Nat := 128

/-- The code units of `USERNAME_RE`. -/
def isUsernameUnit (c : UInt16) : Bool :=
  (48 ≤ c && c ≤ 57) || (65 ≤ c && c ≤ 90) || (97 ≤ c && c ≤ 122) || c = 95 || c = 45 ||
    (0x4E00 ≤ c && c ≤ 0x9FFF) || (0x3400 ≤ c && c ≤ 0x4DBF)

/-- `validateUsername`. `none` stands for a value that is missing or is no text. -/
def validateUsername : Option JsString → Option JsString
  | none => some (js "用户名不能为空")
  | some username =>
    let trimmed := username.trim
    if username = [] then some (js "用户名不能为空")
    else if trimmed.length < 2 ∨ trimmed.length > 32 then
      some (js "用户名长度需在 2-32 个字符之间")
    else if trimmed.all isUsernameUnit then none
    else some (js "用户名只能包含字母、数字、下划线、连字符和中文")

/-- `validatePassword`. -/
def validatePassword : Option JsString → Option JsString
  | none => some (js "密码不能为空")
  | some password =>
    if password = [] then some (js "密码不能为空")
    else if password.length < MIN_PASSWORD_LEN then some (js "密码长度至少为 8 个字符")
    else if password.length > MAX_PASSWORD_LEN then some (js "密码长度不能超过 128 个字符")
    else none

/-! ### Operations -/

/-- `getUserByUsername`. -/
def getUserByUsername (username : JsString) : SqlM (Option UserRow) :=
  sql (.selectUsername username)

/-- `registerWithPassword`, behind the hash of the password. -/
def registerWithPassword (draws : Draws) (username hash : JsString) : SqlM (Option UserRow) := do
  let trimmed := username.trim
  transaction do
    let existing : Option UserRow ← sql (.selectUsername trimmed)
    if existing.isSome then .throw (.error (js "用户名已被占用"))
    else do
      sql (.insertUser
        { id := draws.userId, username := trimmed, avatarUrl := [], createdAt := draws.datetime })
      sql (.insertCredential
        { userId := draws.userId, passwordHash := hash, updatedAt := draws.datetime })
  getUserByUsername trimmed

/-- The lookup of `loginWithPassword`. -/
def loginRow (username : JsString) : SqlM (Option (UserRow × CredentialRow)) :=
  sql (.selectLogin username.trim)

/-- The result of `loginWithPassword`, behind the comparison of the password. A user that was not
found is compared with a hash of no password. -/
def loginResult (row : Option (UserRow × CredentialRow)) (valid : Bool) : Option UserRow :=
  match row with
  | none => none
  | some (user, _) => if valid then some user else none

/-- `setPassword`. -/
def setPassword (draws : Draws) (userId passwordHash : JsString) : SqlM Unit :=
  sql (.upsertCredential { userId, passwordHash, updatedAt := draws.datetime })

/-- `ensureAdminPassword`, behind the hash of the password. `user` is what `getUserByUsername` has
found in front of it. -/
def ensureAdminPassword (draws : Draws) (user : Option UserRow) (passwordHash : JsString) :
    SqlM Bool :=
  match user with
  | none => pure false
  | some user => do
    setPassword draws user.id passwordHash
    pure true

/-- `hasPassword`. -/
def hasPassword (userId : JsString) : SqlM Bool := do
  let row : Option CredentialRow ← sql (.selectCredential userId)
  pure row.isSome

end Aestival
