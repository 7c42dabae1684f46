import Aestival.Web.BackendSteps

/-!
# The stored hashes

What the statements and the handlers do to the hashes of the passwords (`AuthDb.hashOf`). Three
functions write one: a registration, a new password and the password of the administrator. Nothing
else changes the hash of a user that stays (`AuthDb.KeepsHashes`), and a merge drops that of its
source.

* `SqlM.Only.call`: a property that the statements of a function keep, the function keeps.
* `Backend.hashOf_react`: the hashes behind any event.
-/

namespace Aestival

open AuthDb Prog

/-- The hash of the password of a user. -/
def AuthDb.hashOf (db : AuthDb) (u : JsString) : Option JsString :=
  (db.findCredential u).map CredentialRow.passwordHash

namespace AuthDb

variable {db db' db'' : AuthDb} {u v h : JsString} {cr : CredentialRow}

/-! ### Statements -/

theorem findCredential_eq_some :
    db.findCredential u = some cr ↔ cr ∈ db.credentials ∧ cr.userId = u := by
  constructor
  · intro hfind
    exact ⟨List.mem_of_find?_eq_some hfind, of_decide_eq_true (List.find?_some hfind :)⟩
  · rintro ⟨hcr, rfl⟩
    obtain ⟨cr', hcr'⟩ : ∃ cr', db.findCredential cr.userId = some cr' := by
      rw [← Option.isSome_iff_exists, findCredential_isSome]
      exact List.mem_map_of_mem hcr
    have hmem := List.mem_of_find?_eq_some hcr'
    have hkey : cr'.userId = cr.userId := of_decide_eq_true (List.find?_some hcr' :)
    rw [hcr', List.inj_on_of_nodup_map db.credentialIds hmem hcr hkey]

theorem hashOf_eq_some :
    db.hashOf u = some h ↔ ∃ cr ∈ db.credentials, cr.userId = u ∧ cr.passwordHash = h := by
  rw [hashOf, Option.map_eq_some_iff]
  constructor
  · rintro ⟨cr, hfind, rfl⟩
    obtain ⟨hcr, hu⟩ := findCredential_eq_some.mp hfind
    exact ⟨cr, hcr, hu, rfl⟩
  · rintro ⟨cr, hcr, hu, rfl⟩
    exact ⟨cr, findCredential_eq_some.mpr ⟨hcr, hu⟩, rfl⟩

theorem hashOf_congr (hcredentials : db'.credentials = db.credentials) (u : JsString) :
    db'.hashOf u = db.hashOf u := by
  rw [hashOf, findCredential, hcredentials, ← findCredential, ← hashOf]

/-- Only users have a password. -/
theorem hashOf_eq_none (hu : u ∉ db.users.map UserRow.id) : db.hashOf u = none := by
  rw [Option.eq_none_iff_forall_ne_some]
  intro h hsome
  obtain ⟨cr, hcr, rfl, -⟩ := hashOf_eq_some.mp hsome
  exact hu (db.credentialOwners cr hcr)

/-- Who has which hash is said by the rows. -/
theorem hashOf_eq_of_rows {f : JsString → Option JsString}
    (hrow : ∀ cr ∈ db.credentials, f cr.userId = some cr.passwordHash)
    (hthere : ∀ u h, f u = some h → u ∈ db.credentials.map CredentialRow.userId) :
    db.hashOf u = f u := by
  cases hfu : f u with
  -- a row of the user, which has the hash
  | some h =>
    obtain ⟨cr, hcr, hu⟩ := List.mem_map.mp (hthere u h hfu)
    have hsame := (hrow cr hcr).symm.trans ((congrArg f hu).trans hfu)
    exact hashOf_eq_some.mpr ⟨cr, hcr, hu, Option.some.inj hsame⟩
  -- a row would have one
  | none =>
    rw [Option.eq_none_iff_forall_ne_some]
    intro h hsome
    obtain ⟨cr, hcr, rfl, -⟩ := hashOf_eq_some.mp hsome
    rw [hrow cr hcr] at hfu
    cases hfu

theorem hashOf_insertCredential (hinsert : db.insertCredential cr = .ok db') :
    db'.hashOf u = if u = cr.userId then some cr.passwordHash else db.hashOf u := by
  -- a second row for the user would break the unique index
  have hnew : cr.userId ∉ db.credentials.map CredentialRow.userId := by
    intro hmem
    rw [insertCredential, dif_pos hmem] at hinsert
    cases hinsert
  obtain ⟨-, -, -, hcredentials⟩ := insertCredential_eq_ok hinsert
  refine hashOf_eq_of_rows (f := fun u => if u = cr.userId then _ else db.hashOf u) ?_ ?_
  -- the rows that are there: the old ones belong to other users
  · intro r hr
    rw [hcredentials] at hr
    rcases List.mem_append.mp hr with hr | hr
    · have hne : r.userId ≠ cr.userId := fun heq => hnew (heq ▸ List.mem_map_of_mem hr)
      rw [if_neg hne]
      exact hashOf_eq_some.mpr ⟨r, hr, rfl, rfl⟩
    · obtain rfl := List.mem_singleton.mp hr
      exact if_pos rfl
  -- whoever has a hash has a row
  · intro u h hu
    rw [hcredentials, List.map_append]
    split at hu
    case isTrue heq => exact List.mem_append_right _ (heq ▸ List.mem_singleton_self _)
    case isFalse =>
      obtain ⟨r, hr, rfl, -⟩ := hashOf_eq_some.mp hu
      exact List.mem_append_left _ (List.mem_map_of_mem hr)

/-- A password can be set for every user. -/
theorem exists_upsertCredential (hu : cr.userId ∈ db.users.map UserRow.id) :
    ∃ db', db.upsertCredential cr = .ok db' := by
  unfold upsertCredential
  split
  · exact ⟨_, rfl⟩
  next hnew =>
  unfold insertCredential
  rw [dif_neg hnew, dif_pos hu]
  exact ⟨_, rfl⟩

theorem hashOf_upsertCredential (hupsert : db.upsertCredential cr = .ok db') :
    db'.hashOf u = if u = cr.userId then some cr.passwordHash else db.hashOf u := by
  unfold upsertCredential at hupsert
  split at hupsert
  case isFalse => exact hashOf_insertCredential hupsert
  case isTrue hthere =>
    -- the row that is there is updated in its place
    cases hupsert
    refine hashOf_eq_of_rows (f := fun u => if u = cr.userId then _ else db.hashOf u) ?_ ?_
    · intro r hr
      obtain ⟨old, hold, rfl⟩ := List.mem_map.mp hr
      split
      case isTrue => rfl
      case isFalse => exact hashOf_eq_some.mpr ⟨old, hold, rfl, rfl⟩
    · intro u h hu
      have hold : u ∈ db.credentials.map CredentialRow.userId := by
        split at hu
        case isTrue heq => exact heq ▸ hthere
        case isFalse =>
          obtain ⟨r, hr, rfl, -⟩ := hashOf_eq_some.mp hu
          exact List.mem_map_of_mem hr
      show u ∈ (db.credentials.map _).map CredentialRow.userId
      rw [map_key_update]
      · exact hold
      · intro r
        split <;> rfl

theorem hashOf_deleteUser : (db.deleteUser v).hashOf u = if u = v then none else db.hashOf u := by
  refine hashOf_eq_of_rows (f := fun u => if u = v then none else db.hashOf u) ?_ ?_
  · intro r hr
    obtain ⟨hr, hne⟩ := List.mem_filter.mp hr
    rw [if_neg (of_decide_eq_true hne)]
    exact hashOf_eq_some.mpr ⟨r, hr, rfl, rfl⟩
  · intro u h hu
    split at hu
    case isTrue => cases hu
    case isFalse hne =>
      obtain ⟨r, hr, rfl, -⟩ := hashOf_eq_some.mp hu
      exact List.mem_map_of_mem (List.mem_filter.mpr ⟨hr, decide_eq_true hne⟩)

/-! ### Hashes of users that stay -/

/-- A user that is there has the hash it had before. -/
def KeepsHashes (db db' : AuthDb) : Prop :=
  ∀ u, db'.hashOf u = if u ∈ db'.users.map UserRow.id then db.hashOf u else none

theorem keepsHashes_of_credentials (hcredentials : db'.credentials = db.credentials) :
    db.KeepsHashes db' := by
  intro u
  split
  case isTrue => exact hashOf_congr hcredentials u
  case isFalse hu => exact hashOf_eq_none hu

theorem KeepsHashes.refl (db : AuthDb) : db.KeepsHashes db := keepsHashes_of_credentials rfl

/-- No user comes back. -/
theorem KeepsHashes.trans (h : db.KeepsHashes db') (h' : db'.KeepsHashes db'')
    (hsub : db''.users.map UserRow.id ⊆ db'.users.map UserRow.id) : db.KeepsHashes db'' := by
  intro u
  rw [h' u]
  split
  case isTrue hu => rw [h u, if_pos (hsub hu)]
  case isFalse => rfl

theorem keepsHashes_deleteUser (db : AuthDb) (v : JsString) : db.KeepsHashes (db.deleteUser v) := by
  intro u
  rw [hashOf_deleteUser]
  by_cases huv : u = v
  -- the user is gone with the hash
  · have hgone : u ∉ (db.deleteUser v).users.map UserRow.id := by
      rintro hmem
      obtain ⟨row, hrow, hid⟩ := List.mem_map.mp hmem
      exact of_decide_eq_true (List.mem_filter.mp hrow).2 (hid.trans huv)
    rw [if_pos huv, if_neg hgone]
  · rw [if_neg huv]
    split
    case isTrue => rfl
    -- another user who is not there had no row before
    case isFalse hgone =>
      refine hashOf_eq_none fun hmem => hgone ?_
      obtain ⟨row, hrow, rfl⟩ := List.mem_map.mp hmem
      exact List.mem_map_of_mem (List.mem_filter.mpr ⟨hrow, decide_eq_true huv⟩)

end AuthDb

/-! ### Functions -/

/-- What a statement makes of the tables. -/
def SqlEff.writes (db : AuthDb) : SqlEff → Except SqliteError AuthDb
  | .insertUser u => db.insertUser u
  | .insertAccount a => db.insertAccount a
  | .insertCredential c => db.insertCredential c
  | .upsertCredential c => db.upsertCredential c
  | .updateAvatar avatarUrl userId => .ok (db.updateAvatar avatarUrl userId)
  | .updateTokens t accountId => .ok (db.updateTokens t accountId)
  | .updateOwner userId accountId => db.updateOwner userId accountId
  | .deleteAccount accountId => .ok (db.deleteAccount accountId)
  | .deleteUser userId => .ok (db.deleteUser userId)
  | _ => .ok db

/-- A statement that leaves all passwords. -/
def SqlEff.SparesPasswords : SqlEff → Prop
  | .insertCredential _ | .upsertCredential _ | .deleteUser _ => False
  | _ => True

/-- A statement that sets no password and adds no user. -/
def SqlEff.AddsNothing : SqlEff → Prop
  | .insertCredential _ | .upsertCredential _ | .insertUser _ => False
  | _ => True

section Functions

variable {α β : Type} {A : SqlEff → Prop} {p : SqlM α} {db : AuthDb}

theorem only_sql {e : SqlEff} (he : A e) : Only A (sql e : SqlM e.Res) :=
  ⟨he, fun _ => only_ofExcept _⟩

theorem only_sql_bind {e : SqlEff} {f : e.Res → SqlM β} (he : A e) (hf : ∀ a, Only A (f a)) :
    Only A (sql e >>= f) :=
  (only_sql he).bind hf

theorem only_transaction (hbegin : A .beginTransaction) (hcommit : A .commit)
    (hrollback : A .rollback) (h : Only A p) : Only A (transaction p) := by
  refine only_sql_bind hbegin fun _ => Only.bind ?_ fun _ => only_sql_bind hcommit fun _ => trivial
  exact h.tryCatch fun _ => only_sql_bind hrollback fun _ => trivial

/-- What all statements of a function keep. A transaction that is undone leaves tables that were
there before. -/
theorem SqlM.Only.call {I : AuthDb → Prop} (h : Only A p)
    (hA : ∀ e, A e → ∀ db db', I db → e.writes db = .ok db' → I db') (hI : I db) :
    I (p.call db).2 := by
  -- the copy that a rollback would bring back satisfies the invariant as well
  have hwp : p.Ensures (fun _ c => I c.db ∧ ∀ d, c.saved = some d → I d) { db } := by
    refine Only.wp h ?_ ⟨hI, fun _ hsaved => nomatch hsaved⟩
    rintro e he c ⟨hdb, hsaved⟩
    refine ⟨trivial, fun _ _ => ?_⟩
    show I (c.next e).db ∧ ∀ d, (c.next e).saved = some d → I d
    unfold Connection.next
    cases hexec : c.exec e with
    | error err => exact ⟨hdb, hsaved⟩
    | ok r =>
      obtain ⟨a, c'⟩ := r
      cases e with
      -- the statements of transactions move between the database and the copy
      | beginTransaction =>
        cases hexec
        exact ⟨hdb, fun d hd => Option.some.inj hd ▸ hdb⟩
      | commit =>
        cases hexec
        exact ⟨hdb, fun _ hd => nomatch hd⟩
      | rollback =>
        cases hexec
        refine ⟨?_, fun _ hd => nomatch hd⟩
        cases hbegun : c.saved with
        | none => exact hdb
        | some d => exact hsaved d hbegun
      | selectUser | selectUsername | selectOwner | selectAccounts | selectLinked | selectLogin
      | selectCredential =>
        cases hexec
        exact ⟨hdb, hsaved⟩
      -- the statements that write are those of the hypothesis
      | insertUser | insertAccount | insertCredential | upsertCredential | updateAvatar
      | updateTokens | updateOwner | deleteAccount | deleteUser =>
        obtain ⟨db', hwritten, rfl⟩ := write_eq_ok hexec
        exact ⟨hA _ he _ _ hdb hwritten, hsaved⟩
  exact hwp.call.elim fun _ hI => hI.1

theorem credentials_writes {e : SqlEff} {db' : AuthDb} (he : e.SparesPasswords)
    (hwrites : e.writes db = .ok db') : db'.credentials = db.credentials := by
  cases e with
  -- the statements that write the table are excluded
  | insertCredential | upsertCredential | deleteUser => exact he.elim
  | insertUser => exact (insertUser_eq_ok hwrites).2.2.2
  | insertAccount => exact (insertAccount_eq_ok hwrites).2.2.2
  | updateOwner =>
    have hwrites : db.updateOwner _ _ = .ok db' := hwrites
    unfold updateOwner at hwrites
    split at hwrites
    · cases hwrites
      rfl
    · cases hwrites
  | _ =>
    cases hwrites
    rfl

/-- A function that leaves all passwords. -/
theorem keepsHashes_of_spares (db : AuthDb) (h : Only SqlEff.SparesPasswords p) :
    db.KeepsHashes (p.call db).2 :=
  keepsHashes_of_credentials <| SqlM.Only.call (I := fun d => d.credentials = db.credentials) h
    (fun _ he _ _ hsame hwrites => (credentials_writes he hwrites).trans hsame) rfl

/-- No user is added. -/
theorem users_writes {e : SqlEff} {db' : AuthDb} (he : e.AddsNothing)
    (hwrites : e.writes db = .ok db') : db'.users.map UserRow.id ⊆ db.users.map UserRow.id := by
  have hsame : db'.users.map UserRow.id = db.users.map UserRow.id →
      db'.users.map UserRow.id ⊆ db.users.map UserRow.id := fun heq => heq ▸ List.Subset.refl _
  cases e with
  -- only a new user would be one more
  | insertCredential | upsertCredential | insertUser => exact he.elim
  | insertAccount => exact hsame (congrArg _ (insertAccount_eq_ok hwrites).2.1)
  | updateOwner =>
    have hwrites : db.updateOwner _ _ = .ok db' := hwrites
    unfold updateOwner at hwrites
    split at hwrites
    · cases hwrites
      exact hsame rfl
    · cases hwrites
  | updateAvatar =>
    cases hwrites
    refine hsame (map_key_update ?_ _)
    intro u
    split <;> rfl
  -- a deletion leaves a part of the rows
  | deleteUser =>
    cases hwrites
    exact (List.filter_sublist.map _).subset
  | _ =>
    cases hwrites
    exact hsame rfl

/-- A statement that sets no password deletes a user, or leaves all passwords. -/
theorem SqlEff.AddsNothing.spares {e : SqlEff} (h : e.AddsNothing) :
    (∃ userId, e = .deleteUser userId) ∨ e.SparesPasswords := by
  cases e with
  | deleteUser userId => exact Or.inl ⟨userId, rfl⟩
  | insertCredential | upsertCredential | insertUser => exact h.elim
  | _ => exact Or.inr trivial

/-- A function that sets no password and adds no user. -/
theorem keepsHashes_of_addsNothing (db : AuthDb) (h : Only SqlEff.AddsNothing p) :
    db.KeepsHashes (p.call db).2 := by
  refine SqlM.Only.call h (fun e he d d' hkept hwrites => ?_) (KeepsHashes.refl db)
  refine hkept.trans ?_ (users_writes he hwrites)
  rcases he.spares with ⟨userId, rfl⟩ | hspares
  · cases hwrites
    exact keepsHashes_deleteUser d userId
  · exact keepsHashes_of_credentials (credentials_writes hspares hwrites)

theorem spares_uniqueUsername (rounds : Nat) (base : JsString) :
    Only SqlEff.SparesPasswords (uniqueUsername rounds base) := by
  -- the search reads names only
  have hsuffix : ∀ rounds counter,
      Only SqlEff.SparesPasswords (uniqueSuffix base rounds counter) := by
    intro rounds
    induction rounds with
    | zero => exact fun _ => trivial
    | succ rounds ih =>
      intro counter
      refine only_sql_bind trivial fun taken => ?_
      split
      · exact ih (counter + 1)
      · trivial
  refine only_sql_bind trivial fun existing => ?_
  split
  · exact hsuffix rounds 2
  · trivial

theorem spares_refreshAvatar (profile : OAuthProfile) (user : UserRow) :
    Only SqlEff.SparesPasswords (refreshAvatar profile user) := by
  unfold refreshAvatar
  split
  · exact only_sql_bind trivial fun _ => trivial
  · trivial

theorem spares_findOrCreateUser (draws : Draws) (profile : OAuthProfile)
    (mode currentUserId : Option JsString) :
    Only SqlEff.SparesPasswords (findOrCreateUser draws profile mode currentUserId) := by
  refine only_sql_bind trivial fun row => ?_
  cases row with
  -- a known identity: tokens and avatar are updated, and a conflict is reported
  | some found =>
    refine only_sql_bind trivial fun _ => (spares_refreshAvatar profile found.2).bind fun user => ?_
    split
    · split
      · exact only_sql_bind trivial fun _ => trivial
      · trivial
    · trivial
  -- a new identity: for a new user, or for the one who is logged in
  | none =>
    dsimp only
    split
    · refine (spares_uniqueUsername _ _).bind fun _ => ?_
      exact only_sql_bind trivial fun _ => only_sql_bind trivial fun _ => trivial
    · unfold attachAccount
      split
      · trivial
      · exact only_sql_bind trivial fun _ => only_sql_bind trivial fun _ => trivial

theorem spares_unlinkAccount (userId provider : JsString) :
    Only SqlEff.SparesPasswords (unlinkAccount userId provider) := by
  refine only_sql_bind trivial fun linked => Only.bind ?_ fun credExists => ?_
  · exact only_sql_bind trivial fun _ => trivial
  · dsimp only
    split
    · trivial
    split
    · trivial
    · exact only_sql trivial

theorem addsNothing_moveAccounts (targetUserId : JsString) (rows : List OAuthRow) :
    ∀ targetKeys, Only SqlEff.AddsNothing (moveAccounts targetUserId rows targetKeys) := by
  induction rows with
  | nil => exact fun _ => trivial
  | cons oa rest ih =>
    intro targetKeys
    unfold moveAccounts
    split
    · exact only_sql_bind trivial fun _ => ih _
    · exact only_sql_bind trivial fun _ => ih _

theorem addsNothing_mergeAccounts (targetUserId sourceUserId : JsString) :
    Only SqlEff.AddsNothing (mergeAccounts targetUserId sourceUserId) := by
  unfold mergeAccounts
  split
  · trivial
  refine only_sql_bind trivial fun target => only_sql_bind trivial fun source => ?_
  cases target with
  | none => trivial
  | some target =>
    cases source with
    | none => trivial
    | some source =>
      -- all writes are in the transaction
      refine (only_transaction trivial trivial trivial ?_).bind fun _ => only_sql trivial
      refine only_sql_bind trivial fun _ => only_sql_bind trivial fun _ =>
        (addsNothing_moveAccounts _ _ _).bind fun _ => ?_
      dsimp only
      split
      · exact only_sql_bind trivial fun _ => only_sql trivial
      · exact only_sql trivial

/-! ### Functions that set a password -/

/-- A registration that returns a user has stored its hash, and any other has stored nothing. -/
theorem hashOf_registerWithPassword (db : AuthDb) (draws : Draws) (username hash : JsString) :
    (∃ row, ((registerWithPassword draws username hash).call db).1 = .ok (some row) ∧
      ∀ u, ((registerWithPassword draws username hash).call db).2.hashOf u =
        if u = draws.userId then some hash else db.hashOf u) ∨
    (∃ err, ((registerWithPassword draws username hash).call db).1 = .error err) ∧
      ((registerWithPassword draws username hash).call db).2 = db := by
  -- inside the transaction the copy is the database as it was
  have hrows : (registerRows draws username.trim hash).Ensures (fun r c' =>
      c'.saved = some db ∧ ∀ a, r = .ok a → ∀ u, c'.db.hashOf u =
        if u = draws.userId then some hash else db.hashOf u) { db, saved := some db } := by
    refine ensures_sql_ok rfl ?_
    split
    · exact ⟨rfl, fun _ h => nomatch h⟩
    refine ensures_sql_bind (fun _ c₁ h₁ => ?_) fun err _ => ⟨rfl, fun _ h => nomatch h⟩
    obtain ⟨db₁, hdb₁, rfl⟩ := write_eq_ok h₁
    refine ensures_sql (fun _ c₂ h₂ => ?_) fun err _ => ⟨rfl, fun _ h => nomatch h⟩
    obtain ⟨db₂, hdb₂, rfl⟩ := write_eq_ok h₂
    refine ⟨rfl, fun _ _ u => ?_⟩
    rw [hashOf_insertCredential hdb₂, hashOf_congr (insertUser_eq_ok hdb₁).2.2.2]
  -- when it returns, the rows are there; the user is read back from them
  have hcall : (registerWithPassword draws username hash).Ensures (fun r c' =>
      (∀ row, r = .ok row → ∀ u, c'.db.hashOf u =
        if u = draws.userId then some hash else db.hashOf u)) { db } := by
    refine wp_bind_of (p := transaction (registerRows draws username.trim hash))
      (ensures_transaction_or_failed (c := { db }) (Q := fun _ db' => ∀ u, db'.hashOf u =
        if u = draws.userId then some hash else db.hashOf u) hrows) ?_ ?_
    · rintro ⟨⟩ c₁ (⟨_, -, hhash⟩ | ⟨⟨err, herr⟩, -⟩)
      · refine ensures_sql (fun found c₂ h₂ => ?_) fun err herr => nomatch herr
        cases h₂
        exact fun _ _ => hhash
      · cases herr
    · exact fun err _ _ _ h => nomatch h
  -- how it can end is known already; here the hashes are added to that
  obtain ⟨_, hhash⟩ := hcall.call
  obtain ⟨_, h⟩ := (ensures_registerWithPassword (c := { db }) draws username hash).call
  rcases h with ⟨row, hok, -⟩ | hfailed
  · exact Or.inl ⟨row, hok, hhash (some row) hok⟩
  · exact Or.inr hfailed

/-- A password that was set is stored, and one that was not has changed nothing. -/
theorem ensures_hash_setPassword (draws : Draws) (userId hash : JsString) :
    (setPassword draws userId hash).Ensures (fun r c' =>
      (r = .ok () ∧ userId ∈ db.users.map UserRow.id ∧
        ∀ u, c'.db.hashOf u = if u = userId then some hash else db.hashOf u) ∨
      (∃ err, r = .error err) ∧ userId ∉ db.users.map UserRow.id ∧ c'.db = db) { db } := by
  refine ensures_sql (fun _ c₁ h₁ => ?_) fun err herr => Or.inr ⟨⟨_, rfl⟩, fun hu => ?_, rfl⟩
  · obtain ⟨db₁, hdb₁, rfl⟩ := write_eq_ok h₁
    refine Or.inl ⟨rfl, (upsertCredential_eq_ok hdb₁).1, fun u => ?_⟩
    exact hashOf_upsertCredential hdb₁
  -- the UPSERT fails only without the user
  · have hrow : CredentialRow.userId ⟨userId, hash, draws.datetime⟩ ∈ db.users.map UserRow.id := hu
    obtain ⟨db₁, hdb₁⟩ := exists_upsertCredential hrow
    have hwritten : Connection.write { db } (db.upsertCredential ⟨userId, hash, draws.datetime⟩) =
        .error err := herr
    rw [hdb₁] at hwritten
    cases hwritten

theorem hashOf_setPassword (db : AuthDb) (draws : Draws) (userId hash : JsString) :
    (((setPassword draws userId hash).call db).1 = .ok () ∧
      ∀ u, ((setPassword draws userId hash).call db).2.hashOf u =
        if u = userId then some hash else db.hashOf u) ∨
    (∃ err, ((setPassword draws userId hash).call db).1 = .error err) ∧
      ((setPassword draws userId hash).call db).2 = db := by
  obtain ⟨_, ⟨hok, -, hhash⟩ | ⟨herror, -, hdb⟩⟩ :=
    (ensures_hash_setPassword draws userId hash).call
  · exact Or.inl ⟨hok, hhash⟩
  · exact Or.inr ⟨herror, hdb⟩

/-- The password of the administrator is stored if there is an administrator. -/
theorem hashOf_ensureAdminPassword (db : AuthDb) (draws : Draws) (user : UserRow)
    (hash : JsString) :
    (user.id ∈ db.users.map UserRow.id ∧
      ∀ u, ((ensureAdminPassword draws (some user) hash).call db).2.hashOf u =
        if u = user.id then some hash else db.hashOf u) ∨
    user.id ∉ db.users.map UserRow.id ∧
      ((ensureAdminPassword draws (some user) hash).call db).2 = db := by
  have hcall : (ensureAdminPassword draws (some user) hash).Ensures (fun _ c' =>
      (user.id ∈ db.users.map UserRow.id ∧
        ∀ u, c'.db.hashOf u = if u = user.id then some hash else db.hashOf u) ∨
      user.id ∉ db.users.map UserRow.id ∧ c'.db = db) { db } := by
    -- it is `setPassword` for a user who is there
    refine wp_bind_of (ensures_hash_setPassword draws user.id hash) ?_ ?_
    · rintro ⟨⟩ c₁ (⟨-, hu, hhash⟩ | ⟨⟨err, herr⟩, -⟩)
      · exact Or.inl ⟨hu, hhash⟩
      · cases herr
    · rintro err c₁ (⟨herr, -⟩ | ⟨-, hu, hdb⟩)
      · cases herr
      · exact Or.inr ⟨hu, hdb⟩
  exact hcall.call.elim fun _ h => h

end Functions

/-! ### Handlers -/

/-- The hash a handler has waited for. -/
def WebEvent.hash : WebEvent → JsString
  | .resume _ _ _ outcome => outcome.hash
  | _ => []

namespace Backend

variable {cfg : BackendConfig} {s : Backend} {browser : Browser} {now : Nat} {draws : Draws}

/-- The user whose password an event sets: the one that has been registered, the one that is told
so, or the administrator. -/
def sets (cfg : BackendConfig) (s : Backend) (e : WebEvent) : Option JsString :=
  let status := (s.react cfg e).1.map Reply.status
  match e with
  | .resume _ draws (.register ..) _ => if status = some 201 then some draws.userId else none
  | .resume _ _ (.setPassword _ sub) _ => if status = some 200 then sub else none
  | .resume _ _ (.ensureAdminPassword user) _ =>
    (user.map UserRow.id).filter fun u => u ∈ s.db.users.map UserRow.id
  | _ => none

theorem keepsHashes_same {s' : Backend} (h : s'.db = s.db) : s.db.KeepsHashes s'.db :=
  h ▸ KeepsHashes.refl s.db

theorem keepsHashes_merge (cookie : Option Token) (targetUserId sourceUserId : Option JsString) :
    s.db.KeepsHashes (s.merge browser now cookie targetUserId sourceUserId).2.db := by
  unfold merge
  split
  · exact .refl s.db
  split
  swap
  · exact .refl s.db
  next target source _ _ =>
  split
  · exact .refl s.db
  -- merging moves and deletes rows, and adds no password
  have hkept := keepsHashes_of_addsNothing s.db (addsNothing_mergeAccounts target source)
  generalize (mergeAccounts target source).call s.db = result at hkept ⊢
  obtain ⟨r, db⟩ := result
  rcases r with err | _ | merged
  · exact hkept
  · exact hkept
  · exact hkept

theorem keepsHashes_unlink (cookie : Option Token) (provider : Option JsString) :
    s.db.KeepsHashes (s.unlink browser now cookie provider).2.db := by
  unfold unlink
  split
  · exact .refl s.db
  split
  · exact .refl s.db
  · exact .refl s.db
  next name sub _ _ =>
  -- unlinking deletes an account, and spares the passwords
  have hkept := keepsHashes_of_spares s.db (spares_unlinkAccount sub name)
  generalize (unlinkAccount sub name).call s.db = result at hkept ⊢
  obtain ⟨r, db⟩ := result
  cases r with
  | error err => exact hkept
  | ok x =>
    dsimp only
    split
    · exact hkept
    · exact hkept

theorem keepsHashes_oauthAnswered (provider : Provider) (stateData : Claims)
    (answer : Except ProviderError OAuthProfile) :
    s.db.KeepsHashes (s.oauthAnswered browser now draws provider stateData answer).2.db := by
  unfold oauthAnswered
  split
  -- the provider has failed, and nothing is looked up
  · rw [oauthFailure_eq]
    exact .refl s.db
  next profile =>
  have hkept := keepsHashes_of_spares s.db
    (spares_findOrCreateUser draws { profile with provider } stateData.mode stateData.userId)
  unfold handleOAuthProfile
  -- whatever the lookup returns, only the answer depends on it
  generalize (findOrCreateUser draws { profile with provider } stateData.mode
    stateData.userId).call s.db = result at hkept ⊢
  obtain ⟨r, db⟩ := result
  dsimp only at hkept ⊢
  split
  · next heq =>
    cases heq
    rw [oauthFailure_eq]
    exact hkept
  · next heq =>
    cases heq
    rw [oauthFailure_eq]
    exact hkept
  · next heq =>
    cases heq
    exact hkept
  · next heq =>
    cases heq
    exact hkept

/-- No request sets a password before it has been hashed. -/
theorem keepsHashes_handle (cookie : Option Token) (nonce : JsString) (request : WebRequest) :
    s.db.KeepsHashes (s.handle cfg browser now cookie nonce request).2.db := by
  cases request with
  -- what calls bcrypt writes nothing before the answer of bcrypt
  | register username password =>
    refine keepsHashes_same ?_
    show (s.register cfg browser username password).2.db = s.db
    unfold register
    split
    · rfl
    · split <;> rfl
  | login username password =>
    refine keepsHashes_same ?_
    show (s.login browser username password).2.db = s.db
    unfold login
    split
    · split <;> rfl
    · rfl
  | setPassword password =>
    refine keepsHashes_same ?_
    show (s.setPassword browser now cookie password).2.db = s.db
    unfold setPassword
    split
    · rfl
    · split <;> rfl
  -- these two write, but no hash
  | merge target source => exact keepsHashes_merge cookie target source
  | unlink provider => exact keepsHashes_unlink cookie provider
  -- the flows of the providers only issue and redeem states here
  | githubConfig redirect mode =>
    refine keepsHashes_same ?_
    show (s.githubConfig cfg browser now nonce redirect mode).2.db = s.db
    unfold githubConfig
    split <;> rfl
  | github redirect mode =>
    refine keepsHashes_same ?_
    show (s.github cfg browser now nonce redirect mode).2.db = s.db
    unfold github
    split <;> rfl
  | qq redirect mode =>
    refine keepsHashes_same ?_
    show (s.qq cfg browser now cookie nonce redirect mode).2.db = s.db
    unfold qq
    split <;> rfl
  | githubToken code state =>
    refine keepsHashes_same ?_
    show (s.githubToken browser now code state).2.db = s.db
    unfold githubToken
    split
    · split <;> rfl
    · rfl
  | qqCallback code state =>
    refine keepsHashes_same ?_
    show (s.qqCallback browser now code state).2.db = s.db
    unfold qqCallback
    split
    · rfl
    · split <;> rfl
  -- asking the bot fills the cache of its tokens
  | admin =>
    refine keepsHashes_same ?_
    show (s.adminRoute cfg now cookie).2.db = s.db
    unfold adminRoute userToken
    split
    · rfl
    · split
      · rfl
      · dsimp only
        split <;> rfl
  | plugins =>
    refine keepsHashes_same ?_
    show (s.userToken now none).db = s.db
    unfold userToken
    dsimp only
    split <;> rfl

/-- The hash of a user, if any, has been replaced. -/
def Stores (db db' : AuthDb) (set : Option JsString) (hash : JsString) : Prop :=
  ∀ u, db'.hashOf u = if set = some u then some hash else db.hashOf u

theorem stores_some {db db' : AuthDb} {v hash : JsString}
    (h : ∀ u, db'.hashOf u = if u = v then some hash else db.hashOf u) :
    Stores db db' (some v) hash := by
  intro u
  refine (h u).trans (if_congr ?_ rfl rfl)
  rw [Option.some_inj]
  exact eq_comm

theorem stores_registered (username hash : JsString) :
    Stores s.db (s.registered browser now draws username hash).2.db
      (if (s.registered browser now draws username hash).1.map Reply.status = some 201 then
        some draws.userId else none) hash := by
  have h := hashOf_registerWithPassword s.db draws username hash
  unfold registered
  generalize (registerWithPassword draws username hash).call s.db = result at h ⊢
  obtain ⟨r, db⟩ := result
  rcases h with ⟨row, rfl, hhash⟩ | ⟨⟨err, rfl⟩, rfl⟩
  · exact stores_some hhash
  · -- each kind of error has an answer of its own, and none is 201
    cases err with
    | error message =>
      dsimp only
      split <;> exact fun _ => rfl
    | sqlite err => exact fun _ => rfl
    | typeError => exact fun _ => rfl

theorem stores_passwordSet (sub : Option JsString) (hash : JsString) :
    Stores s.db (s.passwordSet draws sub hash).2.db
      (if (s.passwordSet draws sub hash).1.map Reply.status = some 200 then sub else none)
      hash := by
  cases sub with
  -- a session without a user
  | none =>
    rw [ite_self]
    exact fun _ => rfl
  | some sub =>
    have h := hashOf_setPassword s.db draws sub hash
    rcases hcall : (Aestival.setPassword draws sub hash).call s.db with ⟨r, db⟩
    rw [hcall] at h
    -- the row is written and the answer is 200, or nothing is written and it is 500
    rcases h with ⟨rfl, hhash⟩ | ⟨⟨err, rfl⟩, rfl⟩
    · have hset : s.passwordSet draws (some sub) hash = answer { s with db } 200 .success := by
        rw [passwordSet, hcall]
      rw [hset]
      exact stores_some hhash
    · have hset : s.passwordSet draws (some sub) hash =
          s.answer 500 (.error (js "设置密码失败，请稍后重试")) := by
        rw [passwordSet, hcall]
      rw [hset]
      exact fun _ => rfl

theorem stores_adminPasswordSet (user : Option UserRow) (hash : JsString) :
    Stores s.db (s.adminPasswordSet draws user hash).2.db
      ((user.map UserRow.id).filter fun v => v ∈ s.db.users.map UserRow.id) hash := by
  cases user with
  | none => exact fun _ => rfl
  | some user =>
    rw [adminPasswordSet, Option.map_some, Option.filter_some]
    rcases hashOf_ensureAdminPassword s.db draws user hash with ⟨hu, hhash⟩ | ⟨hu, hdb⟩
    · rw [if_pos (decide_eq_true hu)]
      exact stores_some hhash
    · rw [if_neg (by simpa using hu)]
      exact fun _ => congrArg (fun db => hashOf db _) hdb

/-- **The hashes behind an event**: those of the users that stay, and the one that was set. -/
theorem hashOf_react (e : WebEvent) (u : JsString) :
    (s.react cfg e).2.db.hashOf u =
      if u ∈ (s.react cfg e).2.db.users.map UserRow.id then
        if s.sets cfg e = some u then some e.hash else s.db.hashOf u
      else none := by
  -- an event that sets no password
  have hkept : s.sets cfg e = none → s.db.KeepsHashes (s.react cfg e).2.db →
      (s.react cfg e).2.db.hashOf u =
        if u ∈ (s.react cfg e).2.db.users.map UserRow.id then
          if s.sets cfg e = some u then some e.hash else s.db.hashOf u
        else none := by
    intro hsets hkeeps
    rw [hkeeps u, hsets, if_neg (nofun : (none : Option JsString) ≠ some u)]
  -- an event that may set one: a user who is not there has no hash in any case
  have hset : (s.react cfg e).2.db.hashOf u =
        (if s.sets cfg e = some u then some e.hash else s.db.hashOf u) →
      (s.react cfg e).2.db.hashOf u =
        if u ∈ (s.react cfg e).2.db.users.map UserRow.id then
          if s.sets cfg e = some u then some e.hash else s.db.hashOf u
        else none := by
    intro hhash
    split
    case isTrue => exact hhash
    case isFalse hu => exact hashOf_eq_none hu
  cases e with
  | listen adminUser => exact hkept rfl (.refl s.db)
  | request browser now cookie nonce request =>
    exact hkept rfl (keepsHashes_handle cookie nonce request)
  -- behind a wait for bcrypt or for a provider
  | resume now draws waiting outcome =>
    cases waiting with
    | register browser username => exact hset (stores_registered username outcome.hash u)
    | login browser row =>
      refine hkept rfl (keepsHashes_same ?_)
      show (Backend.loggedIn _ browser now row outcome.valid).2.db = s.db
      unfold loggedIn
      split <;> rfl
    | setPassword browser sub => exact hset (stores_passwordSet sub outcome.hash u)
    | oauth browser provider stateData => exact hkept rfl (keepsHashes_oauthAnswered _ _ _)
    | ensureAdminPassword user => exact hset (stores_adminPasswordSet user outcome.hash u)

end Backend

end Aestival
