import Aestival.Web.Ownership
import Aestival.Web.Usernames

/-!
# What the account operations do

The operations of `accounts.ts` and `credentials.ts` as steps of the account system. Each of them
applies one step (`AuthDb.Applied`), or leaves the accounts as they are (`AuthDb.SameAccounts`), or
throws and leaves the tables as they were (`Failed`).

* `ensures_registerWithPassword`, `ensures_setPassword`, `ensures_ensureAdminPassword`,
  `ensures_unlinkAccount`
* `ensures_mergeAccounts`: the target has absorbed the source. The branch for accounts the target
  has as well is never taken, since the tables have one row for an identity.
* `ensures_findOrCreateUser`: which of its ends (`Resolved`) it comes to.
-/

namespace Aestival

/-- One step has been applied. -/
structure AuthDb.Applied (db : AuthDb) (op : Logins.Op JsString Identity) (db' : AuthDb) :
    Prop where
  step : db.logins.Step op db'.logins
  names : db.KeepsNames db'

/-- The accounts and their logins are the same. -/
structure AuthDb.SameAccounts (db db' : AuthDb) : Prop where
  logins : db'.logins = db.logins
  names : db.KeepsNames db'

/-- The operation has thrown, and the tables are as they were. -/
def Failed {α : Type} (db : AuthDb) (r : Except JsError α) (c : Connection) : Prop :=
  (∃ err, r = .error err) ∧ c.db = db

open AuthDb

variable {c c' : Connection} {u userId : JsString}

/-- A statement that writes has taken effect. -/
theorem write_eq_ok {result : Except SqliteError AuthDb} {x : Unit}
    (h : c.write result = .ok (x, c')) : ∃ db', result = .ok db' ∧ c' = { c with db := db' } := by
  cases result with
  | error err => cases h
  | ok db' =>
    cases h
    exact ⟨db', rfl, rfl⟩

/-- A transaction succeeds as a whole, or leaves no trace. -/
theorem ensures_transaction_or_failed {α : Type} {p : SqlM α} {Q : α → AuthDb → Prop}
    (h : p.Ensures (fun r c' => c'.saved = some c.db ∧ ∀ a, r = .ok a → Q a c'.db)
      { c with saved := some c.db }) :
    (transaction p).Ensures
      (fun r c' => (∃ a, r = .ok a ∧ Q a c'.db) ∨ Failed c.db r c') c := by
  refine ensures_transaction (Prog.wp_mono h fun r c' => ?_)
  rintro ⟨hsaved, hQ⟩
  refine ⟨hsaved, fun a ha => Or.inl ⟨a, rfl, hQ a ha⟩, fun err _ => Or.inr ⟨⟨err, rfl⟩, rfl⟩⟩

theorem AuthDb.SameAccounts.refl (db : AuthDb) : db.SameAccounts db :=
  ⟨rfl, keepsNames_of_subset fun _ h => h⟩

theorem AuthDb.sameAccounts_updateAvatar (db : AuthDb) (avatarUrl userId : JsString) :
    db.SameAccounts (db.updateAvatar avatarUrl userId) where
  logins := db.logins_updateAvatar avatarUrl userId
  names := db.keepsNames_updateAvatar avatarUrl userId

/-! ### Passwords -/

/-- The user a registration has added. -/
def Registered (draws : Draws) (username : JsString) (db db' : AuthDb) (row : UserRow) : Prop :=
  db.Applied (.register draws.userId) db' ∧ row ∈ db'.users ∧ row.id = draws.userId ∧
    row.username = username.trim ∧ row.avatarUrl = []

/-- The transaction of `registerWithPassword`. -/
def registerRows (draws : Draws) (trimmed hash : JsString) : SqlM Unit := do
  let existing : Option UserRow ← sql (.selectUsername trimmed)
  if existing.isSome then .throw (.error (js "用户名已被占用"))
  else do
    sql (.insertUser
      { id := draws.userId, username := trimmed, avatarUrl := [], createdAt := draws.datetime })
    sql (.insertCredential
      { userId := draws.userId, passwordHash := hash, updatedAt := draws.datetime })

theorem ensures_registerRows (draws : Draws) (username hash : JsString) :
    (registerRows draws username.trim hash).Ensures (fun r c' => c'.saved = c.saved ∧
      ∀ a, r = .ok a → ∃ row, Registered draws username c.db c'.db row) c := by
  -- a taken name throws before anything is written
  refine ensures_sql_ok rfl ?_
  split
  · exact ⟨rfl, fun _ h => (by cases h)⟩
  refine ensures_sql_bind (fun _ c₁ h₁ => ?_) fun err _ => ⟨rfl, fun _ h => (by cases h)⟩
  -- the row of the user, and then its password, which refers to it
  obtain ⟨db₁, hdb₁, rfl⟩ := write_eq_ok h₁
  obtain ⟨hnew, husers₁, haccounts₁, hcredentials₁⟩ := insertUser_eq_ok hdb₁
  refine ensures_sql (fun _ c₂ h₂ => ?_) fun err _ => ⟨rfl, fun _ h => (by cases h)⟩
  obtain ⟨db₂, hdb₂, rfl⟩ := write_eq_ok h₂
  obtain ⟨-, husers₂, haccounts₂, hcredentials₂⟩ := insertCredential_eq_ok hdb₂
  rw [husers₁] at husers₂
  rw [hcredentials₁] at hcredentials₂
  have hnames := keepsNames_append hnew husers₂
  refine ⟨rfl, fun _ _ => ⟨⟨draws.userId, username.trim, [], draws.datetime⟩, ⟨?_, hnames⟩, ?_,
    rfl, rfl, rfl⟩⟩
  · exact .register hnew (users_append husers₂) (owner_congr (haccounts₂.trans haccounts₁))
      (password_append hcredentials₂)
  · rw [husers₂]
    exact List.mem_append_right _ (List.mem_singleton_self _)

/-- A registration that succeeds adds the user with its password, and returns it. -/
theorem ensures_registerWithPassword (draws : Draws) (username hash : JsString) :
    (registerWithPassword draws username hash).Ensures (fun r c' =>
      (∃ row, r = .ok (some row) ∧ Registered draws username c.db c'.db row) ∨ Failed c.db r c')
        c := by
  refine Prog.wp_bind_of (p := transaction (registerRows draws username.trim hash))
    (ensures_transaction_or_failed (Q := fun _ db' => ∃ row, Registered draws username c.db db' row)
      (ensures_registerRows draws username hash)) ?_ ?_
  · -- the name is now the new user's
    rintro ⟨⟩ c₁ (⟨_, -, row, hrow⟩ | ⟨⟨err, herr⟩, -⟩)
    · refine ensures_sql (fun found c₂ h₂ => ?_) fun err herr => (by cases herr)
      cases h₂
      have hfound : c₁.db.findUsername username.trim = some row :=
        findUsername_eq_some.mpr ⟨hrow.2.1, hrow.2.2.2.1⟩
      exact Or.inl ⟨row, congrArg Except.ok hfound, hrow⟩
    · cases herr
  · rintro err c₁ (⟨_, h, -⟩ | ⟨-, hdb⟩)
    · cases h
    · exact Or.inr ⟨⟨err, rfl⟩, hdb⟩

/-- A password is set for a user that exists, or not at all. -/
theorem ensures_setPassword (draws : Draws) (userId passwordHash : JsString) :
    (setPassword draws userId passwordHash).Ensures (fun r c' =>
      r = .ok () ∧ c.db.Applied (.setPassword userId) c'.db ∨ Failed c.db r c') c := by
  refine ensures_sql (fun _ c₁ h₁ => ?_) fun err _ => Or.inr ⟨⟨_, rfl⟩, rfl⟩
  obtain ⟨db₁, hdb₁, rfl⟩ := write_eq_ok h₁
  obtain ⟨huser, husers, haccounts, hpassword⟩ := upsertCredential_eq_ok hdb₁
  refine Or.inl ⟨rfl, ?_, keepsNames_of_subset fun _ h => husers ▸ h⟩
  exact .setPassword huser (users_congr (by rw [husers])) (owner_congr haccounts) hpassword

/-- The password of the administrator is set as any other. -/
theorem ensures_ensureAdminPassword (draws : Draws) (user : UserRow) (passwordHash : JsString) :
    (ensureAdminPassword draws (some user) passwordHash).Ensures (fun r c' =>
      r = .ok true ∧ c.db.Applied (.setPassword user.id) c'.db ∨ Failed c.db r c') c := by
  refine Prog.wp_bind_of (ensures_setPassword draws user.id passwordHash) ?_ ?_
  · rintro ⟨⟩ c₁ (⟨-, happlied⟩ | ⟨⟨err, herr⟩, -⟩)
    · exact Or.inl ⟨rfl, happlied⟩
    · cases herr
  · rintro err c₁ (⟨herr, -⟩ | ⟨-, hdb⟩)
    · cases herr
    · exact Or.inr ⟨⟨err, rfl⟩, hdb⟩

/-- `hasPassword` and what follows it. -/
theorem ensures_hasPassword_bind {β : Type} {f : Bool → SqlM β}
    {Q : Except JsError β → Connection → Prop}
    (h : (f (c.db.findCredential userId).isSome).Ensures Q c) :
    (hasPassword userId >>= f).Ensures Q c :=
  Prog.wp_bind.mpr (ensures_sql_ok rfl h)

/-! ### Unlinking -/

/-- A list without duplicates that is longer than one has another member. -/
theorem exists_mem_ne_of_length {α : Type} {l : List α} {a : α} (hl : l.Nodup) (ha : a ∈ l)
    (hlen : l.length ≠ 1) : ∃ b ∈ l, b ≠ a := by
  by_contra hall
  have hall' : ∀ b ∈ l, b = a := fun b hb => by_contra fun hne => hall ⟨b, hb, hne⟩
  have hrep := List.eq_replicate_of_mem hall'
  rw [hrep, List.nodup_replicate] at hl
  have hpos := List.length_pos_of_mem ha
  omega

/-- **`unlinkAccount` detaches an identity from a user that keeps another login**, or throws. It
counts all accounts of the user; the one it removes is among them. -/
theorem ensures_unlinkAccount (userId provider : JsString) :
    (unlinkAccount userId provider).Ensures (fun r c' =>
      (∃ i, r = .ok () ∧ c.db.Applied (.detach userId i) c'.db) ∨ Failed c.db r c') c := by
  unfold unlinkAccount getLinkedAccounts
  refine ensures_sql_ok (a := orderByCreatedAt (c.db.accountsOf userId)) rfl
    (ensures_hasPassword_bind ?_)
  -- the order of the rows does not matter for what follows
  have hmem : ∀ a, a ∈ orderByCreatedAt (c.db.accountsOf userId) ↔
      a ∈ c.db.accounts ∧ a.userId = userId := fun a => by
    rw [orderByCreatedAt, List.mem_insertionSort, mem_accountsOf]
  have hnodup : (orderByCreatedAt (c.db.accountsOf userId)).Nodup :=
    (List.perm_insertionSort _ _).nodup_iff.mpr
      ((List.Nodup.of_map _ c.db.identities).filter _)
  generalize orderByCreatedAt (c.db.accountsOf userId) = linked at hmem hnodup ⊢
  dsimp only
  -- the guard counts what would be left
  by_cases hcount : (linked.length : Int) - 1 = 0 ∧ (c.db.findCredential userId).isSome = false
  · rw [if_pos hcount]
    exact Or.inr ⟨⟨_, rfl⟩, rfl⟩
  rw [if_neg hcount]
  split
  · exact Or.inr ⟨⟨_, rfl⟩, rfl⟩
  next target hfind =>
  have htarget := List.mem_of_find?_eq_some hfind
  obtain ⟨hrow, rfl⟩ := (hmem target).mp htarget
  refine ensures_sql (fun _ c₁ h₁ => ?_) fun err herr => (by cases herr)
  obtain ⟨db₁, hdb₁, rfl⟩ := write_eq_ok h₁
  cases hdb₁
  refine Or.inl ⟨target.identity, rfl, ?_, keepsNames_of_subset fun _ h => h⟩
  refine .detach (owner_of_mem hrow) ?_ rfl (owner_deleteAccount hrow) rfl
  by_cases hcred : (c.db.findCredential target.userId).isSome = true
  · exact Or.inr (findCredential_isSome.mp hcred)
  · -- without a password the account is not the only one
    have hlen : linked.length ≠ 1 := fun h =>
      hcount ⟨by rw [h]; rfl, Bool.eq_false_of_not_eq_true hcred⟩
    obtain ⟨b, hb, hne⟩ := exists_mem_ne_of_length hnodup htarget hlen
    obtain ⟨hbrow, hbuser⟩ := (hmem b).mp hb
    refine Or.inl ⟨b.identity, fun h => hne ?_, by rw [owner_of_mem hbrow, hbuser]⟩
    exact List.inj_on_of_nodup_map c.db.identities hbrow hrow h

/-! ### Merging -/

/-- The keys tell identities apart, since no name of a provider has a colon. -/
theorem OAuthRow.key_inj {a b : OAuthRow} (h : a.key = b.key) : a.identity = b.identity := by
  obtain ⟨_, _, pa, ia⟩ := a
  obtain ⟨_, _, pb, ib⟩ := b
  -- the first letters of the names of the providers differ
  have hhead := congrArg List.head? h
  cases pa <;> cases pb
  · exact congrArg (Prod.mk Provider.github) (List.append_cancel_left h)
  · cases hhead
  · cases hhead
  · exact congrArg (Prod.mk Provider.qq) (List.append_cancel_left h)

/-- The row of an account under its new owner, when it is one of `rows`. -/
def reassign (targetUserId : JsString) (rows : List OAuthRow) (a : OAuthRow) : OAuthRow :=
  if a.id ∈ rows.map OAuthRow.id then { a with userId := targetUserId } else a

theorem reassign_withOwner (targetUserId : JsString) (oa : OAuthRow) (rest : List OAuthRow)
    (a : OAuthRow) :
    reassign targetUserId rest (withOwner targetUserId oa.id a) =
      reassign targetUserId (oa :: rest) a := by
  unfold reassign withOwner
  rw [List.map_cons]
  by_cases hid : a.id = oa.id
  · -- the row has been moved, and the rest of the loop does not move it elsewhere
    rw [if_pos hid, if_pos (List.mem_cons.mpr (Or.inl hid))]
    split <;> rfl
  · rw [if_neg hid]
    exact if_congr (by rw [List.mem_cons, or_iff_right hid]) rfl rfl

/-- The accounts in `rows` have a new owner, and nothing else has changed. -/
structure Moved (targetUserId : JsString) (rows : List OAuthRow) (c c' : Connection) : Prop where
  saved : c'.saved = c.saved
  users : c'.db.users = c.db.users
  credentials : c'.db.credentials = c.db.credentials
  accounts : c'.db.accounts = c.db.accounts.map (reassign targetUserId rows)

/-- The loop moves all rows when none of their keys is one of the target's. -/
theorem ensures_moveAccounts {targetUserId : JsString} (rows : List OAuthRow) :
    ∀ (targetKeys : List JsString) (c : Connection), targetUserId ∈ c.db.users.map UserRow.id →
      (rows.map OAuthRow.identity).Nodup → (∀ a ∈ rows, a.key ∉ targetKeys) →
      (moveAccounts targetUserId rows targetKeys).Ensures
        (fun r c' => r = .ok () ∧ Moved targetUserId rows c c') c := by
  induction rows with
  | nil =>
    intro _ c _ _ _
    exact ⟨rfl, rfl, rfl, rfl, (List.map_id _).symm⟩
  | cons oa rest ih =>
    intro targetKeys c htarget hnodup hkeys
    obtain ⟨hnew, hnodup⟩ := List.nodup_cons.mp hnodup
    rw [moveAccounts, if_neg (hkeys oa List.mem_cons_self)]
    obtain ⟨db₁, hdb₁, husers, hcredentials, haccounts⟩ := exists_updateOwner oa.id htarget
    refine ensures_sql_ok (a := ()) (congrArg c.write hdb₁) ?_
    -- the keys of the rows that are left are still new
    have hrestKeys : ∀ a ∈ rest, a.key ∉ oa.key :: targetKeys := by
      intro a ha hmem
      rcases List.mem_cons.mp hmem with hkey | hmem
      · exact hnew (OAuthRow.key_inj hkey ▸ List.mem_map_of_mem ha)
      · exact hkeys a (List.mem_cons_of_mem _ ha) hmem
    refine Prog.wp_mono (ih (oa.key :: targetKeys) { c with db := db₁ } (husers ▸ htarget) hnodup
      hrestKeys) ?_
    rintro r c' ⟨rfl, h⟩
    refine ⟨rfl, h.saved, h.users.trans husers, h.credentials.trans hcredentials, ?_⟩
    rw [h.accounts, haccounts, List.map_map]
    exact List.map_congr_left fun a _ => reassign_withOwner targetUserId oa rest a

/-- The row of an account after a merge. -/
def absorbed (targetUserId sourceUserId : JsString) (a : OAuthRow) : OAuthRow :=
  if a.userId = sourceUserId then { a with userId := targetUserId } else a

theorem absorbed_identity (targetUserId sourceUserId : JsString) (a : OAuthRow) :
    (absorbed targetUserId sourceUserId a).identity = a.identity := by
  unfold absorbed
  split <;> rfl

theorem absorbed_userId_ne {targetUserId sourceUserId : JsString}
    (hne : targetUserId ≠ sourceUserId) (a : OAuthRow) :
    (absorbed targetUserId sourceUserId a).userId ≠ sourceUserId := by
  unfold absorbed
  split
  · exact hne
  · assumption

/-- To move the accounts of the source is to move every row that names it. -/
theorem reassign_accountsOf {db : AuthDb} {targetUserId sourceUserId : JsString} {a : OAuthRow}
    (ha : a ∈ db.accounts) :
    reassign targetUserId (db.accountsOf sourceUserId) a = absorbed targetUserId sourceUserId
      a := by
  refine if_congr ⟨fun hmem => ?_, fun hsource => ?_⟩ rfl rfl
  · obtain ⟨b, hb, hid⟩ := List.mem_map.mp hmem
    obtain ⟨hb, hsource⟩ := mem_accountsOf.mp hb
    rw [← List.inj_on_of_nodup_map db.accountIds hb ha hid, hsource]
  · exact List.mem_map_of_mem (mem_accountsOf.mpr ⟨ha, hsource⟩)

/-- The row of a user after a merge: a target without an avatar has that of the source. -/
def withAvatarOf (target source u : UserRow) : UserRow :=
  if source.avatarUrl ≠ [] ∧ target.avatarUrl = [] ∧ u.id = target.id then
    { u with avatarUrl := source.avatarUrl }
  else u

theorem withAvatarOf_id (target source u : UserRow) : (withAvatarOf target source u).id = u.id := by
  unfold withAvatarOf
  split <;> rfl

theorem withAvatarOf_username (target source u : UserRow) :
    (withAvatarOf target source u).username = u.username := by
  unfold withAvatarOf
  split <;> rfl

/-- **What a merge does to the rows.** -/
structure MergedRows (target source : UserRow) (db db' : AuthDb) : Prop where
  users : db'.users = (db.users.map (withAvatarOf target source)).filter fun u => u.id ≠ source.id
  accounts : db'.accounts = db.accounts.map (absorbed target.id source.id)
  credentials : db'.credentials = db.credentials.filter fun cr => cr.userId ≠ source.id

/-- The target has absorbed the source. -/
theorem MergedRows.applied {target source : UserRow} {db db' : AuthDb}
    (h : MergedRows target source db db') (hne : target.id ≠ source.id)
    (htarget : target ∈ db.users)
    (hsource : source ∈ db.users) : db.Applied (.absorb target.id source.id) db' := by
  have hids : (db.users.map (withAvatarOf target source)).map UserRow.id =
      db.users.map UserRow.id :=
    map_key_update (withAvatarOf_id target source) _
  refine ⟨.absorb hne (List.mem_map_of_mem htarget) (List.mem_map_of_mem hsource) ?_ ?_ ?_, ?_⟩
  · ext v
    rw [mem_users, h.users, mem_map_filter_ne, hids]
    rfl
  · funext i
    ext v
    rw [owner_eq_some, h.accounts]
    by_cases hi : db.logins.owner i = some source.id
    · -- the identity was the source's, and its row has moved
      obtain ⟨a, ha, rfl, hau⟩ := owner_eq_some.mp hi
      have hrow : absorbed target.id source.id a = { a with userId := target.id } := if_pos hau
      rw [Logins.absorbOwner_of_eq hi, Option.some.injEq]
      constructor
      · rintro ⟨b', hb', hbi, rfl⟩
        obtain ⟨b, hb, rfl⟩ := List.mem_map.mp hb'
        rw [absorbed_identity] at hbi
        rw [List.inj_on_of_nodup_map db.identities hb ha hbi, hrow]
      · rintro rfl
        exact ⟨_, List.mem_map_of_mem ha, absorbed_identity .., by rw [hrow]⟩
    · -- the identity was not, and its row has stayed
      have hstay : ∀ a ∈ db.accounts, a.identity = i → absorbed target.id source.id a = a :=
        fun a ha hai => if_neg fun hau => hi (owner_eq_some.mpr ⟨a, ha, hai, hau⟩)
      rw [Logins.absorbOwner_of_ne hi, owner_eq_some]
      constructor
      · rintro ⟨b', hb', hbi, hbv⟩
        obtain ⟨b, hb, rfl⟩ := List.mem_map.mp hb'
        rw [absorbed_identity] at hbi
        rw [hstay b hb hbi] at hbv
        exact ⟨b, hb, hbi, hbv⟩
      · rintro ⟨b, hb, hbi, hbv⟩
        exact ⟨b, List.mem_map.mpr ⟨b, hb, hstay b hb hbi⟩, hbi, hbv⟩
  · ext v
    rw [mem_password, h.credentials, mem_map_filter_ne]
    rfl
  · intro row hrow row' hrow' hid
    rw [h.users] at hrow'
    obtain ⟨old, hold, rfl⟩ := List.mem_map.mp (List.mem_of_mem_filter hrow')
    rw [withAvatarOf_id] at hid
    rw [withAvatarOf_username, List.inj_on_of_nodup_map db.userIds hold hrow hid]

/-- The transaction of `mergeAccounts`. -/
theorem ensures_migrateAll {target source : UserRow} (hne : target.id ≠ source.id)
    (htarget : target ∈ c.db.users) :
    (migrateAll target.id source.id target source).Ensures (fun r c' => r = .ok () ∧
      c'.saved = c.saved ∧ MergedRows target source c.db c'.db) c := by
  unfold migrateAll
  refine ensures_sql_ok (a := c.db.accountsOf source.id) rfl ?_
  refine ensures_sql_ok (a := c.db.accountsOf target.id) rfl ?_
  -- no key of the source is one of the target's: an identity has one row, and the row one owner
  have hkeys : ∀ a ∈ c.db.accountsOf source.id,
      a.key ∉ (c.db.accountsOf target.id).map OAuthRow.key := by
    intro a ha hmem
    obtain ⟨b, hb, hkey⟩ := List.mem_map.mp hmem
    obtain ⟨ha, hau⟩ := mem_accountsOf.mp ha
    obtain ⟨hb, hbu⟩ := mem_accountsOf.mp hb
    rw [List.inj_on_of_nodup_map c.db.identities hb ha (OAuthRow.key_inj hkey), hau] at hbu
    exact hne hbu.symm
  have hnodup : ((c.db.accountsOf source.id).map OAuthRow.identity).Nodup :=
    c.db.identities.sublist (List.filter_sublist.map _)
  refine Prog.wp_bind_of (ensures_moveAccounts _ _ c (List.mem_map_of_mem htarget) hnodup hkeys)
    ?_ ?_
  · rintro ⟨⟩ c₁ ⟨-, hmoved⟩
    have haccounts : c₁.db.accounts = c.db.accounts.map (absorbed target.id source.id) := by
      rw [hmoved.accounts]
      exact List.map_congr_left fun a ha => reassign_accountsOf ha
    -- whether or not the target gets the avatar of the source, the source is deleted last
    suffices hdelete : ∀ db₂ : AuthDb,
        db₂.users = c.db.users.map (withAvatarOf target source) →
        db₂.accounts = c₁.db.accounts → db₂.credentials = c₁.db.credentials →
        (sql (.deleteUser source.id)).Ensures (fun r c' => r = .ok () ∧ c'.saved = c.saved ∧
          MergedRows target source c.db c'.db) { c₁ with db := db₂ } by
      dsimp only
      split
      case isTrue havatar =>
        refine ensures_sql_ok (a := ()) rfl (hdelete _ ?_ rfl rfl)
        show c₁.db.users.map _ = _
        rw [hmoved.users]
        refine List.map_congr_left fun u _ => if_congr ?_ rfl rfl
        exact ⟨fun hid => ⟨havatar.1, havatar.2, hid⟩, fun h => h.2.2⟩
      case isFalse havatar =>
        refine hdelete c₁.db ?_ rfl rfl
        have hsame : withAvatarOf target source = id :=
          funext fun u => if_neg fun h => havatar ⟨h.1, h.2.1⟩
        rw [hsame, List.map_id, hmoved.users]
    intro db₂ husers₂ haccounts₂ hcredentials₂
    refine ensures_sql (fun _ c₂ h₂ => ?_) fun err herr => (by cases herr)
    obtain ⟨_, hdb, rfl⟩ := write_eq_ok h₂
    cases hdb
    refine ⟨rfl, hmoved.saved, ?_, ?_, ?_⟩
    · show db₂.users.filter _ = _
      rw [husers₂]
    · -- the cascade finds no account of the source any more
      show db₂.accounts.filter _ = _
      rw [haccounts₂, haccounts, List.filter_eq_self]
      intro b hb
      obtain ⟨a, -, rfl⟩ := List.mem_map.mp hb
      exact decide_eq_true (absorbed_userId_ne hne a)
    · show db₂.credentials.filter _ = _
      rw [hcredentials₂, hmoved.credentials]
  · rintro err c₁ ⟨h, -⟩
    cases h

/-- The two users of a merge are two users. -/
def Mergeable (db : AuthDb) (target source : JsString) : Prop :=
  target ≠ source ∧ target ∈ db.users.map UserRow.id ∧ source ∈ db.users.map UserRow.id

/-- **`mergeAccounts` merges the rows of two users**, whenever both exist. -/
theorem ensures_mergeAccounts_rows (targetUserId sourceUserId : JsString) :
    (mergeAccounts targetUserId sourceUserId).Ensures (fun r c' =>
      (∃ target ∈ c.db.users, ∃ source ∈ c.db.users, targetUserId ≠ sourceUserId ∧
        target.id = targetUserId ∧ source.id = sourceUserId ∧
        r = .ok (c'.db.findUser targetUserId) ∧ MergedRows target source c.db c'.db) ∨
      ¬ Mergeable c.db targetUserId sourceUserId ∧ Failed c.db r c') c := by
  unfold mergeAccounts
  split
  -- a merge of a user with itself throws
  · next heq => exact Or.inr ⟨fun h => h.1 heq, ⟨_, rfl⟩, rfl⟩
  next hne =>
  refine ensures_sql_ok (a := c.db.findUser targetUserId) rfl ?_
  refine ensures_sql_ok (a := c.db.findUser sourceUserId) rfl ?_
  cases ht : c.db.findUser targetUserId with
  | none => exact Or.inr ⟨fun h => findUser_eq_none.mp ht h.2.1, ⟨_, rfl⟩, rfl⟩
  | some target =>
  cases hs : c.db.findUser sourceUserId with
  | none => exact Or.inr ⟨fun h => findUser_eq_none.mp hs h.2.2, ⟨_, rfl⟩, rfl⟩
  | some source =>
  obtain ⟨htarget, rfl⟩ := findUser_eq_some.mp ht
  obtain ⟨hsource, rfl⟩ := findUser_eq_some.mp hs
  refine Prog.wp_bind_of (ensures_transaction (Q := fun r c' => r = .ok () ∧
    MergedRows target source c.db c'.db) (Prog.wp_mono (ensures_migrateAll hne htarget) ?_)) ?_ ?_
  · rintro r c' ⟨rfl, hsaved, hmerged⟩
    exact ⟨hsaved, fun _ _ => ⟨rfl, hmerged⟩, fun _ h => (by cases h)⟩
  · rintro ⟨⟩ c₁ ⟨-, hmerged⟩
    refine ensures_sql (fun found c₂ h₂ => ?_) fun err herr => (by cases herr)
    cases h₂
    exact Or.inl ⟨target, htarget, source, hsource, hne, rfl, rfl, rfl, hmerged⟩
  · rintro err c₁ ⟨h, -⟩
    cases h

/-- The row of the target behind a merge. -/
def Merged (target source : JsString) (db db' : AuthDb) (row : UserRow) : Prop :=
  db.Applied (.absorb target source) db' ∧ row ∈ db'.users ∧ row.id = target

/-- **`mergeAccounts` lets the target absorb the source**, whenever both exist. -/
theorem ensures_mergeAccounts (target source : JsString) :
    (mergeAccounts target source).Ensures (fun r c' =>
      (Mergeable c.db target source ∧ ∃ row, r = .ok (some row) ∧
        Merged target source c.db c'.db row) ∨
      ¬ Mergeable c.db target source ∧ Failed c.db r c') c := by
  refine Prog.wp_mono (ensures_mergeAccounts_rows target source) ?_
  rintro r c' (⟨t, ht, s, hs, hne, rfl, rfl, rfl, hmerged⟩ | hfailed)
  · have happlied := hmerged.applied hne ht hs
    -- the target is still there
    have hthere : t.id ∈ c'.db.users.map UserRow.id := by
      rcases happlied.step.mem_users (List.mem_map_of_mem ht) with h | ⟨_, h⟩
      · exact h
      · exact absurd (Logins.Op.absorb.inj h).2.symm hne
    obtain ⟨row, hrow, hid⟩ := List.mem_map.mp hthere
    refine Or.inl ⟨⟨hne, List.mem_map_of_mem ht, List.mem_map_of_mem hs⟩, row, ?_, happlied, hrow,
      hid⟩
    exact congrArg Except.ok (findUser_eq_some.mpr ⟨hrow, hid⟩)
  · exact Or.inr hfailed

/-! ### Find or create -/

/-- The tables have a user of this id and this name. -/
def AuthDb.Named (db : AuthDb) (user : UserRow) : Prop :=
  ∃ row ∈ db.users, row.id = user.id ∧ row.username = user.username

theorem AuthDb.KeepsNames.named {db db' : AuthDb} {user : UserRow} (h : db.KeepsNames db')
    (huser : db.Named user) (hthere : user.id ∈ db'.users.map UserRow.id) : db'.Named user := by
  obtain ⟨row, hrow, hid, hname⟩ := huser
  obtain ⟨row', hrow', hid'⟩ := List.mem_map.mp hthere
  exact ⟨row', hrow', hid', (h row hrow row' hrow' (hid'.trans hid.symm)).trans hname⟩

theorem AuthDb.SameAccounts.named {db db' : AuthDb} {user : UserRow} (h : db.SameAccounts db')
    (huser : db.Named user) : db'.Named user := by
  refine h.names.named huser ?_
  obtain ⟨row, hrow, hid, -⟩ := huser
  show user.id ∈ db'.logins.users
  rw [h.logins]
  exact hid ▸ List.mem_map_of_mem hrow

/-- The ends of `findOrCreateUser`. -/
inductive Resolved (draws : Draws) (profile : OAuthProfile) (mode currentUserId : Option JsString)
    (db : AuthDb) : Except JsError FindOrCreateResult → AuthDb → Prop
  /-- The identity has an owner, who gets the session. -/
  | owned {db' : AuthDb} {user : UserRow} (howner : db.logins.owner profile.identity = some user.id)
      (hmode : mode = some (js "link") → ∀ current, truthy currentUserId = some current →
        user.id = current)
      (hsame : db.SameAccounts db') (hnamed : db'.Named user) :
      Resolved draws profile mode currentUserId db (.ok { user := some user, isNew := false }) db'
  /-- The identity has another owner than the user who links it. -/
  | conflict {db' : AuthDb} {owner : UserRow} {oa : OAuthRow} {current : JsString}
      (howner : db.logins.owner profile.identity = some owner.id) (hmode : mode = some (js "link"))
      (hcurrent : truthy currentUserId = some current) (hne : owner.id ≠ current)
      (hsame : db.SameAccounts db') :
      Resolved draws profile mode currentUserId db
        (.ok { user := db'.findUser current, isNew := false, conflict := some ⟨owner, oa⟩ }) db'
  /-- The identity is new, and so is the user. -/
  | created {db' : AuthDb} {user : UserRow} (hmode : mode = some (js "login"))
      (happlied : db.Applied (.create draws.userId profile.identity) db')
      (hid : user.id = draws.userId) (hnamed : db'.Named user) :
      Resolved draws profile mode currentUserId db (.ok { user := some user, isNew := true }) db'
  /-- The identity is new, and is attached to the user who links it. -/
  | attached {db' : AuthDb} {user : UserRow} {current : JsString}
      (hmode : mode ≠ some (js "login")) (hcurrent : truthy currentUserId = some current)
      (happlied : db.Applied (.attach current profile.identity) db')
      (hid : user.id = current) (hrow : user ∈ db'.users) :
      Resolved draws profile mode currentUserId db (.ok { user := some user, isNew := false }) db'
  /-- No user could be created, or there is none to attach the identity to. -/
  | failed {err : JsError} (hfree : db.logins.owner profile.identity = none)
      (hmode : mode ≠ some (js "login") → ∀ current, truthy currentUserId = some current →
        current ∉ db.users.map UserRow.id) :
      Resolved draws profile mode currentUserId db (.error err) db

/-- It applies one step, or leaves the accounts as they are. -/
theorem Resolved.applied_or_same {draws : Draws} {profile : OAuthProfile}
    {mode currentUserId : Option JsString} {db db' : AuthDb} {r : Except JsError FindOrCreateResult}
    (h : Resolved draws profile mode currentUserId db r db') :
    (∃ op, db.Applied op db') ∨ db.SameAccounts db' := by
  cases h with
  | owned _ _ hsame => exact Or.inr hsame
  | conflict _ _ _ _ hsame => exact Or.inr hsame
  | created _ happlied => exact Or.inl ⟨_, happlied⟩
  | attached _ _ happlied => exact Or.inl ⟨_, happlied⟩
  | failed => exact Or.inr (.refl db)

/-- A new avatar does not change who the user is. -/
theorem ensures_refreshAvatar (profile : OAuthProfile) (user : UserRow) :
    (refreshAvatar profile user).Ensures (fun r c' => c.db.SameAccounts c'.db ∧
      ∃ user', r = .ok user' ∧ user'.id = user.id ∧ user'.username = user.username) c := by
  unfold refreshAvatar
  split
  · exact ensures_sql_ok (a := ()) rfl
      ⟨c.db.sameAccounts_updateAvatar _ _, _, rfl, rfl, rfl⟩
  · exact ⟨.refl _, user, rfl, rfl, rfl⟩

variable {draws : Draws} {profile : OAuthProfile} {mode currentUserId : Option JsString}

/-- The identity has an owner. -/
theorem ensures_useAccount {oa : OAuthRow} {owner : UserRow}
    (h : c.db.findOwner profile.identity = some (oa, owner)) :
    (useAccount profile mode currentUserId oa owner).Ensures
      (fun r c' => Resolved draws profile mode currentUserId c.db r c'.db) c := by
  obtain ⟨hidentity, hfind⟩ := findOwner_eq_some.mp h
  obtain ⟨hoa, hkey⟩ := findIdentity_eq_some.mp hidentity
  obtain ⟨hrow, hid⟩ := findUser_eq_some.mp hfind
  have howner : c.db.logins.owner profile.identity = some owner.id := by
    rw [← hkey, owner_of_mem hoa, hid]
  refine ensures_sql_ok (a := ()) rfl (Prog.wp_bind_of (ensures_refreshAvatar profile owner) ?_ ?_)
  · rintro user c₂ ⟨hsame₂, user', huser, huid, huname⟩
    cases huser
    have hsame : c.db.SameAccounts c₂.db :=
      ⟨hsame₂.logins.trans (c.db.logins_updateTokens ..), hsame₂.names⟩
    have hnamed : c₂.db.Named user := hsame.named ⟨owner, hrow, huid.symm, huname.symm⟩
    rw [← huid] at howner hid
    -- the conflict check needs both the mode and the user
    cases hcurrent : truthy currentUserId with
    | none => exact .owned howner (fun _ _ h => (by cases hcurrent.symm.trans h)) hsame hnamed
    | some current =>
      dsimp only
      split
      · next hlink =>
        refine ensures_sql_ok rfl ?_
        exact .conflict howner hlink.1 hcurrent (hid ▸ hlink.2) hsame
      · next hlink =>
        refine .owned howner (fun hmode current' h => ?_) hsame hnamed
        rw [hcurrent] at h
        cases h
        by_contra hne
        exact hlink ⟨hmode, hid ▸ hne⟩
  · rintro err c₂ ⟨-, _, h, -⟩
    cases h

/-- The identity is new, and a user is created for it. -/
theorem ensures_createUser (hfree : c.db.logins.owner profile.identity = none)
    (haccount : draws.accountId ∉ c.db.accounts.map OAuthRow.id)
    (hmode : mode = some (js "login")) :
    (createUser draws profile).Ensures
      (fun r c' => Resolved draws profile mode currentUserId c.db r c'.db) c := by
  refine Prog.wp_bind_of (ensures_uniqueUsername _ _) ?_ ?_
  · rintro username c₁ ⟨rfl, -⟩
    -- a user with this name may have come in between: the insertion may fail
    refine ensures_sql_bind (fun _ c₂ h₂ => ?_) fun err _ =>
      .failed hfree fun hlogin => absurd hmode hlogin
    obtain ⟨db₂, hdb₂, rfl⟩ := write_eq_ok h₂
    obtain ⟨hnew, husers, haccounts, hcredentials⟩ := insertUser_eq_ok hdb₂
    have hthere : draws.userId ∈ db₂.users.map UserRow.id := by
      rw [husers, List.map_append]
      exact List.mem_append_right _ (List.mem_singleton_self _)
    -- the account can be inserted: its id and its identity are new, and the user is there now
    obtain ⟨db₃, hdb₃⟩ := exists_insertAccount (a := profile.row draws draws.userId)
      (haccounts ▸ haccount) ((congrFun (owner_congr haccounts) _).trans hfree) hthere
    obtain ⟨-, husers₃, haccounts₃, hcredentials₃⟩ := insertAccount_eq_ok hdb₃
    rw [husers] at husers₃
    rw [haccounts] at haccounts₃
    refine ensures_sql_ok (a := ()) (congrArg (Connection.write _) hdb₃) ?_
    refine .created hmode ⟨.create hnew hfree (users_append husers₃) (owner_append haccounts₃)
      (password_congr (by rw [hcredentials₃, hcredentials])), keepsNames_append hnew husers₃⟩ rfl ?_
    rw [AuthDb.Named, husers₃]
    exact ⟨_, List.mem_append_right _ (List.mem_singleton_self _), rfl, rfl⟩
  · rintro err c₁ ⟨rfl, -⟩
    exact .failed hfree fun hlogin => absurd hmode hlogin

/-- The identity is new, and is attached to the user who links it. -/
theorem ensures_attachAccount (hfree : c.db.logins.owner profile.identity = none)
    (haccount : draws.accountId ∉ c.db.accounts.map OAuthRow.id)
    (hmode : mode ≠ some (js "login")) :
    (attachAccount draws profile currentUserId).Ensures
      (fun r c' => Resolved draws profile mode currentUserId c.db r c'.db) c := by
  unfold attachAccount
  cases hcurrent : truthy currentUserId with
  | none => exact .failed hfree fun _ _ h => (by cases hcurrent.symm.trans h)
  | some current =>
    -- the foreign key of the new account decides
    by_cases huser : current ∈ c.db.users.map UserRow.id
    · obtain ⟨db₁, hdb₁⟩ := exists_insertAccount (a := profile.row draws current) haccount
        hfree huser
      obtain ⟨-, husers, haccounts, hcredentials⟩ := insertAccount_eq_ok hdb₁
      obtain ⟨row, hrow, hid⟩ := List.mem_map.mp huser
      rw [← husers] at hrow
      refine ensures_sql_ok (a := ()) (congrArg c.write hdb₁)
        (ensures_sql_ok (a := some row) (congrArg (fun x => Except.ok (x, _))
          (findUser_eq_some.mpr ⟨hrow, hid⟩)) ?_)
      refine .attached hmode hcurrent ⟨.attach huser hfree (users_congr (by rw [husers]))
        (owner_append haccounts) (password_congr (by rw [hcredentials])),
        keepsNames_of_subset fun _ h => husers ▸ h⟩ hid hrow
    · refine ensures_sql_bind (fun _ c₁ h₁ => ?_) fun err _ => .failed hfree fun _ _ h => ?_
      · obtain ⟨db₁, hdb₁, rfl⟩ := write_eq_ok h₁
        exact absurd (insertAccount_eq_ok hdb₁).1 huser
      · cases hcurrent.symm.trans h
        exact huser

/-- **`findOrCreateUser` comes to one of its ends**, when the id it draws for an account is new. -/
theorem ensures_findOrCreateUser (haccount : draws.accountId ∉ c.db.accounts.map OAuthRow.id) :
    (findOrCreateUser draws profile mode currentUserId).Ensures
      (fun r c' => Resolved draws profile mode currentUserId c.db r c'.db) c := by
  refine ensures_sql_ok (a := c.db.findOwner profile.identity) rfl ?_
  cases hfind : c.db.findOwner profile.identity with
  | some found => exact ensures_useAccount hfind
  | none =>
    have hfree := findOwner_eq_none.mp hfind
    dsimp only
    split
    · next hlogin => exact ensures_createUser hfree haccount hlogin
    · next hlink => exact ensures_attachAccount hfree haccount hlink

/-- A call of `findOrCreateUser`. -/
theorem findOrCreateUser_resolved (profile : OAuthProfile) (mode currentUserId : Option JsString)
    {db : AuthDb} (haccount : draws.accountId ∉ db.accounts.map OAuthRow.id) :
    Resolved draws profile mode currentUserId db
      ((findOrCreateUser draws profile mode currentUserId).call db).1
      ((findOrCreateUser draws profile mode currentUserId).call db).2 := by
  obtain ⟨_, h⟩ := (ensures_findOrCreateUser (c := { db }) haccount).call
  exact h

end Aestival
