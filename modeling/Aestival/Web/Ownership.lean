import Aestival.Library.Logins
import Aestival.Web.Database

/-!
# Who owns which identity

The tables as an account system (`AuthDb.logins`): the ids of the users, the owner of each identity,
and the users that have a password. The constraints of the schema are what makes it one: an identity
has at most one row, and the row names a user that exists.

The statements are described by what they do to it. Beside it, `AuthDb.KeepsNames` says that no user
has changed its name.
-/

namespace Aestival

namespace AuthDb

variable {db db' : AuthDb} {i : Identity} {u : JsString} {a : OAuthRow}

/-! ### Lookups -/

theorem findIdentity_eq_some : db.findIdentity i = some a ↔ a ∈ db.accounts ∧ a.identity = i := by
  constructor
  · intro h
    exact ⟨List.mem_of_find?_eq_some h, of_decide_eq_true (List.find?_some h :)⟩
  · rintro ⟨ha, rfl⟩
    obtain ⟨b, hb⟩ : ∃ b, db.findIdentity a.identity = some b := by
      rw [← Option.isSome_iff_exists, findIdentity, List.find?_isSome]
      exact ⟨a, ha, decide_eq_true rfl⟩
    have hbmem := List.mem_of_find?_eq_some hb
    have hkey : b.identity = a.identity := of_decide_eq_true (List.find?_some hb :)
    rw [hb, List.inj_on_of_nodup_map db.identities hbmem ha hkey]

theorem findUser_eq_some {row : UserRow} :
    db.findUser u = some row ↔ row ∈ db.users ∧ row.id = u := by
  constructor
  · intro h
    exact ⟨List.mem_of_find?_eq_some h, of_decide_eq_true (List.find?_some h :)⟩
  · rintro ⟨hrow, rfl⟩
    obtain ⟨row', hrow'⟩ : ∃ row', db.findUser row.id = some row' := by
      rw [← Option.isSome_iff_exists, findUser, List.find?_isSome]
      exact ⟨row, hrow, decide_eq_true rfl⟩
    have hmem := List.mem_of_find?_eq_some hrow'
    have hkey : row'.id = row.id := of_decide_eq_true (List.find?_some hrow' :)
    rw [hrow', List.inj_on_of_nodup_map db.userIds hmem hrow hkey]

theorem findUser_eq_none : db.findUser u = none ↔ u ∉ db.users.map UserRow.id := by
  rw [Option.eq_none_iff_forall_ne_some]
  constructor
  · intro h hu
    obtain ⟨row, hrow, hid⟩ := List.mem_map.mp hu
    exact h row (findUser_eq_some.mpr ⟨hrow, hid⟩)
  · intro h row hrow
    obtain ⟨hmem, hid⟩ := findUser_eq_some.mp hrow
    exact h (List.mem_map.mpr ⟨row, hmem, hid⟩)

theorem findUsername_eq_some {row : UserRow} {name : JsString} :
    db.findUsername name = some row ↔ row ∈ db.users ∧ row.username = name := by
  constructor
  · intro h
    exact ⟨List.mem_of_find?_eq_some h, of_decide_eq_true (List.find?_some h :)⟩
  · rintro ⟨hrow, rfl⟩
    obtain ⟨row', hrow'⟩ : ∃ row', db.findUsername row.username = some row' := by
      rw [← Option.isSome_iff_exists, findUsername, List.find?_isSome]
      exact ⟨row, hrow, decide_eq_true rfl⟩
    have hmem := List.mem_of_find?_eq_some hrow'
    have hkey : row'.username = row.username := of_decide_eq_true (List.find?_some hrow' :)
    rw [hrow', List.inj_on_of_nodup_map db.usernames hmem hrow hkey]

theorem findCredential_isSome :
    (db.findCredential u).isSome = true ↔ u ∈ db.credentials.map CredentialRow.userId := by
  rw [findCredential, List.find?_isSome, List.mem_map]
  exact exists_congr fun c => and_congr_right fun _ => decide_eq_true_iff

theorem mem_accountsOf : a ∈ db.accountsOf u ↔ a ∈ db.accounts ∧ a.userId = u := by
  rw [accountsOf, List.mem_filter, decide_eq_true_iff]

/-! ### The account system -/

/-- The tables as an account system. -/
def logins (db : AuthDb) : Logins JsString Identity where
  users := { u | u ∈ db.users.map UserRow.id }
  owner i := (db.findIdentity i).map OAuthRow.userId
  password := { u | u ∈ db.credentials.map CredentialRow.userId }
  owner_mem := by
    intro i u h
    obtain ⟨a, ha, rfl⟩ := Option.map_eq_some_iff.mp h
    exact db.owners a (findIdentity_eq_some.mp ha).1
  password_mem := by
    intro u h
    obtain ⟨c, hc, rfl⟩ := List.mem_map.mp h
    exact db.credentialOwners c hc

theorem mem_users : u ∈ db.logins.users ↔ u ∈ db.users.map UserRow.id := Iff.rfl

theorem mem_password : u ∈ db.logins.password ↔ u ∈ db.credentials.map CredentialRow.userId :=
  Iff.rfl

theorem owner_eq_some :
    db.logins.owner i = some u ↔ ∃ a ∈ db.accounts, a.identity = i ∧ a.userId = u := by
  show (db.findIdentity i).map OAuthRow.userId = some u ↔ _
  rw [Option.map_eq_some_iff]
  constructor
  · rintro ⟨a, ha, hu⟩
    obtain ⟨hmem, hi⟩ := findIdentity_eq_some.mp ha
    exact ⟨a, hmem, hi, hu⟩
  · rintro ⟨a, hmem, hi, hu⟩
    exact ⟨a, findIdentity_eq_some.mpr ⟨hmem, hi⟩, hu⟩

/-- A row is the account of its identity. -/
theorem owner_of_mem (h : a ∈ db.accounts) : db.logins.owner a.identity = some a.userId :=
  owner_eq_some.mpr ⟨a, h, rfl, rfl⟩

theorem findOwner_eq_some {row : UserRow} :
    db.findOwner i = some (a, row) ↔ db.findIdentity i = some a ∧
      db.findUser a.userId = some row := by
  unfold findOwner
  simp only [Option.bind_eq_bind, Option.bind_eq_some_iff, Option.pure_def, Option.some.injEq,
    Prod.mk.injEq]
  constructor
  · rintro ⟨b, hb, row', hrow', rfl, rfl⟩
    exact ⟨hb, hrow'⟩
  · rintro ⟨ha, hrow⟩
    exact ⟨a, ha, row, hrow, rfl, rfl⟩

/-- The join finds every account, since its user exists. -/
theorem findOwner_eq_none : db.findOwner i = none ↔ db.logins.owner i = none := by
  show _ ↔ (db.findIdentity i).map OAuthRow.userId = none
  rw [Option.map_eq_none_iff]
  cases hi : db.findIdentity i with
  | none => simp [findOwner, hi]
  | some a =>
    have huser : db.findUser a.userId ≠ none := fun h =>
      findUser_eq_none.mp h (db.owners a (findIdentity_eq_some.mp hi).1)
    obtain ⟨row, hrow⟩ := Option.ne_none_iff_exists'.mp huser
    rw [findOwner_eq_some.mpr ⟨hi, hrow⟩]
    exact iff_of_false (Option.some_ne_none _) (Option.some_ne_none _)

/-! ### Names -/

/-- No user that is there in both has changed its name. -/
def KeepsNames (db db' : AuthDb) : Prop :=
  ∀ row ∈ db.users, ∀ row' ∈ db'.users, row'.id = row.id → row'.username = row.username

theorem KeepsNames.mono {mid : AuthDb} (h : db.KeepsNames mid)
    (hsub : ∀ row ∈ db'.users, row ∈ mid.users) : db.KeepsNames db' :=
  fun row hrow row' hrow' => h row hrow row' (hsub row' hrow')

theorem keepsNames_of_subset (h : ∀ row ∈ db'.users, row ∈ db.users) : db.KeepsNames db' := by
  intro row hrow row' hrow' hid
  rw [List.inj_on_of_nodup_map db.userIds (h row' hrow') hrow hid]

/-! ### What the statements do -/

section Inserts

theorem insertUser_eq_ok {row : UserRow} (h : db.insertUser row = .ok db') :
    row.id ∉ db.users.map UserRow.id ∧ db'.users = db.users ++ [row] ∧
      db'.accounts = db.accounts ∧ db'.credentials = db.credentials := by
  unfold insertUser at h
  split at h
  · cases h
  next hid =>
  split at h
  · cases h
  · cases h
    exact ⟨hid, rfl, rfl, rfl⟩

theorem insertAccount_eq_ok (h : db.insertAccount a = .ok db') :
    a.userId ∈ db.users.map UserRow.id ∧ db'.users = db.users ∧
      db'.accounts = db.accounts ++ [a] ∧ db'.credentials = db.credentials := by
  unfold insertAccount at h
  split at h
  · cases h
  split at h
  · cases h
  split at h
  · next howner =>
    cases h
    exact ⟨howner, rfl, rfl, rfl⟩
  · cases h

/-- An account of a new identity can be inserted for a user that exists. -/
theorem exists_insertAccount (hid : a.id ∉ db.accounts.map OAuthRow.id)
    (hidentity : db.logins.owner a.identity = none) (howner : a.userId ∈ db.users.map UserRow.id) :
    ∃ db', db.insertAccount a = .ok db' := by
  have hnew : a.identity ∉ db.accounts.map OAuthRow.identity := by
    intro hmem
    obtain ⟨b, hb, hkey⟩ := List.mem_map.mp hmem
    have howned := owner_of_mem hb
    rw [hkey, hidentity] at howned
    cases howned
  unfold insertAccount
  rw [dif_neg hid, dif_neg hnew, dif_pos howner]
  exact ⟨_, rfl⟩

theorem insertCredential_eq_ok {cr : CredentialRow} (h : db.insertCredential cr = .ok db') :
    cr.userId ∈ db.users.map UserRow.id ∧ db'.users = db.users ∧ db'.accounts = db.accounts ∧
      db'.credentials = db.credentials ++ [cr] := by
  unfold insertCredential at h
  split at h
  · cases h
  split at h
  · next howner =>
    cases h
    exact ⟨howner, rfl, rfl, rfl⟩
  · cases h

end Inserts

/-- The owners, when an account is appended. -/
theorem owner_append (h : db'.accounts = db.accounts ++ [a]) :
    db'.logins.owner = Function.update db.logins.owner a.identity (some a.userId) := by
  funext i
  -- the identity of the new row, or another
  by_cases hi : i = a.identity
  · subst hi
    rw [Function.update_self]
    refine owner_of_mem ?_
    rw [h]
    exact List.mem_append_right _ (List.mem_singleton_self a)
  · rw [Function.update_of_ne hi]
    ext u
    rw [owner_eq_some, owner_eq_some, h]
    constructor
    · rintro ⟨b, hb, hbi, hbu⟩
      rcases List.mem_append.mp hb with hb | hb
      · exact ⟨b, hb, hbi, hbu⟩
      · exact absurd (List.mem_singleton.mp hb ▸ hbi).symm hi
    · rintro ⟨b, hb, hbi, hbu⟩
      exact ⟨b, List.mem_append_left _ hb, hbi, hbu⟩

theorem owner_congr (h : db'.accounts = db.accounts) : db'.logins.owner = db.logins.owner := by
  funext i
  show (db'.findIdentity i).map _ = (db.findIdentity i).map _
  unfold findIdentity
  rw [h]

theorem users_append {row : UserRow} (h : db'.users = db.users ++ [row]) :
    db'.logins.users = insert row.id db.logins.users := by
  ext u
  show u ∈ db'.users.map UserRow.id ↔ u = row.id ∨ u ∈ db.users.map UserRow.id
  rw [h, List.map_append, List.mem_append, List.map_singleton, List.mem_singleton]
  exact or_comm

theorem users_congr (h : db'.users.map UserRow.id = db.users.map UserRow.id) :
    db'.logins.users = db.logins.users := by
  ext u
  rw [mem_users, mem_users, h]

theorem password_append {cr : CredentialRow} (h : db'.credentials = db.credentials ++ [cr]) :
    db'.logins.password = insert cr.userId db.logins.password := by
  ext u
  show u ∈ db'.credentials.map CredentialRow.userId ↔
    u = cr.userId ∨ u ∈ db.credentials.map CredentialRow.userId
  rw [h, List.map_append, List.mem_append, List.map_singleton, List.mem_singleton]
  exact or_comm

theorem password_congr (h : db'.credentials.map CredentialRow.userId =
    db.credentials.map CredentialRow.userId) : db'.logins.password = db.logins.password := by
  ext u
  rw [mem_password, mem_password, h]

theorem keepsNames_append {row : UserRow} (hid : row.id ∉ db.users.map UserRow.id)
    (h : db'.users = db.users ++ [row]) : db.KeepsNames db' := by
  intro old hold new hnew heq
  rw [h] at hnew
  rcases List.mem_append.mp hnew with hnew | hnew
  · rw [List.inj_on_of_nodup_map db.userIds hnew hold heq]
  · rw [List.mem_singleton.mp hnew] at heq
    exact absurd (heq ▸ List.mem_map_of_mem hold) hid

/-! #### Updates in place -/

section Updates

variable (db)

theorem logins_updateTokens (t : AccountTokens) (accountId : JsString) :
    (db.updateTokens t accountId).logins = db.logins := by
  have howner : (db.updateTokens t accountId).logins.owner = db.logins.owner := by
    funext i
    ext u
    rw [owner_eq_some, owner_eq_some]
    -- of no row does the identity or the owner change
    have hrow : ∀ a : OAuthRow,
        let a' := if a.id = accountId then
          { a with
            accessToken := t.accessToken
            refreshToken := t.refreshToken
            tokenExpiresAt := t.tokenExpiresAt
            providerUsername := t.providerUsername }
          else a
        a'.identity = a.identity ∧ a'.userId = a.userId := by
      intro a
      dsimp only
      split <;> exact ⟨rfl, rfl⟩
    constructor
    · rintro ⟨b, hb, hbi, hbu⟩
      obtain ⟨a, ha, rfl⟩ := List.mem_map.mp hb
      exact ⟨a, ha, (hrow a).1 ▸ hbi, (hrow a).2 ▸ hbu⟩
    · rintro ⟨a, ha, hai, hau⟩
      exact ⟨_, List.mem_map_of_mem ha, (hrow a).1.trans hai, (hrow a).2.trans hau⟩
  exact Logins.ext rfl howner rfl

theorem logins_updateUsers (g : UserRow → UserRow) (hid : ∀ u, (g u).id = u.id)
    (hname : ∀ u, (g u).username = u.username) :
    (db.updateUsers g hid hname).logins = db.logins :=
  Logins.ext (users_congr (map_key_update hid _)) rfl rfl

theorem keepsNames_updateUsers (g : UserRow → UserRow) (hid : ∀ u, (g u).id = u.id)
    (hname : ∀ u, (g u).username = u.username) : db.KeepsNames (db.updateUsers g hid hname) := by
  intro row hrow row' hrow' heq
  obtain ⟨old, hold, rfl⟩ := List.mem_map.mp hrow'
  rw [hid] at heq
  rw [hname, List.inj_on_of_nodup_map db.userIds hold hrow heq]

theorem logins_updateAvatar (avatarUrl userId : JsString) :
    (db.updateAvatar avatarUrl userId).logins = db.logins :=
  db.logins_updateUsers _ _ _

theorem keepsNames_updateAvatar (avatarUrl userId : JsString) :
    db.KeepsNames (db.updateAvatar avatarUrl userId) :=
  db.keepsNames_updateUsers _ _ _

end Updates

/-- The rows behind `UPDATE oauth_accounts SET user_id`. -/
def withOwner (userId accountId : JsString) (a : OAuthRow) : OAuthRow :=
  if a.id = accountId then { a with userId } else a

/-- An account can be given to any user that exists. -/
theorem exists_updateOwner (accountId : JsString) (hu : u ∈ db.users.map UserRow.id) :
    ∃ db', db.updateOwner u accountId = .ok db' ∧ db'.users = db.users ∧
      db'.credentials = db.credentials ∧ db'.accounts = db.accounts.map
        (withOwner u accountId) := by
  unfold updateOwner
  rw [dif_pos fun _ => hu]
  exact ⟨_, rfl, rfl, rfl, rfl⟩

/-! #### Deletions -/

theorem owner_deleteAccount (ha : a ∈ db.accounts) :
    (db.deleteAccount a.id).logins.owner = Function.update db.logins.owner a.identity none := by
  funext i
  ext v
  rw [owner_eq_some]
  -- identities are unique, so that no other row has this one
  by_cases hi : i = a.identity
  · subst hi
    rw [Function.update_self]
    refine iff_of_false ?_ (Option.some_ne_none v).symm
    rintro ⟨b, hb, hbi, -⟩
    obtain ⟨hmem, hne⟩ := List.mem_filter.mp hb
    rw [List.inj_on_of_nodup_map db.identities hmem ha hbi] at hne
    exact of_decide_eq_true hne rfl
  -- and ids are, so that no other row is deleted
  · rw [Function.update_of_ne hi, owner_eq_some]
    constructor
    · rintro ⟨b, hb, hbi, hbv⟩
      exact ⟨b, List.mem_of_mem_filter hb, hbi, hbv⟩
    · rintro ⟨b, hb, hbi, hbv⟩
      refine ⟨b, List.mem_filter.mpr ⟨hb, decide_eq_true fun hid => hi ?_⟩, hbi, hbv⟩
      rw [← hbi, List.inj_on_of_nodup_map db.accountIds hb ha hid]

theorem mem_map_filter_ne {α : Type} {key : α → JsString} {rows : List α} {v : JsString} :
    v ∈ (rows.filter fun r => key r ≠ u).map key ↔ v ∈ rows.map key ∧ v ≠ u := by
  rw [List.mem_map, List.mem_map]
  constructor
  · rintro ⟨r, hr, rfl⟩
    obtain ⟨hmem, hne⟩ := List.mem_filter.mp hr
    exact ⟨⟨r, hmem, rfl⟩, of_decide_eq_true hne⟩
  · rintro ⟨⟨r, hr, rfl⟩, hne⟩
    exact ⟨r, List.mem_filter.mpr ⟨hr, decide_eq_true hne⟩, rfl⟩

/-- `setPassword` gives the user a password, whether or not it had one. -/
theorem upsertCredential_eq_ok {cr : CredentialRow} (h : db.upsertCredential cr = .ok db') :
    cr.userId ∈ db.users.map UserRow.id ∧ db'.users = db.users ∧ db'.accounts = db.accounts ∧
      db'.logins.password = insert cr.userId db.logins.password := by
  unfold upsertCredential at h
  split at h
  -- the row is there, and stays the row of its user
  · next hmem =>
    obtain ⟨old, hold, hid⟩ := List.mem_map.mp hmem
    refine ⟨hid ▸ db.credentialOwners old hold, ?_⟩
    cases h
    refine ⟨rfl, rfl, ?_⟩
    have hin : cr.userId ∈ db.logins.password := hmem
    rw [Set.insert_eq_of_mem hin]
    refine password_congr (map_key_update ?_ _)
    intro d
    split <;> rfl
  · obtain ⟨howner, husers, haccounts, hcredentials⟩ := insertCredential_eq_ok h
    exact ⟨howner, husers, haccounts, password_append hcredentials⟩

end AuthDb

end Aestival
