import Aestival.Web.StatementFailures

/-!
# Is `findOrCreateUser` atomic

`findOrCreateUser` writes without a transaction: the tokens and then the avatar of an account that
exists, or a user and then its account. A statement behind the first write may fail, and the call
throws with the first write done.

* `findOrCreate_atomic_iff`: the calls that are atomic are those in which no statement follows a
  write that changes something (`NothingToUndo`).
* `user_without_login`: a new user whose account could not be inserted is left behind, with no way
  to log in.
-/

namespace Aestival

open Prog AuthDb

/-- A call that throws leaves the tables `users` and `oauth_accounts` as they were, whichever of its
statements fail. -/
def Atomic (draws : Draws) (profile : OAuthProfile) (mode currentUserId : Option JsString)
    (db : AuthDb) : Prop :=
  ∀ c' err, (findOrCreateUser draws profile mode currentUserId).MayEnd { db } c' (.error err) →
    c'.db.users = db.users ∧ c'.db.accounts = db.accounts

/-! ### When nothing has to be undone -/

/-- What `updateTokens` writes, as the row has it. -/
def OAuthRow.tokens (a : OAuthRow) : AccountTokens where
  accessToken := a.accessToken
  refreshToken := a.refreshToken
  tokenExpiresAt := a.tokenExpiresAt
  providerUsername := a.providerUsername

/-- The profile has another avatar than the owner of the account. -/
def BringsAvatar (profile : OAuthProfile) (owner : UserRow) : Prop :=
  profile.avatarUrl ≠ [] ∧ owner.avatarUrl ≠ profile.avatarUrl

/-- The account belongs to another user than the one who links it. -/
def Conflicts (mode currentUserId : Option JsString) (oa : OAuthRow) : Prop :=
  mode = some (js "link") ∧ ∃ current, truthy currentUserId = some current ∧ oa.userId ≠ current

/-- No statement of the call follows a write that changes something. -/
def NothingToUndo (draws : Draws) (profile : OAuthProfile) (mode currentUserId : Option JsString)
    (db : AuthDb) : Prop :=
  match db.findOwner profile.identity with
  | some (oa, owner) =>
    -- the avatar is written behind the tokens, and the conflict is read behind both
    (BringsAvatar profile owner ∨ Conflicts mode currentUserId oa → oa.tokens = profile.tokens) ∧
      ¬ (BringsAvatar profile owner ∧ Conflicts mode currentUserId oa)
  | none =>
    -- no row can be inserted, or there is no user to insert it for
    if mode = some (js "login") then draws.userId ∈ db.users.map UserRow.id
    else ∀ current, truthy currentUserId = some current → current ∈ db.users.map UserRow.id →
      draws.accountId ∈ db.accounts.map OAuthRow.id

/-! ### Names -/

section Names

variable {c : Connection}

/-- A free name may be found when no statement fails. -/
theorem mayEnd_uniqueUsername {rounds : Nat} (base : JsString)
    (hrounds : c.db.users.length ≤ rounds) :
    ∃ name, ¬ c.db.HasName name ∧ (uniqueUsername rounds base).MayEnd c c (.ok name) := by
  obtain ⟨c', r, hrun, rfl, name, rfl, hfirst⟩ :=
    (ensures_uniqueUsername_firstFree base hrounds).mayEnd
  exact ⟨name, hfirst.free, hrun⟩

/-- The search for a name only reads. -/
theorem failing_uniqueSuffix (base : JsString) (rounds : Nat) :
    ∀ counter, (uniqueSuffix base rounds counter).EnsuresFailing (fun _ c' => c' = c) c := by
  induction rounds with
  | zero => exact fun _ => rfl
  | succ rounds ih =>
    intro counter
    refine failing_sql_ok rfl ?_ fun _ => rfl
    split
    · exact ih (counter + 1)
    · rfl

theorem failing_uniqueUsername (rounds : Nat) (base : JsString) :
    (uniqueUsername rounds base).EnsuresFailing (fun _ c' => c' = c) c := by
  refine failing_sql_ok rfl ?_ fun _ => rfl
  split
  · exact failing_uniqueSuffix base rounds 2
  · rfl

end Names

/-! ### The account exists -/

section Exists

variable {c c' : Connection} {profile : OAuthProfile} {mode currentUserId : Option JsString}
  {oa : OAuthRow} {owner : UserRow}

/-- The end of `useAccount`. -/
def reportConflict (mode currentUserId : Option JsString) (oa : OAuthRow) (user : UserRow) :
    SqlM FindOrCreateResult :=
  match truthy currentUserId with
  | some current =>
    if mode = some (js "link") ∧ oa.userId ≠ current then do
      let currentUser ← getUserById current
      pure { user := currentUser, isNew := false, conflict := some ⟨user, oa⟩ }
    else pure { user := some user, isNew := false }
  | none => pure { user := some user, isNew := false }

/-- It only reads, and fails only when there is a conflict. -/
theorem failing_reportConflict (user : UserRow) :
    (reportConflict mode currentUserId oa user).EnsuresFailing (fun r c' => c' = c ∧
      ∀ err, r = .error err → Conflicts mode currentUserId oa) c := by
  unfold reportConflict
  split
  · next current hcurrent =>
    split
    · next hlink =>
      have hconflicts : Conflicts mode currentUserId oa := ⟨hlink.1, current, hcurrent, hlink.2⟩
      exact failing_sql_ok rfl ⟨rfl, fun _ _ => hconflicts⟩ fun _ => ⟨rfl, fun _ _ => hconflicts⟩
    · exact ⟨rfl, fun _ h => (by cases h)⟩
  · exact ⟨rfl, fun _ h => (by cases h)⟩

/-- And then it may fail. -/
theorem mayEnd_reportConflict (h : Conflicts mode currentUserId oa) (user : UserRow) :
    (reportConflict mode currentUserId oa user).MayEnd c c (.error (.sqlite .io)) := by
  obtain ⟨hmode, current, hcurrent, hne⟩ := h
  unfold reportConflict
  rw [hcurrent]
  dsimp only
  rw [if_pos ⟨hmode, hne⟩]
  exact (mayEnd_io c _).bind_error _

/-- Tokens that are the same already change nothing. -/
theorem updateTokens_accounts_eq_iff {db : AuthDb} {t : AccountTokens} (hoa : oa ∈ db.accounts) :
    (db.updateTokens t oa.id).accounts = db.accounts ↔ oa.tokens = t := by
  -- the UPDATE rewrites the row of this id and leaves the others
  have hmap : (db.updateTokens t oa.id).accounts = db.accounts ↔ ∀ a ∈ db.accounts,
      (if a.id = oa.id then
        { a with
          accessToken := t.accessToken
          refreshToken := t.refreshToken
          tokenExpiresAt := t.tokenExpiresAt
          providerUsername := t.providerUsername }
      else a) = a := by
    refine Iff.trans ?_ (List.map_inj_left (g := id))
    rw [List.map_id]
    rfl
  rw [hmap]
  constructor
  · intro h
    have hrow := h oa hoa
    rw [if_pos rfl] at hrow
    rw [← hrow]
    rfl
  -- the id is the primary key, so it is the same row
  · rintro rfl a ha
    split
    · next hid =>
      rw [List.inj_on_of_nodup_map db.accountIds ha hoa hid]
      rfl
    · rfl

/-- Only a new avatar is written, and only its write can fail. -/
theorem failing_refreshAvatar :
    (refreshAvatar profile owner).EnsuresFailing (fun r c' =>
      (¬ BringsAvatar profile owner → c' = c) ∧
        ∀ err, r = .error err → BringsAvatar profile owner ∧ c' = c) c := by
  unfold refreshAvatar
  split
  · next havatar =>
    refine failing_sql_ok (a := ()) rfl ⟨fun h => absurd havatar h, fun _ h => (by cases h)⟩
      fun _ => ⟨fun _ => rfl, fun _ _ => ⟨havatar, rfl⟩⟩
  · exact ⟨fun _ => rfl, fun _ h => (by cases h)⟩

theorem failing_useAccount (hoa : oa ∈ c.db.accounts)
    (htokens : BringsAvatar profile owner ∨ Conflicts mode currentUserId oa →
      oa.tokens = profile.tokens)
    (honce : ¬ (BringsAvatar profile owner ∧ Conflicts mode currentUserId oa)) :
    (useAccount profile mode currentUserId oa owner).EnsuresFailing (fun r c' =>
      ∀ err, r = .error err → c'.db.users = c.db.users ∧ c'.db.accounts = c.db.accounts) c := by
  refine failing_sql_ok (a := ()) rfl (wp_bind_of failing_refreshAvatar ?_ ?_)
    fun _ _ _ => ⟨rfl, rfl⟩
  · rintro user c₂ ⟨hkept, -⟩
    refine wp_mono (failing_reportConflict user) ?_
    rintro r c₃ ⟨rfl, hconflicts⟩ err herr
    -- the conflict is what could not be read, so there is no new avatar
    have hlink := hconflicts err herr
    rw [hkept fun havatar => honce ⟨havatar, hlink⟩]
    exact ⟨rfl, (updateTokens_accounts_eq_iff hoa).mpr (htokens (Or.inr hlink))⟩
  · rintro err c₂ ⟨-, herror⟩ _ _
    obtain ⟨havatar, rfl⟩ := herror err rfl
    exact ⟨rfl, (updateTokens_accounts_eq_iff hoa).mpr (htokens (Or.inl havatar))⟩

/-- An avatar that is new changes the row of the owner. -/
theorem updateAvatar_users_ne {db : AuthDb} (howner : owner ∈ db.users)
    (havatar : BringsAvatar profile owner) :
    (db.updateAvatar profile.avatarUrl owner.id).users ≠ db.users := by
  intro h
  have hrow :
      (if owner.id = owner.id then { owner with avatarUrl := profile.avatarUrl } else owner) =
        owner :=
    List.map_inj_left.mp (h.trans (List.map_id _).symm) owner howner
  rw [if_pos rfl] at hrow
  exact havatar.2 (congrArg UserRow.avatarUrl hrow).symm

theorem exists_partial_useAccount (hoa : oa ∈ c.db.accounts) (howner : owner ∈ c.db.users)
    (h : ¬ ((BringsAvatar profile owner ∨ Conflicts mode currentUserId oa →
        oa.tokens = profile.tokens) ∧
      ¬ (BringsAvatar profile owner ∧ Conflicts mode currentUserId oa))) :
    ∃ c' err, (useAccount profile mode currentUserId oa owner).MayEnd c c' (.error err) ∧
      ¬ (c'.db.users = c.db.users ∧ c'.db.accounts = c.db.accounts) := by
  have htokens : (sql (.updateTokens profile.tokens oa.id)).MayEnd c
      { c with db := c.db.updateTokens profile.tokens oa.id } (.ok ()) := mayEnd_sql rfl
  by_cases havatar : BringsAvatar profile owner
  · have hrefresh : refreshAvatar profile owner =
        (sql (.updateAvatar profile.avatarUrl owner.id) >>= fun _ =>
          pure { owner with avatarUrl := profile.avatarUrl }) := if_pos havatar
    have hwrite : ∀ c₁ : Connection, (refreshAvatar profile owner).MayEnd c₁
        { c₁ with db := c₁.db.updateAvatar profile.avatarUrl owner.id }
        (.ok { owner with avatarUrl := profile.avatarUrl }) := by
      intro c₁
      rw [hrefresh]
      exact CanEnd.bind (mayEnd_sql (a := ()) rfl) (.pure _ _)
    have hfail : ∀ c₁ : Connection,
        (refreshAvatar profile owner).MayEnd c₁ c₁ (.error (.sqlite .io)) := by
      intro c₁
      rw [hrefresh]
      exact (mayEnd_io c₁ _).bind_error _
    by_cases hsame : oa.tokens = profile.tokens
    · -- the avatar has been written when the conflict cannot be read
      have hlink : Conflicts mode currentUserId oa := by
        by_contra hnone
        exact h ⟨fun _ => hsame, fun hboth => hnone hboth.2⟩
      exact ⟨_, _, htokens.bind ((hwrite _).bind (mayEnd_reportConflict hlink _)),
        fun hkept => updateAvatar_users_ne howner havatar hkept.1⟩
    · exact ⟨_, _, htokens.bind ((hfail _).bind_error _),
        fun hkept => hsame ((updateTokens_accounts_eq_iff hoa).mp hkept.2)⟩
  · -- the tokens have been written when the conflict cannot be read
    have hlink : Conflicts mode currentUserId oa := by
      by_contra hnone
      exact h ⟨fun hor => (hor.elim havatar hnone).elim, fun hboth => hnone hboth.2⟩
    have hsame : oa.tokens ≠ profile.tokens := fun hsame =>
      h ⟨fun _ => hsame, fun hboth => havatar hboth.1⟩
    have hskip : refreshAvatar profile owner = pure owner := if_neg havatar
    have hrun : (useAccount profile mode currentUserId oa owner).MayEnd c
        { c with db := c.db.updateTokens profile.tokens oa.id } (.error (.sqlite .io)) := by
      unfold useAccount
      rw [hskip]
      exact htokens.bind (mayEnd_reportConflict hlink owner)
    exact ⟨_, _, hrun, fun hkept => hsame ((updateTokens_accounts_eq_iff hoa).mp hkept.2)⟩

end Exists

/-! ### The account is new -/

section New

variable {c : Connection} {draws : Draws} {profile : OAuthProfile} {currentUserId : Option JsString}

/-- A new id is one that no user has. -/
theorem failing_createUser (hid : draws.userId ∈ c.db.users.map UserRow.id) :
    (createUser draws profile).EnsuresFailing (fun _ c' => c' = c) c := by
  refine wp_bind_of (failing_uniqueUsername _ _) ?_ fun _ _ h => h
  rintro username c₁ rfl
  refine failing_sql_bind (fun _ c₂ h₂ => ?_) fun _ => rfl
  obtain ⟨db₂, hdb₂, -⟩ := write_eq_ok h₂
  exact absurd hid (insertUser_eq_ok hdb₂).1

/-- A user of a new id and a free name can be inserted. -/
theorem exists_insertUser {db : AuthDb} (row : UserRow) (hid : row.id ∉ db.users.map UserRow.id)
    (hname : ¬ db.HasName row.username) :
    ∃ db', db.insertUser row = .ok db' ∧ db'.users = db.users ++ [row] := by
  have hfree : row.username ∉ db.users.map UserRow.username := hname
  unfold insertUser
  rw [dif_neg hid, dif_neg hfree]
  exact ⟨_, rfl, rfl⟩

/-- The account may fail to be inserted when the user has been. -/
theorem exists_partial_createUser (draws : Draws) (profile : OAuthProfile)
    (hid : draws.userId ∉ c.db.users.map UserRow.id)
    (hrounds : c.db.users.length ≤ draws.rounds) :
    ∃ c' row, (createUser draws profile).MayEnd c c' (.error (.sqlite .io)) ∧
      c'.db.users = c.db.users ++ [row] ∧ row.id = draws.userId ∧
      c'.db.accounts = c.db.accounts ∧ c'.db.credentials = c.db.credentials := by
  -- a free name is found, and the row of the user is written
  obtain ⟨name, hname, hsearch⟩ := mayEnd_uniqueUsername
    (profile.providerUsername.orElse (profile.provider.name ++ js "_user")) hrounds
  obtain ⟨db', hinsert, husers⟩ := exists_insertUser
    ⟨draws.userId, name, profile.avatarUrl, draws.datetime⟩ hid hname
  obtain ⟨-, -, haccounts, hcredentials⟩ := insertUser_eq_ok hinsert
  have hwrite : (sql (.insertUser ⟨draws.userId, name, profile.avatarUrl, draws.datetime⟩)).MayEnd c
      { c with db := db' } (.ok ()) := mayEnd_sql (congrArg c.write hinsert)
  refine ⟨{ c with db := db' }, _, hsearch.bind ?_, husers, rfl, haccounts, hcredentials⟩
  -- the next statement fails
  exact hwrite.bind ((mayEnd_io _ _).bind_error _)

/-- The id of an account that has been inserted was new. -/
theorem accountId_of_insertAccount {db db' : AuthDb} {a : OAuthRow}
    (h : db.insertAccount a = .ok db') : a.id ∉ db.accounts.map OAuthRow.id := by
  unfold insertAccount at h
  split at h
  · cases h
  · assumption

/-- No account can be inserted. -/
theorem failing_attachAccount
    (h : ∀ current, truthy currentUserId = some current → current ∈ c.db.users.map UserRow.id →
      draws.accountId ∈ c.db.accounts.map OAuthRow.id) :
    (attachAccount draws profile currentUserId).EnsuresFailing (fun _ c' => c' = c) c := by
  unfold attachAccount
  split
  · rfl
  next current hcurrent =>
  refine failing_sql_bind (fun _ c₁ h₁ => ?_) fun _ => rfl
  obtain ⟨db₁, hdb₁, -⟩ := write_eq_ok h₁
  exact absurd (h current hcurrent (insertAccount_eq_ok hdb₁).1) (accountId_of_insertAccount hdb₁)

/-- The user may fail to be read when the account has been inserted. -/
theorem exists_partial_attachAccount {current : JsString}
    (hfree : c.db.logins.owner profile.identity = none)
    (hcurrent : truthy currentUserId = some current)
    (huser : current ∈ c.db.users.map UserRow.id)
    (haccount : draws.accountId ∉ c.db.accounts.map OAuthRow.id) :
    ∃ c' err, (attachAccount draws profile currentUserId).MayEnd c c' (.error err) ∧
      c'.db.accounts = c.db.accounts ++ [profile.row draws current] := by
  obtain ⟨db', hinsert⟩ :=
    exists_insertAccount (a := profile.row draws current) haccount hfree huser
  obtain ⟨-, -, haccounts, -⟩ := insertAccount_eq_ok hinsert
  -- the row of the account is written
  have hwrite : (sql (.insertAccount (profile.row draws current))).MayEnd c
      { c with db := db' } (.ok ()) := mayEnd_sql (congrArg c.write hinsert)
  refine ⟨{ c with db := db' }, .sqlite .io, ?_, haccounts⟩
  unfold attachAccount
  rw [hcurrent]
  -- and the user cannot be read
  exact hwrite.bind ((mayEnd_io _ _).bind_error _)

end New

/-! ### The call -/

section Call

variable {draws : Draws} {profile : OAuthProfile} {mode currentUserId : Option JsString}
  {db : AuthDb}

theorem failing_findOrCreateUser (h : NothingToUndo draws profile mode currentUserId db) :
    (findOrCreateUser draws profile mode currentUserId).EnsuresFailing (fun r c' =>
      ∀ err, r = .error err → c'.db.users = db.users ∧ c'.db.accounts = db.accounts) { db } := by
  -- the lookup writes nothing
  refine failing_sql_ok (a := db.findOwner profile.identity) rfl ?_ fun _ _ _ => ⟨rfl, rfl⟩
  unfold NothingToUndo at h
  cases hfind : db.findOwner profile.identity with
  | some found =>
    obtain ⟨oa, owner⟩ := found
    rw [hfind] at h
    have hoa := findIdentity_eq_some.mp (findOwner_eq_some.mp hfind).1
    exact failing_useAccount hoa.1 h.1 h.2
  | none =>
    rw [hfind] at h
    dsimp only at h ⊢
    split at h
    -- a new identity logs in: the INSERT of its user comes first, which must fail
    case isTrue hlogin =>
      rw [if_pos hlogin]
      refine wp_mono (failing_createUser h) ?_
      rintro _ _ rfl _ _
      exact ⟨rfl, rfl⟩
    -- or it is linked to the user who is logged in
    case isFalse hlink =>
      rw [if_neg hlink]
      refine wp_mono (failing_attachAccount h) ?_
      rintro _ _ rfl _ _
      exact ⟨rfl, rfl⟩

/-- A call that has something to undo may throw with it done. -/
theorem exists_partial (hrounds : db.users.length ≤ draws.rounds)
    (h : ¬ NothingToUndo draws profile mode currentUserId db) :
    ∃ c' err, (findOrCreateUser draws profile mode currentUserId).MayEnd { db } c' (.error err) ∧
      ¬ (c'.db.users = db.users ∧ c'.db.accounts = db.accounts) := by
  have hlookup : (sql (.selectOwner profile.identity)).MayEnd { db } { db }
      (.ok (db.findOwner profile.identity)) := mayEnd_sql rfl
  unfold NothingToUndo at h
  cases hfind : db.findOwner profile.identity with
  -- a known identity: some statement behind the first write fails
  | some found =>
    obtain ⟨oa, owner⟩ := found
    rw [hfind] at h hlookup
    obtain ⟨hidentity, huser⟩ := findOwner_eq_some.mp hfind
    obtain ⟨c', err, hrun, hchanged⟩ := exists_partial_useAccount (c := { db })
      (findIdentity_eq_some.mp hidentity).1 (findUser_eq_some.mp huser).1 h
    exact ⟨c', err, hlookup.bind hrun, hchanged⟩
  | none =>
    rw [hfind] at h hlookup
    dsimp only at h
    split at h
    case isTrue hlogin =>
      obtain ⟨c', row, hrun, husers, -⟩ :=
        exists_partial_createUser (c := { db }) draws profile h hrounds
      refine ⟨c', .sqlite .io, hlookup.bind ?_, fun hkept => ?_⟩
      · dsimp only
        rw [if_pos hlogin]
        exact hrun
      -- the row of the new user has been written
      · rw [hkept.1, List.self_eq_append_right] at husers
        cases husers
    case isFalse hlink =>
      simp only [not_forall] at h
      obtain ⟨current, hcurrent, huser, haccount⟩ := h
      obtain ⟨c', err, hrun, haccounts⟩ := exists_partial_attachAccount (c := { db })
        (findOwner_eq_none.mp hfind) hcurrent huser haccount
      refine ⟨c', err, hlookup.bind ?_, fun hkept => ?_⟩
      · dsimp only
        rw [if_neg hlink]
        exact hrun
      -- the row of the account has been written
      · rw [hkept.2, List.self_eq_append_right] at haccounts
        cases haccounts

end Call

/-- **`findOrCreateUser` is atomic** in exactly the calls that have nothing to undo. The loop that
looks for a name needs no more rounds than there are users. -/
theorem findOrCreate_atomic_iff (profile : OAuthProfile) (mode currentUserId : Option JsString)
    {draws : Draws} {db : AuthDb} (hrounds : db.users.length ≤ draws.rounds) :
    Atomic draws profile mode currentUserId db ↔
      NothingToUndo draws profile mode currentUserId db := by
  constructor
  · intro hatomic
    by_contra hundo
    obtain ⟨c', err, hrun, hchanged⟩ := exists_partial hrounds hundo
    exact hchanged (hatomic c' err hrun)
  · intro hundo c' err hrun
    exact hrun.of_wp (failing_findOrCreateUser hundo) err rfl

/-- A profile of somebody who logs in for the first time. -/
def newProfile : OAuthProfile where
  provider := .github
  providerUserId := js "7"
  providerUsername := js "ada"
  avatarUrl := js "a.png"
  accessToken := js "t"

def newDraws : Draws where
  userId := js "u"
  accountId := js "a"

/-- A user of that identity, whose account has the tokens of the profile. -/
def knownUser : UserRow := { id := js "u", username := js "ada" }

def knownDb : AuthDb where
  users := [knownUser]
  accounts := [newProfile.row newDraws (js "u")]
  credentials := []
  userIds := List.nodup_singleton _
  usernames := List.nodup_singleton _
  accountIds := List.nodup_singleton _
  identities := List.nodup_singleton _
  owners := fun a ha => by
    obtain rfl := List.mem_singleton.mp ha
    exact List.mem_singleton_self _
  credentialIds := List.nodup_nil
  credentialOwners := fun _ h => absurd h List.not_mem_nil

/-- The login of a user who has a new avatar is atomic: where the avatar cannot be written, the
tokens have been written as they were. -/
theorem known_login_atomic :
    Atomic newDraws newProfile (some (js "login")) none knownDb ∧
      ∃ c', (findOrCreateUser newDraws newProfile (some (js "login")) none).MayEnd
        { db := knownDb } c' (.error (.sqlite .io)) := by
  have hfind : knownDb.findOwner newProfile.identity =
      some (newProfile.row newDraws (js "u"), knownUser) := rfl
  -- logging in is no link, so no conflict is reported
  have hlogin : ¬ Conflicts (some (js "login")) none (newProfile.row newDraws (js "u")) :=
    fun h => absurd h.1 (by decide)
  constructor
  -- the tokens that are written are those of the row
  · refine (findOrCreate_atomic_iff newProfile (some (js "login")) none (by decide)).mpr ?_
    unfold NothingToUndo
    rw [hfind]
    exact ⟨fun _ => rfl, fun hboth => hlogin hboth.2⟩
  -- a run in which the statement behind them fails
  · have hlookup : (sql (.selectOwner newProfile.identity)).MayEnd { db := knownDb }
        { db := knownDb } (.ok (knownDb.findOwner newProfile.identity)) := mayEnd_sql rfl
    rw [hfind] at hlookup
    have hfailed : ∀ c : Connection,
        (refreshAvatar newProfile knownUser).MayEnd c c (.error (.sqlite .io)) := by
      intro c
      have havatar : refreshAvatar newProfile knownUser =
          (sql (.updateAvatar newProfile.avatarUrl knownUser.id) >>= fun _ =>
            pure { knownUser with avatarUrl := newProfile.avatarUrl }) := if_pos (by decide)
      rw [havatar]
      exact (mayEnd_io c _).bind_error _
    exact ⟨_, hlookup.bind (CanEnd.bind (mayEnd_sql (a := ()) rfl) ((hfailed _).bind_error _))⟩

/-- **A user without a login method is left behind** when the account of a new user cannot be
inserted. -/
theorem user_without_login :
    ¬ Atomic newDraws newProfile (some (js "login")) none .empty ∧
      ∃ c', (findOrCreateUser newDraws newProfile (some (js "login")) none).MayEnd
          { db := .empty } c' (.error (.sqlite .io)) ∧
        js "u" ∈ c'.db.logins.users ∧ ¬ c'.db.logins.CanLogIn (js "u") := by
  obtain ⟨c', row, hrun, husers, hid, haccounts, hcredentials⟩ := exists_partial_createUser
    (c := { db := .empty }) newDraws newProfile List.not_mem_nil (Nat.zero_le _)
  have hlookup : (sql (.selectOwner newProfile.identity)).MayEnd { db := .empty } { db := .empty }
      (.ok none) := mayEnd_sql rfl
  -- the INSERT of the account fails behind that of the user
  have hcall : (findOrCreateUser newDraws newProfile (some (js "login")) none).MayEnd
      { db := .empty } c' (.error (.sqlite .io)) := by
    refine hlookup.bind ?_
    dsimp only
    rw [if_pos rfl]
    exact hrun
  refine ⟨fun hatomic => ?_, c', hcall, ?_, ?_⟩
  -- the row of the user is new
  · have hkept := (hatomic c' _ hcall).1
    rw [hkept, List.self_eq_append_right] at husers
    cases husers
  · rw [mem_users, husers, List.map_append, List.mem_append, List.map_singleton, hid]
    exact Or.inr (List.mem_singleton_self _)
  -- who has neither an account nor a password
  · rintro (⟨i, howner⟩ | hpassword)
    · obtain ⟨a, ha, -⟩ := owner_eq_some.mp howner
      rw [haccounts] at ha
      cases ha
    · rw [mem_password, hcredentials] at hpassword
      cases hpassword

end Aestival
