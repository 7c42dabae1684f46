import Aestival.Web.TokenKinds

/-!
# Who has admin access

`requireAdmin` decides by the name in the session, which was signed up to a day ago. Names do not
change and no request deletes an account, except that a merge deletes its source. A session that was
signed for the source remains valid.

* `SessionInv`: every session was signed for a user of the tables, or of one that has been merged
  into another since.
* `admin_access`: what holds when both guards let a request pass.
* `admin_merged_away`: the session of an administrator whose account is gone.
-/

namespace Aestival

namespace Backend

/-- A merge with this account as its source has deleted it. -/
def MergedAway (cfg : BackendConfig) (tr : List (Backend × WebEvent)) (id : JsString) : Prop :=
  ∃ p ∈ tr, ∃ browser now cookie nonce target,
    p.2 = .request browser now cookie nonce (.merge target (some id)) ∧
      id ∈ p.1.db.users.map UserRow.id ∧ id ∉ (p.1.react cfg p.2).2.db.users.map UserRow.id

/-- The user is in the tables, or was merged into another one. -/
def Known (cfg : BackendConfig) (tr : List (Backend × WebEvent)) (s : Backend) (user : UserRow) :
    Prop :=
  s.db.Named user ∨ MergedAway cfg tr user.id

/-- The sessions, and the logins that wait for the comparison of the password. -/
structure SessionInv (cfg : BackendConfig) (tr : List (Backend × WebEvent)) (s : Backend) :
    Prop where
  sessions : ∀ m ∈ s.minted, m.kind = .session →
    ∃ now user, m.claims = sessionClaims now user ∧ Known cfg tr s user
  logins : ∀ browser user credential, .login browser (some (user, credential)) ∈ s.pending →
    Known cfg tr s user

variable {cfg : BackendConfig} {tr : List (Backend × WebEvent)} {s : Backend} {e : WebEvent}

/-- **Only a merge takes a user from the tables**, and no user changes its name. -/
theorem Known.step {user : UserRow} (h : Known cfg tr s user) (hallowed : e.Allowed s) :
    Known cfg (tr ++ [(s, e)]) (s.react cfg e).2 user := by
  rcases h with hnamed | ⟨p, hp, hgone⟩
  swap
  · exact Or.inr ⟨p, List.mem_append_left _ hp, hgone⟩
  have hthere : user.id ∈ s.db.users.map UserRow.id := by
    obtain ⟨row, hrow, hid, -⟩ := hnamed
    exact hid ▸ List.mem_map_of_mem hrow
  rcases (change_react cfg hallowed).db with ⟨op, hpermits, happlied⟩ | hsame
  swap
  · exact Or.inl (hsame.named hnamed)
  -- only a merge removes a user, and it names the user as its source
  rcases happlied.step.mem_users hthere with hstays | ⟨target, rfl⟩
  · exact Or.inl (happlied.names.named hnamed hstays)
  · cases hpermits with
    | @merge browser now cookie nonce =>
      refine Or.inr ⟨_, List.mem_append_right _ (List.mem_singleton_self _), browser, now, cookie,
        nonce, some target, rfl, hthere, fun hstays => ?_⟩
      -- the source is not among the users behind the merge
      have hstays : user.id ∈ (s.react cfg _).2.db.logins.users := hstays
      cases happlied.step with
      | absorb _ _ _ husers =>
        rw [husers] at hstays
        exact hstays.2 rfl

theorem SessionInv.step (h : SessionInv cfg tr s) (hallowed : e.Allowed s) :
    SessionInv cfg (tr ++ [(s, e)]) (s.react cfg e).2 where
  sessions m hm hkind := by
    rcases (change_react cfg hallowed).minted_cases hm with hm | hsigned
    · obtain ⟨now, user, hclaims, hknown⟩ := h.sessions m hm hkind
      exact ⟨now, user, hclaims, hknown.step hallowed⟩
    cases hsigned with
    -- a login ends long after it has read the row, and signs for the row it has read
    | session _ huser =>
      rcases huser with hnamed | ⟨later, draws, credential, outcome, rfl⟩
      · exact ⟨_, _, rfl, Or.inl hnamed⟩
      · exact ⟨_, _, rfl, (h.logins _ _ _ hallowed.1).step hallowed⟩
    | state => cases hkind
    | bot => cases hkind
  logins browser user credential hp := by
    rcases (change_react cfg hallowed).pending _ hp with hp | horigin
    · exact (h.logins browser user credential hp).step hallowed
    · cases horigin with
      | login hrow => exact Known.step (Or.inl (hrow user credential rfl)) hallowed

theorem SessionInv.of_run (h : (backend cfg).Run tr s) : SessionInv cfg tr s := by
  induction h with
  | @start s hinit =>
    obtain rfl : s = {} := hinit
    exact ⟨fun _ hm => absurd hm List.not_mem_nil, fun _ _ _ hp => absurd hp List.not_mem_nil⟩
  | step _ hstep ih =>
    obtain ⟨hallowed, rfl⟩ := hstep
    exact ih.step hallowed

end Backend

open Backend

/-- **Admin access is given to sessions of administrators.** When both guards let a request pass, it
has an unexpired session, signed for an account with the name of an administrator, and the tables
still have this account, unless it was merged into another one since. -/
theorem admin_access {cfg : BackendConfig} {tr : List (Backend × WebEvent)} {s : Backend}
    (h : (backend cfg).Run tr s) {now : Nat} {cookie : Option Token} {claims : Claims}
    (hcookie : s.Presentable cookie) (hauth : requireAuth now cookie = .ok claims)
    (hadmin : requireAdmin cfg.adminUsers (some claims) = .ok ()) :
    now / 1000 < claims.exp ∧ s.MintedAs .session claims ∧
      ∃ id username, claims.sub = some id ∧ claims.username = some username ∧
        username ∈ cfg.adminUsers ∧
        ((∃ row ∈ s.db.users, row.id = id ∧ row.username = username) ∨ MergedAway cfg tr id) := by
  obtain ⟨rfl, hexp⟩ := requireAuth_eq_ok.mp hauth
  obtain ⟨_, username, heq, husername, hmem⟩ := requireAdmin_eq_ok.mp hadmin
  obtain rfl := Option.some.inj heq
  obtain ⟨m, hm, rfl⟩ := hcookie claims rfl
  -- only a session has a name
  have hkind : m.kind = .session := by
    have hname := ((kindInv h.reachable).minted m hm).username
    rw [husername] at hname
    exact of_decide_eq_true hname.symm
  obtain ⟨signedAt, user, hclaims, hknown⟩ := (SessionInv.of_run h).sessions m hm hkind
  refine ⟨hexp, ⟨m, hm, hkind, rfl⟩, user.id, username, ?_, husername, hmem, ?_⟩
  · rw [hclaims]
    rfl
  · have hname : user.username = username := by
      rw [hclaims] at husername
      exact Option.some.inj husername
    exact hname ▸ hknown

/-! ### An administrator whose account is gone -/

/-- Browser 0 registers the administrator, and browser 1 another user, who then merges the account
of the administrator into its own. -/
def mergeAdmin : List WebEvent :=
  [.request 0 1000 none (js "1") (.register (some (js "admin")) (some (js "password"))),
    .resume 1000 { userId := js "u1", accountId := js "a" } (.register 0 (js "admin")) {},
    .request 1 2000 none (js "2") (.register (some (js "eve")) (some (js "password"))),
    .resume 2000 { userId := js "u2", accountId := js "a" } (.register 1 (js "eve")) {},
    .request 1 3000 (some (signSession 2000 { id := js "u2", username := js "eve" })) (js "3")
      (.merge (some (js "u2")) (some (js "u1")))]

def adminConfig : BackendConfig := { adminUsers := [js "admin"] }

/-- The session of the administrator. -/
def adminSession : Claims := sessionClaims 1000 { id := js "u1", username := js "admin" }

/-- The backend behind the merge. -/
def afterMerge : Backend := (play adminConfig {} mergeAdmin).2

theorem mergeAdmin_run : (backend adminConfig).Run (play adminConfig {} mergeAdmin).1 afterMerge :=
  run_of_events mergeAdmin (by decide)

theorem afterMerge_users : afterMerge.db.users.map UserRow.id = [js "u2"] := by decide

theorem admin_access_merged :
    requireAuth 4000 (some (.signed adminSession)) = .ok adminSession ∧
      MergedAway adminConfig (play adminConfig {} mergeAdmin).1 (js "u1") := by
  have hpass : requireAuth 4000 (some (.signed adminSession)) = .ok adminSession := by decide
  refine ⟨hpass, ?_⟩
  obtain ⟨-, -, id, username, hid, -, -, hknown⟩ :=
    admin_access mergeAdmin_run (by decide) hpass (by decide)
  obtain rfl : js "u1" = id := Option.some.inj hid
  rcases hknown with ⟨row, hrow, hid, -⟩ | hgone
  · have hmem : js "u1" ∈ afterMerge.db.users.map UserRow.id := hid ▸ List.mem_map_of_mem hrow
    rw [afterMerge_users] at hmem
    exact absurd hmem (by decide)
  · exact hgone

/-- **The session of an administrator outlives the account.** -/
theorem admin_merged_away :
    (backend adminConfig).Reachable afterMerge ∧
      afterMerge.Presentable (some (.signed adminSession)) ∧
      requireAuth 4000 (some (.signed adminSession)) = .ok adminSession ∧
      requireAdmin adminConfig.adminUsers (some adminSession) = .ok () ∧
      ¬ ∃ row ∈ afterMerge.db.users, adminSession.sub = some row.id ∧
        row.username ∈ adminConfig.adminUsers := by
  refine ⟨mergeAdmin_run.reachable, by decide, by decide, by decide, ?_⟩
  rintro ⟨row, hrow, hsub, -⟩
  have hmem : row.id ∈ afterMerge.db.users.map UserRow.id := List.mem_map_of_mem hrow
  rw [← Option.some.inj hsub, afterMerge_users] at hmem
  exact absurd hmem (by decide)

end Aestival
