import Aestival.Library.Runs
import Aestival.Web.AccountSpecs

/-!
# Every account keeps a way to log in

The account operations are called in any order, with any arguments, from the empty database on
(`accountCalls`); a call may throw. The two operations that wait for the hash of a password are
called behind it, so between their parts anything else may have happened.

* `everyUserHasLogin`: every user has an account at a provider, or a password.
-/

namespace Aestival

open AuthDb

/-- The calls. -/
inductive AccountCall where
  | registerWithPassword (draws : Draws) (username hash : JsString)
  | findOrCreateUser (draws : Draws) (profile : OAuthProfile) (mode currentUserId : Option JsString)
  | setPassword (draws : Draws) (userId passwordHash : JsString)
  | ensureAdminPassword (draws : Draws) (user : Option UserRow) (passwordHash : JsString)
  | unlinkAccount (userId provider : JsString)
  | mergeAccounts (targetUserId sourceUserId : JsString)

/-- The tables behind a call, whether it has returned or thrown. -/
def AccountCall.run (db : AuthDb) : AccountCall → AuthDb
  | .registerWithPassword draws username hash =>
    ((Aestival.registerWithPassword draws username hash).call db).2
  | .findOrCreateUser draws profile mode currentUserId =>
    ((Aestival.findOrCreateUser draws profile mode currentUserId).call db).2
  | .setPassword draws userId passwordHash =>
    ((Aestival.setPassword draws userId passwordHash).call db).2
  | .ensureAdminPassword draws user passwordHash =>
    ((Aestival.ensureAdminPassword draws user passwordHash).call db).2
  | .unlinkAccount userId provider => ((Aestival.unlinkAccount userId provider).call db).2
  | .mergeAccounts targetUserId sourceUserId =>
    ((Aestival.mergeAccounts targetUserId sourceUserId).call db).2

/-- `crypto.randomUUID` gives an account an id that no other account has. -/
def AccountCall.Fresh (db : AuthDb) : AccountCall → Prop
  | .findOrCreateUser draws _ _ _ => draws.accountId ∉ db.accounts.map OAuthRow.id
  | _ => True

/-- The calls in any order. -/
def accountCalls : TransitionSystem AuthDb AccountCall where
  init db := db = .empty
  step db call db' := call.Fresh db ∧ db' = call.run db

/-- Every user can log in. -/
def EveryUserHasLogin (db : AuthDb) : Prop :=
  ∀ u ∈ db.users, (∃ a ∈ db.accounts, a.userId = u.id) ∨ ∃ cr ∈ db.credentials, cr.userId = u.id

theorem everyUserHasLogin_iff {db : AuthDb} : EveryUserHasLogin db ↔ db.logins.HasLogin := by
  have hlogin : ∀ u, db.logins.CanLogIn u ↔
      (∃ a ∈ db.accounts, a.userId = u) ∨ ∃ cr ∈ db.credentials, cr.userId = u := by
    intro u
    refine or_congr ⟨?_, ?_⟩ List.mem_map
    · rintro ⟨i, hi⟩
      obtain ⟨a, ha, -, hau⟩ := owner_eq_some.mp hi
      exact ⟨a, ha, hau⟩
    · rintro ⟨a, ha, rfl⟩
      exact ⟨a.identity, owner_of_mem ha⟩
  constructor
  · intro h u hu
    obtain ⟨row, hrow, rfl⟩ := List.mem_map.mp hu
    exact (hlogin row.id).mpr (h row hrow)
  · intro h row hrow
    exact (hlogin row.id).mp (h row.id (List.mem_map_of_mem hrow))

/-- A call is one step of the account system, or none. -/
theorem AccountCall.run_cases {db : AuthDb} {call : AccountCall} (hfresh : call.Fresh db) :
    (∃ op, db.Applied op (call.run db)) ∨ (call.run db).logins = db.logins := by
  cases call with
  -- each call is one operation on the logins, or it fails and changes nothing
  | registerWithPassword draws username hash =>
    obtain ⟨_, ⟨row, -, happlied, -⟩ | ⟨-, hdb⟩⟩ :=
      (ensures_registerWithPassword (c := { db }) draws username hash).call
    · exact Or.inl ⟨_, happlied⟩
    · exact Or.inr (congrArg logins hdb)
  | findOrCreateUser draws profile mode currentUserId =>
    refine (findOrCreateUser_resolved _ _ _ hfresh).applied_or_same.imp_right ?_
    exact AuthDb.SameAccounts.logins
  | setPassword draws userId passwordHash =>
    obtain ⟨_, ⟨-, happlied⟩ | ⟨-, hdb⟩⟩ :=
      (ensures_setPassword (c := { db }) draws userId passwordHash).call
    · exact Or.inl ⟨_, happlied⟩
    · exact Or.inr (congrArg logins hdb)
  | ensureAdminPassword draws user passwordHash =>
    cases user with
    | none => exact Or.inr rfl
    | some user =>
      obtain ⟨_, ⟨-, happlied⟩ | ⟨-, hdb⟩⟩ :=
        (ensures_ensureAdminPassword (c := { db }) draws user passwordHash).call
      · exact Or.inl ⟨_, happlied⟩
      · exact Or.inr (congrArg logins hdb)
  | unlinkAccount userId provider =>
    obtain ⟨_, ⟨_, -, happlied⟩ | ⟨-, hdb⟩⟩ :=
      (ensures_unlinkAccount (c := { db }) userId provider).call
    · exact Or.inl ⟨_, happlied⟩
    · exact Or.inr (congrArg logins hdb)
  | mergeAccounts targetUserId sourceUserId =>
    obtain ⟨_, ⟨-, _, -, happlied, -⟩ | ⟨-, -, hdb⟩⟩ :=
      (ensures_mergeAccounts (c := { db }) targetUserId sourceUserId).call
    · exact Or.inl ⟨_, happlied⟩
    · exact Or.inr (congrArg logins hdb)

/-- **Every account keeps a way to log in.** -/
theorem everyUserHasLogin {db : AuthDb} (h : accountCalls.Reachable db) : EveryUserHasLogin db := by
  obtain ⟨tr, hrun⟩ := h
  refine everyUserHasLogin_iff.mpr (hrun.invariant (I := fun db => db.logins.HasLogin) ?_ ?_)
  · rintro db rfl u hu
    cases hu
  · rintro db call db' hdb ⟨hfresh, rfl⟩
    rcases AccountCall.run_cases hfresh with ⟨op, happlied⟩ | hlogins
    · exact happlied.step.hasLogin hdb
    · rw [hlogins]
      exact hdb

/-- A new user who has only a password, and who then links an account. -/
def registerAndLink : List AccountCall :=
  [.registerWithPassword { userId := js "u", accountId := js "a" } (js "ann") (js "hash"),
    .findOrCreateUser { userId := js "v", accountId := js "a" }
      { provider := .qq, providerUserId := js "7" } (some (js "link")) (some (js "u"))]

theorem everyUserHasLogin_registerAndLink :
    (registerAndLink.foldl AccountCall.run .empty).accounts.map OAuthRow.userId = [js "u"] ∧
      EveryUserHasLogin (registerAndLink.foldl AccountCall.run .empty) := by
  have hrun : accountCalls.Run [] .empty := .start rfl
  have hregistered := hrun.step (e := registerAndLink[0]) ⟨trivial, rfl⟩
  have hlinked := hregistered.step (e := registerAndLink[1])
    ⟨List.not_mem_nil, rfl⟩
  exact ⟨by decide, everyUserHasLogin hlinked.reachable⟩

end Aestival
