import Aestival.Library.Tables
import Aestival.Web.AccountSpecs

/-!
# A merge conserves the identities

`mergeAccounts` moves the accounts of the source, gives the target the avatar of the source when the
target has none, and deletes the source, whose credentials go with it. `Conserves` is what this
should leave of each table: the identities of the two users belong to the target, each in one row;
the target keeps its name and its password; the rows of other users are as they were.

* `MergedRows.conserves`: the rows behind a merge are such.
* `mergeAccounts_conserves`: so are the tables behind every call that returns, and a call that
  throws leaves the tables as they were.
* `mergeAccounts_returns_iff`: a call returns exactly when there are two users to merge.
-/

namespace Aestival

/-! ### Rows under an update -/

section Rows

variable {α : Type} {f : α → α} {p : α → Bool} {rows : List α}

/-- The rows that an update does not touch are the same. -/
theorem filter_map_of_untouched (hp : ∀ a ∈ rows, p (f a) = p a)
    (hf : ∀ a ∈ rows, p a = true → f a = a) : (rows.map f).filter p = rows.filter p := by
  rw [List.filter_map]
  have hsame : rows.filter (p ∘ f) = rows.filter p := List.filter_congr hp
  rw [hsame]
  refine (List.map_congr_left fun a ha => ?_).trans (List.map_id _)
  obtain ⟨hmem, hpa⟩ := List.mem_filter.mp ha
  exact hf a hmem hpa

end Rows

/-! ### What a merge conserves -/

/-- A row of neither the target nor the source. -/
def IsOther (targetUserId sourceUserId userId : JsString) : Prop :=
  userId ≠ targetUserId ∧ userId ≠ sourceUserId

instance (targetUserId sourceUserId userId : JsString) :
    Decidable (IsOther targetUserId sourceUserId userId) :=
  inferInstanceAs (Decidable (_ ∧ _))

/-- **What a merge must leave of the tables.** -/
structure Conserves (targetUserId sourceUserId : JsString) (db db' : AuthDb) : Prop where
  /-- An identity of one of the two is in one row, which is the old one but for its owner. -/
  owned : ∀ a ∈ db.accounts, a.userId = sourceUserId ∨ a.userId = targetUserId →
    (db'.accounts.filter fun b => b.identity = a.identity) = [{ a with userId := targetUserId }]
  /-- The target owns no other identity. -/
  gained : ∀ b ∈ db'.accounts, b.userId = targetUserId →
    ∃ a ∈ db.accounts, a.identity = b.identity ∧ (a.userId = sourceUserId ∨ a.userId = targetUserId)
  sourceUser : sourceUserId ∉ db'.users.map UserRow.id
  sourceCredential : sourceUserId ∉ db'.credentials.map CredentialRow.userId
  /-- The row of the target is the old one but for an avatar where there was none. -/
  targetUser : ∀ u ∈ db.users, u.id = targetUserId →
    ∃ u' ∈ db'.users, u' = { u with avatarUrl := u'.avatarUrl } ∧
      (u.avatarUrl ≠ [] → u'.avatarUrl = u.avatarUrl)
  targetCredential : (db'.credentials.filter fun cr => cr.userId = targetUserId) =
    db.credentials.filter fun cr => cr.userId = targetUserId
  otherUsers : (db'.users.filter fun u => IsOther targetUserId sourceUserId u.id) =
    db.users.filter fun u => IsOther targetUserId sourceUserId u.id
  otherAccounts : (db'.accounts.filter fun a => IsOther targetUserId sourceUserId a.userId) =
    db.accounts.filter fun a => IsOther targetUserId sourceUserId a.userId
  otherCredentials :
    (db'.credentials.filter fun cr => IsOther targetUserId sourceUserId cr.userId) =
      db.credentials.filter fun cr => IsOther targetUserId sourceUserId cr.userId

variable {targetUserId sourceUserId : JsString}

/-- An account of one of the two is the target's after the merge. -/
theorem absorbed_eq {a : OAuthRow} (ha : a.userId = sourceUserId ∨ a.userId = targetUserId) :
    absorbed targetUserId sourceUserId a = { a with userId := targetUserId } := by
  unfold absorbed
  split
  · rfl
  · next hsource =>
    have htarget : a.userId = targetUserId := ha.resolve_left hsource
    rw [← htarget]

/-- An account of somebody else is not touched. -/
theorem absorbed_eq_self {a : OAuthRow} (ha : a.userId ≠ sourceUserId) :
    absorbed targetUserId sourceUserId a = a := if_neg ha

theorem absorbed_isOther (a : OAuthRow) :
    IsOther targetUserId sourceUserId (absorbed targetUserId sourceUserId a).userId ↔
      IsOther targetUserId sourceUserId a.userId := by
  by_cases hsource : a.userId = sourceUserId
  · rw [absorbed_eq (Or.inl hsource)]
    exact iff_of_false (fun h => h.1 rfl) fun h => h.2 hsource
  · rw [absorbed_eq_self hsource]

/-- A selection that leaves out the source does not see that the source is deleted. -/
theorem filter_filter_ne {α : Type} {key : α → JsString} {p : α → Prop} [DecidablePred p]
    {source : JsString} (hp : ∀ a, p a → key a ≠ source) (rows : List α) :
    ((rows.filter fun a => key a ≠ source).filter fun a => p a) = rows.filter fun a => p a := by
  rw [List.filter_filter]
  refine List.filter_congr fun a _ => ?_
  by_cases ha : p a
  · simp [ha, hp a ha]
  · simp [ha]

/-- **The rows behind a merge conserve the identities.** -/
theorem MergedRows.conserves {target source : UserRow} {db db' : AuthDb}
    (h : MergedRows target source db db') (hne : target.id ≠ source.id)
    (htarget : target ∈ db.users) :
    Conserves target.id source.id db db' where
  owned a ha hua := by
    rw [h.accounts, List.filter_map]
    -- moving a row keeps its identity, and identities are unique
    have hsame :
        (fun b : OAuthRow => decide (b.identity = a.identity)) ∘ absorbed target.id source.id =
          fun b => decide (b.identity = a.identity) :=
      funext fun b => by rw [Function.comp_apply, absorbed_identity]
    rw [hsame, filter_key_eq db.identities ha, List.map_singleton, absorbed_eq hua]
  gained b hb hub := by
    rw [h.accounts] at hb
    obtain ⟨a, ha, rfl⟩ := List.mem_map.mp hb
    refine ⟨a, ha, (absorbed_identity ..).symm, ?_⟩
    -- a row of the target was the source's or was there before
    by_cases hsource : a.userId = source.id
    · exact Or.inl hsource
    · rw [absorbed_eq_self hsource] at hub
      exact Or.inr hub
  sourceUser := by
    rw [h.users, AuthDb.mem_map_filter_ne]
    exact fun hmem => hmem.2 rfl
  sourceCredential := by
    rw [h.credentials, AuthDb.mem_map_filter_ne]
    exact fun hmem => hmem.2 rfl
  targetUser u hu hid := by
    -- the row of the target is one, and may only get the avatar
    have hut : u = target := List.inj_on_of_nodup_map db.userIds hu htarget hid
    subst hut
    refine ⟨withAvatarOf u source u, ?_, ?_, ?_⟩
    · rw [h.users]
      refine List.mem_filter.mpr ⟨List.mem_map_of_mem hu, decide_eq_true ?_⟩
      rw [withAvatarOf_id]
      exact hne
    · unfold withAvatarOf
      split <;> rfl
    · intro havatar
      exact congrArg UserRow.avatarUrl (if_neg fun hcase => havatar hcase.2.1)
  targetCredential := by
    rw [h.credentials]
    exact filter_filter_ne (fun cr hcr => hcr.symm ▸ hne) _
  otherUsers := by
    -- the rows of all others are as they were
    rw [h.users, filter_filter_ne (fun u hu => hu.2)]
    refine filter_map_of_untouched (fun u _ => ?_) fun u _ hother => ?_
    · rw [withAvatarOf_id]
    · exact if_neg fun hcase => (of_decide_eq_true hother).1 hcase.2.2
  otherAccounts := by
    rw [h.accounts]
    refine filter_map_of_untouched (fun a _ => ?_) fun a _ hother => ?_
    · exact decide_eq_decide.mpr (absorbed_isOther a)
    · exact absorbed_eq_self (of_decide_eq_true hother).2
  otherCredentials := by
    rw [h.credentials]
    exact filter_filter_ne (fun cr hcr => hcr.2) _

/-! ### The calls -/

/-- What a call leaves: a merge, or the tables as they were when it throws. -/
def MergeOutcome (targetUserId sourceUserId : JsString) (db : AuthDb) :
    Except JsError (Option UserRow) × AuthDb → Prop
  | (.ok _, db') => Conserves targetUserId sourceUserId db db'
  | (.error _, db') => db' = db

/-- **`mergeAccounts` conserves the identities**, and a call that throws changes nothing. -/
theorem mergeAccounts_conserves (db : AuthDb) (targetUserId sourceUserId : JsString) :
    MergeOutcome targetUserId sourceUserId db
      ((mergeAccounts targetUserId sourceUserId).call db) := by
  obtain ⟨_, hcall⟩ := (ensures_mergeAccounts_rows (c := { db }) targetUserId sourceUserId).call
  generalize (mergeAccounts targetUserId sourceUserId).call db = result at hcall ⊢
  obtain ⟨r, db'⟩ := result
  rcases hcall with ⟨target, ht, source, -, hne, rfl, rfl, hr, hrows⟩ | ⟨-, ⟨err, herr⟩, hdb⟩
  · obtain rfl : r = .ok (db'.findUser target.id) := hr
    exact hrows.conserves hne ht
  · obtain rfl : r = .error err := herr
    exact hdb

/-- A call returns exactly when there are two users to merge. -/
theorem mergeAccounts_returns_iff (db : AuthDb) (targetUserId sourceUserId : JsString) :
    (∃ user, ((mergeAccounts targetUserId sourceUserId).call db).1 = .ok user) ↔
      Mergeable db targetUserId sourceUserId := by
  obtain ⟨_, hcall⟩ := (ensures_mergeAccounts_rows (c := { db }) targetUserId sourceUserId).call
  rcases hcall with ⟨target, ht, source, hs, hne, rfl, rfl, hr, -⟩ | ⟨hnot, ⟨err, herr⟩, -⟩
  · exact iff_of_true ⟨_, hr⟩ ⟨hne, List.mem_map_of_mem ht, List.mem_map_of_mem hs⟩
  · refine iff_of_false ?_ hnot
    rintro ⟨user, huser⟩
    rw [huser] at herr
    cases herr

end Aestival
