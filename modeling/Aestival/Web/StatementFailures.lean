import Aestival.Web.MergeConserves

/-!
# Statements that fail

A statement of the backend can fail although no constraint is violated: the disk is full, or another
process holds the lock for too long. `AuthDb.failing` is the database on which any statement may
fail so. A statement that fails changes nothing.

Outside of a transaction each statement commits by itself, so what has been written before a failure
stays. `failing_transaction` says that a transaction is all or nothing, and `mergeAccounts_failing`
and `registerWithPassword_failing` say it of the two functions that have one.
-/

namespace Aestival

/-- The database whose statements may also fail for reasons of their own. -/
def AuthDb.failing : Machine SqlSig Connection where
  admits c e x := x = c.answer e ∨ x = .error .io
  next c e x := match (x : Except SqliteError e.Res) with
    | .ok _ => c.next e
    | .error _ => c

/-- Every run of the function from `c` ends in `Q`, whatever fails. -/
abbrev SqlM.EnsuresFailing {α : Type} (p : SqlM α) (Q : Except JsError α → Connection → Prop)
    (c : Connection) : Prop :=
  Prog.wp AuthDb.failing (fun _ _ => True) p Q c

/-- The function can end so when statements may fail. -/
abbrev SqlM.MayEnd {α : Type} (p : SqlM α) (c c' : Connection) (r : Except JsError α) : Prop :=
  Prog.CanEnd AuthDb.failing c p c' r

/-- What other connections see, and what is left when the process ends: an open transaction has not
happened. -/
def Connection.stored (c : Connection) : AuthDb := c.saved.getD c.db

open Prog AuthDb

variable {α β : Type} {c c' c'' : Connection}

/-! ### Rules -/

/-- A statement that returns has been executed. -/
theorem failing_next_ok {e : SqlEff} {a : e.Res} (h : AuthDb.failing.admits c e (.ok a)) :
    c.exec e = .ok (a, AuthDb.failing.next c e (.ok a)) := by
  rcases h with h | h
  · have hanswer : c.answer e = .ok a := h.symm
    show c.exec e = .ok (a, c.next e)
    unfold Connection.answer at hanswer
    unfold Connection.next
    cases hexec : c.exec e with
    | error err =>
      rw [hexec] at hanswer
      cases hanswer
    | ok result =>
      rw [hexec] at hanswer
      obtain rfl : result.1 = a := Except.ok.inj hanswer
      rfl
  · cases h

/-- A statement and what follows it. -/
theorem failing_sql_bind {e : SqlEff} {f : e.Res → SqlM β}
    {Q : Except JsError β → Connection → Prop}
    (hok : ∀ a c', c.exec e = .ok (a, c') → (f a).EnsuresFailing Q c')
    (herror : ∀ err, Q (.error (.sqlite err)) c) : (sql e >>= f).EnsuresFailing Q c := by
  refine ⟨trivial, fun x hx => ?_⟩
  cases x with
  | ok a => exact hok a _ (failing_next_ok hx)
  | error err => exact herror err

/-- A statement that no constraint is about, and what follows it. -/
theorem failing_sql_ok {e : SqlEff} {f : e.Res → SqlM β} {Q : Except JsError β → Connection → Prop}
    {a : e.Res} (hexec : c.exec e = .ok (a, c')) (h : (f a).EnsuresFailing Q c')
    (herror : ∀ err, Q (.error (.sqlite err)) c) : (sql e >>= f).EnsuresFailing Q c := by
  refine failing_sql_bind (fun b c'' hb => ?_) herror
  rw [hexec] at hb
  cases hb
  exact h

/-- A statement at the end. -/
theorem failing_sql {e : SqlEff} {Q : Except JsError e.Res → Connection → Prop}
    (hok : ∀ a c', c.exec e = .ok (a, c') → Q (.ok a) c')
    (herror : ∀ err, Q (.error (.sqlite err)) c) : (sql e).EnsuresFailing Q c := by
  refine ⟨trivial, fun x hx => ?_⟩
  cases x with
  | ok a => exact hok a _ (failing_next_ok hx)
  | error err => exact herror err

/-- A statement may be executed. -/
theorem mayEnd_sql {e : SqlEff} {a : e.Res} (h : c.exec e = .ok (a, c')) :
    (sql e).MayEnd c c' (.ok a) := by
  have hanswer : c.answer e = .ok a := congrArg (Except.map Prod.fst) h
  have hnext : c.next e = c' := by
    unfold Connection.next
    rw [h]
  have hx : AuthDb.failing.admits c e (.ok a) := Or.inl hanswer.symm
  exact hnext ▸ ⟨_, .op (M := AuthDb.failing) (x := .ok a) hx (.ret _ _)⟩

/-- What is verified of a function holds of the run in which no statement fails. -/
theorem SqlM.Ensures.mayEnd {p : SqlM α} {Q : Except JsError α → Connection → Prop}
    (h : p.Ensures Q c) : ∃ c' r, p.MayEnd c c' r ∧ Q r c' := by
  have hexec := p.exec_answer c
  refine ⟨_, _, ⟨_, hexec.mono fun c e x hx => ⟨Or.inl hx, ?_⟩⟩, (hexec.of_wp h).1⟩
  obtain rfl : x = c.answer e := hx
  show (match c.answer e with | .ok _ => c.next e | .error _ => c) = c.next e
  unfold Connection.answer Connection.next
  cases c.exec e <;> rfl

/-- A statement may fail. -/
theorem mayEnd_io (c : Connection) (e : SqlEff) : (sql e).MayEnd c c (.error (.sqlite .io)) := by
  have hx : AuthDb.failing.admits c e (.error .io) := Or.inr rfl
  exact ⟨_, .op (M := AuthDb.failing) (x := .error .io) hx (.throw _ _)⟩

/-! ### Transactions -/

/-- A statement that neither begins nor ends a transaction. -/
def SqlEff.IsInner : SqlEff → Prop
  | .beginTransaction => False
  | .commit => False
  | .rollback => False
  | _ => True

/-- The body of a transaction: it begins and ends none, and no failure is caught. -/
def SqlM.IsInner : SqlM α → Prop
  | .op e k => e.IsInner ∧ (∀ err, k (.error err) = .throw (.sqlite err)) ∧
      ∀ a : e.Res, SqlM.IsInner (k (.ok a))
  | _ => True

theorem SqlM.isInner_sql {e : SqlEff} (he : e.IsInner) : (sql e).IsInner :=
  ⟨he, fun _ => rfl, fun _ => trivial⟩

theorem SqlM.IsInner.bind {p : SqlM α} {f : α → SqlM β} (hp : p.IsInner)
    (hf : ∀ a, (f a).IsInner) : (p >>= f).IsInner := by
  induction p with
  | ret a => exact hf a
  | throw err => trivial
  | op e k ih =>
    obtain ⟨he, herror, hrest⟩ := hp
    refine ⟨he, fun err => ?_, fun a => ih _ (hrest a)⟩
    show Prog.bind (k (.error err)) f = _
    rw [herror err]
    rfl

theorem SqlM.IsInner.sql_bind {e : SqlEff} {f : e.Res → SqlM β} (he : e.IsInner)
    (hf : ∀ a, (f a).IsInner) : (sql e >>= f).IsInner :=
  (SqlM.isInner_sql he).bind hf

/-- A statement within a transaction does not touch what the transaction has begun with. -/
theorem saved_of_inner {e : SqlEff} (he : e.IsInner) {a : e.Res} (h : c.exec e = .ok (a, c')) :
    c'.saved = c.saved := by
  cases e with
  | beginTransaction => exact he.elim
  | commit => exact he.elim
  | rollback => exact he.elim
  | selectUser | selectUsername | selectOwner | selectAccounts | selectLinked | selectLogin
    | selectCredential =>
    cases h
    rfl
  | insertUser | insertAccount | insertCredential | upsertCredential | updateAvatar | updateTokens
    | updateOwner | deleteAccount | deleteUser =>
    obtain ⟨_, -, rfl⟩ := write_eq_ok h
    rfl

/-- **What the body does when only constraints can fail** it does in every run that no other failure
ends. -/
theorem SqlM.Ensures.failing {p : SqlM α} {Q : Except JsError α → Connection → Prop}
    (h : p.Ensures Q c) (hp : p.IsInner) :
    p.EnsuresFailing (fun r c' => c'.saved = c.saved ∧ (Q r c' ∨ r = .error (.sqlite .io))) c := by
  induction p generalizing c with
  | ret a => exact ⟨rfl, Or.inl h⟩
  | throw err => exact ⟨rfl, Or.inl h⟩
  | op e k ih =>
    obtain ⟨he, herror, hrest⟩ := hp
    refine ⟨trivial, fun x hx => ?_⟩
    cases x with
    | ok a =>
      -- the statement does what it does without failures
      have hexec := failing_next_ok hx
      have hanswer : c.answer e = .ok a := congrArg (Except.map Prod.fst) hexec
      refine wp_mono (ih (.ok a) (h.2 (.ok a) hanswer.symm) (hrest a)) fun r c' hend => ?_
      exact ⟨hend.1.trans (saved_of_inner he hexec), hend.2⟩
    | error err =>
      show wp _ _ (k (.error err)) _ c
      rw [herror err]
      refine ⟨rfl, ?_⟩
      rcases hx with hx | hx
      · -- a constraint is violated, and nothing has been written
        have hthrow : wp AuthDb.machine (fun _ _ => True) (k (.error err)) Q (c.next e) :=
          h.2 (.error err) hx
        have hnext : c.next e = c := by
          have hanswer : c.answer e = .error err := hx.symm
          unfold Connection.answer at hanswer
          unfold Connection.next
          cases hexec : c.exec e with
          | ok result =>
            rw [hexec] at hanswer
            cases hanswer
          | error err' => rfl
        rw [herror err, hnext] at hthrow
        exact Or.inl hthrow
      · cases hx
        exact Or.inr rfl

/-- **A transaction is all or nothing**, whichever of its statements fail, `BEGIN`, `COMMIT` and
`ROLLBACK` among them. -/
theorem failing_transaction {p : SqlM α} {Q : α → AuthDb → Prop} (hc : c.saved = none)
    (hp : p.IsInner)
    (h : p.Ensures (fun r c' => ∀ a, r = .ok a → Q a c'.db) { c with saved := some c.db }) :
    (transaction p).EnsuresFailing (fun r c' =>
      (∃ a, r = .ok a ∧ c'.saved = none ∧ Q a c'.db) ∨
      (∃ err, r = .error err) ∧ c'.stored = c.db) c := by
  unfold transaction
  refine failing_sql_bind (fun _ c₁ h₁ => ?_) fun err => Or.inr ⟨⟨_, rfl⟩, ?_⟩
  · cases h₁
    refine wp_bind.mpr (wp_tryCatch.mpr (wp_mono (h.failing hp) ?_))
    rintro r c₂ ⟨hsaved, hQ⟩
    have hstored : c₂.stored = c.db := by
      rw [Connection.stored, hsaved]
      rfl
    cases r with
    | ok a =>
      have hQa : Q a c₂.db := (hQ.resolve_right (by simp)) a rfl
      refine failing_sql_bind (fun _ c₃ h₃ => ?_) fun err => Or.inr ⟨⟨_, rfl⟩, hstored⟩
      cases h₃
      exact Or.inl ⟨a, rfl, rfl, hQa⟩
    | error err =>
      -- a `ROLLBACK` that fails leaves the transaction open, and what is stored as it was
      refine failing_sql_bind (fun _ c₃ h₃ => ?_) fun err' => Or.inr ⟨⟨_, rfl⟩, hstored⟩
      cases h₃
      exact Or.inr ⟨⟨err, rfl⟩, hstored⟩
  · rw [Connection.stored, hc]
    rfl

/-! ### Merging and registering -/

theorem isInner_moveAccounts (targetUserId : JsString) (rows : List OAuthRow) :
    ∀ targetKeys, (moveAccounts targetUserId rows targetKeys).IsInner := by
  induction rows with
  | nil => exact fun _ => trivial
  | cons oa rest ih =>
    intro targetKeys
    unfold moveAccounts
    split
    · exact .sql_bind trivial fun _ => ih _
    · exact .sql_bind trivial fun _ => ih _

theorem isInner_migrateAll (targetUserId sourceUserId : JsString) (target source : UserRow) :
    (migrateAll targetUserId sourceUserId target source).IsInner := by
  refine .sql_bind trivial fun _ => .sql_bind trivial fun _ =>
    (isInner_moveAccounts _ _ _).bind fun _ => ?_
  dsimp only
  split
  · exact .sql_bind trivial fun _ => SqlM.isInner_sql trivial
  · exact SqlM.isInner_sql trivial

/-- **A merge is all or nothing** when statements fail. Only the read of the merged user can fail
behind a merge that has happened. -/
theorem mergeAccounts_failing (db : AuthDb) (targetUserId sourceUserId : JsString) :
    (mergeAccounts targetUserId sourceUserId).EnsuresFailing (fun r c' =>
      Conserves targetUserId sourceUserId db c'.stored ∨
      (∃ err, r = .error err) ∧ c'.stored = db) { db } := by
  unfold mergeAccounts
  split
  -- the same user twice
  · exact Or.inr ⟨⟨_, rfl⟩, rfl⟩
  next hne =>
  -- both users are read before anything is written
  refine failing_sql_ok (a := db.findUser targetUserId) rfl ?_ fun err => Or.inr ⟨⟨_, rfl⟩, rfl⟩
  refine failing_sql_ok (a := db.findUser sourceUserId) rfl ?_ fun err => Or.inr ⟨⟨_, rfl⟩, rfl⟩
  cases ht : db.findUser targetUserId with
  | none => exact Or.inr ⟨⟨_, rfl⟩, rfl⟩
  | some target =>
  cases hs : db.findUser sourceUserId with
  | none => exact Or.inr ⟨⟨_, rfl⟩, rfl⟩
  | some source =>
  obtain ⟨htarget, rfl⟩ := findUser_eq_some.mp ht
  obtain ⟨-, rfl⟩ := findUser_eq_some.mp hs
  -- the transaction: all of it or nothing
  refine wp_bind_of
    (failing_transaction (c := { db }) (Q := fun _ db' => MergedRows target source db db') rfl
      (isInner_migrateAll _ _ _ _) (wp_mono (ensures_migrateAll hne htarget) ?_)) ?_ ?_
  · rintro r c' ⟨-, -, hmerged⟩ _ _
    exact hmerged
  · rintro ⟨⟩ c₁ (⟨_, -, hsaved, hmerged⟩ | ⟨⟨err, herr⟩, -⟩)
    -- the SELECT behind it may fail, but writes nothing
    · have hconserves : Conserves target.id source.id db c₁.stored := by
        rw [Connection.stored, hsaved]
        exact hmerged.conserves hne htarget
      refine failing_sql (fun _ c₂ h₂ => ?_) fun err => Or.inl hconserves
      cases h₂
      exact Or.inl hconserves
    · cases herr
  · rintro err c₁ (⟨_, h, -⟩ | ⟨-, hstored⟩)
    · cases h
    · exact Or.inr ⟨⟨err, rfl⟩, hstored⟩

theorem isInner_registerRows (draws : Draws) (trimmed hash : JsString) :
    (registerRows draws trimmed hash).IsInner := by
  refine .sql_bind trivial fun _ => ?_
  split
  · trivial
  · exact .sql_bind trivial fun _ => SqlM.isInner_sql trivial

/-- **A registration is all or nothing** when statements fail: no user is left without its
password. -/
theorem registerWithPassword_failing (draws : Draws) (username hash : JsString) (db : AuthDb) :
    (registerWithPassword draws username hash).EnsuresFailing (fun r c' =>
      (∃ row, Registered draws username db c'.stored row) ∨
      (∃ err, r = .error err) ∧ c'.stored = db) { db } := by
  -- the transaction: both rows or none
  refine wp_bind_of (p := transaction (registerRows draws username.trim hash))
    (failing_transaction (c := { db })
      (Q := fun _ db' => ∃ row, Registered draws username db db' row) rfl
      (isInner_registerRows _ _ _) (wp_mono (ensures_registerRows draws username hash) ?_)) ?_ ?_
  · rintro r c' ⟨-, hQ⟩
    exact hQ
  · rintro ⟨⟩ c₁ (⟨_, -, hsaved, hregistered⟩ | ⟨⟨err, herr⟩, -⟩)
    -- the SELECT behind it may fail, but writes nothing
    · have hstored : ∃ row, Registered draws username db c₁.stored row := by
        rw [Connection.stored, hsaved]
        exact hregistered
      refine failing_sql (fun _ c₂ h₂ => ?_) fun err => Or.inl hstored
      cases h₂
      exact Or.inl hstored
    · cases herr
  · rintro err c₁ (⟨_, h, -⟩ | ⟨-, hstored⟩)
    · cases h
    · exact Or.inr ⟨⟨err, rfl⟩, hstored⟩

end Aestival
