import Aestival.Library.JsString

/-!
# Signed tokens

A token is a payload that was signed with the secret, or any other text. Signatures are taken to be
unforgeable, so the two do not meet: who holds a signed payload has got it from the one who signed
it. A payload says when it expires (`Expiring`), in seconds, and the clock counts milliseconds.
-/

/-- A text that is presented as a token. -/
inductive Jwt (π : Type) where
  | signed (payload : π)
  | other (text : JsString)
  deriving DecidableEq, Repr

/-- Payloads with an expiry. -/
class Expiring (π : Type) where
  exp : π → Nat

namespace Jwt

variable {π : Type} [Expiring π]

/-- `verify`: the payload of a signed token that has not expired. -/
def verify (now : Nat) : Jwt π → Option π
  | .signed payload => if now / 1000 < Expiring.exp payload then some payload else none
  | .other _ => none

theorem verify_eq_some {now : Nat} {t : Jwt π} {payload : π} :
    t.verify now = some payload ↔ t = .signed payload ∧ now / 1000 < Expiring.exp payload := by
  cases t with
  | signed p =>
    rw [verify, Option.ite_none_right_eq_some, Jwt.signed.injEq, Option.some.injEq]
    constructor
    · rintro ⟨hexp, rfl⟩
      exact ⟨rfl, hexp⟩
    · rintro ⟨rfl, hexp⟩
      exact ⟨hexp, rfl⟩
  | other text =>
    refine iff_of_false (Option.some_ne_none _).symm ?_
    rintro ⟨h, -⟩
    cases h

end Jwt
