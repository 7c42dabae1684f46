import Aestival.Library.Base64
import Aestival.Library.Json

/-!
# The tokens of the management API

`jwt_verifier::verify` takes a token of three parts, compares the signature, decodes the payload and
reads its expiry. HMAC and Base64 are OpenSSL's (`OpenSsl`) and the parser is a parameter; of the
parser it is used that a text ends at a NUL, for the decoder leaves some behind the payload.

The decoder gives whole groups, and nothing takes the zeros behind the text away again. So
`undoesEncoding_iff`: decoding undoes encoding only where the groups are full.

The expiry is read as an `int`, for the default it is read with is one, and is only looked at when
it is positive. So `checksExpiry_iff`: a signed token is accepted up to its expiry only where the
expiry modulo 2^32 says so.
-/

namespace Aestival

open Base64 Json

/-! ### Codecs -/

/-- What is used of OpenSSL: HMAC-SHA256 of a secret and a message, and Base64. -/
structure OpenSsl where
  hmac : Bytes → Bytes → Bytes
  encodeBlock : Bytes → Bytes
  /-- `none` for -1 -/
  decodeBlock : Bytes → Option Bytes

/-- The documented behaviour. The decoder gives three octets for every group, so behind the text
come the zeros it was filled up with. -/
structure OpenSsl.Documented (ssl : OpenSsl) : Prop where
  digest : ∀ secret message, (ssl.hmac secret message).length = 32
  encodes : ∀ data, ssl.encodeBlock data = encode data
  decodes : ∀ data, ssl.decodeBlock (encode data) = some (data ++ List.replicate (padding data) 0)

/-- A NUL ends the text of a parser. -/
def EndsAtNul (parse : Bytes → Option Json) : Prop :=
  ∀ text j k, parse text = some j → parse (text ++ List.replicate k 0) = some j

/-- Why a token is refused: `std::runtime_error`, an error of the JSON library, or an `int` that
overflows. -/
inductive JwtError where
  | runtime (what : Bytes)
  | json (e : AccessError)
  | overflow
  deriving DecidableEq, Repr

namespace JwtVerifier

/-- `b64_decode`. A size that no `int` holds counts as an `int` that overflows. -/
def b64Decode (ssl : OpenSsl) (input : Bytes) : Except JwtError Bytes :=
  if 2147483647 < input.length * 3 then .error .overflow
  else match ssl.decodeBlock input with
    | some out => .ok out
    | none => .error (.runtime (utf8 "base64 decode failed"))

/-- `b64url_decode`. -/
def b64urlDecode (ssl : OpenSsl) (input : Bytes) : Except JwtError Bytes :=
  b64Decode ssl (pad (input.map fromUrl))

/-- `b64url_encode`. -/
def b64urlEncode (ssl : OpenSsl) (data : Bytes) : Except JwtError Bytes :=
  if 2147483647 < (data.length + 2) / 3 * 4 then .error .overflow
  else .ok ((unpad (ssl.encodeBlock data)).map toUrl)

/-- `sign`. -/
def sign (ssl : OpenSsl) (secret headerB64 payloadB64 : Bytes) : Except JwtError Bytes :=
  b64urlEncode ssl (ssl.hmac secret (headerB64 ++ utf8 "." ++ payloadB64))

/-- `constant_time_eq`. -/
def constantTimeEq (a b : Bytes) : Bool :=
  a.length = b.length && (a.zip b).foldl (fun diff p => diff ||| (p.1 ^^^ p.2)) 0 = 0

/-- The three parts of a token. -/
def parts (token : Bytes) : Option (Bytes × Bytes × Bytes) :=
  match token.dropWhile (· ≠ 46) with
  | [] => none
  | _ :: rest =>
    match rest.dropWhile (· ≠ 46) with
    | [] => none
    | _ :: sig => some (token.takeWhile (· ≠ 46), rest.takeWhile (· ≠ 46), sig)

/-- An error of the JSON library. -/
def access {α : Type} : Except AccessError α → Except JwtError α
  | .ok a => .ok a
  | .error e => .error (.json e)

/-- `verify`, at some time. -/
def verify (ssl : OpenSsl) (parse : Bytes → Option Json) (secret : Bytes) (now : Int)
    (token : Bytes) : Except JwtError Bytes := do
  if secret = [] then throw (.runtime (utf8 "JWT secret not configured"))
  let some (headerB64, payloadB64, sigB64) := parts token
    | throw (.runtime (utf8 "invalid JWT format"))
  -- the signature is compared before anything is decoded
  let expectedSig ← sign ssl secret headerB64 payloadB64
  if ¬ constantTimeEq sigB64 expectedSig then throw (.runtime (utf8 "JWT signature mismatch"))
  let payloadJson ← b64urlDecode ssl payloadB64
  let some payload := parse payloadJson
    | throw (.runtime (utf8 "invalid JWT payload JSON"))
  -- `get<int>` narrows to 32 bits; 0 stands for no expiry
  let exp ← access (payload.value getInt32 (utf8 "exp") 0)
  if 0 < exp ∧ exp.toInt < now then throw (.runtime (utf8 "JWT expired"))
  access (payload.value getStr (utf8 "sub") (utf8 "unknown"))

end JwtVerifier

open JwtVerifier

/-! ### Signed tokens -/

/-- The token with this header and payload that is signed with the secret. -/
def signedToken (ssl : OpenSsl) (secret headerB64 text : Bytes) : Bytes :=
  let message := headerB64 ++ utf8 "." ++ encodeUrl text
  message ++ utf8 "." ++ encodeUrl (ssl.hmac secret message)

/-- The token with this payload is accepted up to its expiry, for the user it names. -/
structure ChecksExpiry (ssl : OpenSsl) (parse : Bytes → Option Json) (secret : Bytes) (now : Int)
    (token : Bytes) (payload : Json) (exp : Int) : Prop where
  accepted : (∃ user, verify ssl parse secret now token = .ok user) ↔ now ≤ exp
  user : ∀ user sub, verify ssl parse secret now token = .ok user →
    payload.find? (utf8 "sub") = some (.str sub) → user = sub

/-- The `int` that is congruent to this number modulo 2^32. -/
def wrapped (exp : Int) : Int := (exp + 2147483648) % 4294967296 - 2147483648

/-- There is a secret, the payload has no more octets than an `int` can count, and its user is a
string, if there is one. -/
structure Presentable (secret text : Bytes) (payload : Json) : Prop where
  secret : secret ≠ []
  short : (text.length + 2) / 3 * 12 ≤ 2147483647
  sub : ∀ j, payload.find? (utf8 "sub") = some j → ∃ s, j = .str s

/-- The times and payloads for which the check is right. -/
structure PlainExpiry (secret : Bytes) (now : Int) (text : Bytes) (payload : Json) (exp : Int) :
    Prop where
  /-- a token that has not expired is presentable, and its wrapped expiry is not over either -/
  fresh : now ≤ exp → Presentable secret text payload ∧ (0 < wrapped exp → now ≤ wrapped exp)
  /-- one that has is not, or its wrapped expiry is positive and over as well -/
  expired : exp < now → Presentable secret text payload → 0 < wrapped exp ∧ wrapped exp < now

/-! ### The comparison of signatures -/

theorem foldl_or_eq_zero (l : List (UInt8 × UInt8)) (d : UInt8) :
    l.foldl (fun diff p => diff ||| (p.1 ^^^ p.2)) d = 0 ↔ d = 0 ∧ ∀ p ∈ l, p.1 = p.2 := by
  induction l generalizing d with
  | nil => simp
  | cons p l ih =>
    rw [List.foldl_cons, ih, List.forall_mem_cons, ← and_assoc]
    refine and_congr_left fun _ => ?_
    rw [UInt8.or_eq_zero_iff, UInt8.xor_eq_zero_iff]

theorem eq_of_zip {a b : Bytes} (hlen : a.length = b.length) (h : ∀ p ∈ a.zip b, p.1 = p.2) :
    a = b := by
  refine List.ext_getElem hlen fun i ha hb => ?_
  have hi : i < (a.zip b).length := by
    rw [List.length_zip]
    omega
  have hmem := h _ (List.getElem_mem hi)
  rwa [List.getElem_zip] at hmem

theorem constantTimeEq_iff {a b : Bytes} : constantTimeEq a b = true ↔ a = b := by
  rw [constantTimeEq, Bool.and_eq_true, decide_eq_true_iff, decide_eq_true_iff, foldl_or_eq_zero]
  constructor
  · rintro ⟨hlen, -, hzip⟩
    exact eq_of_zip hlen hzip
  · rintro rfl
    refine ⟨rfl, rfl, fun p hp => ?_⟩
    obtain ⟨i, hi, rfl⟩ := List.getElem_of_mem hp
    rw [List.getElem_zip]

/-! ### Decoding what was encoded -/

section Codecs

variable {ssl : OpenSsl}

theorem b64urlEncode_eq (hssl : ssl.Documented) (data : Bytes) :
    b64urlEncode ssl data =
      if 2147483647 < (data.length + 2) / 3 * 4 then .error .overflow
      else .ok (encodeUrl data) := by
  rw [b64urlEncode, hssl.encodes]
  rfl

/-- A digest is short. -/
theorem sign_eq (hssl : ssl.Documented) (secret headerB64 payloadB64 : Bytes) :
    sign ssl secret headerB64 payloadB64 =
      .ok (encodeUrl (ssl.hmac secret (headerB64 ++ utf8 "." ++ payloadB64))) := by
  rw [sign, b64urlEncode_eq hssl, hssl.digest]
  rfl

/-- What is decoded of an encoded text. -/
theorem b64urlDecode_encodeUrl (hssl : ssl.Documented) (text : Bytes) :
    b64urlDecode ssl (encodeUrl text) =
      if 2147483647 < (text.length + 2) / 3 * 12 then .error .overflow
      else .ok (text ++ List.replicate (padding text) 0) := by
  have hlen : (encode text).length * 3 = (text.length + 2) / 3 * 12 := by
    rw [length_encode]
    omega
  calc b64urlDecode ssl (encodeUrl text)
    _ = b64Decode ssl (pad ((encodeUrl text).map fromUrl)) := rfl
    _ = b64Decode ssl (encode text) := by rw [pad_encodeUrl]
    _ = _ := by rw [b64Decode, hlen, hssl.decodes]

/-- Decoding undoes the encoding of these octets. -/
def UndoesEncoding (ssl : OpenSsl) (data : Bytes) : Prop :=
  (b64urlEncode ssl data >>= b64urlDecode ssl) = .ok data

/-- What comes back. -/
theorem b64urlEncode_bind_decode (hssl : ssl.Documented) (data : Bytes) :
    (b64urlEncode ssl data >>= b64urlDecode ssl) =
      if 2147483647 < (data.length + 2) / 3 * 12 then .error .overflow
      else .ok (data ++ List.replicate (padding data) 0) := by
  rw [b64urlEncode_eq hssl]
  by_cases hlong : 2147483647 < (data.length + 2) / 3 * 4
  · -- what is too long to be encoded is too long to be decoded
    have hlonger : 2147483647 < (data.length + 2) / 3 * 12 := by omega
    rw [if_pos hlong, if_pos hlonger]
    rfl
  · rw [if_neg hlong]
    exact b64urlDecode_encodeUrl hssl data

/-- **Decoding undoes encoding** where the groups are full, as long as no `int` overflows. -/
theorem undoesEncoding_iff (hssl : ssl.Documented) (data : Bytes) :
    UndoesEncoding ssl data ↔ 3 ∣ data.length ∧ data.length ≤ 536870910 := by
  unfold UndoesEncoding
  rw [b64urlEncode_bind_decode hssl]
  constructor
  · intro h
    split at h
    · cases h
    · next hshort =>
      have hlen := congrArg List.length (Except.ok.inj h)
      rw [List.length_append, List.length_replicate] at hlen
      have hfull : 3 ∣ data.length := padding_eq_zero_iff.mp (by omega)
      exact ⟨hfull, by omega⟩
  · rintro ⟨hfull, hshort⟩
    have hfits : ¬ 2147483647 < (data.length + 2) / 3 * 12 := by omega
    have hnone : padding data = 0 := padding_eq_zero_iff.mpr hfull
    rw [if_neg hfits, hnone, List.replicate_zero, List.append_nil]

/-- OpenSSL, with some digest. -/
def plainOpenSsl : OpenSsl where
  hmac _ _ := List.replicate 32 0
  encodeBlock := encode
  decodeBlock := decodeBlock

theorem plainOpenSsl_documented : plainOpenSsl.Documented where
  digest _ _ := rfl
  encodes _ := rfl
  decodes := decodeBlock_encode

theorem undoesEncoding_abc : UndoesEncoding plainOpenSsl (utf8 "abc") :=
  (undoesEncoding_iff plainOpenSsl_documented _).mpr ⟨by decide, by decide⟩

/-- **A group that is not full comes back with zeros behind it.** -/
theorem padding_decoded :
    ¬ ∀ ssl : OpenSsl, ssl.Documented → ∀ data : Bytes, UndoesEncoding ssl data := by
  intro hall
  have hundone := hall plainOpenSsl plainOpenSsl_documented (utf8 "f")
  have hback : (b64urlEncode plainOpenSsl (utf8 "f") >>= b64urlDecode plainOpenSsl) =
      .ok [102, 0, 0] := by decide
  have heq := Except.ok.inj (hback.symm.trans hundone)
  exact absurd heq (by decide)

end Codecs

/-! ### What is verified -/

section Signed

variable {ssl : OpenSsl} {parse : Bytes → Option Json} {secret headerB64 text : Bytes}
  {payload : Json} {exp now : Int}

theorem parts_dots {a b : Bytes} (ha : (46 : UInt8) ∉ a) (hb : (46 : UInt8) ∉ b) (c : Bytes) :
    parts (a ++ utf8 "." ++ b ++ utf8 "." ++ c) = some (a, b, c) := by
  have hdot : utf8 "." = [46] := rfl
  simp only [hdot, List.append_assoc, List.cons_append, List.nil_append]
  rw [parts, Bytes.dropWhile_separator ha, Bytes.takeWhile_separator ha]
  simp only [Bytes.dropWhile_separator hb, Bytes.takeWhile_separator hb]

theorem toInt_ofInt_wrapped (exp : Int) : (Int32.ofInt exp).toInt = wrapped exp := by
  rw [Int32.toInt_ofInt, wrapped, Int.bmod_def]
  have hsize : Int32.size = 4294967296 := rfl
  rw [hsize]
  split_ifs <;> omega

/-- A signed token is verified, as long as no `int` overflows, unless its wrapped expiry is positive
and over. -/
theorem verify_signed (hssl : ssl.Documented) (hparse : EndsAtNul parse)
    (hheader : (46 : UInt8) ∉ headerB64) (htext : parse text = some payload)
    (hexp : payload.find? (utf8 "exp") = some (.int exp)) (hsecret : secret ≠ []) (now : Int)
    (hshort : (text.length + 2) / 3 * 12 ≤ 2147483647) :
    verify ssl parse secret now (signedToken ssl secret headerB64 text) =
      if 0 < wrapped exp ∧ wrapped exp < now then .error (.runtime (utf8 "JWT expired"))
      else access (payload.value getStr (utf8 "sub") (utf8 "unknown")) := by
  have hdot := dot_notMem_encodeUrl text
  have hdecode := b64urlDecode_encodeUrl hssl text
  rw [if_neg (Nat.not_lt.mpr hshort)] at hdecode
  -- the default is an `int`, so the expiry is read as one
  have hint : payload.value getInt32 (utf8 "exp") 0 = .ok (.ofInt exp) := value_of_find? hexp
  -- both tests of the expiry are tests of the wrapped one
  have hpos : 0 < Int32.ofInt exp ↔ 0 < wrapped exp := by
    rw [Int32.lt_iff_toInt_lt, toInt_ofInt_wrapped, Int32.toInt_zero]
  rw [verify, signedToken]
  simp only [hsecret, if_false, parts_dots hheader hdot, sign_eq hssl, constantTimeEq_iff,
    not_true_eq_false, hdecode, hint, access, hparse _ _ _ htext, hpos, toInt_ofInt_wrapped, bind,
    Except.bind, throw, throwThe, MonadExceptOf.throw]

theorem verify_no_secret (token : Bytes) :
    verify ssl parse [] now token = .error (.runtime (utf8 "JWT secret not configured")) := rfl

/-- A payload that is too long for the decoder is not verified. -/
theorem verify_overflow (hssl : ssl.Documented) (hheader : (46 : UInt8) ∉ headerB64)
    (hsecret : secret ≠ []) (hlong : 2147483647 < (text.length + 2) / 3 * 12) :
    verify ssl parse secret now (signedToken ssl secret headerB64 text) = .error .overflow := by
  have hdot := dot_notMem_encodeUrl text
  have hdecode := b64urlDecode_encodeUrl hssl text
  rw [if_pos hlong] at hdecode
  rw [verify, signedToken]
  simp only [hsecret, if_false, parts_dots hheader hdot, sign_eq hssl, constantTimeEq_iff,
    not_true_eq_false, hdecode, bind, Except.bind]

/-- The user that is read. -/
theorem access_sub_eq_ok {payload : Json} (hobj : payload.isObject = true) {user : Bytes} :
    access (payload.value getStr (utf8 "sub") (utf8 "unknown")) = .ok user ↔
      (∀ j, payload.find? (utf8 "sub") = some j → j = .str user) ∧
        (payload.find? (utf8 "sub") = none → user = utf8 "unknown") := by
  cases hsub : payload.find? (utf8 "sub") with
  | none =>
    rw [value_of_find?_none hobj hsub]
    simp [access, eq_comm]
  | some j =>
    rw [value_of_find? hsub]
    cases j <;> simp [access, getStr]

/-- Who is accepted with a signed token. -/
theorem verify_eq_ok_iff (hssl : ssl.Documented) (hparse : EndsAtNul parse)
    (hheader : (46 : UInt8) ∉ headerB64) (htext : parse text = some payload)
    (hexp : payload.find? (utf8 "exp") = some (.int exp)) (secret : Bytes) (now : Int)
    (user : Bytes) :
    verify ssl parse secret now (signedToken ssl secret headerB64 text) = .ok user ↔
      Presentable secret text payload ∧ (0 < wrapped exp → now ≤ wrapped exp) ∧
        access (payload.value getStr (utf8 "sub") (utf8 "unknown")) = .ok user := by
  by_cases hsecret : secret = []
  -- nothing is accepted without a secret
  · subst hsecret
    rw [verify_no_secret]
    exact iff_of_false (fun h => by cases h) fun h => h.1.secret rfl
  by_cases hlong : 2147483647 < (text.length + 2) / 3 * 12
  · rw [verify_overflow hssl hheader hsecret hlong]
    refine iff_of_false (fun h => by cases h) fun h => ?_
    have hshort := h.1.short
    omega
  · rw [verify_signed hssl hparse hheader htext hexp hsecret now (Nat.not_lt.mp hlong)]
    have hsub : access (payload.value getStr (utf8 "sub") (utf8 "unknown")) = .ok user →
        Presentable secret text payload := by
      rw [access_sub_eq_ok (isObject_of_find? hexp)]
      exact fun h => ⟨hsecret, Nat.not_lt.mp hlong, fun j hj => ⟨user, h.1 j hj⟩⟩
    split_ifs with hover
    -- the wrapped expiry is over
    · refine iff_of_false (fun h => by cases h) fun h => ?_
      have hle := h.2.1 hover.1
      omega
    · constructor
      · exact fun h => ⟨hsub h, fun hpos => by omega, h⟩
      · exact fun h => h.2.2

theorem exists_access_sub (hobj : payload.isObject = true)
    (hsub : ∀ j, payload.find? (utf8 "sub") = some j → ∃ s, j = .str s) :
    ∃ user, access (payload.value getStr (utf8 "sub") (utf8 "unknown")) = .ok user := by
  cases hfind : payload.find? (utf8 "sub") with
  | none =>
    rw [value_of_find?_none hobj hfind]
    exact ⟨_, rfl⟩
  | some j =>
    obtain ⟨s, rfl⟩ := hsub j hfind
    rw [value_of_find? hfind]
    exact ⟨s, rfl⟩

/-- A signed token with an integer expiry is accepted up to its expiry in exactly these cases. -/
theorem checksExpiry_iff (hssl : ssl.Documented) (hparse : EndsAtNul parse)
    (hheader : (46 : UInt8) ∉ headerB64) (htext : parse text = some payload)
    (hexp : payload.find? (utf8 "exp") = some (.int exp)) :
    ChecksExpiry ssl parse secret now (signedToken ssl secret headerB64 text) payload exp ↔
      PlainExpiry secret now text payload exp := by
  have hobj := isObject_of_find? hexp
  have hok := verify_eq_ok_iff hssl hparse hheader htext hexp secret now
  constructor
  · intro h
    refine ⟨fun hle => ?_, fun hlt hp => ?_⟩
    · obtain ⟨user, huser⟩ := h.accepted.mpr hle
      rw [hok] at huser
      exact ⟨huser.1, huser.2.1⟩
    · by_contra hover
      -- the token is accepted although it has expired
      obtain ⟨user, huser⟩ := exists_access_sub hobj hp.sub
      have hle : now ≤ exp := h.accepted.mp ⟨user, (hok user).mpr ⟨hp, fun hpos => by omega, huser⟩⟩
      omega
  · intro h
    refine ⟨⟨?_, fun hle => ?_⟩, fun user sub huser hsub => ?_⟩
    -- who is accepted has not expired
    · rintro ⟨user, huser⟩
      obtain ⟨hp, hwrapped, -⟩ := (hok user).mp huser
      by_contra hlt
      have hover := h.expired (by omega) hp
      have hle := hwrapped hover.1
      omega
    · obtain ⟨hp, hwrapped⟩ := h.fresh hle
      obtain ⟨user, huser⟩ := exists_access_sub hobj hp.sub
      exact ⟨user, (hok user).mpr ⟨hp, hwrapped, huser⟩⟩
    · have huser := (access_sub_eq_ok hobj).mp ((hok user).mp huser).2.2
      exact (Json.str.inj (huser.1 _ hsub)).symm

/-- An expiry within the positive range of an `int` is checked as it stands. -/
theorem plainExpiry_of_lt (hp : Presentable secret text payload) (hpos : 0 < exp)
    (hlt : exp < 2147483648) : PlainExpiry secret now text payload exp := by
  have hwrapped : wrapped exp = exp := by
    rw [wrapped]
    omega
  refine ⟨fun hle => ⟨hp, fun _ => ?_⟩, fun hover _ => ?_⟩
  · rwa [hwrapped]
  · rw [hwrapped]
    exact ⟨hpos, hover⟩

end Signed

/-! ### A token of 2038 -/

/-- A parser that reads its text up to a NUL. -/
theorem endsAtNul_of_cStr (f : Bytes → Option Json) :
    EndsAtNul fun text => f (Bytes.cStr text) := by
  intro text j k h
  have hzeros : Bytes.cStr (text ++ List.replicate k 0) = Bytes.cStr text := by
    by_cases hmem : (0 : UInt8) ∈ text
    · exact Bytes.cStr_append_of_mem hmem _
    · have hnil : Bytes.cStr (List.replicate k 0) = [] := by
        cases k <;> rfl
      rw [Bytes.cStr_append_of_notMem hmem, hnil, List.append_nil, Bytes.cStr_eq_self hmem]
  show f (Bytes.cStr (text ++ List.replicate k 0)) = some j
  rw [hzeros]
  exact h

/-- OpenSSL, with the signature of the token below. -/
def openSsl2038 : OpenSsl where
  hmac _ _ := [82, 11, 152, 166, 110, 64, 58, 229, 189, 53, 121, 223, 241, 247, 8, 242, 29, 155, 56,
    135, 213, 58, 207, 234, 96, 93, 162, 38, 102, 180, 246, 37]
  encodeBlock := encode
  decodeBlock := decodeBlock

theorem openSsl2038_documented : openSsl2038.Documented :=
  ⟨fun _ _ => rfl, fun _ => rfl, decodeBlock_encode⟩

/-- A payload of the issuer, at the end of what an `int` can count. -/
def text2038 : Bytes := utf8 "\x7b\"sub\":\"alice\",\"iat\":2147480048,\"exp\":2147483648\x7d"

def payload2038 : Json :=
  .obj [(utf8 "sub", .str (utf8 "alice")), (utf8 "iat", .int 2147480048),
    (utf8 "exp", .int 2147483648)]

def parse2038 (text : Bytes) : Option Json :=
  if Bytes.cStr text = text2038 then some payload2038 else none

theorem parse2038_endsAtNul : EndsAtNul parse2038 :=
  endsAtNul_of_cStr fun text => if text = text2038 then some payload2038 else none

theorem parse2038_text : parse2038 text2038 = some payload2038 := by
  have hnul : (0 : UInt8) ∉ text2038 := by decide
  rw [parse2038, Bytes.cStr_eq_self hnul, if_pos rfl]

/-- The token is accepted at its expiry. -/
theorem checksExpiry_2038 :
    ChecksExpiry openSsl2038 parse2038 (utf8 "secret") 2147483648
      (signedToken openSsl2038 (utf8 "secret") (utf8 "eyJhbGciOiJIUzI1NiIsInR5cCI6IkpXVCJ9")
        text2038) payload2038 2147483648 := by
  have hpresentable : Presentable (utf8 "secret") text2038 payload2038 :=
    ⟨by decide, by decide, fun _ hsub => ⟨utf8 "alice", (Option.some.inj hsub).symm⟩⟩
  refine (checksExpiry_iff openSsl2038_documented parse2038_endsAtNul (by decide) parse2038_text
    rfl).mpr ⟨fun _ => ⟨hpresentable, fun hpos => ?_⟩, fun hlt => absurd hlt (Int.lt_irrefl _)⟩
  -- its wrapped expiry is negative
  exact absurd hpos (by decide)

/-- A second after it has expired the token is accepted. -/
theorem expired_token_accepted :
    ¬ ChecksExpiry openSsl2038 parse2038 (utf8 "secret") 2147483649
      (signedToken openSsl2038 (utf8 "secret") (utf8 "eyJhbGciOiJIUzI1NiIsInR5cCI6IkpXVCJ9")
        text2038) payload2038 2147483648 := by
  have hheader : (46 : UInt8) ∉ utf8 "eyJhbGciOiJIUzI1NiIsInR5cCI6IkpXVCJ9" := by decide
  have hsecret : utf8 "secret" ≠ [] := by decide
  have hexp : payload2038.find? (utf8 "exp") = some (.int 2147483648) := rfl
  have hverify := verify_signed openSsl2038_documented parse2038_endsAtNul hheader parse2038_text
    hexp hsecret 2147483649 (by decide)
  intro h
  have hle := h.accepted.mp ⟨utf8 "alice", hverify⟩
  omega

end Aestival
