import FlareAuth.AccessStore
import FlareAuth.Concurrent.Pool
import FlareAuth.Failure
import FlareAuth.JsonObjects
import Mathlib.Algebra.Order.Round
import Mathlib.Data.Rat.Floor

/-!
# DPoP proofs and the record of their use

A proof is accepted while its `iat` is within 300 seconds of the clock, and its
`jti` is then recorded until the window has passed. Times of the clock are whole
milliseconds, and the `iat` of a proof is any number of seconds. Each call reads
the clock once for the window and once more for the row that it inserts.
-/

namespace FlareAuth.Dpop

open Concurrent Procedure

/-- What `jose` finds in the text of a proof: `none` stands for an exception. -/
class Jose where
  decodeProtectedHeader : String → Option Fields
  /-- The payload of a proof whose signature holds under the key of its header. -/
  compactVerify : String → Fields → Option Fields
  calculateJwkThumbprint : Json → Option String

/-- What the runtime computes with texts. -/
class Platform where
  /-- A URL without its hash and its search, `none` where `new URL` throws. -/
  endpointOf : String → Option String
  /-- The number that a JSON number stands for. -/
  numberOf : String → ℚ
  base64Url : Digest String → String
  toLowerCase : String → String
  toUpperCase : String → String

section Verification

variable [Jose] [Platform]

structure Verified where
  header : Fields
  payload : Fields

def textOf (fields : Fields) (key : String) : Option String :=
  match fields.lookup key with
  | some (.string text) => some text
  | _ => none

def numberIn (fields : Fields) (key : String) : Option ℚ :=
  match fields.lookup key with
  | some (.number text) => some (Platform.numberOf text)
  | _ => none

/-- The algorithm of the header and the type of its key belong together. -/
def supportedKey (header jwk : Fields) : Bool :=
  (textOf header "alg" == some "ES256" && textOf jwk "kty" == some "EC" &&
      textOf jwk "crv" == some "P-256") ||
    (textOf header "alg" == some "EdDSA" && textOf jwk "kty" == some "OKP" &&
      textOf jwk "crv" == some "Ed25519")

/-- A `typ` that is no text has no `toLowerCase`. -/
def isDpopType (header : Fields) : Except Failure Bool :=
  match header.lookup "typ" with
  | none => .ok false
  | some .null => .ok false
  | some (.string typ) => .ok (Platform.toLowerCase typ == "dpop+jwt")
  | some _ => .error (.error "header.typ?.toLowerCase is not a function")

def isPublicKeyProof (header : Fields) : Bool :=
  match header.lookup "jwk" with
  | some (.object jwk) => supportedKey header jwk && (jwk.lookup "d").isNone
  | _ => false

def verifyDpopProof (proof : String) : Except Failure Verified := do
  let some header := Jose.decodeProtectedHeader proof
    | throw (badRequest "DPoP proof is malformed.")
  let typed ← isDpopType header
  if !(typed && isPublicKeyProof header) then
    throw (badRequest "A public-key DPoP proof is required.")
  let some payload := Jose.compactVerify proof header
    | throw (badRequest "DPoP proof signature is invalid.")
  return ⟨header, payload⟩

def thumbprintOf (header : Fields) : Except Failure String :=
  match (header.lookup "jwk").bind Jose.calculateJwkThumbprint with
  | some thumbprint => .ok thumbprint
  | none => .error (.error "JWK is invalid")

def endpointOf (url : String) : Except Failure String :=
  match Platform.endpointOf url with
  | some endpoint => .ok endpoint
  | none => .error (.error "Invalid URL")

end Verification

structure JtiRow where
  jtiHash : Digest String
  keyThumbprint : String
  expiresAt : ℤ
  createdAt : ℕ
  deriving DecidableEq

structure Store where
  now : ℕ
  agentDpopJti : List JtiRow

namespace Store

/-- The rows that the batch of a reading of the clock leaves. -/
def unswept (s : Store) (createdAt : ℕ) : List JtiRow :=
  s.agentDpopJti.filter fun r => !decide (r.expiresAt < (createdAt : ℤ))

/-- No row that the batch leaves has the identifier of the row it inserts. -/
def Admits (s : Store) (row : JtiRow) : Prop :=
  ∀ r ∈ s.unswept row.createdAt, r.jtiHash ≠ row.jtiHash

instance (s : Store) (row : JtiRow) : Decidable (s.Admits row) :=
  inferInstanceAs (Decidable (∀ r ∈ s.unswept row.createdAt, r.jtiHash ≠ row.jtiHash))

end Store

inductive Operation where
  | read
  | elapse (milliseconds : ℕ)
  | consumeJti (row : JtiRow)

/-- The deletion and the insertion are one batch, which a duplicate identifier takes back. -/
def Operation.perform : Operation → Store → Store
  | .read, s => s
  | .elapse milliseconds, s => { s with now := s.now + milliseconds }
  | .consumeJti row, s =>
    if s.Admits row then { s with agentDpopJti := s.unswept row.createdAt ++ [row] } else s

instance : Operational Operation Store := ⟨Operation.perform⟩

abbrev Proving := Procedure Store Operation Failure

def clock : Proving ℕ := Procedure.query .read (·.now)

def consumeJti (row : JtiRow) : Proving Bool :=
  Procedure.query (.consumeJti row) fun s => decide (s.Admits row)

/-- `new Date(x).getTime()`, which truncates. -/
def dateOf (x : ℚ) : ℤ := if 0 ≤ x then ⌊x⌋ else ⌈x⌉

def expiresAtOf (iat : ℚ) : ℤ := dateOf ((iat + 300) * 1000)

def InWindow (now : ℕ) (iat : ℚ) : Prop := |(now : ℚ) / 1000 - iat| ≤ 300

instance (now : ℕ) (iat : ℚ) : Decidable (InWindow now iat) :=
  inferInstanceAs (Decidable (_ ≤ _))

section Usecases

variable [Jose] [Platform]

def consumeProof (payload : Fields) (keyThumbprint : String) : Proving Unit := do
  let jti ← orThrow (textOf payload "jti") (badRequest "DPoP proof has no JWT identifier.")
  let outside := badRequest "DPoP proof is outside the accepted time window."
  let iat ← orThrow (numberIn payload "iat") outside
  let now ← clock
  require (InWindow now iat) outside
  let createdAt ← clock
  let fresh ← consumeJti ⟨sha256 jti, keyThumbprint, expiresAtOf iat, createdAt⟩
  require (fresh = true) (badRequest "DPoP proof was already used.")

def validateDpopTokenProof (proof tokenEndpoint : String) : Proving String := do
  let verified ← Procedure.ofExcept (verifyDpopProof proof)
  let target ← Procedure.ofExcept (endpointOf tokenEndpoint)
  require (textOf verified.payload "htm" = some "POST" ∧
      textOf verified.payload "htu" = some target ∧ (textOf verified.payload "jti").isSome = true)
    (badRequest "DPoP proof is not bound to the target token endpoint.")
  let thumbprint ← Procedure.ofExcept (thumbprintOf verified.header)
  consumeProof verified.payload thumbprint
  return thumbprint

structure ResourceProof where
  proof : String
  accessToken : String
  method : String
  url : String
  confirmationJkt : String

def validateDpopResourceProof (input : ResourceProof) : Proving String := do
  let verified ← Procedure.ofExcept (verifyDpopProof input.proof)
  let thumbprint ← Procedure.ofExcept (thumbprintOf verified.header)
  require (thumbprint = input.confirmationJkt)
    (unauthorized "DPoP proof key does not match the access token.")
  let target ← Procedure.ofExcept (endpointOf input.url)
  require (textOf verified.payload "htm" = some (Platform.toUpperCase input.method) ∧
      textOf verified.payload "htu" = some target)
    (unauthorized "DPoP proof is not bound to this request.")
  require (textOf verified.payload "ath" = some (Platform.base64Url (sha256 input.accessToken)))
    (unauthorized "DPoP proof is not bound to the access token.")
  consumeProof verified.payload thumbprint
  return thumbprint

end Usecases

/-- The identifiers of agent assertions are recorded in the same table. -/
def consumeAgentAuthJti (jti : String) (maxAgeSec : ℚ) : Proving Bool := do
  let now ← clock
  consumeJti ⟨sha256 jti, "agent-auth", dateOf ((now : ℚ) + maxAgeSec * 1000), now⟩

inductive Call where
  | token (proof tokenEndpoint : String)
  | resource (input : ResourceProof)
  | agentAuth (jti : String) (maxAgeSec : ℚ)
  | elapse (milliseconds : ℕ)

/-- Whether a call has accepted what it was given. -/
def Call.program [Jose] [Platform] : Call → Proving Bool
  | .token proof tokenEndpoint => do
    let _ ← validateDpopTokenProof proof tokenEndpoint
    return true
  | .resource input => do
    let _ ← validateDpopResourceProof input
    return true
  | .agentAuth jti maxAgeSec => consumeAgentAuthJti jti maxAgeSec
  | .elapse milliseconds => Procedure.query (.elapse milliseconds) fun _ => false

/-- What identifies a proof, with the time it was made at. -/
structure DpopProof where
  jti : String
  keyThumbprint : String
  iat : ℚ
  deriving DecidableEq

section Proofs

variable [Jose] [Platform]

def proofOf (proof : String) : Option DpopProof := do
  let verified ← (verifyDpopProof proof).toOption
  let thumbprint ← (thumbprintOf verified.header).toOption
  let jti ← textOf verified.payload "jti"
  let iat ← numberIn verified.payload "iat"
  return ⟨jti, thumbprint, iat⟩

def Call.proof : Call → Option DpopProof
  | .token proof _ => proofOf proof
  | .resource input => proofOf input.proof
  | .agentAuth _ _ => none
  | .elapse _ => none

end Proofs

abbrev ProofPool := Pool Call Store Operation Failure Bool

end FlareAuth.Dpop
