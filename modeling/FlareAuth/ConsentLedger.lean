import FlareAuth.Concurrent.Pool
import FlareAuth.TokenScopes

/-!
# Consents of users and authorizations by policy

Both are kept in one active row for a user, an Application and a Resource Server,
with a source and one list of scopes. A consent writes the scopes that were found
as consented before together with its own; a policy authorization writes those of
the row, whatever its source, together with its own. Both read before they write.
-/

namespace FlareAuth.Consents

open Concurrent Procedure Relational
open AccessTokens (ApplicationConsent AuthorizationSource)
open Applications (Application)

/-- What there is at most one active row for. -/
structure ConsentKey where
  applicationId : Id
  userId : Id
  resourceServerId : Option Id
  deriving DecidableEq

structure OAuthConsent where
  id : Id
  clientId : String
  userId : Id
  referenceId : Option Id
  scopes : List String
  deriving DecidableEq

/-- What has been recorded: the requested scopes of consents and of policy authorizations that
were written, and revocations. -/
inductive Entry where
  | consented (key : ConsentKey) (scopes : List String)
  | authorized (key : ConsentKey) (scopes : List String)
  | revoked (applicationId userId : Id)

/-- `ledger` lists what has taken effect, latest first; nothing reads it. -/
structure Store where
  now : ℕ
  generated : ℕ
  /-- The Applications with their clients. -/
  applications : List (Id × String)
  consents : List ApplicationConsent
  oauthConsents : List OAuthConsent
  ledger : List Entry

def keyOf (c : ApplicationConsent) : ConsentKey := ⟨c.applicationId, c.userId, c.resourceServerId⟩

def active (c : ApplicationConsent) : Bool := c.revokedAt.isNone

namespace Store

variable (s : Store)

def findActive (key : ConsentKey) : Option ApplicationConsent :=
  s.consents.find? fun c => keyOf c == key && active c

def findConsent (key : ConsentKey) : Option ApplicationConsent :=
  ((s.consents.filter fun c => keyOf c == key && c.authorizationSource == .userConsent &&
    active c).insertionSort fun c d => d.grantedAt ≤ c.grantedAt).head?

def findOAuthConsent (clientId : String) (key : ConsentKey) : Option OAuthConsent :=
  s.oauthConsents.find? fun c => c.clientId = clientId ∧ c.userId = key.userId ∧
    c.referenceId = key.resourceServerId

/-- `findAuthorizationGrant`: the Application, its client and the user of an active row. -/
def findAuthorizationGrant (authorizationId : Id) (userId : Option Id) :
    Option (Id × String × Id) := do
  let row ← s.consents.find? fun c =>
    c.id == authorizationId && userId.all (· == c.userId) && active c &&
      (s.applications.lookup c.applicationId).isSome
  let clientId ← s.applications.lookup row.applicationId
  return (row.applicationId, clientId, row.userId)

end Store

/-- The row that a call writes: the one that it has found, or a new one. -/
inductive Target where
  | existing (id : Id)
  | new (id : Id)
  deriving DecidableEq

/-- The statements of a consent. `requested` are the scopes of its request; no statement uses
them. -/
structure ConsentWrite where
  key : ConsentKey
  clientId : String
  target : Target
  scopes : List String
  requested : List String
  oauthTarget : Target
  now : ℕ

def ConsentWrite.update (w : ConsentWrite) (c : ApplicationConsent) : ApplicationConsent :=
  { c with scopes := w.scopes, authorizationSource := .userConsent, grantedAt := w.now }

def ConsentWrite.insert (w : ConsentWrite) (id : Id) : ApplicationConsent :=
  ⟨id, w.key.applicationId, w.key.userId, w.key.resourceServerId, w.scopes, .userConsent, w.now,
    none⟩

/-- The statement of a policy authorization. `requested` are the scopes of its request; the
statement does not use them. -/
structure PolicyWrite where
  key : ConsentKey
  target : Target
  scopes : List String
  requested : List String
  now : ℕ

def PolicyWrite.update (w : PolicyWrite) (c : ApplicationConsent) : ApplicationConsent :=
  { c with scopes := w.scopes, grantedAt := w.now }

def PolicyWrite.insert (w : PolicyWrite) (id : Id) : ApplicationConsent :=
  ⟨id, w.key.applicationId, w.key.userId, w.key.resourceServerId, w.scopes, .platformPolicy, w.now,
    none⟩

abbrev StoreBatch := Batch Store Failure

namespace Repository

/-- The primary key and the unique indexes of active rows. -/
def insertConsent (c : ApplicationConsent) : StoreBatch Unit := fun s =>
  if s.consents.any fun d => d.id == c.id || keyOf d == keyOf c && active d then
    .error (.error "constraint failed")
  else .ok ((), { s with consents := s.consents ++ [c] })

def updateConsent (id : Id) (f : ApplicationConsent → ApplicationConsent) : StoreBatch Unit :=
  Batch.modify fun s => { s with consents := updateWhere (fun c => c.id == id) f s.consents }

/-- The statement on the row that was found, or on a new one. -/
def write (target : Target) (f : ApplicationConsent → ApplicationConsent)
    (new : Id → ApplicationConsent) : StoreBatch Unit :=
  match target with
  | .existing id => updateConsent id f
  | .new id => insertConsent (new id)

def record (entry : Entry) : StoreBatch Unit :=
  Batch.modify fun s => { s with ledger := entry :: s.ledger }

/-- The primary key and the unique indexes of the provider's consents. -/
def insertOAuthConsent (c : OAuthConsent) : StoreBatch Unit := fun s =>
  if s.oauthConsents.any fun d => d.id == c.id ||
      d.clientId == c.clientId && d.userId == c.userId && d.referenceId == c.referenceId then
    .error (.error "constraint failed")
  else .ok ((), { s with oauthConsents := s.oauthConsents ++ [c] })

def updateOAuthConsent (id : Id) (scopes : List String) : StoreBatch Unit :=
  Batch.modify fun s => { s with
    oauthConsents := updateWhere (fun c => c.id == id) (fun c => { c with scopes := scopes })
      s.oauthConsents }

def writeOAuth (w : ConsentWrite) : StoreBatch Unit :=
  match w.oauthTarget with
  | .existing id => updateOAuthConsent id w.scopes
  | .new id => insertOAuthConsent ⟨id, w.clientId, w.key.userId, w.key.resourceServerId, w.scopes⟩

def createConsent (w : ConsentWrite) : StoreBatch Unit := do
  write w.target w.update w.insert
  writeOAuth w
  record (.consented w.key w.requested)

def recordPolicyAuthorization (w : PolicyWrite) : StoreBatch Unit := do
  write w.target w.update w.insert
  record (.authorized w.key w.requested)

def revokeAuthorizationGrant (applicationId : Id) (clientId : String) (userId : Id) (now : ℕ) :
    StoreBatch Unit :=
  Batch.modify fun s => { s with
    consents := updateWhere
      (fun c => c.applicationId == applicationId && c.userId == userId && active c)
      (fun c => { c with revokedAt := some now }) s.consents
    oauthConsents := s.oauthConsents.filter fun c =>
      !(c.clientId == clientId && c.userId == userId)
    ledger := .revoked applicationId userId :: s.ledger }

end Repository

inductive Operation where
  | clock
  | generateId
  | findActive (key : ConsentKey)
  | findConsent (key : ConsentKey)
  | findOAuthConsent (clientId : String) (key : ConsentKey)
  | findAuthorizationGrant (authorizationId : Id) (userId : Option Id)
  | createConsent (w : ConsentWrite)
  | recordPolicyAuthorization (w : PolicyWrite)
  | revokeAuthorizationGrant (applicationId : Id) (clientId : String) (userId : Id) (now : ℕ)
  | setClock (now : ℕ)

def Operation.perform : Operation → Store → Store
  | .generateId, s => { s with generated := s.generated + 1 }
  | .createConsent w, s => (Repository.createConsent w).settle s
  | .recordPolicyAuthorization w, s => (Repository.recordPolicyAuthorization w).settle s
  | .revokeAuthorizationGrant applicationId clientId userId now, s =>
    (Repository.revokeAuthorizationGrant applicationId clientId userId now).settle s
  | .setClock now, s => { s with now := now }
  | _, s => s

instance : Operational Operation Store := ⟨Operation.perform⟩

abbrev Consenting := Procedure Store Operation Failure

section Usecases

variable {α : Type}

def clock : Consenting ℕ := Procedure.query .clock (·.now)

def generateId : Consenting Id := Procedure.query .generateId fun s => "id-" ++ toString s.generated

def findActive (key : ConsentKey) : Consenting (Option ApplicationConsent) :=
  Procedure.query (.findActive key) (·.findActive key)

def findOAuthConsent (clientId : String) (key : ConsentKey) : Consenting (Option OAuthConsent) :=
  Procedure.query (.findOAuthConsent clientId key) (·.findOAuthConsent clientId key)

def commit (op : Operation) (batch : StoreBatch α) : Consenting α :=
  Procedure.step op fun s => Procedure.ofExcept (batch.outcome s)

/-- The selects of the two tables, which are sent together. -/
def findBoth (clientId : String) (key : ConsentKey) (oauthFirst : Bool) :
    Consenting (Option ApplicationConsent × Option OAuthConsent) :=
  if oauthFirst then do
    let oauth ← findOAuthConsent clientId key
    let existing ← findActive key
    return (existing, oauth)
  else do
    let existing ← findActive key
    let oauth ← findOAuthConsent clientId key
    return (existing, oauth)

def targetOf (existing : Option Id) : Consenting Target :=
  match existing with
  | some id => return .existing id
  | none => Target.new <$> generateId

def merged (earlier scopes : List String) : List String :=
  Text.sort (Text.unique (earlier ++ scopes))

def Repository.createConsentOf (key : ConsentKey) (clientId : String)
    (scopes requested : List String) (oauthFirst : Bool) : Consenting ApplicationConsent := do
  let now ← clock
  let (existing, oauth) ← findBoth clientId key oauthFirst
  let target ← targetOf (existing.map (·.id))
  let oauthTarget ← targetOf (oauth.map (·.id))
  let w : ConsentWrite := ⟨key, clientId, target, scopes, requested, oauthTarget, now⟩
  commit (.createConsent w) (Repository.createConsent w)
  let consent ← findActive key
  orThrow consent (.error "Persisted application consent was not found.")

def normalizeRequestedScopes (scope : String) (allowedScopes : List String) :
    Except Failure (List String) :=
  let requestedScopes := Text.unique (Text.split (if scope = "" then "openid" else scope))
  match requestedScopes.find? fun scope => !allowedScopes.contains scope with
  | some scope => .error (badRequest ("Scope is not allowed for this client: " ++ scope))
  | none => .ok requestedScopes

structure CreateConsentRequest where
  clientId : String
  resourceServerId : Option Id
  scopes : List String

/-- `application` is what the client identifier finds and `visible` what the check of the Resource
Server comes to. -/
def createConsent (input : CreateConsentRequest) (userId : Id) (application : Option Application)
    (visible : Except Failure Unit) (oauthFirst : Bool) : Consenting ApplicationConsent := do
  let application ← orThrow (application.filter (!·.disabled))
    (notFound "OAuth client was not found.")
  let resourceServerId := input.resourceServerId.filter (· ≠ "")
  Procedure.ofExcept (resourceServerId.elim (.ok ()) fun _ => visible)
  let allowedScopes := application.oidcScopes ++ (resourceServerId.bind fun id =>
    (application.resourceScopes.find? fun item => item.resourceServerId = id).map
      (·.scopes)).getD []
  let requestedScopes ← Procedure.ofExcept
    (normalizeRequestedScopes (Text.join input.scopes) allowedScopes)
  let key : ConsentKey := ⟨application.id, userId, resourceServerId⟩
  let existing ← Procedure.query (.findConsent key) fun s => (s.findConsent key).map (·.scopes)
  Repository.createConsentOf key application.oauthClientId
    (merged (existing.getD []) requestedScopes)
    requestedScopes oauthFirst

def recordPolicyAuthorization (key : ConsentKey) (scopes : List String) :
    Consenting ApplicationConsent := do
  let now ← clock
  let existing ← findActive key
  let target ← targetOf (existing.map (·.id))
  let w : PolicyWrite :=
    ⟨key, target, merged ((existing.map (·.scopes)).getD []) scopes, scopes, now⟩
  commit (.recordPolicyAuthorization w) (Repository.recordPolicyAuthorization w)
  let authorization ← findActive key
  orThrow authorization (.error "Persisted application authorization was not found.")

/-- Of the user, or of any user for an administrator. -/
def revokeAuthorization (authorizationId : Id) (userId : Option Id) (message : String) :
    Consenting Unit := do
  let grant ← Procedure.query (.findAuthorizationGrant authorizationId userId)
    (·.findAuthorizationGrant authorizationId userId)
  let (applicationId, clientId, userId) ← orThrow grant (notFound message)
  let now ← clock
  commit (.revokeAuthorizationGrant applicationId clientId userId now)
    (Repository.revokeAuthorizationGrant applicationId clientId userId now)

end Usecases

inductive Call where
  | createConsent (input : CreateConsentRequest) (userId : Id) (application : Option Application)
      (visible : Except Failure Unit) (oauthFirst : Bool)
  | recordPolicyAuthorization (key : ConsentKey) (scopes : List String)
  | revokeConsent (consentId userId : Id)
  | revokeAuthorization (authorizationId : Id)
  | setClock (now : ℕ)

def Call.program : Call → Consenting Unit
  | .createConsent input userId application visible oauthFirst => do
    let _ ← Consents.createConsent input userId application visible oauthFirst
  | .recordPolicyAuthorization key scopes => do
    let _ ← Consents.recordPolicyAuthorization key scopes
  | .revokeConsent consentId userId =>
    Consents.revokeAuthorization consentId (some userId) "Application consent was not found."
  | .revokeAuthorization authorizationId =>
    Consents.revokeAuthorization authorizationId none "Application authorization was not found."
  | .setClock now => Procedure.query (.setClock now) fun _ => ()

abbrev ConsentPool := Pool Call Store Operation Failure Unit

end FlareAuth.Consents
