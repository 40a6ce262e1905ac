import FlareAuth.ApplicationProgram

/-!
# Client secrets of Applications

The secret rows of an Application, and the OAuth client that publishes the hash
of the current one. The next version is read before the batch that stores it. A
random secret is the prefix with a fresh identifier. Other columns are left out,
and so is the deletion of Applications.
-/

namespace FlareAuth.ClientSecrets

open Concurrent Relational Procedure
open Applications (ClientType UriRules normalizeClientSettings)
open TokenExchange (uniqueViolation foreignKeyViolation)

structure OAuthClient where
  clientId : String
  clientSecret : Option (Digest String)
  isPublic : Bool
  deriving DecidableEq

structure Application where
  id : Id
  oauthClientId : String
  slug : String
  deriving DecidableEq

inductive SecretStatus where
  | active
  | revoked
  deriving DecidableEq, Repr

structure ClientSecret where
  id : Id
  applicationId : Id
  version : ℕ
  secretHash : Digest String
  secretPrefix : String
  status : SecretStatus
  createdByUserId : Option Id
  materializedToOauthClientAt : ℕ
  revokedAt : Option ℕ
  deriving DecidableEq

structure Store where
  now : ℕ
  generated : ℕ
  clients : Keyed OAuthClient.clientId
  applications : Keyed Application.id
  secrets : Keyed ClientSecret.id

abbrev StoreBatch := Batch Store Failure

namespace Store

def nextId (s : Store) : Id := "id-" ++ toString s.generated

def findById (s : Store) (id : Id) : Option (Application × OAuthClient) := do
  let application ← s.applications.find id
  let client ← s.clients.find application.oauthClientId
  return (application, client)

def secretsOf (s : Store) (applicationId : Id) : List ClientSecret :=
  s.secrets.rows.filter fun x => x.applicationId = applicationId

/-- The largest version of an Application's secrets, 0 without any. -/
def latestVersion (s : Store) (applicationId : Id) : ℕ :=
  ((s.secretsOf applicationId).map (·.version)).foldr max 0

end Store

/-- The statements of a rotation, with the version that was read before. -/
structure Rotation where
  secret : ClientSecret
  oauthClientId : String
  now : ℕ

def ClientSecret.revoke (now : ℕ) (x : ClientSecret) : ClientSecret :=
  { x with status := .revoked, revokedAt := some now }

theorem ClientSecret.revoke_id (now : ℕ) (x : ClientSecret) : (x.revoke now).id = x.id := rfl

def OAuthClient.publish (secretHash : Digest String) (c : OAuthClient) : OAuthClient :=
  { c with clientSecret := some secretHash }

theorem OAuthClient.publish_clientId (secretHash : Digest String) (c : OAuthClient) :
    (c.publish secretHash).clientId = c.clientId := rfl

namespace Repository

def insertSecret (x : ClientSecret) : StoreBatch Unit := fun s =>
  if (s.applications.find x.applicationId).isNone then .error foreignKeyViolation
  else if s.secrets.rows.any fun y => y.applicationId == x.applicationId &&
    y.version == x.version then
    .error uniqueViolation
  else
    match s.secrets.insert? x with
    | some secrets => .ok ((), { s with secrets := secrets })
    | none => .error uniqueViolation

def insertApplication (client : OAuthClient) (application : Application) :
    StoreBatch Unit := fun s =>
  if s.applications.rows.any fun a =>
      a.oauthClientId == application.oauthClientId || a.slug == application.slug then
    .error uniqueViolation
  else
    match s.clients.insert? client, s.applications.insert? application with
    | some clients, some applications =>
      .ok ((), { s with clients := clients, applications := applications })
    | _, _ => .error uniqueViolation

def create (client : OAuthClient) (application : Application) (secret : Option ClientSecret) :
    StoreBatch Unit := do
  insertApplication client application
  match secret with
  | some x => insertSecret x
  | none => pure ()

def revokeActive (applicationId : Id) (now : ℕ) : StoreBatch Unit :=
  Batch.modify fun s => { s with
    secrets := s.secrets.update
      (fun x => x.applicationId == applicationId && x.status == .active)
      (ClientSecret.revoke now) (ClientSecret.revoke_id now) }

def publishSecret (oauthClientId : String) (secretHash : Digest String) : StoreBatch Unit :=
  Batch.modify fun s => { s with
    clients := s.clients.update (fun c => c.clientId == oauthClientId)
      (OAuthClient.publish secretHash) (OAuthClient.publish_clientId secretHash) }

def rotateSecret (r : Rotation) : StoreBatch Unit := do
  revokeActive r.secret.applicationId r.now
  insertSecret r.secret
  publishSecret r.oauthClientId r.secret.secretHash

end Repository

inductive Operation where
  | read
  | generateId
  | elapse (milliseconds : ℕ)
  | createApplication (client : OAuthClient) (application : Application)
      (secret : Option ClientSecret)
  | rotateSecret (r : Rotation)

def Operation.perform : Operation → Store → Store
  | .read, s => s
  | .generateId, s => { s with generated := s.generated + 1 }
  | .elapse milliseconds, s => { s with now := s.now + milliseconds }
  | .createApplication client application secret, s =>
    (Repository.create client application secret).settle s
  | .rotateSecret r, s => (Repository.rotateSecret r).settle s

instance : Operational Operation Store := ⟨Operation.perform⟩

theorem apply_eq (op : Operation) (s : Store) : apply op s = op.perform s := rfl

abbrev Registry := Procedure Store Operation Failure

variable {α : Type}

def ask (answer : Store → α) : Registry α := query .read answer

def generateId : Registry Id := query .generateId (·.nextId)

def commit (op : Operation) (batch : StoreBatch α) : Registry α :=
  step op fun s => Procedure.ofExcept (batch.outcome s)

/-- `createClientSecret`. -/
def createClientSecret : Registry String := do
  let random ← generateId
  return "fas_" ++ random

def secretPrefix (clientSecret : String) : String := (clientSecret.take 12).toString

/-- A public client gets no secret. -/
def initialSecret (isPublic : Bool) : Registry (Option String) :=
  if isPublic then return none else some <$> createClientSecret

structure CreateApplication where
  slug : String
  clientType : ClientType
  redirectUris : List String
  deviceLoginEnabled : Bool
  tokenExchangeEnabled : Bool

/-- The verdict on what else an Application is created with comes from outside. -/
def createApplication (rules : UriRules) (input : CreateApplication) (checks : Except Failure Unit)
    (actorUserId : Option Id) : Registry (Option String) := do
  let settings ← Procedure.ofExcept (normalizeClientSettings rules input.clientType
    input.redirectUris input.deviceLoginEnabled input.tokenExchangeEnabled)
  let clientSecret ← initialSecret settings.isPublic
  Procedure.ofExcept checks
  let id ← generateId
  let clientId ← generateId
  let secretId ← clientSecret.elim (pure "") fun _ => generateId
  let now ← ask (·.now)
  let secret := clientSecret.map fun clientSecret : String => {
    id := secretId
    applicationId := id
    version := 1
    secretHash := sha256 clientSecret
    secretPrefix := secretPrefix clientSecret
    status := .active
    createdByUserId := actorUserId
    materializedToOauthClientAt := now
    revokedAt := none }
  let client := ⟨clientId, clientSecret.map sha256, settings.isPublic⟩
  let application := ⟨id, clientId, input.slug⟩
  commit (.createApplication client application secret)
    (Repository.create client application secret)
  return clientSecret

structure RotatedSecret where
  clientSecret : String
  secretId : Id
  version : ℕ
  deriving DecidableEq

/-- `rotateSecret` of the repository: an Application that is gone gets no row. -/
def rotateSecret (applicationId secretId : Id) (clientSecret : String) (actorUserId : Option Id) :
    Registry RotatedSecret := do
  let now ← ask (·.now)
  let latest ← ask (·.latestVersion applicationId)
  let version := latest + 1
  let application ← ask (·.applications.find applicationId)
  match application with
  | none => return ⟨clientSecret, secretId, version⟩
  | some application =>
    let secret : ClientSecret := {
      id := secretId
      applicationId := applicationId
      version := version
      secretHash := sha256 clientSecret
      secretPrefix := secretPrefix clientSecret
      status := .active
      createdByUserId := actorUserId
      materializedToOauthClientAt := now
      revokedAt := none }
    let r : Rotation := ⟨secret, application.oauthClientId, now⟩
    commit (.rotateSecret r) (Repository.rotateSecret r)
    return ⟨clientSecret, secretId, version⟩

def rotateApplicationSecret (id : Id) (actorUserId : Option Id) : Registry RotatedSecret := do
  let found ← ask (·.findById id)
  let (_, client) ← orThrow found (notFound "Application not found.")
  require (!client.isPublic) (badRequest "Public clients do not have client secrets.")
  let clientSecret ← createClientSecret
  let secretId ← generateId
  rotateSecret id secretId clientSecret actorUserId

inductive Call where
  | createApplication (rules : UriRules) (input : CreateApplication) (checks : Except Failure Unit)
      (actorUserId : Option Id)
  | rotateApplicationSecret (id : Id) (actorUserId : Option Id)
  | elapse (milliseconds : ℕ)

inductive Reply where
  | none
  | created (clientSecret : Option String)
  | rotated (secret : RotatedSecret)

def Call.program : Call → Registry Reply
  | .createApplication rules input checks actorUserId => do
    return .created (← ClientSecrets.createApplication rules input checks actorUserId)
  | .rotateApplicationSecret id actorUserId => do
    return .rotated (← ClientSecrets.rotateApplicationSecret id actorUserId)
  | .elapse milliseconds => query (.elapse milliseconds) fun _ => .none

abbrev SecretPool := Pool Call Store Operation Failure Reply

structure Store.Fresh (s : Store) : Prop where
  clients : s.clients.rows = []
  applications : s.applications.rows = []
  secrets : s.secrets.rows = []

abbrev SecretReachable : SecretPool → Prop :=
  Reachable Call.program Store.Fresh fun _ _ => True

end FlareAuth.ClientSecrets
