import FlareAuth.AgentIdentities

/-!
# Creation of an Agent with its installation

An Application creates an Agent under an idempotency key: the identity, its protocol agent and
host, their binding, an audit event and the reservation of the key are inserted in one batch.
A request looks the key up, looks for an Agent that was created before there were reservations,
checks that the identifiers of the installation and the user name are free, and inserts; after a
failed insert it looks the key up again.
-/

namespace FlareAuth.AgentCreation

open Concurrent Procedure ProtocolAgents
open AgentIdentities (foreignKeyViolation uniqueViolation)

structure Installation where
  agentId : Id
  hostId : Id
  name : String
  kid : String
  publicKey : Json

structure CreateAgent where
  username : String
  name : String
  runtime : String
  installation : Installation

structure Key where
  applicationId : Id
  actorUserId : Id
  idempotencyKey : String
  deriving DecidableEq

structure Context extends Key where
  issuer : String

section Tables

structure Host where
  id : Id
  name : String
  userId : Id
  status : Stage
  kid : String
  publicKey : String
  deriving DecidableEq

structure ProtocolAgent where
  id : Id
  name : String
  userId : Id
  hostId : Id
  status : Stage
  mode : String
  kid : String
  publicKey : String
  deriving DecidableEq

structure Identity where
  id : Id
  issuer : String
  subject : String
  username : Option String
  name : String
  runtime : Option String
  ownerUserId : Id
  status : Status
  deletedAt : Option ℕ
  deriving DecidableEq

structure Binding where
  id : Id
  agentIdentityId : Id
  protocolAgentId : Id
  hostId : Id
  status : Status
  revokedAt : Option ℕ
  deriving DecidableEq

/-- An audit event; its metadata name the source and the Application. -/
structure Audit where
  id : Id
  action : String
  result : String
  realmOwned : Bool
  ownerUserId : Option Id
  ownerOrganizationId : Option Id
  controllerUserId : Option Id
  subjectIssuer : Option String
  subject : Option String
  agentIdentityId : Option Id
  hostId : Option Id
  source : Option String
  applicationId : Option Id
  deriving DecidableEq

/-- A row of `agent_application_creation`. -/
structure Reservation extends Key where
  id : Id
  requestFingerprint : Digest String
  agentIdentityId : Id
  deriving DecidableEq

structure Tables where
  users : List Id
  hosts : List Host
  agents : List ProtocolAgent
  identities : List Identity
  bindings : List Binding
  audits : List Audit
  creations : List Reservation

structure Store where
  generated : ℕ
  tables : Tables

namespace Tables

def findReservation (T : Tables) (k : Key) : Option Reservation :=
  T.creations.find? fun r => r.toKey = k

/-- An identity, also one that was deleted. -/
def identity? (T : Tables) (id : Id) : Option Identity := T.identities.find? fun i => i.id = id

def findIdentity (T : Tables) (id : Id) : Option Identity :=
  T.identities.find? fun i => i.id = id ∧ i.deletedAt = none

def findByUsername (T : Tables) (username : String) : Option Identity :=
  T.identities.find? fun i => i.username = some username ∧ i.deletedAt = none

def findProtocolAgent (T : Tables) (id : Id) : Option ProtocolAgent :=
  T.agents.find? fun a => a.id = id

def findHost (T : Tables) (id : Id) : Option Host := T.hosts.find? fun h => h.id = id

def findBinding (T : Tables) (identityId id : Id) : Option Binding :=
  T.bindings.find? fun b => b.agentIdentityId = identityId ∧ b.id = id

def findAudit (T : Tables) (id : Id) : Option Audit := T.audits.find? fun a => a.id = id

end Tables

end Tables

section Rows

structure AgentIds where
  identityId : Id
  subject : Id
  bindingId : Id
  auditId : Id

structure Rows where
  host : Host
  protocolAgent : ProtocolAgent
  identity : Identity
  binding : Binding
  audit : Audit

def agentRows [Locale] (input : CreateAgent) (context : Context) (ids : AgentIds) : Rows where
  host := {
    id := input.installation.hostId
    name := input.installation.name
    userId := context.actorUserId
    status := .active
    kid := input.installation.kid
    publicKey := canonicalJson input.installation.publicKey }
  protocolAgent := {
    id := input.installation.agentId
    name := input.name
    userId := context.actorUserId
    hostId := input.installation.hostId
    status := .active
    mode := "delegated"
    kid := input.installation.kid
    publicKey := canonicalJson input.installation.publicKey }
  identity := {
    id := ids.identityId
    issuer := context.issuer
    subject := ids.subject
    username := some input.username
    name := input.name
    runtime := some input.runtime
    ownerUserId := context.actorUserId
    status := .active
    deletedAt := none }
  binding := {
    id := ids.bindingId
    agentIdentityId := ids.identityId
    protocolAgentId := input.installation.agentId
    hostId := input.installation.hostId
    status := .active
    revokedAt := none }
  audit := {
    id := ids.auditId
    action := "agent.identity_enrolled"
    result := "allowed"
    realmOwned := false
    ownerUserId := some context.actorUserId
    ownerOrganizationId := none
    controllerUserId := some context.actorUserId
    subjectIssuer := some context.issuer
    subject := some ids.subject
    agentIdentityId := some ids.identityId
    hostId := some input.installation.hostId
    source := some "application"
    applicationId := some context.applicationId }

/-- What a request finds of an Agent. -/
structure Footprint where
  identity : Identity
  binding : Option Binding
  protocolAgent : Option ProtocolAgent
  host : Option Host
  audit : Option Audit
  deriving DecidableEq

def Rows.footprint (rows : Rows) : Footprint :=
  ⟨rows.identity, some rows.binding, some rows.protocolAgent, some rows.host, some rows.audit⟩

def Key.reservation (k : Key) (id : Id) (fingerprint : Digest String) (identityId : Id) :
    Reservation where
  toKey := k
  id := id
  requestFingerprint := fingerprint
  agentIdentityId := identityId

def CreateAgent.json (input : CreateAgent) : Json :=
  .object [("username", .string input.username), ("name", .string input.name),
    ("runtime", .string input.runtime),
    ("installation", .object [("agentId", .string input.installation.agentId),
      ("hostId", .string input.installation.hostId), ("name", .string input.installation.name),
      ("kid", .string input.installation.kid), ("publicKey", input.installation.publicKey)])]

def applicationAgentCreationFingerprint [Locale] (input : CreateAgent) (context : Context) :
    Digest String :=
  sha256 (canonicalJson (.object [("applicationId", .string context.applicationId),
    ("actorUserId", .string context.actorUserId), ("issuer", .string context.issuer),
    ("agent", input.json)]))

class HexDigest where
  hex : Digest String → String

/-- The identifiers that were once derived from the key. -/
def legacyApplicationAgentLookupIds [HexDigest] (k : Key) : AgentIds :=
  let hash := HexDigest.hex
    (sha256 (k.applicationId ++ "\x00" ++ k.actorUserId ++ "\x00" ++ k.idempotencyKey))
  ⟨"agi_" ++ hash, "agt_" ++ hash, "agb_" ++ hash, "aga_" ++ hash⟩

end Rows

namespace Repository

variable {α : Type}

abbrev TableBatch := Batch Tables Failure

def uniqueConstraintFailed : Failure := .error "UNIQUE constraint failed"

/-- The insert of a row, whose references have to be there and whose keys have to be free. -/
def insert (referenced free : Tables → Bool) (add : Tables → Tables) : TableBatch Unit := fun T =>
  if referenced T then
    if free T then .ok ((), add T) else .error uniqueConstraintFailed
  else .error foreignKeyViolation

def insertHost (row : Host) : TableBatch Unit :=
  insert (·.users.contains row.userId) (fun T => T.hosts.all (·.id != row.id))
    fun T => { T with hosts := T.hosts ++ [row] }

def insertProtocolAgent (row : ProtocolAgent) : TableBatch Unit :=
  insert (fun T => T.users.contains row.userId && T.hosts.any (·.id == row.hostId))
    (fun T => T.agents.all (·.id != row.id))
    fun T => { T with agents := T.agents ++ [row] }

def insertIdentity (row : Identity) : TableBatch Unit :=
  insert (·.users.contains row.ownerUserId)
    (fun T => T.identities.all fun i => i.id != row.id &&
      (i.issuer != row.issuer || i.subject != row.subject) &&
        (row.username.isNone || i.username != row.username))
    fun T => { T with identities := T.identities ++ [row] }

def insertBinding (row : Binding) : TableBatch Unit :=
  insert (fun T => T.identities.any (·.id == row.agentIdentityId) &&
      T.agents.any (·.id == row.protocolAgentId))
    (fun T => T.bindings.all fun b => b.id != row.id && b.protocolAgentId != row.protocolAgentId)
    fun T => { T with bindings := T.bindings ++ [row] }

def insertAudit (row : Audit) : TableBatch Unit :=
  insert (fun _ => true) (fun T => T.audits.all (·.id != row.id))
    fun T => { T with audits := T.audits ++ [row] }

def insertReservation (row : Reservation) : TableBatch Unit :=
  insert (fun T => T.users.contains row.actorUserId &&
      T.identities.any (·.id == row.agentIdentityId))
    (fun T => T.creations.all fun r => r.id != row.id &&
      r.toKey != row.toKey && r.agentIdentityId != row.agentIdentityId)
    fun T => { T with creations := T.creations ++ [row] }

def createAgentWithInstallation (rows : Rows) (reservation : Reservation) : TableBatch Unit := do
  insertHost rows.host
  insertProtocolAgent rows.protocolAgent
  insertIdentity rows.identity
  insertBinding rows.binding
  insertAudit rows.audit
  insertReservation reservation

end Repository

section Operations

variable {α : Type}

inductive Query where
  | reservation | reservedIdentity | legacyIdentity | legacyRows | createdIdentity
  | availableProtocolAgent | availableHost | availableUsername

/-- The query asks whether an identifier of a new installation is free. -/
def Query.checks : Query → Bool
  | .availableProtocolAgent | .availableHost | .availableUsername => true
  | _ => false

inductive Operation where
  | read (query : Query)
  | generateId
  | createAgentWithInstallation (rows : Rows) (reservation : Reservation)
  | insertReservation (reservation : Reservation)

def Operation.perform : Operation → Store → Store
  | .read _, s => s
  | .generateId, s => { s with generated := s.generated + 1 }
  | .createAgentWithInstallation rows reservation, s => { s with
      tables := (Repository.createAgentWithInstallation rows reservation).settle s.tables }
  | .insertReservation reservation, s => { s with
      tables := (Repository.insertReservation reservation).settle s.tables }

instance : Operational Operation Store := ⟨Operation.perform⟩

abbrev Creations := Procedure Store Operation Failure

def ask (query : Query) (answer : Tables → α) : Creations α :=
  Procedure.query (.read query) fun s => answer s.tables

def generateId : Creations Id := Procedure.query .generateId fun s => "id-" ++ toString s.generated

def commit (op : Operation) (batch : Batch Tables Failure α) : Creations α :=
  Procedure.step op fun s => Procedure.ofExcept (batch.outcome s.tables)

end Operations

section Repository

def identityKeyConflict : Failure → Failure
  | .error "UNIQUE constraint failed" => uniqueViolation
  | e => e

def findApplicationCreation (k : Key) : Creations (Option (Reservation × Identity)) := do
  let reservation ← ask .reservation (·.findReservation k)
  match reservation with
  | none => return none
  | some reservation =>
    let identity ← ask .reservedIdentity (·.identity? reservation.agentIdentityId)
    let identity ← orThrow identity
      (.error "Agent application creation reservation has no identity.")
    return some (reservation, identity)

/-- The key after an insert that failed: whoever was faster has it. -/
def findRacedCreation (k : Key) (error : Failure) : Creations (Reservation × Identity) := do
  let raced ← (findApplicationCreation k).tryCatch fun _ => fail error
  orThrow raced (identityKeyConflict error)

def insertOnce (k : Key) (op : Operation) (batch : Batch Tables Failure Unit)
    (inserted : Creations (Reservation × Identity × Bool)) :
    Creations (Reservation × Identity × Bool) := do
  let existing ← findApplicationCreation k
  match existing with
  | some (reservation, identity) => return (reservation, identity, false)
  | none =>
    let raced ← ((fun _ => none) <$> commit op batch).tryCatch fun error =>
      some <$> findRacedCreation k error
    match raced with
    | some (reservation, identity) => return (reservation, identity, false)
    | none => inserted

def reserveApplicationCreation (k : Key) (reservation : Reservation) :
    Creations (Reservation × Identity × Bool) :=
  insertOnce k (.insertReservation reservation) (Repository.insertReservation reservation) do
    let persisted ← findApplicationCreation k
    let (reservation, identity) ← orThrow persisted
      (.error "Agent application creation reservation was not persisted.")
    return (reservation, identity, true)

/-- `createAgentWithInstallation` of the repository. -/
def insertAgentWithInstallation (k : Key) (rows : Rows) (reservation : Reservation) :
    Creations (Reservation × Identity × Bool) :=
  insertOnce k (.createAgentWithInstallation rows reservation)
      (Repository.createAgentWithInstallation rows reservation) do
    let identity ← ask .createdIdentity (·.findIdentity rows.identity.id)
    let identity ← orThrow identity (.error "Agent identity and installation were not persisted.")
    return (reservation, identity, true)

end Repository

section Requests

/-- A request: its body, its context, and whether its public key can be imported. -/
structure Call where
  input : CreateAgent
  context : Context
  importable : Bool

structure Reply where
  agent : Identity
  replayed : Bool

variable [Locale]

def Call.fingerprint (call : Call) : Digest String :=
  applicationAgentCreationFingerprint call.input call.context

def requireMatchingApplicationAgentCreation (actual requested : Digest String) : Creations Unit :=
  require (actual = requested)
    (conflict "Idempotency-Key was already used for a different Agent.")

def requireLiveApplicationAgent (identity : Identity) : Creations Unit :=
  require (identity.deletedAt = none)
    (conflict "The Agent identity remains reserved after deletion and cannot be recreated.")

def replyWith (call : Call) (reservation : Reservation) (identity : Identity) (replayed : Bool) :
    Creations Reply := do
  requireMatchingApplicationAgentCreation reservation.requestFingerprint call.fingerprint
  requireLiveApplicationAgent identity
  return ⟨identity, replayed⟩

def requireAvailableAgentInstallation (input : CreateAgent) : Creations Unit := do
  let existingProtocolAgent ←
    ask .availableProtocolAgent (·.findProtocolAgent input.installation.agentId)
  let existingHost ← ask .availableHost (·.findHost input.installation.hostId)
  require (existingProtocolAgent = none ∧ existingHost = none)
    (conflict "The Agent installation identifiers are already in use.")

def requireAvailableAgentUsername (username : String) : Creations Unit := do
  let existing ← ask .availableUsername (·.findByUsername username)
  require (existing = none) (conflict ("Agent username \"" ++ username ++ "\" is unavailable."))

def createUuidV7ApplicationAgent (call : Call) : Creations (Reservation × Identity × Bool) := do
  requireAvailableAgentInstallation call.input
  requireAvailableAgentUsername call.input.username
  let identityId ← generateId
  let subject ← generateId
  let bindingId ← generateId
  let auditId ← generateId
  let reservationId ← generateId
  insertAgentWithInstallation call.context.toKey
    (agentRows call.input call.context ⟨identityId, subject, bindingId, auditId⟩)
    (call.context.toKey.reservation reservationId call.fingerprint identityId)

variable [HexDigest]

def replayLegacyApplicationAgent (call : Call) : Creations (Option Reply) := do
  let ids := legacyApplicationAgentLookupIds call.context.toKey
  let identity ← ask .legacyIdentity (·.findIdentity ids.identityId)
  match identity with
  | none => return none
  | some identity =>
    let binding ← ask .legacyRows (·.findBinding identity.id ids.bindingId)
    let protocolAgent ← ask .legacyRows (·.findProtocolAgent call.input.installation.agentId)
    let host ← ask .legacyRows (·.findHost call.input.installation.hostId)
    let audit ← ask .legacyRows (·.findAudit ids.auditId)
    require (Footprint.mk identity binding protocolAgent host audit =
        (agentRows call.input call.context ids).footprint)
      (conflict "Idempotency-Key was already used for a different Agent.")
    let id ← generateId
    let (reservation, identity, _) ← reserveApplicationCreation call.context.toKey
      (call.context.toKey.reservation id call.fingerprint identity.id)
    some <$> replyWith call reservation identity true

/-- The last attempt after a creation that failed with `originalError`. -/
def recoverLegacyApplicationAgentAfterFailure (call : Call) (originalError : Failure) :
    Creations (Option Reply) :=
  (replayLegacyApplicationAgent call).tryCatch fun recoveryError =>
    match recoveryError with
    | .api .. => fail recoveryError
    | _ => fail originalError

/-- A creation, or the Agent that the attempt after its failure found. -/
def createOrRecover (call : Call) : Creations ((Reservation × Identity × Bool) ⊕ Reply) :=
  (Sum.inl <$> createUuidV7ApplicationAgent call).tryCatch fun error => do
    let recovered ← recoverLegacyApplicationAgentAfterFailure call error
    Sum.inr <$> orThrow recovered error

def createAgentWithInstallation (call : Call) : Creations Reply := do
  let installation := call.input.installation
  require ((installation.publicKey.field "kid").all fun kid => kid = .string installation.kid)
    (badRequest "The installation kid must match the public JWK kid.")
  require (call.importable = true)
    (badRequest "The installation publicKey must be a valid Ed25519 verification JWK.")
  let existing ← findApplicationCreation call.context.toKey
  match existing with
  | some (reservation, identity) => replyWith call reservation identity true
  | none =>
    let legacyReplay ← replayLegacyApplicationAgent call
    match legacyReplay with
    | some reply => return reply
    | none =>
      let created ← createOrRecover call
      match created with
      | .inr reply => return reply
      | .inl (reservation, identity, created) =>
        replyWith call reservation identity (!created)

end Requests

abbrev CreationPool := Pool Call Store Operation Failure Reply

end FlareAuth.AgentCreation
