import FlareAuth.Concurrent.Batch
import FlareAuth.Concurrent.Pool
import FlareAuth.Directory
import FlareAuth.Failure
import FlareAuth.Relational.Keyed

/-!
# Webhook requests and their delivery attempts

A delivery reserves the next sequence of its request, marks the request as
pending, sends it, and writes the outcome to the attempt and to the request. What
the endpoint answers, or why nothing could be sent, is part of the call. Endpoints
stay as they are, and the sealing of their secrets is left out.
-/

namespace FlareAuth.Webhooks

open Concurrent Relational Procedure

inductive DeliveryStatus where
  | pending
  | delivered
  | failed
  deriving DecidableEq, Repr

/-- What a delivery writes to its attempt and to its request. -/
structure Outcome where
  status : DeliveryStatus
  httpStatus : Option ℕ
  error : Option String
  responseBody : Option String
  deriving DecidableEq

def Outcome.unsent : Outcome := ⟨.pending, none, none, none⟩

structure Endpoint where
  id : Id
  url : String
  events : List String
  enabled : Bool
  organizationId : Option Id
  deriving DecidableEq

structure WebhookRequest where
  id : Id
  endpointId : Id
  event : String
  attemptCount : ℕ
  outcome : Outcome
  requestBody : Option String
  nextAttemptAt : Option ℕ
  createdAt : ℕ
  updatedAt : ℕ
  deriving DecidableEq

structure DeliveryAttempt where
  id : Id
  requestId : Id
  idempotencyKey : String
  sequence : ℕ
  outcome : Outcome
  createdAt : ℕ
  completedAt : Option ℕ
  deriving DecidableEq

structure Store where
  now : ℕ
  generated : ℕ
  endpoints : List Endpoint
  requests : Keyed WebhookRequest.id
  attempts : Keyed DeliveryAttempt.id

/-- A reservation, with the attempt count that was read before. -/
structure Reservation where
  id : Id
  requestId : Id
  idempotencyKey : String
  previousAttemptCount : ℕ
  createdAt : ℕ

/-- The columns of a request that a delivery sets. What is not in the patch stays. -/
structure RequestPatch where
  outcome : Outcome
  attemptCount : Option ℕ
  nextAttemptAt : Option (Option ℕ)
  updatedAt : ℕ

def WebhookRequest.patch (p : RequestPatch) (r : WebhookRequest) : WebhookRequest :=
  { r with
    outcome := p.outcome
    attemptCount := p.attemptCount.getD r.attemptCount
    nextAttemptAt := p.nextAttemptAt.getD r.nextAttemptAt
    updatedAt := p.updatedAt }

theorem WebhookRequest.patch_id (p : RequestPatch) (r : WebhookRequest) : (r.patch p).id = r.id :=
  rfl

def DeliveryAttempt.complete (outcome : Outcome) (completedAt : ℕ) (a : DeliveryAttempt) :
    DeliveryAttempt :=
  { a with outcome := outcome, completedAt := some completedAt }

theorem DeliveryAttempt.complete_id (outcome : Outcome) (completedAt : ℕ) (a : DeliveryAttempt) :
    (a.complete outcome completedAt).id = a.id := rfl

namespace Store

def nextId (s : Store) : Id := "id-" ++ toString s.generated

def findEndpoint (s : Store) (id : Id) : Option Endpoint := s.endpoints.find? fun e => e.id = id

def findRequest (s : Store) (id : Id) : Option WebhookRequest := do
  let request ← s.requests.find id
  let _ ← s.findEndpoint request.endpointId
  return request

def listSubscribedEndpoints (s : Store) (event : String) (organizationIds : List Id) :
    List Endpoint :=
  s.endpoints.filter fun e => e.enabled && e.events.contains event &&
    match e.organizationId with
    | none => true
    | some organizationId => organizationIds.contains organizationId

def attemptsOf (s : Store) (requestId : Id) : List DeliveryAttempt :=
  s.attempts.rows.filter fun a => a.requestId = requestId

def findAttemptByIdempotencyKey (s : Store) (requestId : Id) (idempotencyKey : String) :
    Option DeliveryAttempt :=
  (s.attemptsOf requestId).find? fun a => a.idempotencyKey = idempotencyKey

/-- The largest sequence of a request's attempts, 0 without any. -/
def largestSequence (s : Store) (requestId : Id) : ℕ :=
  ((s.attemptsOf requestId).map (·.sequence)).foldr max 0

end Store

abbrev StoreBatch := Batch Store Failure

namespace Repository

def createRequest (r : WebhookRequest) : StoreBatch Unit := fun s =>
  if (s.findEndpoint r.endpointId).isNone then .error (.error "constraint failed")
  else
    match s.requests.insert? r with
    | some requests => .ok ((), { s with requests := requests })
    | none => .error (.error "constraint failed")

def updateRequest (id : Id) (p : RequestPatch) : StoreBatch (Option WebhookRequest) := fun s =>
  .ok ((s.requests.find id).map (WebhookRequest.patch p), { s with
    requests := s.requests.update (fun r => r.id == id) (WebhookRequest.patch p)
      (WebhookRequest.patch_id p) })

def reservedAttempt (s : Store) (r : Reservation) : DeliveryAttempt :=
  ⟨r.id, r.requestId, r.idempotencyKey,
    max (s.largestSequence r.requestId) r.previousAttemptCount + 1, Outcome.unsent, r.createdAt,
    none⟩

/-- The insert of a reservation, which does nothing if the request has an attempt with the key. -/
def reserveAttempt (r : Reservation) : StoreBatch (Option DeliveryAttempt) := fun s =>
  if (s.findAttemptByIdempotencyKey r.requestId r.idempotencyKey).isSome then .ok (none, s)
  else if (s.requests.find r.requestId).isNone ||
      (s.attemptsOf r.requestId).any fun a => a.sequence == (reservedAttempt s r).sequence then
    .error (.error "constraint failed")
  else
    match s.attempts.insert? (reservedAttempt s r) with
    | some attempts => .ok (some (reservedAttempt s r), { s with attempts := attempts })
    | none => .error (.error "constraint failed")

def updateAttempt (id : Id) (outcome : Outcome) (completedAt : ℕ) :
    StoreBatch (Option DeliveryAttempt) := fun s =>
  .ok ((s.attempts.find id).map (DeliveryAttempt.complete outcome completedAt), { s with
    attempts := s.attempts.update (fun a => a.id == id)
      (DeliveryAttempt.complete outcome completedAt)
      (DeliveryAttempt.complete_id outcome completedAt) })

end Repository

inductive Operation where
  | read
  | fetch
  | generateId
  | elapse (milliseconds : ℕ)
  | createRequest (r : WebhookRequest)
  | updateRequest (id : Id) (p : RequestPatch)
  | reserveAttempt (r : Reservation)
  | updateAttempt (id : Id) (outcome : Outcome) (completedAt : ℕ)

def Operation.perform : Operation → Store → Store
  | .read, s => s
  | .fetch, s => s
  | .generateId, s => { s with generated := s.generated + 1 }
  | .elapse milliseconds, s => { s with now := s.now + milliseconds }
  | .createRequest r, s => (Repository.createRequest r).settle s
  | .updateRequest id p, s => (Repository.updateRequest id p).settle s
  | .reserveAttempt r, s => (Repository.reserveAttempt r).settle s
  | .updateAttempt id outcome completedAt, s =>
    (Repository.updateAttempt id outcome completedAt).settle s

instance : Operational Operation Store := ⟨Operation.perform⟩

abbrev Deliveries := Procedure Store Operation Failure

section Usecases

variable {α : Type}

def look (answer : Store → α) : Deliveries α := Procedure.query .read answer

def generateId : Deliveries Id := Procedure.query .generateId Store.nextId

def commit (op : Operation) (batch : StoreBatch α) : Deliveries α :=
  Procedure.step op fun s => Procedure.ofExcept (batch.outcome s)

/-- What the endpoint answers, or the message of what was thrown instead. -/
inductive Answer where
  | response (status : ℕ) (body : Option String)
  | thrown (message : String)

def Answer.outcome : Answer → Outcome
  | .response status body =>
    if 200 ≤ status ∧ status < 300 then ⟨.delivered, some status, none, body⟩
    else ⟨.failed, some status, some ("Endpoint returned HTTP " ++ toString status ++ "."), body⟩
  | .thrown message => ⟨.failed, none, some message, none⟩

def updateDelivery (id : Id) (p : RequestPatch) : Deliveries WebhookRequest := do
  let updated ← commit (.updateRequest id p) (Repository.updateRequest id p)
  let row ← orThrow updated (notFound "Webhook request not found.")
  let endpoint ← look (·.findEndpoint row.endpointId)
  require (endpoint.isSome = true) (notFound "Webhook request not found.")
  return row

def updateDeliveryAttempt (id : Id) (outcome : Outcome) (completedAt : ℕ) :
    Deliveries DeliveryAttempt := do
  let updated ← commit (.updateAttempt id outcome completedAt)
    (Repository.updateAttempt id outcome completedAt)
  orThrow updated (notFound "Webhook delivery attempt not found.")

structure Delivery where
  request : WebhookRequest
  attempt : DeliveryAttempt
  created : Bool

def sendAttempt (attempt : DeliveryAttempt) (attemptedAt : ℕ) (answer : Answer) :
    Deliveries Delivery := do
  let _ ← updateDelivery attempt.requestId
    ⟨Outcome.unsent, some attempt.sequence, some none, attemptedAt⟩
  Procedure.query .fetch fun _ => ()
  let completedAt ← look (·.now)
  let updatedAttempt ← updateDeliveryAttempt attempt.id answer.outcome completedAt
  let updated ← updateDelivery attempt.requestId ⟨answer.outcome, none, none, completedAt⟩
  return ⟨updated, updatedAttempt, true⟩

def deliverWebhookRequestWithAttempt (id : Id) (idempotencyKey : String) (answer : Answer) :
    Deliveries Delivery := do
  let found ← look (·.findRequest id)
  let current ← orThrow found (notFound "Webhook request not found.")
  let endpoint ← look (·.findEndpoint current.endpointId)
  require (endpoint.isSome = true) (notFound "Webhook endpoint not found.")
  require (current.requestBody.any (· ≠ "") = true)
    (badRequest "Webhook request has no event payload.")
  let attemptedAt ← look (·.now)
  let attemptId ← generateId
  let reservation : Reservation := ⟨attemptId, id, idempotencyKey,
    current.attemptCount, attemptedAt⟩
  let reserved ← commit (.reserveAttempt reservation) (Repository.reserveAttempt reservation)
  match reserved with
  | some attempt => sendAttempt attempt attemptedAt answer
  | none => do
    let existing ← look (·.findAttemptByIdempotencyKey id idempotencyKey)
    let attempt ← orThrow existing
      (.error "Webhook delivery attempt reservation did not return its durable resource.")
    return ⟨current, attempt, false⟩

/-- An attempt, and whether it is one that was made before. -/
structure AttemptReply where
  attempt : DeliveryAttempt
  replayed : Bool

def createWebhookDeliveryAttempt (id : Id) (idempotencyKey : String) (answer : Answer) :
    Deliveries AttemptReply := do
  let found ← look (·.findRequest id)
  let current ← orThrow found (notFound "Webhook request not found.")
  let existing ← look (·.findAttemptByIdempotencyKey id idempotencyKey)
  match existing with
  | some attempt => return ⟨attempt, true⟩
  | none => do
    require (current.outcome.status ≠ .delivered)
      (conflict "Delivered webhook requests cannot create another attempt.")
    let result ← deliverWebhookRequestWithAttempt id idempotencyKey answer
    return ⟨result.attempt, !result.created⟩

def publishToEndpoint (endpoint : Endpoint) (event requestBody : String) (answer : Answer) :
    Deliveries WebhookRequest := do
  let now ← look (·.now)
  let id ← generateId
  let request : WebhookRequest :=
    ⟨id, endpoint.id, event, 0, Outcome.unsent, some requestBody, some now, now, now⟩
  commit (.createRequest request) (Repository.createRequest request)
  let found ← look (·.findEndpoint endpoint.id)
  require (found.isSome = true)
    (.error "Webhook endpoint disappeared while recording a delivery.")
  let result ← deliverWebhookRequestWithAttempt id ("initial:" ++ id) answer
  return result.request

end Usecases

/-- The publication to one endpoint is a call of its own, which other ones may interrupt. -/
inductive Call where
  | publishToEndpoint (endpointId : Id) (event : String) (organizationIds : List Id)
      (requestBody : String) (answer : Answer)
  | deliverWebhookRequest (id : Id) (answer : Answer)
  | createWebhookDeliveryAttempt (id : Id) (idempotencyKey : String) (answer : Answer)
  | elapse (milliseconds : ℕ)

def Call.program : Call → Deliveries Unit
  | .publishToEndpoint endpointId event organizationIds requestBody answer => do
    let endpoints ← look (·.listSubscribedEndpoints event organizationIds)
    match endpoints.find? fun e => e.id = endpointId with
    | some endpoint => do
      let _ ← Webhooks.publishToEndpoint endpoint event requestBody answer
    | none => return ()
  | .deliverWebhookRequest id answer => do
    let _ ← deliverWebhookRequestWithAttempt id ("initial:" ++ id) answer
  | .createWebhookDeliveryAttempt id idempotencyKey answer => do
    let _ ← Webhooks.createWebhookDeliveryAttempt id idempotencyKey answer
  | .elapse milliseconds => Procedure.query (.elapse milliseconds) fun _ => ()

/-- A store in which nothing was published yet. -/
structure Store.Fresh (s : Store) : Prop where
  requests : s.requests.rows = []
  attempts : s.attempts.rows = []

abbrev WebhookPool := Pool Call Store Operation Failure Unit

end FlareAuth.Webhooks
