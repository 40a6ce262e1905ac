import FlareAuth.SecretEnvelopes
import FlareAuth.WebhookDeliveries

/-!
# Signing secrets of webhook endpoints

A delivery reads its endpoint, reserves an attempt, and then opens the secret that
it read. A secret that is still plaintext it seals first and writes back. A
rotation writes a new secret and its prefix, whatever the endpoint had before.
-/

namespace FlareAuth.Webhooks.Secrets

open Concurrent Relational Procedure SecretEnvelopes

structure EndpointRow where
  id : Id
  url : String
  signingSecret : String
  secretPrefix : String
  updatedAt : ℕ
  deriving DecidableEq

/-- The columns of an endpoint that a rotation or a sealing sets. -/
structure EndpointPatch where
  signingSecret : String
  secretPrefix : Option String
  updatedAt : ℕ

def EndpointRow.patch (p : EndpointPatch) (e : EndpointRow) : EndpointRow :=
  { e with
    signingSecret := p.signingSecret
    secretPrefix := p.secretPrefix.getD e.secretPrefix
    updatedAt := p.updatedAt }

theorem EndpointRow.patch_id (p : EndpointPatch) (e : EndpointRow) : (e.patch p).id = e.id := rfl

/-- The endpoints with their secrets beside the requests and their attempts. `rotations` lists the
secrets that rotations have written, latest first; nothing reads it. -/
structure Store where
  site : Webhooks.Store
  endpoints : Keyed EndpointRow.id
  drawn : ℕ
  rotations : List (Id × String)

inductive Operation where
  | onSite (op : Webhooks.Operation)
  | draw
  | findEndpoint (id : Id)
  | updateEndpoint (id : Id) (p : EndpointPatch) (rotated : Option String)
  | post (id : Id) (signingSecret : String)

def Store.updateEndpoint (s : Store) (id : Id) (p : EndpointPatch) (rotated : Option String) :
    Store :=
  { s with
    endpoints := s.endpoints.update (fun e => e.id == id) (EndpointRow.patch p)
      (EndpointRow.patch_id p)
    rotations :=
      match s.endpoints.find id, rotated with
      | some _, some secret => (id, secret) :: s.rotations
      | _, _ => s.rotations }

def Operation.perform : Operation → Store → Store
  | .onSite op, s => { s with site := op.perform s.site }
  | .draw, s => { s with drawn := s.drawn + 1 }
  | .findEndpoint _, s => s
  | .updateEndpoint id p rotated, s => s.updateEndpoint id p rotated
  | .post _ _, s => s

instance : Operational Operation Store := ⟨Operation.perform⟩

abbrev Signing := Procedure Store Operation Failure

def onSite {α : Type} (p : Deliveries α) : Signing α := p.lift (·.site) .onSite

def findEndpoint (id : Id) : Signing (Option EndpointRow) :=
  Procedure.query (.findEndpoint id) (·.endpoints.find id)

def updateEndpoint (id : Id) (p : EndpointPatch) (rotated : Option String) :
    Signing (Option EndpointRow) :=
  Procedure.query (.updateEndpoint id p rotated) fun s =>
    (s.endpoints.find id).map (EndpointRow.patch p)

def clock : Signing ℕ := onSite (look (·.now))

def webhookSecretContext (endpointId : Id) : String :=
  "webhook:" ++ endpointId ++ ":signing-secret"

def secretPrefix (secret : String) : String := String.ofList (secret.toList.take 14)

/-- The message that a failed delivery records. -/
def messageOf : Failure → String
  | .api _ _ message _ => message
  | .oauth _ _ description => description
  | .error message => message

/-- Random bytes, by the number of earlier draws. -/
class Entropy where
  bytes : ℕ → (n : ℕ) → Vector UInt8 n

section Usecases

variable [AesGcm] [Entropy]

def getRandomValues (n : ℕ) : Signing (Vector UInt8 n) :=
  Procedure.query .draw fun s => Entropy.bytes s.drawn n

def createSigningSecret : Signing String := do
  let bytes ← getRandomValues 32
  return "whsec_" ++ Text.base64Url bytes.toList

def rotateWebhookSecret (id : Id) : Signing String := do
  let current ← findEndpoint id
  let _ ← orThrow current (notFound "Webhook endpoint not found.")
  let signingSecret ← createSigningSecret
  let iv ← getRandomValues 12
  let now ← clock
  let endpoint ← updateEndpoint id
    ⟨sealText iv signingSecret (webhookSecretContext id), some (secretPrefix signingSecret), now⟩
    (some signingSecret)
  let _ ← orThrow endpoint (notFound "Webhook endpoint not found.")
  return signingSecret

def readSigningSecret (endpoint : EndpointRow) : Signing String := do
  if isSealed endpoint.signingSecret then
    Procedure.ofExcept (openText endpoint.signingSecret (webhookSecretContext endpoint.id))
  else do
    let iv ← getRandomValues 12
    let now ← clock
    let migrated ← updateEndpoint endpoint.id
      ⟨sealText iv endpoint.signingSecret (webhookSecretContext endpoint.id), none, now⟩ none
    let _ ← orThrow migrated (notFound "Webhook endpoint not found.")
    return endpoint.signingSecret

/-- The signed request, and the outcome of its answer or of what was thrown before. -/
def sendSigned (endpoint : EndpointRow) (answer : Answer) : Signing Outcome :=
  (do
    let signingSecret ← readSigningSecret endpoint
    Procedure.query (.post endpoint.id signingSecret) fun _ => ()
    return answer.outcome).tryCatch fun e => done (Answer.thrown (messageOf e)).outcome

def sendAttempt (endpoint : EndpointRow) (attempt : DeliveryAttempt) (attemptedAt : ℕ)
    (answer : Answer) : Signing Delivery := do
  let _ ← onSite (updateDelivery attempt.requestId
    ⟨Outcome.unsent, some attempt.sequence, some none, attemptedAt⟩)
  let outcome ← sendSigned endpoint answer
  let completedAt ← clock
  let updatedAttempt ← onSite (updateDeliveryAttempt attempt.id outcome completedAt)
  let updated ← onSite (updateDelivery attempt.requestId ⟨outcome, none, none, completedAt⟩)
  return ⟨updated, updatedAttempt, true⟩

def deliverWebhookRequestWithAttempt (id : Id) (idempotencyKey : String) (answer : Answer) :
    Signing Delivery := do
  let found ← onSite (look (·.findRequest id))
  let current ← orThrow found (notFound "Webhook request not found.")
  let row ← findEndpoint current.endpointId
  let endpoint ← orThrow row (notFound "Webhook endpoint not found.")
  require (current.requestBody.any (· ≠ "") = true)
    (badRequest "Webhook request has no event payload.")
  let attemptedAt ← clock
  let attemptId ← onSite generateId
  let reservation : Reservation := ⟨attemptId, id, idempotencyKey,
    current.attemptCount, attemptedAt⟩
  let reserved ← onSite (commit (.reserveAttempt reservation)
    (Repository.reserveAttempt reservation))
  match reserved with
  | some attempt => sendAttempt endpoint attempt attemptedAt answer
  | none => do
    let existing ← onSite (look (·.findAttemptByIdempotencyKey id idempotencyKey))
    let attempt ← orThrow existing
      (.error "Webhook delivery attempt reservation did not return its durable resource.")
    return ⟨current, attempt, false⟩

end Usecases

/-- What stands before the delivery of a publication. -/
def createRequest (endpoint : Endpoint) (event requestBody : String) : Deliveries Id := do
  let now ← look (·.now)
  let id ← generateId
  let request : WebhookRequest :=
    ⟨id, endpoint.id, event, 0, Outcome.unsent, some requestBody, some now, now, now⟩
  commit (.createRequest request) (Repository.createRequest request)
  let found ← look (·.findEndpoint endpoint.id)
  require (found.isSome = true)
    (.error "Webhook endpoint disappeared while recording a delivery.")
  return id

/-- What stands before the delivery of another attempt: `none` where the key has one. -/
def checkAttempt (id : Id) (idempotencyKey : String) : Deliveries (Option DeliveryAttempt) := do
  let found ← look (·.findRequest id)
  let current ← orThrow found (notFound "Webhook request not found.")
  let existing ← look (·.findAttemptByIdempotencyKey id idempotencyKey)
  match existing with
  | some attempt => return some attempt
  | none => do
    require (current.outcome.status ≠ .delivered)
      (conflict "Delivered webhook requests cannot create another attempt.")
    return none

/-- A publication is the creation of its request and then the delivery. -/
theorem publishToEndpoint_eq (endpoint : Endpoint) (event requestBody : String) (answer : Answer) :
    publishToEndpoint endpoint event requestBody answer =
      createRequest endpoint event requestBody >>= fun id =>
        Webhooks.deliverWebhookRequestWithAttempt id ("initial:" ++ id) answer >>= fun result =>
          done result.request := by
  unfold publishToEndpoint createRequest
  simp only [bind_assoc]
  rfl

theorem createWebhookDeliveryAttempt_eq (id : Id) (idempotencyKey : String) (answer : Answer) :
    createWebhookDeliveryAttempt id idempotencyKey answer =
      checkAttempt id idempotencyKey >>= fun existing =>
        match existing with
        | some attempt => done ⟨attempt, true⟩
        | none =>
          Webhooks.deliverWebhookRequestWithAttempt id idempotencyKey answer >>= fun result =>
            done ⟨result.attempt, !result.created⟩ := by
  unfold createWebhookDeliveryAttempt checkAttempt
  rw [bind_assoc]
  refine congrArg _ (funext fun found => ?_)
  rw [bind_assoc]
  refine congrArg _ (funext fun current => ?_)
  rw [bind_assoc]
  refine congrArg _ (funext fun existing => ?_)
  cases existing with
  | some attempt => rfl
  | none =>
    dsimp only
    rw [bind_assoc]
    rfl

inductive Call where
  | rotateWebhookSecret (id : Id)
  | publishToEndpoint (endpointId : Id) (event : String) (organizationIds : List Id)
      (requestBody : String) (answer : Answer)
  | deliverWebhookRequest (id : Id) (answer : Answer)
  | createWebhookDeliveryAttempt (id : Id) (idempotencyKey : String) (answer : Answer)
  | elapse (milliseconds : ℕ)

/-- A rotation returns the new secret, the other calls nothing that matters here. -/
def Call.program [AesGcm] [Entropy] : Call → Signing (Option String)
  | .rotateWebhookSecret id => do
    let signingSecret ← Secrets.rotateWebhookSecret id
    return some signingSecret
  | .publishToEndpoint endpointId event organizationIds requestBody answer => do
    let endpoints ← onSite (look (·.listSubscribedEndpoints event organizationIds))
    match endpoints.find? fun e => e.id = endpointId with
    | some endpoint => do
      let id ← onSite (createRequest endpoint event requestBody)
      let _ ← deliverWebhookRequestWithAttempt id ("initial:" ++ id) answer
      return none
    | none => return none
  | .deliverWebhookRequest id answer => do
    let _ ← deliverWebhookRequestWithAttempt id ("initial:" ++ id) answer
    return none
  | .createWebhookDeliveryAttempt id idempotencyKey answer => do
    let existing ← onSite (checkAttempt id idempotencyKey)
    match existing with
    | some _ => return none
    | none => do
      let _ ← deliverWebhookRequestWithAttempt id idempotencyKey answer
      return none
  | .elapse milliseconds => do
    onSite (Procedure.query (.elapse milliseconds) fun _ => ())
    return none

def EndpointRow.opened [AesGcm] (row : EndpointRow) : Option String :=
  if isSealed row.signingSecret then
    (openText row.signingSecret (webhookSecretContext row.id)).toOption
  else some row.signingSecret

namespace Store

def secretOf [AesGcm] (s : Store) (id : Id) : Option String :=
  (s.endpoints.find id).bind (·.opened)

def prefixOf (s : Store) (id : Id) : Option String := (s.endpoints.find id).map (·.secretPrefix)

def lastRotation (s : Store) (id : Id) : Option String := s.rotations.lookup id

end Store

abbrev SecretPool := Pool Call Store Operation Failure (Option String)

end FlareAuth.Webhooks.Secrets
