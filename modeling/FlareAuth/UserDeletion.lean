import FlareAuth.Concurrent.Command
import FlareAuth.OrganizationMembers
import FlareAuth.Relational.ForeignKeys

/-!
# The deletion of a User

The route deletes the sessions of the User in one statement and the User in
another. The second statement runs through the foreign keys of the whole schema,
so the database here is a list of rows of all tables that have references.
-/

namespace FlareAuth.UserDeletion

open Concurrent Relational

inductive Table where
  | user | userProfile | session | passwordResetRequest | account | twoFactor | passkey
  | walletAddress | oauthClient | oauthRefreshToken | oauthAccessToken | oauthConsent | deviceCode
  | organization | member | invitation | team | teamMember | organizationRole | application
  | applicationClientMetadata | applicationClientSecret | applicationConsent | apiResource
  | federatedCredential | tokenExchangeAccessToken | tokenExchangeRefreshToken
  | identityProviderConnector | providerConnection | providerResourceAuthorization
  | providerCredential | resourceConnectionIntent | agentAccessRequest | externalTokenLease
  | resourceScopeEntitlement | agentIdentity | agentIdentityBinding | agentApplicationCreation
  | agentEnrollmentIntent | agentHost | agent | agentCapabilityGrant | approvalRequest
  | uploadedAsset | webhookEndpoint | webhookDeliveryRequest | webhookDeliveryAttempt
  | customDomain
  deriving DecidableEq

/-- The columns of keys and references, and the roles of a member. -/
inductive Column where
  | id | userId | sessionId | clientId | refreshId | organizationId | role | inviterId | teamId
  | oauthClientId | logoAssetId | ownerOrganizationId | applicationId | createdByUserId
  | connectorId | resourceServerId | audienceResourceId | credentialId | ownerUserId
  | authenticationAccountId | providerConnectionId | resourceId | providerResourceAuthorizationId
  | initiatedByUserId | connectionId | agentIdentityId | bindingId | requestId | grantedByUserId
  | grantedByAgentIdentityId | sourceAccessRequestId | protocolAgentId | actorUserId
  | approvedByUserId | agentId | hostId | deniedBy | grantedBy | endpointId
  deriving DecidableEq

abbrev Record := Row Table Column String

abbrev Database := List Record

/-- The references of `db/schema`. -/
def schema : List (Reference Table Column) :=
  [⟨.userProfile, .userId, .user, .id, .cascade⟩,
    ⟨.session, .userId, .user, .id, .cascade⟩,
    ⟨.passwordResetRequest, .userId, .user, .id, .cascade⟩,
    ⟨.account, .userId, .user, .id, .cascade⟩,
    ⟨.twoFactor, .userId, .user, .id, .cascade⟩,
    ⟨.passkey, .userId, .user, .id, .cascade⟩,
    ⟨.walletAddress, .userId, .user, .id, .cascade⟩,
    ⟨.oauthClient, .userId, .user, .id, .cascade⟩,
    ⟨.oauthRefreshToken, .clientId, .oauthClient, .clientId, .cascade⟩,
    ⟨.oauthRefreshToken, .sessionId, .session, .id, .setNull⟩,
    ⟨.oauthRefreshToken, .userId, .user, .id, .cascade⟩,
    ⟨.oauthAccessToken, .clientId, .oauthClient, .clientId, .cascade⟩,
    ⟨.oauthAccessToken, .sessionId, .session, .id, .setNull⟩,
    ⟨.oauthAccessToken, .userId, .user, .id, .cascade⟩,
    ⟨.oauthAccessToken, .refreshId, .oauthRefreshToken, .id, .cascade⟩,
    ⟨.oauthConsent, .clientId, .oauthClient, .clientId, .cascade⟩,
    ⟨.oauthConsent, .userId, .user, .id, .cascade⟩,
    ⟨.deviceCode, .userId, .user, .id, .cascade⟩,
    ⟨.deviceCode, .clientId, .oauthClient, .clientId, .cascade⟩,
    ⟨.organization, .logoAssetId, .uploadedAsset, .id, .setNull⟩,
    ⟨.member, .organizationId, .organization, .id, .cascade⟩,
    ⟨.member, .userId, .user, .id, .cascade⟩,
    ⟨.invitation, .organizationId, .organization, .id, .cascade⟩,
    ⟨.invitation, .inviterId, .user, .id, .setNull⟩,
    ⟨.team, .organizationId, .organization, .id, .cascade⟩,
    ⟨.teamMember, .teamId, .team, .id, .cascade⟩,
    ⟨.teamMember, .userId, .user, .id, .cascade⟩,
    ⟨.application, .oauthClientId, .oauthClient, .clientId, .cascade⟩,
    ⟨.application, .logoAssetId, .uploadedAsset, .id, .setNull⟩,
    ⟨.application, .ownerOrganizationId, .organization, .id, .restrict⟩,
    ⟨.applicationClientMetadata, .applicationId, .application, .id, .cascade⟩,
    ⟨.applicationClientSecret, .applicationId, .application, .id, .cascade⟩,
    ⟨.applicationClientSecret, .createdByUserId, .user, .id, .setNull⟩,
    ⟨.apiResource, .connectorId, .identityProviderConnector, .id, .restrict⟩,
    ⟨.apiResource, .ownerOrganizationId, .organization, .id, .restrict⟩,
    ⟨.applicationConsent, .applicationId, .application, .id, .cascade⟩,
    ⟨.applicationConsent, .userId, .user, .id, .cascade⟩,
    ⟨.applicationConsent, .resourceServerId, .apiResource, .id, .cascade⟩,
    ⟨.organizationRole, .organizationId, .organization, .id, .cascade⟩,
    ⟨.federatedCredential, .applicationId, .application, .id, .cascade⟩,
    ⟨.federatedCredential, .audienceResourceId, .apiResource, .id, .restrict⟩,
    ⟨.tokenExchangeAccessToken, .clientId, .oauthClient, .clientId, .cascade⟩,
    ⟨.tokenExchangeAccessToken, .credentialId, .federatedCredential, .id, .cascade⟩,
    ⟨.tokenExchangeRefreshToken, .clientId, .oauthClient, .clientId, .cascade⟩,
    ⟨.tokenExchangeRefreshToken, .credentialId, .federatedCredential, .id, .cascade⟩,
    ⟨.providerConnection, .connectorId, .identityProviderConnector, .id, .restrict⟩,
    ⟨.providerConnection, .ownerUserId, .user, .id, .cascade⟩,
    ⟨.providerConnection, .ownerOrganizationId, .organization, .id, .cascade⟩,
    ⟨.providerConnection, .authenticationAccountId, .account, .id, .setNull⟩,
    ⟨.providerResourceAuthorization, .providerConnectionId, .providerConnection, .id, .cascade⟩,
    ⟨.providerResourceAuthorization, .resourceId, .apiResource, .id, .restrict⟩,
    ⟨.providerCredential, .providerResourceAuthorizationId, .providerResourceAuthorization, .id,
      .cascade⟩,
    ⟨.resourceConnectionIntent, .resourceId, .apiResource, .id, .restrict⟩,
    ⟨.resourceConnectionIntent, .ownerUserId, .user, .id, .restrict⟩,
    ⟨.resourceConnectionIntent, .ownerOrganizationId, .organization, .id, .restrict⟩,
    ⟨.resourceConnectionIntent, .initiatedByUserId, .user, .id, .restrict⟩,
    ⟨.agentAccessRequest, .resourceId, .apiResource, .id, .restrict⟩,
    ⟨.agentAccessRequest, .connectionId, .providerResourceAuthorization, .id, .restrict⟩,
    ⟨.agentAccessRequest, .agentIdentityId, .agentIdentity, .id, .restrict⟩,
    ⟨.agentAccessRequest, .bindingId, .agentIdentityBinding, .id, .restrict⟩,
    ⟨.externalTokenLease, .requestId, .agentAccessRequest, .id, .restrict⟩,
    ⟨.externalTokenLease, .bindingId, .agentIdentityBinding, .id, .restrict⟩,
    ⟨.resourceScopeEntitlement, .userId, .user, .id, .cascade⟩,
    ⟨.resourceScopeEntitlement, .applicationId, .application, .id, .cascade⟩,
    ⟨.resourceScopeEntitlement, .agentIdentityId, .agentIdentity, .id, .restrict⟩,
    ⟨.resourceScopeEntitlement, .organizationId, .organization, .id, .cascade⟩,
    ⟨.resourceScopeEntitlement, .resourceServerId, .apiResource, .id, .restrict⟩,
    ⟨.resourceScopeEntitlement, .connectionId, .providerResourceAuthorization, .id, .restrict⟩,
    ⟨.resourceScopeEntitlement, .grantedByUserId, .user, .id, .restrict⟩,
    ⟨.resourceScopeEntitlement, .grantedByAgentIdentityId, .agentIdentity, .id, .restrict⟩,
    ⟨.resourceScopeEntitlement, .sourceAccessRequestId, .agentAccessRequest, .id, .restrict⟩,
    ⟨.agentIdentity, .ownerUserId, .user, .id, .restrict⟩,
    ⟨.agentIdentityBinding, .agentIdentityId, .agentIdentity, .id, .restrict⟩,
    ⟨.agentIdentityBinding, .protocolAgentId, .agent, .id, .restrict⟩,
    ⟨.agentApplicationCreation, .actorUserId, .user, .id, .restrict⟩,
    ⟨.agentApplicationCreation, .agentIdentityId, .agentIdentity, .id, .restrict⟩,
    ⟨.agentEnrollmentIntent, .agentIdentityId, .agentIdentity, .id, .restrict⟩,
    ⟨.agentEnrollmentIntent, .ownerUserId, .user, .id, .restrict⟩,
    ⟨.agentEnrollmentIntent, .protocolAgentId, .agent, .id, .restrict⟩,
    ⟨.agentEnrollmentIntent, .createdByUserId, .user, .id, .restrict⟩,
    ⟨.agentEnrollmentIntent, .approvedByUserId, .user, .id, .restrict⟩,
    ⟨.agentHost, .userId, .user, .id, .cascade⟩,
    ⟨.agent, .userId, .user, .id, .cascade⟩,
    ⟨.agent, .hostId, .agentHost, .id, .cascade⟩,
    ⟨.agentCapabilityGrant, .agentId, .agent, .id, .cascade⟩,
    ⟨.agentCapabilityGrant, .deniedBy, .user, .id, .cascade⟩,
    ⟨.agentCapabilityGrant, .grantedBy, .user, .id, .cascade⟩,
    ⟨.approvalRequest, .agentId, .agent, .id, .cascade⟩,
    ⟨.approvalRequest, .hostId, .agentHost, .id, .cascade⟩,
    ⟨.approvalRequest, .userId, .user, .id, .cascade⟩,
    ⟨.uploadedAsset, .createdByUserId, .user, .id, .setNull⟩,
    ⟨.webhookEndpoint, .organizationId, .organization, .id, .cascade⟩,
    ⟨.webhookEndpoint, .createdByUserId, .user, .id, .setNull⟩,
    ⟨.webhookDeliveryRequest, .endpointId, .webhookEndpoint, .id, .cascade⟩,
    ⟨.webhookDeliveryAttempt, .requestId, .webhookDeliveryRequest, .id, .cascade⟩,
    ⟨.customDomain, .applicationId, .application, .id, .cascade⟩,
    ⟨.customDomain, .organizationId, .organization, .id, .cascade⟩]

def isUser (userId : Id) (r : Record) : Bool := r.table = .user && r.get .id = some userId

/-- The row belongs to the User as a session, a membership, a linked account or the like. -/
def belongs (table : Table) (userId : Id) (r : Record) : Bool :=
  r.table = table && r.get .userId = some userId

def hasUser (userId : Id) (db : Database) : Bool := db.any (isUser userId)

abbrev Management := Command Database Failure

/-- What the announcement of an event adds to the deliveries, and whether it fails. -/
structure Announcement where
  requests : List (List (Column × String))
  attempts : List (List (Column × String))
  outcome : Except Failure Unit

/-- What the route needs of the code around it: who may call it and how events are announced. -/
structure Boundary where
  authorizePlatformOrganization : Database → Except Failure Unit
  publishWebhookEvent : Database → Announcement

def deleteRows (p : Record → Bool) : Management Unit := do
  let left ← Command.read (deleteWhere schema · p)
  let left ← Command.orThrow left (.error "FOREIGN KEY constraint failed")
  Command.modify fun _ => left

def findUser (userId : Id) : Management Unit := do
  let found ← Command.read (hasUser userId)
  Command.require (found = true) (notFound "User not found.")

def deleteManagedUser (userId : Id) : Management Unit := do
  findUser userId
  deleteRows (belongs .session userId)
  deleteRows (isUser userId)

def Announcement.deliveries (a : Announcement) : Database :=
  a.requests.map (⟨.webhookDeliveryRequest, ·⟩) ++ a.attempts.map (⟨.webhookDeliveryAttempt, ·⟩)

def publish (b : Boundary) : Management Unit := do
  let announcement ← Command.read b.publishWebhookEvent
  Command.modify (· ++ announcement.deliveries)
  Command.ofExcept announcement.outcome

/-- `DELETE /:id` of the management routes of Users. -/
def deleteUser (b : Boundary) (actor : Option Id) (userId : Id) : Management Unit := do
  let allowed ← Command.read b.authorizePlatformOrganization
  Command.ofExcept allowed
  Command.require (actor ≠ some userId) (badRequest "You cannot remove yourself.")
  findUser userId
  deleteManagedUser userId
  publish b

end FlareAuth.UserDeletion
