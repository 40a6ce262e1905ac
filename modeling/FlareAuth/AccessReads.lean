import FlareAuth.AccessProgram

/-!
# Validation only reads

Everything a call does before it writes reads the store: the scopes in force,
the catalogs, the control of targets, the drafts of requests, approvals and
tokens.
-/

namespace FlareAuth

open Concurrent Procedure Access

variable {α : Type}

/-- A procedure that changes no table. -/
abbrev Access.Reads (p : Access α) : Prop := p.Only Operation.IsRead

@[simp] theorem reads_ask (query : Query) (answer : Store → α) : (ask query answer).Reads := by
  simp [ask]

@[simp] theorem reads_look (answer : Directory → α) : (look answer).Reads := by simp [look]

@[simp] theorem reads_call (answer : World → Except Failure α) : (call answer).Reads := by
  simp [call]

@[simp] theorem reads_clock : clock.Reads := by simp [clock]

@[simp] theorem reads_generateId : generateId.Reads := by simp [generateId]

@[simp] theorem reads_findAccessRequest (id : Id) : (findAccessRequest id).Reads := by
  simp [findAccessRequest]

@[simp] theorem reads_listPendingAccessRequestsByAgent (agentIdentityId : Id) (now : ℕ) :
    (listPendingAccessRequestsByAgent agentIdentityId now).Reads := by
  simp [listPendingAccessRequestsByAgent]

@[simp] theorem reads_findEntitlement (id : Id) : (findEntitlement id).Reads := by
  simp [findEntitlement]

@[simp] theorem reads_listActiveEntitlementsByAgent (agentIdentityId : Id) (now : ℕ) :
    (listActiveEntitlementsByAgent agentIdentityId now).Reads := by
  simp [listActiveEntitlementsByAgent]

@[simp] theorem reads_listActiveEntitlementsByConnection (connectionId : Id) (now : ℕ) :
    (listActiveEntitlementsByConnection connectionId now).Reads := by
  simp [listActiveEntitlementsByConnection]

@[simp] theorem reads_listActiveUserScopeEntitlements (userId resourceServerId : Id) (now : ℕ) :
    (listActiveUserScopeEntitlements userId resourceServerId now).Reads := by
  simp [listActiveUserScopeEntitlements]

@[simp] theorem reads_listActiveTokenLeasesByEntitlement (entitlementId : Id) (now : ℕ) :
    (listActiveTokenLeasesByEntitlement entitlementId now).Reads := by
  simp [listActiveTokenLeasesByEntitlement]

@[simp] theorem reads_listActiveTokenLeasesByBinding (bindingId : Id) (now : ℕ) :
    (listActiveTokenLeasesByBinding bindingId now).Reads := by
  simp [listActiveTokenLeasesByBinding]

section Scopes

@[simp] theorem reads_resolveOrganizationMembershipScopesForResource (organizationId : Id)
    (roles : List String) (resource : Option ApiResource) :
    (resolveOrganizationMembershipScopesForResource organizationId roles resource).Reads := by
  cases resource <;> simp [resolveOrganizationMembershipScopesForResource]

@[simp] theorem reads_userEffectiveResourceScopes (userId : Id) (resource : ApiResource)
    (now : ℕ) (tenant : TenantOrganization) :
    (userEffectiveResourceScopes userId resource now tenant).Reads := by
  simp [userEffectiveResourceScopes, resolveOrganizationMembershipScopes]

@[simp] theorem reads_organizationUserHasScope (organizationId userId : Id) (scope : String) :
    (organizationUserHasScope organizationId userId scope).Reads := by
  simp only [organizationUserHasScope, only_bind, reads_look, true_and]
  intro member _ realmroot _
  cases member <;> simp

@[simp] theorem reads_activeIdentityOrganizationIds (ownerUserId : Id) :
    (activeIdentityOrganizationIds ownerUserId).Reads := by
  simp [activeIdentityOrganizationIds]

@[simp] theorem reads_requireAgentResourceVisibility (resource : ApiResource) (ownerUserId : Id) :
    (requireAgentResourceVisibility resource ownerUserId).Reads := by
  simp [requireAgentResourceVisibility]

@[simp] theorem reads_nativeAuthorityDetails (ownerUserId : Id) :
    (nativeAuthorityDetails ownerUserId).Reads := by simp [nativeAuthorityDetails]

@[simp] theorem reads_nativeAuthorityEffectiveScopes (controllerUserId : Id)
    (resource : ApiResource) (detail : AuthorizationDetail) :
    (nativeAuthorityEffectiveScopes controllerUserId resource detail).Reads := by
  unfold nativeAuthorityEffectiveScopes
  dsimp only
  split <;> simp

end Scopes

section Targets

@[simp] theorem reads_activeConnectorAuthorizationForResource (resource : ApiResource)
    (clientGeneration : Option ℕ) :
    (activeConnectorAuthorizationForResource resource clientGeneration).Reads := by
  unfold activeConnectorAuthorizationForResource
  split <;> simp

@[simp] theorem reads_findExternalAuthorization (resourceId : Id) (clientGeneration : Option ℕ) :
    (findExternalAuthorization resourceId clientGeneration).Reads := by
  simp only [findExternalAuthorization, only_bind, reads_look, true_and]
  intro resource _
  cases resource <;> simp

@[simp] theorem reads_requireActiveConnectorAuthorization (resourceId : Id)
    (clientGeneration : ℕ) :
    (requireActiveConnectorAuthorization resourceId clientGeneration).Reads := by
  simp [requireActiveConnectorAuthorization]

@[simp] theorem reads_externalOAuthAuthorization (resource : ApiResource)
    (clientGeneration : ℕ) : (externalOAuthAuthorization resource clientGeneration).Reads := by
  simp [externalOAuthAuthorization, requireActiveExternalAuthorization]

@[simp] theorem reads_connectorOAuthAuthorization (resource : ApiResource)
    (clientGeneration : ℕ) : (connectorOAuthAuthorization resource clientGeneration).Reads := by
  simp [connectorOAuthAuthorization]

@[simp] theorem reads_requireControlledConnection (connectionId actorUserId : Id) :
    (requireControlledConnection connectionId actorUserId).Reads := by
  simp only [requireControlledConnection, only_bind, reads_look, only_orThrow, true_and]
  intro found _ connection _
  split <;> simp

@[simp] theorem reads_requireControlledRequestTarget (request : AgentAccessRequest)
    (actorUserId : Id) : (requireControlledRequestTarget request actorUserId).Reads := by
  unfold requireControlledRequestTarget
  split <;> simp [controlsAgentIdentity]

@[simp] theorem reads_resourceAuditRecord (input : AuditInput) :
    (resourceAuditRecord input).Reads := by
  have htenant : (resolveAuditTenant input).Reads := by
    unfold resolveAuditTenant
    split <;> simp
  simp [resourceAuditRecord, htenant]

@[simp] theorem reads_toDecidedRequest (decided request : AgentAccessRequest) :
    (toDecidedRequest decided request).Reads := by simp [toDecidedRequest, requestHostId]

@[simp] theorem reads_permissionConnection (resource : ApiResource) (connectionId : Option Id)
    (ownerUserId actorUserId : Id) :
    (permissionConnection resource connectionId ownerUserId actorUserId).Reads := by
  cases connectionId <;> simp [permissionConnection]

@[simp] theorem reads_prepareDecision (requestId actorUserId : Id) :
    (prepareDecision requestId actorUserId).Reads := by
  simp [prepareDecision, findPendingAccessRequest]

@[simp] theorem reads_validateAccountExpansion (resource : ApiResource) (scopes : List String) :
    (validateAccountExpansion resource scopes).Reads := by
  simp [validateAccountExpansion]

@[simp] theorem reads_requireIssuableResource (request : AgentAccessRequest)
    (scopes : List String) (ownerUserId : Id) :
    (requireIssuableResource request scopes ownerUserId).Reads := by
  simp [requireIssuableResource]

@[simp] theorem reads_prepareRevocation (entitlementId actorUserId : Id) :
    (prepareRevocation entitlementId actorUserId).Reads := by
  simp only [prepareRevocation, only_bind, reads_findEntitlement, only_orThrow, true_and]
  intro found _ entitlement _
  split <;> simp

@[simp] theorem reads_revokeTokenAtTarget (lease : TokenLease) :
    (revokeTokenAtTarget lease).Reads := by simp [revokeTokenAtTarget]

@[simp] theorem reads_revokeRealmrootCustodiedProviderAuthorization
    (connection : ResourceConnection) :
    (revokeRealmrootCustodiedProviderAuthorization connection).Reads := by
  simp [revokeRealmrootCustodiedProviderAuthorization]

@[simp] theorem reads_authenticateAgent (c : Credentials) : (authenticateAgent c).Reads := by
  simp [authenticateAgent]

end Targets

section Accounts

variable [Locale]

@[simp] theorem reads_readResourceCatalog (resource : ApiResource)
    (connection : ResourceConnection) (limit offset : ℕ) :
    (readResourceCatalog resource connection limit offset).Reads := by
  simp only [readResourceCatalog, only_bind, reads_activeConnectorAuthorizationForResource,
    true_and]
  intro authorization _
  split <;> simp [readAuthorizationDetailCatalog, refreshConnectionToken]

theorem reads_catalogItemsFrom (resource : ApiResource) (connection : ResourceConnection)
    (enough : List CatalogItem → Bool) (pages page : ℕ) (items : List CatalogItem) :
    (catalogItemsFrom resource connection enough pages page items).Reads := by
  induction pages generalizing page items with
  | zero => simp [catalogItemsFrom]
  | succ pages ih => simp [catalogItemsFrom, ih]

@[simp] theorem reads_catalogItems (resource : ApiResource) (connection : ResourceConnection)
    (enough : List CatalogItem → Bool) : (catalogItems resource connection enough).Reads := by
  simp [catalogItems, reads_catalogItemsFrom]

@[simp] theorem reads_accountScopesForAuthorizationDetails (resource : ApiResource)
    (connection : ResourceConnection) (authorizationDetails : List AuthorizationDetail) :
    (accountScopesForAuthorizationDetails resource connection authorizationDetails).Reads := by
  simp [accountScopesForAuthorizationDetails]

end Accounts

section Drafts

variable [Locale]

@[simp] theorem reads_requireCurrentNativeAuthorityContext (ownerUserId : Id)
    (authorizationDetails : List AuthorizationDetail) :
    (requireCurrentNativeAuthorityContext ownerUserId authorizationDetails).Reads := by
  simp [requireCurrentNativeAuthorityContext]

@[simp] theorem reads_validateAgentPermissionTarget (resource : ApiResource)
    (input : PermissionTarget) (authorizationDetails : List AuthorizationDetail)
    (actorUserId : Id) (resolvedAccountScopes : Option (List String)) :
    (validateAgentPermissionTarget resource input authorizationDetails actorUserId
      resolvedAccountScopes).Reads := by
  simp [validateAgentPermissionTarget]

@[simp] theorem reads_approveScope (c : ApprovalContext) (existing : List ScopeEntitlement)
    (scope : String) : (c.approveScope existing scope).Reads := by
  unfold ApprovalContext.approveScope
  split <;> simp

@[simp] theorem reads_prepareApproval (request : AgentAccessRequest) (input : DecideApproval)
    (actorUserId : Id) (reasonCode : Option String) (now : ℕ) :
    (prepareApproval request input actorUserId reasonCode now).Reads := by
  simp [prepareApproval, requireEnabledResource, requireFutureExpiry]

@[simp] theorem reads_permissionSelections (resource : ApiResource) (actorUserId : Id)
    (organizationId : Option Id) :
    (permissionSelections resource actorUserId organizationId).Reads := by
  simp [permissionSelections]

@[simp] theorem reads_resolveRequestedAuthorizationDetails (resource : ApiResource)
    (connection : Option ResourceConnection) (authorizationDetails : List AuthorizationDetail)
    (ownerUserId : Id) : (resolveRequestedAuthorizationDetails resource connection
      authorizationDetails ownerUserId).Reads := by
  simp [resolveRequestedAuthorizationDetails, serviceResourceFallback]

@[simp] theorem reads_reusableAccountScopes (resource : ApiResource)
    (connection : Option ResourceConnection) (authorizationDetails : List AuthorizationDetail) :
    (reusableAccountScopes resource connection authorizationDetails).Reads := by
  unfold reusableAccountScopes
  split
  · simp
  · split <;> simp

@[simp] theorem reads_draftAccessRequest (input : CreateAgentAccessRequest)
    (principal : AgentResourcePrincipal) : (draftAccessRequest input principal).Reads := by
  simp [draftAccessRequest, requireEnabledResource]

@[simp] theorem reads_prepareExternalIssuance (c : IssuanceContext)
    (connection : ResourceConnection) : (prepareExternalIssuance c connection).Reads := by
  simp [prepareExternalIssuance]

end Drafts

end FlareAuth
