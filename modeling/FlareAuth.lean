import FlareAuth.Concurrent.Pool
import FlareAuth.Concurrent.Batch
import FlareAuth.Revocations
import FlareAuth.OrganizationMembers
import FlareAuth.LastOwner
import FlareAuth.ProviderCredentials
import FlareAuth.CredentialRefresh
import FlareAuth.CredentialVersions
import FlareAuth.CredentialRevocations
import FlareAuth.Concurrent.Command
import FlareAuth.Relational.Keyed
import FlareAuth.ResourceServers
import FlareAuth.ResourceBoundaries
import FlareAuth.Relational.ForeignKeys
import FlareAuth.UserDeletion
import FlareAuth.WholeDeletion
import FlareAuth.AgentApprovals
import FlareAuth.WholeApprovals
import FlareAuth.ExchangeStore
import FlareAuth.TokenExchange
import FlareAuth.ConnectionIntents
import FlareAuth.ExchangeProgram
import FlareAuth.Concurrent.Stamp
import FlareAuth.ExchangeContract
import FlareAuth.ExchangeHistory
import FlareAuth.LiveResources
import FlareAuth.DeletedResources
import FlareAuth.AgentSweeps
import FlareAuth.Concurrent.Trace
import FlareAuth.AgentIdentities
import FlareAuth.IdentityBindings
import FlareAuth.DeletedIdentities
import FlareAuth.TenantAuthorization
import FlareAuth.TenantInventory
import FlareAuth.GrantStrength
import FlareAuth.StrongestGrants
import FlareAuth.DiscoveryRefresh
import FlareAuth.ProviderAccounts
import FlareAuth.Connectors
import FlareAuth.ConnectorResets
import FlareAuth.ConnectorProgram
import FlareAuth.ClientGenerations
import FlareAuth.PinnedClients
import FlareAuth.Concurrent.Unreliable
import FlareAuth.DelegatedExchange
import FlareAuth.ExchangeAudits
import FlareAuth.Applications
import FlareAuth.ApplicationProgram
import FlareAuth.ApplicationClients
import FlareAuth.RefreshScopes
import FlareAuth.FederatedCredentials
import FlareAuth.FederatedRenewals
import FlareAuth.ClientSecrets
import FlareAuth.SecretRotation
import FlareAuth.SecretLineage
import FlareAuth.JsonObjects
import FlareAuth.SiteSettings
import FlareAuth.SecurityPolicies
import FlareAuth.SettingsProgram
import FlareAuth.SettingsMerges
import FlareAuth.SettingsHistory
import FlareAuth.SettingsUpdates
import FlareAuth.GuardedSettings
import FlareAuth.OrganizationRoles
import FlareAuth.RoleAssignments
import FlareAuth.WebhookDeliveries
import FlareAuth.WebhookAttempts
import FlareAuth.WebhookLedger
import FlareAuth.EffectiveScopes
import FlareAuth.ContextIsolation
import FlareAuth.TokenScopes
import FlareAuth.TokenScopeLaw
import FlareAuth.Relational.Pairing
import FlareAuth.DetailMatching
import FlareAuth.AccessRuns
import FlareAuth.AccountScopes
import FlareAuth.LeaseGuards
import FlareAuth.ApprovalRuns
import FlareAuth.Reapprovals
import FlareAuth.LapsedGrants
import FlareAuth.Reconnections
import FlareAuth.Concurrent.Respects
import FlareAuth.CredentialChoice
import FlareAuth.HostRevocations
import FlareAuth.AgentCreation
import FlareAuth.Concurrent.Withstands
import FlareAuth.DpopProofs
import FlareAuth.ProofUses
import FlareAuth.AttemptReservations
import FlareAuth.SecretEnvelopes
import FlareAuth.WebhookSecrets
import FlareAuth.SealedSecrets
import FlareAuth.Concurrent.Versions
import FlareAuth.Relational.Stamped
import FlareAuth.VersionedMembers
import FlareAuth.VersionedRoles
import FlareAuth.Loops.Counted
import FlareAuth.CatalogPages
import FlareAuth.CatalogWalks
import FlareAuth.ConsentLedger
import FlareAuth.ConsentUnions
import FlareAuth.ConsentRows
import FlareAuth.LifetimeJoins
import FlareAuth.Wallets
import FlareAuth.WalletLinks
import FlareAuth.LinkedWallets
import FlareAuth.Web.Hosts
import FlareAuth.Web.Urls
import FlareAuth.Web.Serialized
import FlareAuth.JwksUrls
import FlareAuth.ResourceRegistries
import FlareAuth.WholeUpdates
import FlareAuth.RoleDeletions
import FlareAuth.CanonicalJson
import FlareAuth.CanonicalRequests
import FlareAuth.Concurrent.Stopped
import FlareAuth.RoleScopes
import FlareAuth.AuditEvents
import FlareAuth.AuditIsolation
import FlareAuth.AgentPermissions
import FlareAuth.PermissionLookups
import FlareAuth.ContextHashes
import FlareAuth.Relational.Indexed
import FlareAuth.GrantLoops
import FlareAuth.PermissionChecks
import FlareAuth.ResumedPermissions
import FlareAuth.AgentAuthentication
import FlareAuth.AgentAuthority
import FlareAuth.Concurrent.Refusals
import FlareAuth.DelegationChains
import FlareAuth.Introspection
import FlareAuth.TokenHolders
import FlareAuth.AgentReplays
import FlareAuth.IdempotentCreation
import FlareAuth.AuthenticatedRequests
import FlareAuth.GrantWarrants
import FlareAuth.WarrantedGrants
import FlareAuth.Passwords
import FlareAuth.StoredPasswords
