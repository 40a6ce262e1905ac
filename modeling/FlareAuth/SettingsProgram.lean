import FlareAuth.SecurityPolicies
import FlareAuth.Text.Strings

/-!
# Settings routes

The representations that are guarded by `If-Match`, and the routes that write
settings. Bodies are taken as parsed, and what the unguarded routes read for
their responses is left out. Organizations and users stay as they are.
-/

namespace FlareAuth.Settings

open Concurrent Procedure

structure EmailDelivery where
  bindingAvailable : Bool
  fromEmail : Option String
  fromName : Option String

structure Deployment where
  issuer : String
  emailDelivery : Option EmailDelivery
  securityPolicy : SecurityPolicy

inductive Guarded where
  | navigation
  | organizationCreation
  | developerConsoleAccess
  | realm
  | email
  deriving DecidableEq

namespace Guarded

def key : Guarded → SiteSettingsKey
  | navigation => .navigation
  | organizationCreation => .developer
  | developerConsoleAccess => .developer
  | realm => .general
  | email => .email

def resourceName : Guarded → String
  | navigation => "Site navigation"
  | organizationCreation => "Organization creation policy"
  | developerConsoleAccess => "Developer Console access policy"
  | realm => "Realm"
  | email => "Email delivery configuration"

end Guarded

section Representations

/-- `value ?? fallback`. -/
def nullish (value : Option Json) (fallback : Json) : Json :=
  match value with
  | none | some .null => fallback
  | some v => v

def strings? : Json → Option (List String)
  | .array items => items.mapM fun
    | .string s => some s
    | _ => none
  | _ => none

def zodError {α : Type} : Except Failure α := .error (.error "ZodError")

/-- The revision in the representation of the navigation, 0 without a row. -/
def navigationRevision (row : Option Versioned) : ℕ := (row.map (·.revision)).getD 0

def navigationRepresentation (row : Option Versioned) : Json :=
  .object (Fields.spread (row.elim [("externalLinks", .array [])] (·.value))
    [("revision", .number (.ofNat (navigationRevision row)))])

def organizationCreationRepresentation (value : Fields) : Except Failure Json :=
  match nullish (value.lookup "organizationCreation") (.string "admins_only"),
    strings? (nullish (value.lookup "approvedUserIds") (.array [])) with
  | .string mode, some ids =>
    if mode ∈ ["admins_only", "approved_users", "verified_users"] then
      .ok (.object [("mode", .string mode),
        ("approvedUserIds", texts (Text.sort (Text.unique ids)))])
    else zodError
  | _, _ => zodError

def developerConsoleAccessRepresentation (organizations : List Id) (value : Fields) :
    Except Failure Json :=
  let selected := (value.lookup "selectedOrganizationIds").bind fun
    | .array items => some items
    | _ => none
  match nullish (value.lookup "consoleAccess") (.string "realm_operators"),
    strings? (nullish (value.lookup "eligibleAccessLevels") (texts ["owner", "admin"])) with
  | .string mode, some levels =>
    if mode ∈ ["realm_operators", "selected_organizations", "all_organizations"] ∧ levels ≠ [] ∧
        ∀ level ∈ levels, level ∈ ["owner", "admin", "developer"] then
      .ok (.object [("mode", .string mode), ("eligibleAccessLevels", texts levels),
        ("selectedOrganizationIds", texts (Text.sort (organizations.filter fun id =>
          (selected.getD []).contains (.string id))))])
    else zodError
  | _, _ => zodError

def trim (s : String) : String := String.ofList (Text.trim s.toList)

def readString (value : Fields) (key : String) : Option String :=
  (stringField value key).filter fun s => trim s ≠ ""

def productName (general : Option Fields) : String :=
  (readString ((general.bind fun value => value.objectField "copy").getD []) "productName").getD
    "Realmroot"

def withoutSlash (issuer : String) : String :=
  if issuer.toList.getLast? = some '/' then String.ofList issuer.toList.dropLast else issuer

def managementRealmResponseSchema : Schema :=
  ⟨some ["id", "name", "issuer", "oidcDiscoveryUrl", "jwksUrl", "managementApiUrl"], []⟩

def realmRepresentation [Zod] (deployment : Deployment) (general : Option Fields) :
    Except Failure Json :=
  let issuer := withoutSlash deployment.issuer
  (managementRealmResponseSchema.parse [("id", .string "realm"),
    ("name", .string (trim (productName general))), ("issuer", .string (issuer ++ "/api/auth")),
    ("oidcDiscoveryUrl", .string (issuer ++ "/api/auth/.well-known/openid-configuration")),
    ("jwksUrl", .string (issuer ++ "/api/auth/jwks")),
    ("managementApiUrl", .string (issuer ++ "/api/openapi.json"))]).map .object

def emailDeliveryConfigurationResponseSchema : Schema :=
  ⟨some ["provider", "enabled", "fromEmail", "fromName", "replyToEmail", "bindingAvailable",
    "source"], []⟩

def emailRepresentation [Zod] (deployment : Deployment) (stored : Option Fields) :
    Except Failure Json :=
  let fallback := deployment.emailDelivery
  let bindingAvailable := (fallback.map (·.bindingAvailable)).getD false
  let fromEmail := fallback.bind (·.fromEmail)
  let fromName := fallback.bind (·.fromName)
  let field (key : String) (other : Option String) : Json :=
    nullish (stored.bind fun value => value.lookup key) (other.elim .null .string)
  (emailDeliveryConfigurationResponseSchema.parse [("provider", .string "cloudflare_email"),
    ("enabled", nullish (stored.bind fun value => value.lookup "enabled")
      (.bool (bindingAvailable && fromEmail.isSome))),
    ("fromEmail", field "fromEmail" fromEmail), ("fromName", field "fromName" fromName),
    ("replyToEmail", field "replyToEmail" none), ("bindingAvailable", .bool bindingAvailable),
    ("source", .string (if stored.isSome then "database"
      else if fromEmail.isSome then "environment" else "unconfigured"))]).map .object

/-- A representation as a function of the parsed row that it is made from. -/
def represent [Zod] (deployment : Deployment) (organizations : List Id) :
    Guarded → Option Versioned → Except Failure Json
  | .navigation, row => .ok (navigationRepresentation row)
  | .organizationCreation, row =>
    organizationCreationRepresentation ((row.map (·.value)).getD [])
  | .developerConsoleAccess, row =>
    developerConsoleAccessRepresentation organizations ((row.map (·.value)).getD [])
  | .realm, row => realmRepresentation deployment (row.map (·.value))
  | .email, row => emailRepresentation deployment (row.map (·.value))

def representation [Zod] (deployment : Deployment) (guarded : Guarded) (s : Store) :
    Except Failure Json :=
  (s.readAt guarded.key).bind (represent deployment s.organizations guarded)

end Representations

/-- One value of an `If-Match` header. -/
inductive EntityTag where
  | any
  | digest (hash : Digest String)
  | other (text : String)
  deriving DecidableEq

def etag (representation : Json) : EntityTag := .digest (sha256 representation.stringify)

abbrev IfMatch := Option (List EntityTag)

def matchesTag (tags : List EntityTag) (representation : Json) : Bool :=
  tags.any fun tag => tag = .any || tag = etag representation

def preconditionRequired (message : String) : Failure :=
  .api 428 "precondition_required" message none

def requireMatchingIfMatch (header : IfMatch) (current : Json) (resourceName : String) :
    Registry Unit := do
  let tags ← orThrow header
    (preconditionRequired ("If-Match is required when updating " ++ resourceName ++ "."))
  require (matchesTag tags current)
    (preconditionFailed (resourceName ++ " changed after it was read."))

/-- What the four routes with a guard of their own write. -/
inductive Replacement where
  | organizationCreation (input : OrganizationCreationPolicy)
  | developerConsoleAccess (input : DeveloperConsoleAccessPolicy)
  | realm (name : String)
  | email (input : Fields)

def Replacement.guarded : Replacement → Guarded
  | organizationCreation _ => .organizationCreation
  | developerConsoleAccess _ => .developerConsoleAccess
  | realm _ => .realm
  | email _ => .email

section Routes

variable [Zod] (deployment : Deployment)

/-- `getSettings`, of which the realm needs the general part. -/
def getGeneralSettings : Registry (Option Versioned) := do
  let _ ← getSiteSettings .signIn
  getSiteSettings .general

def getRepresentation : Guarded → Registry Json
  | .developerConsoleAccess => do
    let row ← getSiteSettings .developer
    let organizations ← query .lookUp (·.organizations)
    Procedure.ofExcept (represent deployment organizations .developerConsoleAccess row)
  | .realm => do
    let row ← getGeneralSettings
    Procedure.ofExcept (represent deployment [] .realm row)
  | guarded => do
    let row ← getSiteSettings guarded.key
    Procedure.ofExcept (represent deployment [] guarded row)

def replaceNavigation (value : Fields) (revision : ℕ) : Registry Unit :=
  writeSiteSettings .navigation value (if revision = 0 then none else some revision)

def putNavigation (ifMatch : IfMatch) (input : Fields) : Registry Json := do
  let current ← getSiteSettings .navigation
  requireMatchingIfMatch ifMatch (navigationRepresentation current) Guarded.navigation.resourceName
  let value ← Procedure.ofExcept (siteNavigationSchema.parse input)
  replaceNavigation value (navigationRevision current)
  getRepresentation deployment .navigation

def getUser (id : Id) : Registry Unit := do
  let found ← query .lookUp fun s : Store => decide (id ∈ s.users)
  require found (notFound "User not found.")

def findOrganization (id : Id) : Registry Unit := do
  let found ← query .lookUp fun s : Store => decide (id ∈ s.organizations)
  require found (notFound ("Organization " ++ id ++ " was not found."))

def Replacement.replace : Replacement → Registry Unit
  | organizationCreation input => do
    forEach (if input.mode = "approved_users" then input.approvedUserIds else []) getUser
    mergeSiteSettings .developer (mergeOrganizationCreation input)
  | developerConsoleAccess input => do
    forEach (if input.mode = "selected_organizations" then input.selectedOrganizationIds else [])
      findOrganization
    mergeSiteSettings .developer (mergeDeveloperConsoleAccess input)
  | realm name => updateSettings ⟨none, [], some [("productName", .string name)]⟩
  | email input => do
    require (input.lookup "enabled" ≠ some (.bool true) ∨
        (deployment.emailDelivery.map (·.bindingAvailable)).getD false)
      (conflict "Cloudflare Email binding is not available for this deployment.")
    mergeSiteSettings .email (mergeEmail input)

def putReplacement (ifMatch : IfMatch) (replacement : Replacement) : Registry Json := do
  let current ← getRepresentation deployment replacement.guarded
  requireMatchingIfMatch ifMatch current replacement.guarded.resourceName
  replacement.replace deployment
  getRepresentation deployment replacement.guarded

def updatePolicy (input : SecurityPolicyInput) (enrolled : Bool) : Registry Unit := do
  let stored ← getSiteSettings .security
  let current ← Procedure.ofExcept (managedPolicy (stored.map (·.value)) deployment.securityPolicy)
  require (current.mfa.lookup "mode" = some (.string "required") ∨
      (input.mfa.getD []).lookup "mode" ≠ some (.string "required") ∨ enrolled)
    (conflict "Enroll MFA for your operator account before requiring it for the Realm.")
  mergeSiteSettings .security (mergeSecurity deployment.securityPolicy input)

inductive Call where
  | putNavigation (ifMatch : IfMatch) (input : Fields)
  | putReplacement (ifMatch : IfMatch) (replacement : Replacement)
  | updateSettings (input : SettingsInput)
  | updateBranding (input : Fields) (copy : Option Fields)
  | updateBrandingAsset (kind : AssetKind) (assetId : Id)
  | updateAccountCenterSettings (input : Fields)
  | updatePolicy (input : SecurityPolicyInput) (enrolled : Bool)

def Call.program : Call → Registry (Option Json)
  | .putNavigation ifMatch input => some <$> Settings.putNavigation deployment ifMatch input
  | .putReplacement ifMatch replacement =>
    some <$> Settings.putReplacement deployment ifMatch replacement
  | .updateSettings input => do
    Settings.updateSettings input
    return none
  | .updateBranding input copy => do
    Settings.updateBranding input copy
    return none
  | .updateBrandingAsset kind assetId => do
    mergeSiteSettings .branding (mergeBrandingAsset kind assetId)
    return none
  | .updateAccountCenterSettings input => do
    mergeSiteSettings .accountCenter (mergeAccountCenter input)
    return none
  | .updatePolicy input enrolled => do
    Settings.updatePolicy deployment input enrolled
    return none

end Routes

abbrev SettingsPool := Pool Call Store Operation Failure (Option Json)

end FlareAuth.Settings
