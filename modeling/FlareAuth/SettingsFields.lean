import FlareAuth.SettingsProgram

/-!
# Effective fields of the settings

A field of the settings is read off a stored value with the defaults that apply
without one. The input of a call mentions fields, and what the call merges into a
key is a function of the parsed value.
-/

namespace FlareAuth.Settings

inductive PolicySection where
  | sessions
  | password
  | blocklist
  deriving DecidableEq

inductive Field where
  | method (name : String)
  | metadata (name : String)
  | provider (providerName name : String)
  | link (name : String)
  | copy (name : String)
  | branding (name : String)
  | accountCenter (name : String)
  | externalLinks
  | developer (name : String)
  | email (name : String)
  | mfa (name : String)
  | passkeys (name : String)
  | policy (part : PolicySection)
  | captcha (name : String)
  deriving DecidableEq

namespace Field

def key : Field → SiteSettingsKey
  | method _ | metadata _ | provider _ _ => .signIn
  | link _ | copy _ => .general
  | branding _ => .branding
  | accountCenter _ => .accountCenter
  | externalLinks => .navigation
  | developer _ => .developer
  | email _ => .email
  | mfa _ | passkeys _ | policy _ | captcha _ => .security

end Field

def SecurityPolicy.part (p : SecurityPolicy) : PolicySection → Fields
  | .sessions => p.sessions
  | .password => p.password
  | .blocklist => p.blocklist

/-- The fields of an object in an object, none if it is not there. -/
def nested (value : Fields) (key : String) : Fields := (value.objectField key).getD []

/-- An uploaded asset is shown where no address is set. -/
def shown (value : Fields) (url asset : String) : Option Json :=
  match value.lookup url with
  | none | some .null => value.lookup asset
  | some address => some address

def brandingField (value : Fields) (name : String) : Option Json :=
  if name = "logoUrl" then shown value "logoUrl" "logoAssetId"
  else if name = "faviconUrl" then shown value "faviconUrl" "faviconAssetId"
  else if name = "logoAssetId" ∨ name = "faviconAssetId" then none
  else value.lookup name

def developerDefaults : Fields :=
  [("organizationCreation", .string "admins_only"), ("approvedUserIds", .array []),
    ("consoleAccess", .string "realm_operators"),
    ("eligibleAccessLevels", texts ["owner", "admin"]),
    ("selectedOrganizationIds", .array [])]

def developerField (value : Fields) (name : String) : Option Json :=
  match value.lookup name with
  | none | some .null => developerDefaults.lookup name
  | some v => some v

def Field.read (defaults : SecurityPolicy) (value : Option Fields) : Field → Option Json
  | method name =>
    if name = "metadata" then none else (value.getD defaultSignInSettings).lookup name
  | metadata name =>
    if name = "builtInProviders" then none
    else (nested (value.getD defaultSignInSettings) "metadata").lookup name
  | provider providerName name =>
    (nested (nested (nested (value.getD defaultSignInSettings) "metadata") "builtInProviders")
      providerName).lookup name
  | link name =>
    if name = "copy" then none
    else (value.getD (generalSettingsSchema.normalize [])).lookup name
  | copy name => (nested (value.getD (generalSettingsSchema.normalize [])) "copy").lookup name
  | branding name => brandingField (value.getD emptyBranding) name
  | accountCenter name => (value.getD defaultAccountCenterSettings).lookup name
  | externalLinks => (value.getD [("externalLinks", .array [])]).lookup "externalLinks"
  | developer name => developerField (value.getD []) name
  | email name => (value.getD []).lookup name
  | mfa name => (managed value defaults).mfa.lookup name
  | passkeys name => (managed value defaults).passkeys.lookup name
  | policy part => some (.object ((managed value defaults).part part))
  | captcha name => (managed value defaults).captcha.toFields.lookup name

def Store.parsed (s : Store) (key : SiteSettingsKey) : Option Fields :=
  (s.row key).map fun row => key.schema.normalize row.value

def Field.effective (defaults : SecurityPolicy) (f : Field) (s : Store) : Option Json :=
  f.read defaults (s.parsed f.key)

def has (value : Fields) (name : String) : Bool := (value.lookup name).isSome

/-- A provider that is given as no object is given as a whole. -/
def providerMentions (name : String) : Json → Bool
  | .object patch => has patch name
  | .null => false
  | _ => true

def SettingsInput.mentions (input : SettingsInput) : Field → Bool
  | .method name => input.signIn.any fun x => has x.methods name
  | .metadata name => input.signIn.any fun x =>
    (name = "emailOtpEnabled" && x.emailOtpEnabled.isSome) ||
      (name = "usernameEnabled" && x.usernameEnabled.isSome)
  | .provider providerName name => input.signIn.any fun x => x.builtInProviders.any fun patch =>
    (patch.lookup providerName).any (providerMentions name)
  | .link name => has input.links name
  | .copy name => input.copy.any fun x => has x name
  | _ => false

def AssetKind.url : AssetKind → String
  | .logo => "logoUrl"
  | .favicon => "faviconUrl"

def SecurityPolicyInput.part (input : SecurityPolicyInput) : PolicySection → Option Fields
  | .sessions => input.sessions
  | .password => input.password
  | .blocklist => input.blocklist

def SecurityPolicyInput.mentions (input : SecurityPolicyInput) : Field → Bool
  | .mfa name => input.mfa.any fun x => has x name
  | .passkeys name => input.passkeys.any fun x => has x name
  | .policy part => (input.part part).isSome
  | .captcha name => input.captcha.any fun x =>
    ["enabled", "provider", "siteKey", "projectId"].contains name ||
      (name = "secretKey" && x.secretKey.isSome)
  | _ => false

def Replacement.mentions : Replacement → Field → Bool
  | organizationCreation _, .developer name =>
    ["organizationCreation", "approvedUserIds"].contains name
  | developerConsoleAccess _, .developer name =>
    ["consoleAccess", "eligibleAccessLevels", "selectedOrganizationIds"].contains name
  | realm _, .copy name => name = "productName"
  | email input, .email name => has input name
  | _, _ => false

def Call.mentions : Call → Field → Bool
  | putNavigation _ _, .externalLinks => true
  | putReplacement _ replacement, f => replacement.mentions f
  | updateSettings input, f => input.mentions f
  | updateBranding input _, .branding name => has input name
  | updateBranding _ copy, .copy name => copy.any fun x => has x name
  | updateBrandingAsset kind _, .branding name => name = kind.url
  | updateAccountCenterSettings input, .accountCenter name => has input name
  | updatePolicy input _, f => input.mentions f
  | _, _ => false

/-- The secret key of a captcha configuration that gives way to another provider's. -/
def Call.replaces (call : Call) (defaults : SecurityPolicy) (s : Store) : Field → Bool
  | .captcha name =>
    match call with
    | updatePolicy input _ => input.captcha.any fun x =>
        name = "secretKey" && (Field.captcha "provider").effective defaults s ≠ some x.provider
    | _ => false
  | _ => false

/-- The legacy binding of a captcha that the call configures: what becomes of it is left open. -/
def Call.leavesOpen : Call → Field → Bool
  | updatePolicy input _, .captcha name => input.captcha.isSome && name = "legacySecretBinding"
  | _, _ => false

section Merges

variable [Zod]

def Replacement.merge : Replacement → Merge
  | organizationCreation input => mergeOrganizationCreation input
  | developerConsoleAccess input => mergeDeveloperConsoleAccess input
  | realm name => mergeGeneral [] (some [("productName", .string name)])
  | email input => mergeEmail input

def mergeOfGeneral (links : Fields) (copy : Option Fields) : Option Merge :=
  if updatesGeneral links copy then some (mergeGeneral links copy) else none

/-- What a call merges into the value of a key, if it writes that key. -/
def Call.merge (defaults : SecurityPolicy) : Call → SiteSettingsKey → Option Merge
  | putNavigation _ input, .navigation => some fun _ => siteNavigationSchema.parse input
  | putReplacement _ replacement, key =>
    if replacement.guarded.key = key then some replacement.merge else none
  | updateSettings input, .signIn => input.signIn.map mergeSignIn
  | updateSettings input, .general => mergeOfGeneral input.links input.copy
  | updateBranding _ copy, .general => mergeOfGeneral [] copy
  | updateBranding input _, .branding => some (mergeBranding input)
  | updateBrandingAsset kind assetId, .branding => some (mergeBrandingAsset kind assetId)
  | updateAccountCenterSettings input, .accountCenter => some (mergeAccountCenter input)
  | updatePolicy input _, .security => some (mergeSecurity defaults input)
  | _, _ => none

end Merges

end FlareAuth.Settings
