import FlareAuth.AccessStore
import FlareAuth.Concurrent.Pool
import FlareAuth.Failure
import FlareAuth.JsonObjects
import FlareAuth.Relational.Keyed

/-!
# Site settings and their writers

One row for each settings key, a JSON object with a revision. Every writer reads
a row, merges its input into the value and writes the whole value back under the
revision it has read. Inputs are the parsed request bodies, which hold the
mentioned fields only.
-/

namespace FlareAuth.Settings

open Concurrent Relational Procedure

inductive SiteSettingsKey where
  | general
  | branding
  | signIn
  | accountCenter
  | navigation
  | security
  | developer
  | email
  deriving DecidableEq, Repr

structure SiteSettings where
  key : SiteSettingsKey
  value : Fields
  revision : ℕ
  positive : 0 < revision
  deriving DecidableEq

structure Store where
  settings : Keyed SiteSettings.key
  organizations : List Id
  users : List Id

namespace Store

def row (s : Store) (key : SiteSettingsKey) : Option SiteSettings := s.settings.find key

/-- The revision of a key, 0 before its first write. -/
def revision (s : Store) (key : SiteSettingsKey) : ℕ := ((s.row key).map (·.revision)).getD 0

/-- The row after `writeSiteSettings`, unless another write came first. -/
def write? (s : Store) (key : SiteSettingsKey) (value : Fields) (revision : Option ℕ) :
    Option Store :=
  match revision with
  | none =>
    (s.settings.insert? ⟨key, value, 1, Nat.one_pos⟩).map fun settings =>
      { s with settings := settings }
  | some r =>
    if (s.row key).any fun x => x.revision == r then
      some { s with
        settings := s.settings.update (fun x => x.key == key && x.revision == r)
          (fun x => ⟨x.key, value, r + 1, Nat.succ_pos r⟩) fun _ => rfl }
    else none

end Store

/-- The keys a schema lets through, all of them without a list, and its defaults. -/
structure Schema where
  keys : Option (List String)
  defaults : Fields

/-- What the schemas say about the types of the values. -/
class Zod where
  accepts : Schema → Fields → Bool

namespace Schema

def strip (schema : Schema) (value : Fields) : Fields :=
  schema.keys.elim value fun keys => Fields.pick keys value

def normalize (schema : Schema) (value : Fields) : Fields :=
  schema.defaults.spread (schema.strip value)

def parse [Zod] (schema : Schema) (value : Fields) : Except Failure Fields :=
  if Zod.accepts schema value then .ok (schema.normalize value) else .error (.error "ZodError")

end Schema

def metadataSchema : Schema := ⟨none, []⟩

def generalSettingsSchema : Schema :=
  ⟨none, [("termsUri", .null), ("privacyUri", .null), ("supportEmail", .null),
    ("supportUri", .null), ("copy", .object [])]⟩

def methodNames : List String :=
  ["passwordEnabled", "signupEnabled", "socialLoginEnabled", "identifierFirst"]

def signInSettingsSchema : Schema := ⟨some (methodNames ++ ["metadata"]), []⟩

def accountCenterNames : List String :=
  ["profileEditingEnabled", "displayNameEditable", "usernameEditable", "avatarEditable",
    "emailChangeEnabled", "passwordChangeEnabled", "connectedAccountsEnabled",
    "sessionsViewEnabled", "dangerZoneEnabled"]

def accountSettingsSchema : Schema := ⟨some (accountCenterNames ++ ["metadata"]), []⟩

def brandingSettingsSchema : Schema :=
  ⟨some ["logoUrl", "faviconUrl", "logoAssetId", "faviconAssetId", "primaryColor",
    "backgroundColor", "customCss"], []⟩

def storedEmailSettingsSchema : Schema :=
  ⟨some ["provider", "enabled", "fromEmail", "fromName", "replyToEmail", "defaultLocale",
    "metadata"], []⟩

def siteNavigationSchema : Schema := ⟨some ["externalLinks"], []⟩

def SiteSettingsKey.schema : SiteSettingsKey → Schema
  | .general => generalSettingsSchema
  | .branding => brandingSettingsSchema
  | .signIn => signInSettingsSchema
  | .accountCenter => accountSettingsSchema
  | .navigation => siteNavigationSchema
  | .security => metadataSchema
  | .developer => metadataSchema
  | .email => storedEmailSettingsSchema

structure Versioned where
  value : Fields
  revision : ℕ
  positive : 0 < revision

def Store.readAt [Zod] (s : Store) (key : SiteSettingsKey) : Except Failure (Option Versioned) :=
  match s.row key with
  | none => .ok none
  | some row =>
    (key.schema.parse row.value).map fun value => some ⟨value, row.revision, row.positive⟩

inductive Operation where
  | get (key : SiteSettingsKey)
  | readSiteSettings (key : SiteSettingsKey)
  | lookUp
  | writeSiteSettings (key : SiteSettingsKey) (value : Fields) (revision : Option ℕ)

def Operation.perform : Operation → Store → Store
  | .writeSiteSettings key value revision, s => (s.write? key value revision).getD s
  | _, s => s

instance : Operational Operation Store := ⟨Operation.perform⟩

theorem apply_eq (op : Operation) (s : Store) : apply op s = op.perform s := rfl

abbrev Registry := Procedure Store Operation Failure

section Repository

variable [Zod]

def getSiteSettings (key : SiteSettingsKey) : Registry (Option Versioned) :=
  step (.get key) fun s => Procedure.ofExcept (s.readAt key)

def readSiteSettings (key : SiteSettingsKey) : Registry (Option Versioned) :=
  step (.readSiteSettings key) fun s => Procedure.ofExcept (s.readAt key)

def writeSiteSettings (key : SiteSettingsKey) (value : Fields) (revision : Option ℕ) :
    Registry Unit :=
  step (.writeSiteSettings key value revision) fun s =>
    require (s.write? key value revision).isSome
      (conflict "Site settings changed. Reload and try again.")

/-- What a writer makes of the parsed value it has read. -/
abbrev Merge := Option Fields → Except Failure Fields

def mergeSiteSettings (key : SiteSettingsKey) (merge : Merge) : Registry Unit := do
  let current ← readSiteSettings key
  let value ← Procedure.ofExcept (merge (current.map (·.value)))
  writeSiteSettings key value (current.map (·.revision))

end Repository

section SignIn

/-- The part of an `UpdateConfigzSettingsInput` that is stored under `sign_in`. -/
structure SignInInput where
  methods : Fields
  builtInProviders : Option Fields
  emailOtpEnabled : Option Bool
  usernameEnabled : Option Bool

def defaultSignInSettings : Fields :=
  [("passwordEnabled", .bool true), ("signupEnabled", .bool true),
    ("socialLoginEnabled", .bool true), ("identifierFirst", .bool false), ("metadata", .object [])]

/-- `{ ...currentValue, ...patchValue }` of two plain objects, else the later value if there is
one. -/
def mergeProvider : Json → Json → Json
  | .object current, .object patch => .object (Fields.spread current patch)
  | current, .null => current
  | _, patch => patch

def mergeBuiltInProviderMetadata (current patch : Fields) : Fields :=
  Fields.mergeWith mergeProvider current patch

def optional (key : String) (value : Option Json) : Fields := value.elim [] fun v => [(key, v)]

def nextMetadata (input : SignInInput) (metadata : Fields) : Fields :=
  ((metadata.spread (optional "builtInProviders" (input.builtInProviders.map fun patch =>
    .object (mergeBuiltInProviderMetadata ((metadata.objectField "builtInProviders").getD [])
      patch)))).spread
    (optional "emailOtpEnabled" (input.emailOtpEnabled.map .bool))).spread
    (optional "usernameEnabled" (input.usernameEnabled.map .bool))

def toSettingsPatch (input : SignInInput) (metadata : Fields) : Fields :=
  (Fields.pick methodNames input.methods).spread
    (if input.builtInProviders.isSome || input.emailOtpEnabled.isSome ||
        input.usernameEnabled.isSome then
      [("metadata", .object (nextMetadata input metadata))]
    else [])

def mergeSignIn [Zod] (input : SignInInput) : Merge := fun current =>
  let value := current.getD defaultSignInSettings
  signInSettingsSchema.parse
    (value.spread (toSettingsPatch input ((value.objectField "metadata").getD [])))

end SignIn

section General

def linkNames : List String := ["termsUri", "privacyUri", "supportEmail", "supportUri"]

def mergeGeneral [Zod] (links : Fields) (copy : Option Fields) : Merge := fun current =>
  let value := current.getD (generalSettingsSchema.normalize [])
  generalSettingsSchema.parse ((value.spread (Fields.pick linkNames links)).spread
    (optional "copy" (copy.map fun copy =>
      .object (((value.objectField "copy").getD []).spread copy))))

end General

structure SettingsInput where
  signIn : Option SignInInput
  links : Fields
  copy : Option Fields

def updatesGeneral (links : Fields) (copy : Option Fields) : Bool :=
  copy.isSome || !(Fields.pick linkNames links).isEmpty

section Writers

variable [Zod]

def updateSignIn : Option SignInInput → Registry Unit
  | none => done ()
  | some input => mergeSiteSettings .signIn (mergeSignIn input)

def updateGeneral (links : Fields) (copy : Option Fields) : Registry Unit :=
  if updatesGeneral links copy then mergeSiteSettings .general (mergeGeneral links copy)
  else done ()

def updateSettings (input : SettingsInput) : Registry Unit := do
  updateSignIn input.signIn
  updateGeneral input.links input.copy

end Writers

section Branding

def emptyBranding : Fields :=
  [("logoUrl", .null), ("faviconUrl", .null), ("logoAssetId", .null), ("faviconAssetId", .null),
    ("primaryColor", .null), ("backgroundColor", .null), ("customCss", .null)]

def brandingNames : List String :=
  ["logoUrl", "faviconUrl", "primaryColor", "backgroundColor", "customCss"]

/-- A field that is set to null takes its uploaded asset with it. -/
def clearedAsset (input : Fields) (url asset : String) : Fields :=
  if input.lookup url = some .null then [(asset, .null)] else []

def toBrandingPatch (input : Fields) : Fields :=
  ((Fields.pick brandingNames input).spread (clearedAsset input "logoUrl" "logoAssetId")).spread
    (clearedAsset input "faviconUrl" "faviconAssetId")

def mergeBranding [Zod] (input : Fields) : Merge := fun current =>
  brandingSettingsSchema.parse ((current.getD emptyBranding).spread (toBrandingPatch input))

def updateBranding [Zod] (input : Fields) (copy : Option Fields) : Registry Unit := do
  updateGeneral [] copy
  mergeSiteSettings .branding (mergeBranding input)

inductive AssetKind where
  | logo
  | favicon

def AssetKind.field : AssetKind → String
  | .logo => "logoAssetId"
  | .favicon => "faviconAssetId"

def mergeBrandingAsset (kind : AssetKind) (assetId : Id) : Merge := fun current =>
  .ok ((current.getD emptyBranding).set kind.field (.string assetId))

end Branding

section Policies

def defaultAccountCenterSettings : Fields :=
  [("profileEditingEnabled", .bool true), ("displayNameEditable", .bool true),
    ("usernameEditable", .bool true), ("avatarEditable", .bool true),
    ("emailChangeEnabled", .bool true), ("passwordChangeEnabled", .bool true),
    ("connectedAccountsEnabled", .bool true), ("sessionsViewEnabled", .bool true),
    ("dangerZoneEnabled", .bool false)]

def mergeAccountCenter [Zod] (input : Fields) : Merge := fun current =>
  accountSettingsSchema.parse ((current.getD defaultAccountCenterSettings).spread input)

structure OrganizationCreationPolicy where
  mode : String
  approvedUserIds : List String

def texts (xs : List String) : Json := .array (xs.map .string)

def mergeOrganizationCreation (input : OrganizationCreationPolicy) : Merge := fun current =>
  .ok ((current.getD []).spread
    [("organizationCreation", .string input.mode),
      ("approvedUserIds",
        texts (if input.mode = "approved_users" then input.approvedUserIds else []))])

structure DeveloperConsoleAccessPolicy where
  mode : String
  eligibleAccessLevels : List String
  selectedOrganizationIds : List String

def mergeDeveloperConsoleAccess (input : DeveloperConsoleAccessPolicy) : Merge := fun current =>
  .ok ((current.getD []).spread
    [("consoleAccess", .string input.mode),
      ("eligibleAccessLevels", texts input.eligibleAccessLevels),
      ("selectedOrganizationIds", texts
        (if input.mode = "selected_organizations" then input.selectedOrganizationIds else []))])

def mergeEmail [Zod] (input : Fields) : Merge := fun current =>
  storedEmailSettingsSchema.parse ((current.getD []).spread input)

end Policies

end FlareAuth.Settings
