import FlareAuth.SiteSettings
import FlareAuth.Text.Like

/-!
# The managed security policy

The policy is the deployment's own one with the stored sections over it. A write
stores every section of the next policy.
-/

namespace FlareAuth.Settings

structure CaptchaPolicy where
  enabled : Json
  provider : Json
  siteKey : Json
  projectId : Option String
  secretKey : String
  legacySecretBinding : Option String

structure SecurityPolicy where
  mfa : Fields
  passkeys : Fields
  sessions : Fields
  password : Fields
  captcha : CaptchaPolicy
  blocklist : Fields

def mfaNames : List String :=
  ["mode", "authenticatorAppEnabled", "emailOtpEnabled", "backupCodesEnabled"]

def passkeyNames : List String := ["enabled", "rpId", "rpName", "origins"]

def sessionNames : List String :=
  ["expiresInSeconds", "updateAgeSeconds", "freshAgeSeconds", "cookieCacheSeconds"]

def passwordNames : List String :=
  ["minLength", "requiredCharacterTypes", "customWords", "rejectUserInfo", "rejectSequential",
    "rejectCustomWords"]

def blocklistNames : List String := ["blockSubaddressing", "entries"]

def CaptchaPolicy.toFields (c : CaptchaPolicy) : Fields :=
  [("enabled", c.enabled), ("provider", c.provider), ("siteKey", c.siteKey),
    ("projectId", c.projectId.elim .null .string), ("secretKey", .string c.secretKey)] ++
    optional "legacySecretBinding" (c.legacySecretBinding.map .string)

def SecurityPolicy.toFields (p : SecurityPolicy) : Fields :=
  [("mfa", .object p.mfa), ("passkeys", .object p.passkeys), ("sessions", .object p.sessions),
    ("password", .object p.password), ("captcha", .object p.captcha.toFields),
    ("blocklist", .object p.blocklist)]

def securityPolicySchema : Schema :=
  ⟨some ["mfa", "passkeys", "sessions", "password", "captcha", "blocklist"], []⟩

def SecurityPolicy.parse [Zod] (p : SecurityPolicy) : Except Failure SecurityPolicy :=
  if Zod.accepts securityPolicySchema p.toFields then .ok p else .error (.error "ZodError")

def stringField (value : Fields) (key : String) : Option String :=
  match value.lookup key with
  | some (.string s) => some s
  | _ => none

def normalizeManagedCaptcha (value : Fields) (defaults : CaptchaPolicy) : CaptchaPolicy where
  enabled := (value.lookup "enabled").getD defaults.enabled
  provider := (value.lookup "provider").getD defaults.provider
  siteKey := (value.lookup "siteKey").getD defaults.siteKey
  projectId := stringField value "projectId"
  secretKey := (stringField value "secretKey").getD ""
  legacySecretBinding :=
    (stringField value "legacySecretBinding").or (stringField value "secretBinding")

def managed (stored : Option Fields) (defaults : SecurityPolicy) : SecurityPolicy :=
  let readObject (key : String) : Option Fields := stored.bind fun value => value.objectField key
  { mfa := Fields.pick mfaNames (defaults.mfa.spread ((readObject "mfa").getD []))
    passkeys := Fields.pick passkeyNames
      (defaults.passkeys.spread ((readObject "passkeys").getD []))
    sessions := Fields.pick sessionNames ((readObject "sessions").getD defaults.sessions)
    password := Fields.pick passwordNames ((readObject "password").getD defaults.password)
    captcha := (readObject "captcha").elim defaults.captcha fun value =>
      normalizeManagedCaptcha value defaults.captcha
    blocklist := Fields.pick blocklistNames ((readObject "blocklist").getD defaults.blocklist) }

def managedPolicy [Zod] (stored : Option Fields) (defaults : SecurityPolicy) :
    Except Failure SecurityPolicy := (managed stored defaults).parse

structure CaptchaInput where
  enabled : Json
  provider : Json
  siteKey : Json
  projectId : Option String
  secretKey : Option String

structure SecurityPolicyInput where
  mfa : Option Fields
  passkeys : Option Fields
  sessions : Option Fields
  password : Option Fields
  captcha : Option CaptchaInput
  blocklist : Option Fields

def CaptchaInput.newSecret (input : CaptchaInput) : Option String :=
  input.secretKey.filter fun s => !(Text.trim s.toList).isEmpty

def nextCaptchaSecret (input : CaptchaInput) (current : CaptchaPolicy) : String :=
  input.newSecret.getD (if input.provider = current.provider then current.secretKey else "")

def nextCaptcha (input : CaptchaInput) (current : CaptchaPolicy) : CaptchaPolicy where
  enabled := input.enabled
  provider := input.provider
  siteKey := input.siteKey
  projectId := input.projectId
  secretKey := nextCaptchaSecret input current
  legacySecretBinding := none

def nextPolicy (input : SecurityPolicyInput) (current : SecurityPolicy) : SecurityPolicy where
  mfa := Fields.pick mfaNames (current.mfa.spread (input.mfa.getD []))
  passkeys := Fields.pick passkeyNames (current.passkeys.spread (input.passkeys.getD []))
  sessions := Fields.pick sessionNames (input.sessions.getD current.sessions)
  password := Fields.pick passwordNames (input.password.getD current.password)
  captcha := input.captcha.elim current.captcha fun c => nextCaptcha c current.captcha
  blocklist := Fields.pick blocklistNames (input.blocklist.getD current.blocklist)

def mergeSecurity [Zod] (defaults : SecurityPolicy) (input : SecurityPolicyInput) : Merge :=
  fun stored => do
    let current ← managedPolicy stored defaults
    let next ← (nextPolicy input current).parse
    return (stored.getD []).spread next.toFields

/-- What is stored of a captcha is read back as it was. -/
theorem normalizeManagedCaptcha_toFields (c defaults : CaptchaPolicy) :
    normalizeManagedCaptcha c.toFields defaults = c := by
  obtain ⟨enabled, provider, siteKey, projectId, secretKey, binding⟩ := c
  cases projectId <;> cases binding <;> rfl

section Stored

variable {stored : Fields} {p defaults : SecurityPolicy}

theorem managed_stored : managed (some (stored.spread p.toFields)) defaults =
    { mfa := Fields.pick mfaNames (defaults.mfa.spread p.mfa)
      passkeys := Fields.pick passkeyNames (defaults.passkeys.spread p.passkeys)
      sessions := Fields.pick sessionNames p.sessions
      password := Fields.pick passwordNames p.password
      captcha := p.captcha
      blocklist := Fields.pick blocklistNames p.blocklist } := by
  have hfield : ∀ key fields, p.toFields.lookup key = some (.object fields) →
      (stored.spread p.toFields).objectField key = some fields := by
    intro key fields h
    rw [Fields.objectField, Fields.lookup_spread, h, Option.some_or]
  simp only [managed, Option.bind_some, hfield "mfa" p.mfa rfl, hfield "passkeys" p.passkeys rfl,
    hfield "sessions" p.sessions rfl, hfield "password" p.password rfl,
    hfield "captcha" p.captcha.toFields rfl, hfield "blocklist" p.blocklist rfl, Option.getD_some,
    Option.elim_some, normalizeManagedCaptcha_toFields]

end Stored

end FlareAuth.Settings
