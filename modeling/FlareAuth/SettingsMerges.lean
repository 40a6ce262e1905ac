import FlareAuth.SettingsFields

/-!
# The fields that a writer changes

Each writer's merge keeps every field which its input does not mention, apart
from the secret key of another captcha provider. The legacy binding of a captcha
that is configured again is left out.
-/

namespace FlareAuth.Settings

namespace Schema

def allows (schema : Schema) (k : String) : Bool := schema.keys.all fun keys => keys.contains k

variable {schema : Schema} {v patch : Fields} {k : String}

theorem lookup_normalize : (schema.normalize v).lookup k =
    (if schema.allows k then v.lookup k else none).or (schema.defaults.lookup k) := by
  obtain ⟨keys, defaults⟩ := schema
  rw [normalize, Fields.lookup_spread]
  cases keys with
  | none => rfl
  | some keys => simp [strip, allows]

/-- A value that its schema reads as it is. -/
def Closed (schema : Schema) (v : Fields) : Prop :=
  ∀ k, (schema.normalize v).lookup k = v.lookup k

theorem closed_normalize (schema : Schema) (v : Fields) : schema.Closed (schema.normalize v) := by
  intro k
  rw [lookup_normalize, lookup_normalize]
  by_cases h : schema.allows k
  · simp [h, Option.or_assoc]
  · simp [h]

theorem closed_of_keys {keys : List String} (h : ∀ x ∈ v, x.1 ∈ keys) :
    (⟨some keys, []⟩ : Schema).Closed v := by
  intro k
  rw [lookup_normalize]
  by_cases hk : k ∈ keys
  · simp [allows, hk]
  · have hnone : v.lookup k = none := by
      rw [List.lookup_eq_none_iff]
      intro x hx
      have hne : k ≠ x.1 := fun heq => hk (heq ▸ h x hx)
      simpa using hne
    simp [allows, hk, hnone]

theorem closed_of_passthrough {defaults : Fields} (h : ∀ k, (v.lookup k).or (defaults.lookup k) =
    v.lookup k) : (⟨none, defaults⟩ : Schema).Closed v := by
  intro k
  rw [lookup_normalize]
  exact h k

theorem lookup_of_closed {x : Fields} (h : schema.Closed v) (hx : x.lookup k = v.lookup k) :
    (schema.normalize x).lookup k = v.lookup k := by
  rw [← h k, lookup_normalize, lookup_normalize, hx]

/-- What a patch leaves alone is read as before. -/
theorem lookup_merged (h : schema.Closed v) (hpatch : patch.lookup k = none) :
    (schema.normalize (v.spread patch)).lookup k = v.lookup k :=
  lookup_of_closed h (by rw [Fields.lookup_spread, hpatch, Option.none_or])

theorem lookup_merged_of_some {j : Json} (hk : schema.allows k = true)
    (hpatch : patch.lookup k = some j) :
    (schema.normalize (v.spread patch)).lookup k = some j := by
  rw [lookup_normalize, if_pos hk, Fields.lookup_spread, hpatch, Option.some_or, Option.some_or]

theorem parse_eq_ok [Zod] {w : Fields} (h : schema.parse v = .ok w) : w = schema.normalize v := by
  unfold parse at h
  split at h
  · exact (Except.ok.inj h).symm
  · cases h

end Schema

theorem has_eq_false {value : Fields} {name : String} :
    has value name = false ↔ value.lookup name = none := by
  rw [has, Option.isSome_eq_false_iff, Option.isNone_iff_eq_none]

theorem nested_congr {v w : Fields} {k : String} (h : v.lookup k = w.lookup k) :
    nested v k = nested w k := by
  rw [nested, nested, Fields.objectField_congr h]

theorem nested_of_lookup {v fields : Fields} {k : String} (h : v.lookup k = some (.object fields)) :
    nested v k = fields := by
  rw [nested, Fields.objectField, h]
  rfl

theorem managed_congr {v w : Fields} (h : ∀ k, v.lookup k = w.lookup k)
    (defaults : SecurityPolicy) : managed (some v) defaults = managed (some w) defaults := by
  have hfield : ∀ key, v.objectField key = w.objectField key :=
    fun key => Fields.objectField_congr (h key)
  simp only [managed, Option.bind_some, hfield]

/-- A field is read off the lookups in the value. -/
theorem read_congr {v w : Fields} (h : ∀ k, v.lookup k = w.lookup k) (defaults : SecurityPolicy)
    (f : Field) : f.read defaults (some v) = f.read defaults (some w) := by
  cases f with
  | method name | link name => simp only [Field.read, Option.getD_some, h]
  | metadata name | copy name | provider providerName name =>
    simp only [Field.read, Option.getD_some, nested_congr (h "metadata"), nested_congr (h "copy")]
  | branding name => simp only [Field.read, Option.getD_some, brandingField, shown, h]
  | accountCenter name | externalLinks | email name => simp only [Field.read, Option.getD_some, h]
  | developer name => simp only [Field.read, Option.getD_some, developerField, h]
  | mfa name | passkeys name | policy part | captcha name =>
    simp only [Field.read, managed_congr h]

section Frames

variable {raw : Option Fields} {v : Fields}

theorem lookup_toSettingsPatch_of_ne {input : SignInInput} {metadata : Fields} {name : String}
    (hname : name ≠ "metadata") (h : input.methods.lookup name = none) :
    (toSettingsPatch input metadata).lookup name = none := by
  rw [toSettingsPatch, Fields.lookup_spread, Fields.lookup_pick, h, ite_self, Option.or_none]
  split
  · rw [List.lookup_cons, beq_eq_false_iff_ne.mpr hname]
    rfl
  · rfl

theorem lookup_optional_of_ne {k name : String} (h : name ≠ k) (value : Option Json) :
    (optional k value).lookup name = none := by
  cases value with
  | none => rfl
  | some j =>
    rw [optional, Option.elim_some, List.lookup_cons, beq_eq_false_iff_ne.mpr h]
    rfl

theorem lookup_optional_self {k : String} (value : Option Json) :
    (optional k value).lookup k = value := by
  cases value with
  | none => rfl
  | some j =>
    rw [optional, Option.elim_some, List.lookup_cons_self]

/-- The metadata under the next sign-in settings. -/
theorem nested_metadata (input : SignInInput) (hv : signInSettingsSchema.Closed v) :
    nested (signInSettingsSchema.normalize (v.spread (toSettingsPatch input (nested v "metadata"))))
        "metadata" = nested v "metadata" ∧
      input.builtInProviders = none ∧ input.emailOtpEnabled = none ∧ input.usernameEnabled = none ∨
    nested (signInSettingsSchema.normalize (v.spread (toSettingsPatch input (nested v "metadata"))))
        "metadata" = nextMetadata input (nested v "metadata") := by
  have hmethods : (Fields.pick methodNames input.methods).lookup "metadata" = none := by
    rw [Fields.lookup_pick, if_neg (by decide)]
  by_cases h : (input.builtInProviders.isSome || input.emailOtpEnabled.isSome ||
      input.usernameEnabled.isSome) = true
  · right
    refine nested_of_lookup (Schema.lookup_merged_of_some rfl ?_)
    rw [toSettingsPatch, if_pos h, Fields.lookup_spread, List.lookup_cons_self, Option.some_or]
  · left
    refine ⟨nested_congr (Schema.lookup_merged hv ?_), by simpa [and_assoc] using h⟩
    rw [toSettingsPatch, if_neg h, Fields.lookup_spread, hmethods]
    rfl

theorem lookup_nextMetadata_of_ne {input : SignInInput} {metadata : Fields} {name : String}
    (hproviders : name ≠ "builtInProviders")
    (hemail : name = "emailOtpEnabled" → input.emailOtpEnabled = none)
    (husername : name = "usernameEnabled" → input.usernameEnabled = none) :
    (nextMetadata input metadata).lookup name = metadata.lookup name := by
  have hgiven : ∀ {k : String} {value : Option Json}, (name = k → value = none) →
      (optional k value).lookup name = none := by
    intro k value hvalue
    by_cases hk : name = k
    · rw [hvalue hk]
      rfl
    · exact lookup_optional_of_ne hk value
  rw [nextMetadata, Fields.lookup_spread, Fields.lookup_spread, Fields.lookup_spread,
    lookup_optional_of_ne hproviders, hgiven fun hk => by rw [husername hk]; rfl,
    hgiven fun hk => by rw [hemail hk]; rfl]
  rfl

theorem nested_builtInProviders {input : SignInInput} {metadata : Fields} :
    nested (nextMetadata input metadata) "builtInProviders" =
      input.builtInProviders.elim (nested metadata "builtInProviders")
        (mergeBuiltInProviderMetadata (nested metadata "builtInProviders")) := by
  have hlookup : (nextMetadata input metadata).lookup "builtInProviders" =
      ((input.builtInProviders.map fun patch => Json.object
        (mergeBuiltInProviderMetadata (nested metadata "builtInProviders") patch))).or
        (metadata.lookup "builtInProviders") := by
    rw [nextMetadata, Fields.lookup_spread, Fields.lookup_spread, Fields.lookup_spread,
      lookup_optional_of_ne (by decide), lookup_optional_of_ne (by decide), lookup_optional_self]
    rfl
  cases h : input.builtInProviders with
  | none =>
    rw [h] at hlookup
    exact nested_congr hlookup
  | some patch =>
    rw [h] at hlookup
    exact nested_of_lookup hlookup

theorem providerMentions_eq_false {name : String} {patch : Json}
    (h : providerMentions name patch = false) :
    patch = .null ∨ ∃ fields : Fields, patch = .object fields ∧ fields.lookup name = none := by
  cases patch with
  | null => exact .inl rfl
  | object fields => exact .inr ⟨fields, rfl, has_eq_false.mp h⟩
  | bool | number | string | array => cases h

/-- A provider's fields that a patch does not mention. -/
theorem lookup_mergeBuiltInProviderMetadata {current patch : Fields} {providerName name : String}
    (h : (patch.lookup providerName).any (providerMentions name) = false) :
    (nested (mergeBuiltInProviderMetadata current patch) providerName).lookup name =
      (nested current providerName).lookup name := by
  rw [nested, nested, Fields.objectField, Fields.objectField, mergeBuiltInProviderMetadata,
    Fields.lookup_mergeWith]
  cases hpatch : patch.lookup providerName with
  | none => cases current.lookup providerName <;> rfl
  | some p =>
    rw [hpatch] at h
    rcases providerMentions_eq_false h with rfl | ⟨fields, rfl, hnone⟩
    · cases hcurrent : current.lookup providerName with
      | none => rfl
      | some c => cases c <;> rfl
    · cases hcurrent : current.lookup providerName with
      | none => exact hnone
      | some c =>
        cases c with
        | object own =>
          change (Fields.spread own fields).lookup name = own.lookup name
          rw [Fields.lookup_spread, hnone, Option.none_or]
        | null | bool | number | string | array => exact hnone

/-- A written value is read as it was parsed. -/
theorem read_of_parse [Zod] {schema : Schema} {x w : Fields} (h : schema.parse x = .ok w)
    (defaults : SecurityPolicy) (f : Field) :
    f.read defaults (some (schema.normalize w)) = f.read defaults (some (schema.normalize x)) := by
  rw [Schema.parse_eq_ok h]
  exact read_congr (schema.closed_normalize x) defaults f

variable {w : Fields} {defaults : SecurityPolicy} {f : Field}

/-- What a key is read as without a row. -/
def SiteSettingsKey.fallback : SiteSettingsKey → Fields
  | .general => generalSettingsSchema.normalize []
  | .branding => emptyBranding
  | .signIn => defaultSignInSettings
  | .accountCenter => defaultAccountCenterSettings
  | .navigation => [("externalLinks", .array [])]
  | .security | .developer | .email => []

theorem read_of_fallback (cur : Option Fields) (key : SiteSettingsKey) (hkey : f.key = key) :
    f.read defaults cur = f.read defaults (some (cur.getD key.fallback)) := by
  subst hkey
  cases cur with
  | some v => rfl
  | none => cases f <;> rfl

theorem frame_signIn [Zod] {input : SettingsInput} {x : SignInInput} (hx : input.signIn = some x)
    (h : mergeSignIn x raw = .ok w)
    (hraw : signInSettingsSchema.Closed (raw.getD defaultSignInSettings))
    (hkey : f.key = .signIn) (hf : input.mentions f = false) :
    f.read defaults (some (signInSettingsSchema.normalize w)) = f.read defaults raw := by
  rw [read_of_fallback raw _ hkey]
  change f.read _ _ = f.read _ (some (raw.getD defaultSignInSettings))
  unfold mergeSignIn at h
  generalize raw.getD defaultSignInSettings = v at h hraw
  rw [read_of_parse h]
  change f.read _ (some (signInSettingsSchema.normalize
    (v.spread (toSettingsPatch x (nested v "metadata"))))) = _
  have hmetadata := nested_metadata x hraw
  cases f with
  | method name =>
    simp only [Field.read, Option.getD_some]
    by_cases hname : name = "metadata"
    · rw [if_pos hname, if_pos hname]
    · rw [if_neg hname, if_neg hname]
      refine Schema.lookup_merged hraw (lookup_toSettingsPatch_of_ne hname ?_)
      simpa [SettingsInput.mentions, hx, has_eq_false] using hf
  | metadata name =>
    simp only [Field.read, Option.getD_some]
    by_cases hname : name = "builtInProviders"
    · rw [if_pos hname, if_pos hname]
    · rw [if_neg hname, if_neg hname]
      rcases hmetadata with ⟨hsame, _⟩ | hnext
      · rw [hsame]
      · rw [hnext]
        simp only [SettingsInput.mentions, hx, Option.any_some, Bool.or_eq_false_iff,
          Bool.and_eq_false_iff, decide_eq_false_iff_not] at hf
        refine lookup_nextMetadata_of_ne hname (fun hemail => ?_) fun husername => ?_
        · simpa using hf.1.resolve_left (not_not.mpr hemail)
        · simpa using hf.2.resolve_left (not_not.mpr husername)
  | provider providerName name =>
    simp only [Field.read, Option.getD_some]
    rcases hmetadata with ⟨hsame, _⟩ | hnext
    · rw [hsame]
    · rw [hnext, nested_builtInProviders]
      simp only [SettingsInput.mentions, hx, Option.any_some] at hf
      cases hpatch : x.builtInProviders with
      | none => rfl
      | some patch =>
        rw [hpatch] at hf
        exact lookup_mergeBuiltInProviderMetadata hf
  | link | copy | branding | accountCenter | externalLinks | developer | email => cases hkey
  | mfa | passkeys | policy | captcha => cases hkey

theorem frame_general [Zod] (signIn : Option SignInInput) {links : Fields} {copy : Option Fields}
    (h : mergeGeneral links copy raw = .ok w)
    (hraw : generalSettingsSchema.Closed (raw.getD (generalSettingsSchema.normalize [])))
    (hkey : f.key = .general) (hf : (⟨signIn, links, copy⟩ : SettingsInput).mentions f = false) :
    f.read defaults (some (generalSettingsSchema.normalize w)) = f.read defaults raw := by
  rw [read_of_fallback raw _ hkey]
  change f.read _ _ = f.read _ (some (raw.getD (generalSettingsSchema.normalize [])))
  unfold mergeGeneral at h
  generalize raw.getD (generalSettingsSchema.normalize []) = v at h hraw
  rw [read_of_parse h]
  cases f with
  | link name =>
    simp only [Field.read, Option.getD_some]
    by_cases hname : name = "copy"
    · rw [if_pos hname, if_pos hname]
    · rw [if_neg hname, if_neg hname]
      refine Schema.lookup_of_closed hraw ?_
      have hnone : links.lookup name = none := has_eq_false.mp hf
      rw [Fields.lookup_spread, Fields.lookup_spread, lookup_optional_of_ne hname,
        Fields.lookup_pick, hnone, ite_self, Option.none_or, Option.none_or]
  | copy name =>
    simp only [Field.read, Option.getD_some]
    have hlinks : (Fields.pick linkNames links).lookup "copy" = none := by
      rw [Fields.lookup_pick, if_neg (by decide)]
    cases copy with
    | none =>
      have hsame := Schema.lookup_of_closed (k := "copy")
        (x := (v.spread (Fields.pick linkNames links)).spread []) hraw (by
          rw [Fields.lookup_spread, Fields.lookup_spread, hlinks]
          rfl)
      exact congrArg (fun fields : Fields => fields.lookup name) (nested_congr hsame)
    | some patch =>
      have hnone : patch.lookup name = none := has_eq_false.mp hf
      change (nested (generalSettingsSchema.normalize
        ((v.spread (Fields.pick linkNames links)).spread
        [("copy", .object ((nested v "copy").spread patch))])) "copy").lookup name = _
      rw [nested_of_lookup (Schema.lookup_merged_of_some rfl List.lookup_cons_self),
        Fields.lookup_spread, hnone, Option.none_or]
  | method | metadata | provider | branding | accountCenter | externalLinks => cases hkey
  | developer | email | mfa | passkeys | policy | captcha => cases hkey

theorem lookup_clearedAsset {input : Fields} {url asset name : String}
    (h : name = asset → input.lookup url ≠ some .null) :
    (clearedAsset input url asset).lookup name = none := by
  unfold clearedAsset
  split
  · rename_i hnull
    have hne : name ≠ asset := fun hname => h hname hnull
    rw [List.lookup_cons, beq_eq_false_iff_ne.mpr hne]
    rfl
  · rfl

theorem lookup_toBrandingPatch {input : Fields} {name : String}
    (hname : (Fields.pick brandingNames input).lookup name = none)
    (hlogo : name = "logoAssetId" → input.lookup "logoUrl" ≠ some .null)
    (hfavicon : name = "faviconAssetId" → input.lookup "faviconUrl" ≠ some .null) :
    (toBrandingPatch input).lookup name = none := by
  rw [toBrandingPatch, Fields.lookup_spread, Fields.lookup_spread, lookup_clearedAsset hlogo,
    lookup_clearedAsset hfavicon, hname]
  rfl

/-- A field of the branding is read off its own column and off the asset that it names. -/
theorem brandingField_congr {v v' : Fields} {name : String}
    (hname : name ≠ "logoAssetId" → name ≠ "faviconAssetId" → v'.lookup name = v.lookup name)
    (hlogo : name = "logoUrl" → v'.lookup "logoAssetId" = v.lookup "logoAssetId")
    (hfavicon : name = "faviconUrl" → v'.lookup "faviconAssetId" = v.lookup "faviconAssetId") :
    brandingField v' name = brandingField v name := by
  unfold brandingField
  split
  · rename_i h
    subst h
    rw [shown, shown, hname (by decide) (by decide), hlogo rfl]
  · split
    · rename_i h
      subst h
      rw [shown, shown, hname (by decide) (by decide), hfavicon rfl]
    · split
      · rfl
      · rename_i h
        exact hname (fun heq => h (.inl heq)) fun heq => h (.inr heq)

theorem frame_branding [Zod] {input : Fields} {name : String}
    (h : mergeBranding input raw = .ok w)
    (hraw : brandingSettingsSchema.Closed (raw.getD emptyBranding))
    (hf : input.lookup name = none) :
    (Field.branding name).read defaults (some (brandingSettingsSchema.normalize w)) =
      (Field.branding name).read defaults raw := by
  rw [read_of_fallback raw .branding rfl]
  change (Field.branding name).read _ _ = (Field.branding name).read _
    (some (raw.getD emptyBranding))
  unfold mergeBranding at h
  generalize raw.getD emptyBranding = v at h hraw
  rw [read_of_parse h]
  refine brandingField_congr (fun hlogo hfavicon => ?_) (fun hname => ?_) fun hname => ?_
  · refine Schema.lookup_merged hraw
      (lookup_toBrandingPatch ?_ (absurd · hlogo) (absurd · hfavicon))
    rw [Fields.lookup_pick, hf, ite_self]
  · subst hname
    refine Schema.lookup_merged hraw (lookup_toBrandingPatch ?_ (fun _ => ?_)
      fun heq => absurd heq (by decide))
    · rw [Fields.lookup_pick, if_neg (by decide)]
    · rw [hf]
      exact nofun
  · subst hname
    refine Schema.lookup_merged hraw (lookup_toBrandingPatch ?_
      (fun heq => absurd heq (by decide)) fun _ => ?_)
    · rw [Fields.lookup_pick, if_neg (by decide)]
    · rw [hf]
      exact nofun

theorem frame_brandingAsset {kind : AssetKind} {assetId : Id} {name : String}
    (h : mergeBrandingAsset kind assetId raw = .ok w)
    (hraw : brandingSettingsSchema.Closed (raw.getD emptyBranding)) (hf : name ≠ kind.url) :
    (Field.branding name).read defaults (some (brandingSettingsSchema.normalize w)) =
      (Field.branding name).read defaults raw := by
  rw [read_of_fallback raw .branding rfl]
  change (Field.branding name).read _ _ = (Field.branding name).read _
    (some (raw.getD emptyBranding))
  unfold mergeBrandingAsset at h
  generalize raw.getD emptyBranding = v at h hraw
  obtain rfl := Except.ok.inj h
  have hother : ∀ {k}, k ≠ kind.field →
      (brandingSettingsSchema.normalize (v.set kind.field (.string assetId))).lookup k =
        v.lookup k :=
    fun hk => Schema.lookup_of_closed hraw (Fields.lookup_set_of_ne hk)
  refine brandingField_congr (fun hlogo hfavicon => hother ?_) (fun hname => hother ?_)
    fun hname => hother ?_
  · cases kind with
    | logo => exact hlogo
    | favicon => exact hfavicon
  · cases kind with
    | logo => exact absurd hname hf
    | favicon => decide
  · cases kind with
    | logo => decide
    | favicon => exact absurd hname hf

theorem frame_accountCenter [Zod] {input : Fields} {name : String}
    (h : mergeAccountCenter input raw = .ok w)
    (hraw : accountSettingsSchema.Closed (raw.getD defaultAccountCenterSettings))
    (hf : input.lookup name = none) :
    (Field.accountCenter name).read defaults (some (accountSettingsSchema.normalize w)) =
      (Field.accountCenter name).read defaults raw := by
  rw [read_of_parse h]
  exact Schema.lookup_merged hraw hf

theorem frame_email [Zod] {input : Fields} {name : String} (h : mergeEmail input raw = .ok w)
    (hraw : storedEmailSettingsSchema.Closed (raw.getD [])) (hf : input.lookup name = none) :
    (Field.email name).read defaults (some (storedEmailSettingsSchema.normalize w)) =
      (Field.email name).read defaults raw := by
  rw [read_of_parse h]
  exact Schema.lookup_merged hraw hf

/-- The two developer policies share a value, in which each keeps the other's fields. -/
theorem frame_developer {patch : Fields} {name : String} (hf : patch.lookup name = none) :
    (Field.developer name).read defaults
        (some (metadataSchema.normalize ((raw.getD []).spread patch))) =
      (Field.developer name).read defaults raw := by
  have hclosed : metadataSchema.Closed (raw.getD []) :=
    Schema.closed_of_passthrough fun k => Option.or_none
  change developerField _ name = developerField (raw.getD []) name
  rw [developerField, developerField, Option.getD_some, Schema.lookup_merged hclosed hf]

theorem policy_parse_eq_ok [Zod] {p q : SecurityPolicy} (h : p.parse = .ok q) : q = p := by
  unfold SecurityPolicy.parse at h
  split at h
  · exact (Except.ok.inj h).symm
  · cases h

/-- What a security write stores, in terms of the policy before it. -/
theorem mergeSecurity_eq_ok [Zod] {input : SecurityPolicyInput}
    (h : mergeSecurity defaults input raw = .ok w) :
    w = (raw.getD []).spread (nextPolicy input (managed raw defaults)).toFields := by
  obtain ⟨current, hcurrent, hrest⟩ := except_bind_eq_ok h
  obtain ⟨next, hnext, hw⟩ := except_bind_eq_ok hrest
  obtain rfl := policy_parse_eq_ok hcurrent
  obtain rfl := policy_parse_eq_ok hnext
  exact (Except.ok.inj hw).symm

/-- A section under the deployment's own one, after a patch over it was stored. -/
theorem lookup_section {names : List String} {own stored patch : Fields} {name : String}
    (hpatch : patch.lookup name = none) :
    (Fields.pick names (own.spread
      (Fields.pick names ((Fields.pick names (own.spread stored)).spread patch)))).lookup name =
      (Fields.pick names (own.spread stored)).lookup name := by
  simp only [Fields.lookup_pick, Fields.lookup_spread, hpatch, Option.none_or]
  by_cases h : name ∈ names
  · simp [h, Option.or_assoc]
  · simp [h]

theorem frame_captcha {input : CaptchaInput} {current : CaptchaPolicy} {name : String}
    (hnames : ¬["enabled", "provider", "siteKey", "projectId"].contains name)
    (hsecret : name = "secretKey" → input.secretKey = none ∧ current.provider = input.provider)
    (hbinding : name ≠ "legacySecretBinding") :
    (nextCaptcha input current).toFields.lookup name = current.toFields.lookup name := by
  by_cases h : name = "secretKey"
  · obtain ⟨hnone, hprovider⟩ := hsecret h
    subst h
    change some (Json.string (nextCaptchaSecret input current)) = some (.string current.secretKey)
    rw [nextCaptchaSecret, CaptchaInput.newSecret, hnone, if_pos hprovider.symm]
    rfl
  · have hnone : ∀ c : CaptchaPolicy, c.toFields.lookup name = none := by
      intro c
      simp only [List.contains_eq_mem, List.mem_cons, List.not_mem_nil, decide_eq_true_eq,
        not_or] at hnames
      rw [CaptchaPolicy.toFields, List.lookup_append, lookup_optional_of_ne hbinding,
        Option.or_none, List.lookup_eq_none_iff]
      simp [hnames, h]
    rw [hnone, hnone]

theorem frame_security [Zod] {input : SecurityPolicyInput}
    (h : mergeSecurity defaults input raw = .ok w) (hkey : f.key = .security)
    (hf : input.mentions f = false)
    (hbinding : f = .captcha "legacySecretBinding" → input.captcha = none)
    (hsecret : f = .captcha "secretKey" → ∀ x, input.captcha = some x →
      (Field.captcha "provider").read defaults raw = some x.provider) :
    f.read defaults (some (metadataSchema.normalize w)) = f.read defaults raw := by
  have hclosed : metadataSchema.Closed w := Schema.closed_of_passthrough fun k => Option.or_none
  rw [read_congr hclosed, mergeSecurity_eq_ok h]
  cases f with
  | mfa name =>
    simp only [Field.read, managed_stored]
    refine lookup_section ?_
    cases hmfa : input.mfa with
    | none => rfl
    | some x =>
      simp only [SecurityPolicyInput.mentions, hmfa, Option.any_some] at hf
      exact has_eq_false.mp hf
  | passkeys name =>
    simp only [Field.read, managed_stored]
    refine lookup_section ?_
    cases hpasskeys : input.passkeys with
    | none => rfl
    | some x =>
      simp only [SecurityPolicyInput.mentions, hpasskeys, Option.any_some] at hf
      exact has_eq_false.mp hf
  | policy part =>
    have hnone : input.part part = none := by simpa [SecurityPolicyInput.mentions] using hf
    simp only [Field.read, managed_stored]
    cases part with
    | sessions | password | blocklist =>
      simp only [SecurityPolicyInput.part] at hnone
      simp only [SecurityPolicy.part, nextPolicy, hnone, Option.getD_none, managed,
        Fields.pick_pick]
  | captcha name =>
    simp only [Field.read, managed_stored, nextPolicy]
    cases hcaptcha : input.captcha with
    | none => rfl
    | some x =>
      simp only [SecurityPolicyInput.mentions, hcaptcha, Option.any_some, Bool.or_eq_false_iff,
        Bool.and_eq_false_iff, decide_eq_false_iff_not] at hf
      refine frame_captcha (by simpa using hf.1) (fun hname => ⟨?_, ?_⟩) fun hname => ?_
      · simpa using hf.2.resolve_left (not_not.mpr hname)
      · subst hname
        exact Option.some.inj (hsecret rfl x hcaptcha)
      · subst hname
        have hnone := hbinding rfl
        rw [hcaptcha] at hnone
        cases hnone
  | method | metadata | provider | link | copy | branding | accountCenter => cases hkey
  | externalLinks | developer | email => cases hkey

theorem closed_fallback (key : SiteSettingsKey) : key.schema.Closed key.fallback := by
  cases key with
  | general => exact Schema.closed_normalize _ _
  | branding | signIn | accountCenter | navigation | email =>
    exact Schema.closed_of_keys (by decide)
  | security | developer => exact Schema.closed_of_passthrough fun k => Option.or_none

theorem closed_parsed (s : Store) (key : SiteSettingsKey) :
    key.schema.Closed ((s.parsed key).getD key.fallback) := by
  rw [Store.parsed]
  cases s.row key with
  | none => exact closed_fallback key
  | some row => exact key.schema.closed_normalize row.value

theorem merge_of_general [Zod] {links : Fields} {copy : Option Fields} {merge : Merge}
    (hmerge : mergeOfGeneral links copy = some merge) (h : merge raw = .ok w) :
    mergeGeneral links copy raw = .ok w := by
  unfold mergeOfGeneral at hmerge
  split at hmerge
  · cases hmerge
    exact h
  · cases hmerge

theorem read_of_replacement [Zod] {replacement : Replacement}
    (h : replacement.merge raw = .ok w)
    (hclosed : replacement.guarded.key.schema.Closed (raw.getD replacement.guarded.key.fallback))
    (hkey : f.key = replacement.guarded.key) (hf : replacement.mentions f = false) :
    f.read defaults (some (replacement.guarded.key.schema.normalize w)) = f.read defaults raw := by
  cases replacement with
  | organizationCreation input =>
    cases f <;> cases hkey
    obtain rfl := Except.ok.inj h
    refine frame_developer ?_
    rw [List.lookup_eq_none_iff]
    simpa [Replacement.mentions] using hf
  | developerConsoleAccess input =>
    cases f <;> cases hkey
    obtain rfl := Except.ok.inj h
    refine frame_developer ?_
    rw [List.lookup_eq_none_iff]
    simpa [Replacement.mentions] using hf
  | realm name =>
    refine frame_general none h hclosed hkey ?_
    cases f <;> cases hkey
    · rfl
    · rename_i field
      have hne : field ≠ "productName" := of_decide_eq_false hf
      rw [SettingsInput.mentions, Option.any_some, has_eq_false, List.lookup_eq_none_iff]
      simpa using hne
  | email input =>
    cases f <;> cases hkey
    exact frame_email h hclosed (has_eq_false.mp hf)

/-- A merge keeps the fields that the call neither mentions nor replaces. -/
theorem read_of_merge [Zod] {call : Call} {merge : Merge} {s : Store}
    (hmerge : call.merge defaults f.key = some merge) (h : merge (s.parsed f.key) = .ok w)
    (hf : call.mentions f = false) (hreplaces : call.replaces defaults s f = false)
    (hopen : call.leavesOpen f = false) :
    f.read defaults (some (f.key.schema.normalize w)) = f.effective defaults s := by
  have hclosed := closed_parsed s f.key
  rw [Field.effective]
  generalize hkey : f.key = key at hmerge h hclosed
  cases call with
  | putNavigation ifMatch input =>
    cases key <;> cases hmerge
    cases f <;> cases hkey
    cases hf
  | putReplacement ifMatch replacement =>
    simp only [Call.merge] at hmerge
    split at hmerge
    · rename_i hguarded
      subst hguarded
      obtain rfl := Option.some.inj hmerge
      exact read_of_replacement h hclosed hkey hf
    · cases hmerge
  | updateSettings input =>
    cases key with
    | signIn =>
      obtain ⟨x, hx, rfl⟩ := Option.map_eq_some_iff.mp hmerge
      exact frame_signIn hx h hclosed hkey hf
    | general => exact frame_general input.signIn (merge_of_general hmerge h) hclosed hkey hf
    | branding | accountCenter | navigation | security | developer | email => cases hmerge
  | updateBranding input copy =>
    cases key with
    | branding =>
      obtain rfl := Option.some.inj hmerge
      cases f <;> cases hkey
      exact frame_branding h hclosed (has_eq_false.mp hf)
    | general =>
      refine frame_general none (merge_of_general hmerge h) hclosed hkey ?_
      cases f <;> cases hkey
      · rfl
      · exact hf
    | signIn | accountCenter | navigation | security | developer | email => cases hmerge
  | updateBrandingAsset kind assetId =>
    cases key <;> cases hmerge
    cases f <;> cases hkey
    exact frame_brandingAsset h hclosed (of_decide_eq_false hf)
  | updateAccountCenterSettings input =>
    cases key <;> cases hmerge
    cases f <;> cases hkey
    exact frame_accountCenter h hclosed (has_eq_false.mp hf)
  | updatePolicy input enrolled =>
    cases key <;> cases hmerge
    refine frame_security h hkey hf (fun hbinding => ?_) fun hsecret x hx => ?_
    · subst hbinding
      simpa [Call.leavesOpen] using hopen
    · subst hsecret
      by_contra hother
      simp [Call.replaces, hx, Field.effective, Field.key, hother] at hreplaces

end Frames

end FlareAuth.Settings
