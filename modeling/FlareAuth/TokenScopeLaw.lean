import FlareAuth.AccessProgram
import FlareAuth.EffectiveScopes
import FlareAuth.TokenScopes

/-!
# The law of access-token scopes

Which scopes the filter returns, in which Context they are held, and that filtering what it
returned changes nothing while the authority behind it stays.
-/

namespace FlareAuth.AccessTokens

open Concurrent Relational Command
open Applications (Application)

def ActiveMember (d : Directory) (organizationId userId : Id) : Prop :=
  (d.findOrganization organizationId).any (fun o => !o.disabled) = true ∧
    (d.findMemberByOrganizationUser organizationId userId).isSome = true

/-- The Context of a user whom no reference and no private Application puts into one. -/
def ResourceContext (d : Directory) (userId : Id) (target tenant : Option Id) : Prop :=
  match (target.bind d.findResourceByResourceUrl).filter fun resource =>
      resource.visibility = .privateResource with
  | none => tenant = none
  | some resource => ActiveMember d resource.ownerOrganizationId userId ∧
      tenant = some resource.ownerOrganizationId

def SelectsContext (d : Directory) (r : TokenRequest) (application : Option Application)
    (tenant : Option Id) : Prop :=
  match r.user with
  | none => tenant = none
  | some userId =>
    if r.selectsUser then
      (r.referenceId = some ("user:" ++ userId) ∧ privateApplication application = none) ∧
        tenant = none
    else
      match r.selectedOrganizationId, privateApplication application with
      | some organizationId, privately =>
        privately.all (fun a => organizationId = a.ownerOrganizationId) = true ∧
          ActiveMember d organizationId userId ∧ tenant = some organizationId
      | none, some a => ActiveMember d a.ownerOrganizationId userId ∧
          tenant = some a.ownerOrganizationId
      | none, none => ResourceContext d userId r.target tenant

section Context

variable {r : TokenRequest} {application : Option Application} {error : String} {userId : Id}
  {tenant : Option Id} {s t : State}

theorem look_bind_eq_ok {α β : Type} {answer : Directory → α} {f : α → Tokens β} {b : β} :
    (look answer >>= f) s = (.ok b, t) ↔ f (answer s.access.directory) s = (.ok b, t) := .rfl

theorem requireMembership_eq_ok {organizationId : Id} {description : String} {v : Unit} :
    requireMembership organizationId userId error description s = (.ok v, t) ↔
      ActiveMember s.access.directory organizationId userId ∧ s = t := by
  unfold requireMembership ActiveMember
  rw [look_bind_eq_ok, look_bind_eq_ok, require_eq_ok]

theorem requireMembership_bind_eq_ok {organizationId : Id} {description : String} {α : Type}
    {f : Unit → Tokens α} {a : α} :
    (requireMembership organizationId userId error description >>= f) s = (.ok a, t) ↔
      ActiveMember s.access.directory organizationId userId ∧ f () s = (.ok a, t) := by
  rw [bind_eq_ok]
  constructor
  · rintro ⟨_, _, hrequire, hf⟩
    obtain ⟨hmember, rfl⟩ := requireMembership_eq_ok.mp hrequire
    exact ⟨hmember, hf⟩
  · rintro ⟨hmember, hf⟩
    exact ⟨(), s, requireMembership_eq_ok.mpr ⟨hmember, rfl⟩, hf⟩

theorem pure_tenant_eq_ok {found : Option Id} :
    (pure found : Tokens (Option Id)) s = (.ok tenant, t) ↔ tenant = found ∧ s = t := by
  rw [pure_eq_ok, @eq_comm _ found]

theorem resolveResourceOrganizationId_eq_ok {target : Option String} :
    resolveResourceOrganizationId userId error target s = (.ok tenant, t) ↔
      ResourceContext s.access.directory userId target tenant ∧ s = t := by
  unfold ResourceContext
  cases target with
  | none => exact pure_tenant_eq_ok
  | some url =>
    unfold resolveResourceOrganizationId
    rw [look_bind_eq_ok, Option.bind_some]
    cases (s.access.directory.findResourceByResourceUrl url).filter fun resource =>
        resource.visibility = .privateResource with
    | none => exact pure_tenant_eq_ok
    | some resource =>
      rw [requireMembership_bind_eq_ok, pure_tenant_eq_ok, and_assoc]

/-- The Context is resolved without a write, and no failure code takes part in it. -/
theorem resolveOAuthOrganizationId_eq_ok :
    resolveOAuthOrganizationId r application error s = (.ok tenant, t) ↔
      SelectsContext s.access.directory r application tenant ∧ s = t := by
  unfold resolveOAuthOrganizationId SelectsContext
  cases r.user with
  | none => exact pure_tenant_eq_ok
  | some userId =>
    dsimp only
    unfold resolveUserOrganizationId
    by_cases hselects : r.selectsUser = true
    · rw [if_pos hselects, if_pos hselects, require_bind_eq_ok, pure_tenant_eq_ok, ← and_assoc]
    · rw [if_neg hselects, if_neg hselects]
      cases r.selectedOrganizationId with
      | some organizationId =>
        dsimp only
        rw [require_bind_eq_ok, requireMembership_bind_eq_ok, pure_tenant_eq_ok, and_assoc,
          and_assoc]
      | none =>
        cases privateApplication application with
        | some a =>
          dsimp only
          rw [requireMembership_bind_eq_ok, pure_tenant_eq_ok, and_assoc]
        | none => exact resolveResourceOrganizationId_eq_ok

/-- Whoever acts in an Organization is a member of it. -/
theorem SelectsContext.isMember {d : Directory} {organizationId : Id}
    (h : SelectsContext d r application (some organizationId)) (huser : r.user = some userId) :
    (d.findMemberByOrganizationUser organizationId userId).isSome = true := by
  unfold SelectsContext at h
  rw [huser] at h
  dsimp only at h
  split at h
  · exact nomatch h.2
  · split at h
    · obtain ⟨-, hmember, heq⟩ := h
      obtain rfl := Option.some.inj heq
      exact hmember.2
    · obtain ⟨hmember, heq⟩ := h
      obtain rfl := Option.some.inj heq
      exact hmember.2
    · unfold ResourceContext at h
      split at h
      · exact nomatch h
      · obtain ⟨hmember, heq⟩ := h
        obtain rfl := Option.some.inj heq
        exact hmember.2

end Context

def HasAccess (d : Directory) (application : Application) (userId : Id) : Prop :=
  (d.findOrganization application.ownerOrganizationId).all (·.disabled) = false ∧
    (application.visibility = .publicResource ∨
      (d.findMemberByOrganizationUser application.ownerOrganizationId userId).isSome = true)

/-- What is asked of the principal and the Application before any resource scope. -/
structure Admits (d : Directory) (r : TokenRequest) (application : Application) : Prop where
  access : ∀ userId, r.user = some userId → HasAccess d application userId
  identity : ∀ scope ∈ r.requestedOidcScopes, scope ∈ application.oidcScopes

structure Reaches (d : Directory) (r : TokenRequest) (application : Application) (url : String)
    (resource : ApiResource) (tenant : Option Id) : Prop where
  found : d.findResourceByResourceUrl url = some resource
  active : (resource.enabled && resource.scopeRegistry.isSome) = true
  context : SelectsContext d r (some application) tenant
  visible : visibleToPrincipal r application resource tenant = true

/-- The state after a policy authorization, which is recorded where no consent is asked for. -/
def recorded (application : Application) (userId : Id) (resourceServerId : Option Id)
    (scopes : List String) (s : State) : State :=
  if application.consentRequired then s
  else s.recordPolicyAuthorization application.id userId resourceServerId scopes

/-- What the user has consented to, or all of the targets where no consent is asked for. -/
def consentOf (s : State) (application : Application) (userId : Id) (resource : ApiResource)
    (targets : List String) : List String :=
  if application.consentRequired then
    ((s.findConsent application.id userId resource.id).map (·.scopes)).getD []
  else targets

section Filter

variable {r : TokenRequest} {application : Application} {resource : ApiResource} {userId : Id}
  {tenant : Option Id} {url : String} {s t : State} {result : List String}

theorem applicationUserHasAccess_eq (application : Application) (userId : Id) (s : State) :
    ∃ access, applicationUserHasAccess application userId s = (.ok access, s) ∧
      (access = true ↔ HasAccess s.access.directory application userId) := by
  unfold applicationUserHasAccess HasAccess
  rw [look, read_bind]
  cases (s.access.directory.findOrganization application.ownerOrganizationId).all (·.disabled) with
  | true => exact ⟨false, rfl, by simp⟩
  | false =>
    by_cases hpublic : application.visibility = .publicResource
    · rw [if_neg Bool.false_ne_true, if_pos hpublic]
      exact ⟨true, rfl, by simp [hpublic]⟩
    · rw [if_neg Bool.false_ne_true, if_neg hpublic]
      exact ⟨_, rfl, by simp [hpublic]⟩

theorem requireApplicationUserAccess_bind_eq_ok {error : String} {f : Unit → Tokens (List String)} :
    (requireApplicationUserAccess application userId error >>= f) s = (.ok result, t) ↔
      HasAccess s.access.directory application userId ∧ f () s = (.ok result, t) := by
  obtain ⟨access, hread, haccess⟩ :=
    applicationUserHasAccess_eq application userId s
  unfold requireApplicationUserAccess
  rw [Command.bind_assoc, bind_of_ok hread, require_bind_eq_ok, haccess]

theorem filterScopes_eq_ok : filterScopes r application s = (.ok result, t) ↔
    Admits s.access.directory r application ∧
      (match r.target with
        | none => filterIdentityScopes r application
        | some url => filterResourceScopes r application url) s = (.ok result, t) := by
  have hadmits : Admits s.access.directory r application ↔
      (∀ userId, r.user = some userId → HasAccess s.access.directory application userId) ∧
        ∀ scope ∈ r.requestedOidcScopes, scope ∈ application.oidcScopes :=
    ⟨fun h => ⟨h.access, h.identity⟩, fun h => ⟨h.1, h.2⟩⟩
  rw [hadmits]
  unfold filterScopes
  cases r.user with
  | none =>
    refine require_bind_eq_ok.trans (and_congr_left fun _ => ?_)
    simp
  | some userId =>
    refine requireApplicationUserAccess_bind_eq_ok.trans ?_
    rw [require_bind_eq_ok, and_assoc]
    exact and_congr (by simp) (and_congr_right fun _ => .rfl)

theorem recordPolicy_bind_eq_ok {resourceServerId : Option Id} {scopes : List String}
    {f : Unit → Tokens (List String)} :
    (recordPolicy application userId resourceServerId scopes >>= f) s = (.ok result, t) ↔
      f () (recorded application userId resourceServerId scopes s) = (.ok result, t) := by
  unfold recordPolicy recorded
  cases application.consentRequired with
  | true => rfl
  | false => rfl

theorem filterIdentityScopes_eq_ok : filterIdentityScopes r application s = (.ok result, t) ↔
    r.requestedResourceScopes = [] ∧
      (match r.user with
        | none => [] = result ∧ s = t
        | some userId => r.requestedOidcScopes = result ∧
            recorded application userId none r.requestedOidcScopes s = t) := by
  unfold filterIdentityScopes
  rw [require_bind_eq_ok]
  cases r.user with
  | none => exact and_congr_right fun _ => pure_eq_ok
  | some userId =>
    refine and_congr_right fun _ => ?_
    dsimp only
    rw [recordPolicy_bind_eq_ok, pure_eq_ok]

theorem consentedScopes_eq {targets : List String} :
    consentedScopes application userId resource targets s =
      (.ok (consentOf s application userId resource targets), s) := by
  unfold consentedScopes consentOf
  cases application.consentRequired with
  | true => rfl
  | false => rfl

theorem onAccess_of_exec {α : Type} {p : Access α} {outcome : Except Failure α}
    (h : p.exec s.access = (outcome, s.access)) : onAccess p s = (outcome, s) := by
  rw [onAccess, h]

theorem filterUserScopes_eq_ok :
    filterUserScopes r application resource tenant userId s = (.ok result, t) ↔
      ∃ effective, (userEffectiveResourceScopes userId resource s.access.now (some tenant)).exec
          s.access = (.ok effective, s.access) ∧
        r.requestedOidcScopes ++ ((targetResourceScopes r application resource).filter fun scope =>
          effective.contains scope && (consentOf s application userId resource
            (targetResourceScopes r application resource)).contains scope) = result ∧
        recorded application userId (some resource.id) result s = t := by
  unfold filterUserScopes
  rw [clock, read_bind]
  dsimp only
  rcases exec_userEffectiveResourceScopes s.access userId resource s.access.now tenant with
    ⟨e, he, -⟩ | ⟨effective, hok, -⟩
  · rw [bind_of_error (c := onAccess _) (onAccess_of_exec he)]
    simp [he]
  · rw [bind_of_ok (c := onAccess _) (onAccess_of_exec hok), bind_of_ok consentedScopes_eq,
      recordPolicy_bind_eq_ok, pure_eq_ok]
    constructor
    · rintro ⟨rfl, rfl⟩
      exact ⟨effective, hok, rfl, rfl⟩
    · rintro ⟨effective', hok', rfl, rfl⟩
      obtain rfl : effective = effective' := by
        have heq := hok.symm.trans hok'
        simpa using heq
      exact ⟨rfl, rfl⟩

theorem filterApplicationScopes_eq_ok :
    filterApplicationScopes r application resource s = (.ok result, t) ↔
      ∃ effective, (applicationEffectiveResourceScopes application.id
          application.ownerOrganizationId resource s.access.now).exec s.access =
            (.ok effective, s.access) ∧
        (targetResourceScopes r application resource).filter effective.contains = result ∧
        s = t := by
  unfold filterApplicationScopes
  rw [clock, read_bind]
  obtain ⟨effective, hok, -⟩ := exec_applicationEffectiveResourceScopes s.access application.id
    application.ownerOrganizationId resource s.access.now
  rw [bind_of_ok (c := onAccess _) (onAccess_of_exec hok), pure_eq_ok]
  constructor
  · rintro ⟨rfl, rfl⟩
    exact ⟨effective, hok, rfl, rfl⟩
  · rintro ⟨effective', hok', rfl, rfl⟩
    obtain rfl : effective = effective' := by
      have heq := hok.symm.trans hok'
      simpa using heq
    exact ⟨rfl, rfl⟩

/-- The resource branch: the target, the Context and then the scopes of the principal. -/
theorem filterResourceScopes_eq_ok :
    filterResourceScopes r application url s = (.ok result, t) ↔
      ∃ resource tenant, Reaches s.access.directory r application url resource tenant ∧
        (r.interactive = true ∨
          (targetResourceScopes r application resource).length = r.requestedResourceScopes.length) ∧
        (match r.user with
          | none => filterApplicationScopes r application resource
          | some userId => filterUserScopes r application resource tenant userId) s =
            (.ok result, t) := by
  unfold filterResourceScopes
  rw [look_bind_eq_ok, bind_eq_ok]
  constructor
  · rintro ⟨resource, _, hfound, hrest⟩
    obtain ⟨hkept, rfl⟩ := orThrow_eq_ok.mp hfound
    obtain ⟨hstored, hactive⟩ := Option.filter_eq_some_iff.mp hkept
    obtain ⟨tenant, _, hcontext, hrest⟩ := bind_eq_ok.mp hrest
    obtain ⟨hselects, rfl⟩ := resolveOAuthOrganizationId_eq_ok.mp hcontext
    rw [require_bind_eq_ok, require_bind_eq_ok] at hrest
    obtain ⟨hvisible, hlength, hrest⟩ := hrest
    exact ⟨resource, tenant, ⟨hstored, hactive, hselects, hvisible⟩, hlength, hrest⟩
  · rintro ⟨resource, tenant, hreaches, hlength, hrest⟩
    refine ⟨resource, s, orThrow_eq_ok.mpr
      ⟨Option.filter_eq_some_iff.mpr ⟨hreaches.found, hreaches.active⟩, rfl⟩, bind_eq_ok.mpr ?_⟩
    refine ⟨tenant, s, resolveOAuthOrganizationId_eq_ok.mpr ⟨hreaches.context, rfl⟩, ?_⟩
    rw [require_bind_eq_ok, require_bind_eq_ok]
    exact ⟨hreaches.visible, hlength, hrest⟩

end Filter

section Claims

variable {r : TokenRequest} {s : State} {tenant : Option Id}

theorem authorizedClaims_ok {input : TokenClaimInput} {resource : Option ApiResource}
    {authorized : List String} (hauthorized : input.authorizedScopes = some authorized)
    (hmember : ∀ userId organizationId, input.userId = some userId →
      input.organizationId = some organizationId →
        (s.access.directory.findMemberByOrganizationUser organizationId userId).isSome = true) :
    ∃ claims, authorizedClaims input resource s = (.ok claims, s) := by
  unfold authorizedClaims
  cases huser : input.userId with
  | none => exact ⟨_, rfl⟩
  | some userId =>
    cases horganization : input.organizationId with
    | none => exact ⟨_, rfl⟩
    | some organizationId =>
      obtain ⟨m, hm⟩ := Option.isSome_iff_exists.mp (hmember _ _ huser horganization)
      have hok : ∃ role, membershipAuthorization input resource organizationId userId s =
          (.ok role, s) := by
        unfold membershipAuthorization
        rw [look, read_bind, hm, hauthorized]
        cases resource with
        | none => exact ⟨_, rfl⟩
        | some resource => exact ⟨_, rfl⟩
      obtain ⟨role, hrole⟩ := hok
      have hmap : (some <$> membershipAuthorization input resource organizationId userId) s =
          (.ok (some role), s) := by
        rw [map_eq_pure_bind, bind_of_ok hrole]
        rfl
      exact ⟨_, bind_of_ok hmap⟩

theorem buildTokenClaims_ok (input : TokenClaimInput) {authorized : List String}
    (hauthorized : input.authorizedScopes = some authorized)
    (hmember : ∀ userId organizationId, input.userId = some userId →
      input.organizationId = some organizationId →
        (s.access.directory.findMemberByOrganizationUser organizationId userId).isSome = true) :
    ∃ claims, buildTokenClaims input s = (.ok claims, s) := by
  unfold buildTokenClaims
  cases input.resource.filter (· ≠ "") with
  | none => exact authorizedClaims_ok hauthorized hmember
  | some url =>
    dsimp only
    rw [look, read_bind]
    cases s.access.directory.findResourceByResourceUrl url with
    | none => exact ⟨_, rfl⟩
    | some resource => exact authorizedClaims_ok hauthorized hmember

def contextOrganization (r : TokenRequest) (application : Option Application)
    (tenant : Option Id) : Option Id :=
  match r.user with
  | none => application.map (·.ownerOrganizationId)
  | some _ => tenant

/-- The claims builder comes to the Context of the filter. -/
theorem buildOAuthAccessTokenClaims_ok
    (hcontext : SelectsContext s.access.directory r (s.findApplication r.applicationId) tenant) :
    ∃ claims, buildOAuthAccessTokenClaims r s = (.ok claims, s) ∧
      claims.organization = contextOrganization r (s.findApplication r.applicationId) tenant := by
  unfold buildOAuthAccessTokenClaims contextOrganization
  rw [read_bind, bind_of_ok (resolveOAuthOrganizationId_eq_ok.mpr ⟨hcontext, rfl⟩)]
  cases huser : r.user with
  | none =>
    have htenant : tenant = none := by
      unfold SelectsContext at hcontext
      rwa [huser] at hcontext
    subst htenant
    obtain ⟨claims, hclaims⟩ := buildTokenClaims_ok (s := s)
      ⟨none, (s.findApplication r.applicationId).map (·.ownerOrganizationId), r.resource,
        r.scopes, some r.requestedResourceScopes⟩ rfl (fun _ _ h => nomatch h)
    exact ⟨_, bind_of_ok hclaims, rfl⟩
  | some userId =>
    obtain ⟨claims, hclaims⟩ := buildTokenClaims_ok (s := s)
      ⟨some userId, tenant, r.resource, r.scopes, some r.requestedResourceScopes⟩ rfl
      (by
        rintro _ organizationId ⟨⟩ rfl
        exact hcontext.isMember huser)
    exact ⟨_, bind_of_ok hclaims, rfl⟩

end Claims

def State.usableApplication (s : State) (r : TokenRequest) : Option Application :=
  (s.findApplication r.applicationId).filter fun application => !application.disabled

def IdentityScope (r : TokenRequest) (application : Application) (scope : String) : Prop :=
  r.user.isSome = true ∧ scope ∈ oidcScopes ∧ scope ∈ application.oidcScopes

/-- The claims of a token of this request name this Organization, whatever scopes it has. -/
def NamesOrganization (s : State) (r : TokenRequest) (organization : Option Id) : Prop :=
  ∀ scopes, ∃ claims, buildOAuthAccessTokenClaims { r with scopes := scopes } s = (.ok claims, s) ∧
    claims.organization = organization

def PrincipalHolds (s : State) (r : TokenRequest) (application : Application)
    (resource : ApiResource) (organization : Option Id) (scope : String) : Prop :=
  match r.user with
  | some userId => UserHolds s.access userId resource s.access.now organization scope
  | none => ∃ ownerOrganizationId, organization = some ownerOrganizationId ∧
      ApplicationHolds s.access resource s.access.now application.id ownerOrganizationId scope

def Consented (s : State) (r : TokenRequest) (application : Application) (resource : ApiResource)
    (scope : String) : Prop :=
  ∀ userId, r.user = some userId → application.consentRequired = true →
    ∃ consent, s.findConsent application.id userId resource.id = some consent ∧
      scope ∈ consent.scopes

/-- The scope is configured, declared, held in the Context of the claims, and consented to. -/
def GrantedScope (s : State) (r : TokenRequest) (application : Application) (scope : String) :
    Prop :=
  ∃ url resource organization, r.target = some url ∧
    s.access.directory.findResourceByResourceUrl url = some resource ∧
    scope ∈ configuredScopes application resource ∧ scope ∈ resource.declaredScopes ∧
    NamesOrganization s r organization ∧
    PrincipalHolds s r application resource organization scope ∧
    Consented s r application resource scope

section Law

variable {r : TokenRequest} {application : Application} {resource : ApiResource}
  {tenant : Option Id} {url : String} {s t : State} {result : List String} {scope : String}

theorem filterOAuthAccessTokenScopes_eq_ok :
    filterOAuthAccessTokenScopes r s = (.ok result, t) ↔
      match s.usableApplication r with
      | none => [] = result ∧ s = t
      | some application => filterScopes r application s = (.ok result, t) := by
  unfold filterOAuthAccessTokenScopes State.usableApplication
  rw [read_bind]
  cases (s.findApplication r.applicationId).filter fun application => !application.disabled with
  | none => exact pure_eq_ok
  | some application => exact .rfl

theorem findApplication_of_usable (h : s.usableApplication r = some application) :
    s.findApplication r.applicationId = some application :=
  (Option.filter_eq_some_iff.mp h).1

theorem namesOrganization_iff (h : s.usableApplication r = some application)
    (hcontext : SelectsContext s.access.directory r (some application) tenant)
    {organization : Option Id} : NamesOrganization s r organization ↔
      organization = contextOrganization r (some application) tenant := by
  rw [← findApplication_of_usable h] at hcontext ⊢
  constructor
  · intro hnames
    obtain ⟨claims, hclaims, horganization⟩ := hnames r.scopes
    obtain ⟨claims', hclaims', horganization'⟩ := buildOAuthAccessTokenClaims_ok hcontext
    obtain rfl : claims = claims' := by
      have heq := hclaims.symm.trans hclaims'
      simpa using heq
    exact horganization.symm.trans horganization'
  · rintro rfl scopes
    have hcontext' : SelectsContext s.access.directory { r with scopes := scopes }
      (s.findApplication r.applicationId) tenant := hcontext
    exact buildOAuthAccessTokenClaims_ok hcontext'

theorem mem_requestedOidcScopes :
    scope ∈ r.requestedOidcScopes ↔ scope ∈ r.scopes ∧ scope ∈ oidcScopes := by
  simp [TokenRequest.requestedOidcScopes]

theorem mem_targetResourceScopes : scope ∈ targetResourceScopes r application resource ↔
    scope ∈ r.scopes ∧ scope ∉ oidcScopes ∧ scope ∈ configuredScopes application resource ∧
      scope ∈ resource.declaredScopes := by
  simp [targetResourceScopes, TokenRequest.requestedResourceScopes]
  tauto

/-- Once the request has come to its resource and Context, a granted scope is one that is
configured, declared, held and consented to there. -/
theorem grantedScope_iff (h : s.usableApplication r = some application)
    (htarget : r.target = some url)
    (hreaches : Reaches s.access.directory r application url resource tenant) :
    GrantedScope s r application scope ↔
      scope ∈ configuredScopes application resource ∧ scope ∈ resource.declaredScopes ∧
        PrincipalHolds s r application resource
          (contextOrganization r (some application) tenant) scope ∧
        Consented s r application resource scope := by
  constructor
  · rintro ⟨url', resource', organization, htarget', hfound, hconfigured, hdeclared, hnames, hrest⟩
    obtain rfl : url = url' := Option.some.inj (htarget.symm.trans htarget')
    obtain rfl : resource = resource' := Option.some.inj (hreaches.found.symm.trans hfound)
    obtain rfl := (namesOrganization_iff h hreaches.context).mp hnames
    exact ⟨hconfigured, hdeclared, hrest⟩
  · rintro ⟨hconfigured, hdeclared, hrest⟩
    exact ⟨url, resource, _, htarget, hreaches.found, hconfigured, hdeclared,
      (namesOrganization_iff h hreaches.context).mpr rfl, hrest⟩

theorem mem_consentOf {userId : Id} (huser : r.user = some userId) {targets : List String}
    (hscope : scope ∈ targets) : scope ∈ consentOf s application userId resource targets ↔
      Consented s r application resource scope := by
  unfold consentOf Consented
  simp only [huser, Option.some.injEq, forall_eq']
  cases application.consentRequired with
  | false => simpa using hscope
  | true =>
    cases s.findConsent application.id userId resource.id with
    | none => simp
    | some consent => simp

/-- The scopes that the filter returns. -/
theorem mem_filtered (happlication : s.usableApplication r = some application)
    (h : filterOAuthAccessTokenScopes r s = (.ok result, t)) :
    scope ∈ result ↔ scope ∈ r.scopes ∧ (IdentityScope r application scope ∨
      (scope ∉ oidcScopes ∧ GrantedScope s r application scope)) := by
  rw [filterOAuthAccessTokenScopes_eq_ok, happlication] at h
  obtain ⟨hadmits, hbranch⟩ := filterScopes_eq_ok.mp h
  have hidentity : scope ∈ r.requestedOidcScopes → scope ∈ application.oidcScopes :=
    hadmits.identity scope
  rw [mem_requestedOidcScopes] at hidentity
  unfold IdentityScope
  cases htarget : r.target with
  | none =>
    rw [htarget] at hbranch
    obtain ⟨-, hresult⟩ := filterIdentityScopes_eq_ok.mp hbranch
    have hnone : ¬GrantedScope s r application scope := by
      rintro ⟨url, _, _, htarget', -⟩
      rw [htarget] at htarget'
      exact nomatch htarget'
    cases huser : r.user with
    | none =>
      rw [huser] at hresult
      obtain ⟨rfl, -⟩ := hresult
      simp [hnone]
    | some userId =>
      rw [huser] at hresult
      obtain ⟨rfl, -⟩ := hresult
      rw [mem_requestedOidcScopes]
      simp only [Option.isSome_some, true_and, hnone, and_false, or_false]
      tauto
  | some url =>
    rw [htarget] at hbranch
    obtain ⟨resource, tenant, hreaches, -, hprincipal⟩ := filterResourceScopes_eq_ok.mp hbranch
    rw [grantedScope_iff happlication htarget hreaches]
    unfold PrincipalHolds contextOrganization
    cases huser : r.user with
    | none =>
      rw [huser] at hprincipal
      obtain ⟨effective, hok, rfl, -⟩ := filterApplicationScopes_eq_ok.mp hprincipal
      obtain ⟨scopes, hok', hmem⟩ := exec_applicationEffectiveResourceScopes s.access application.id
        application.ownerOrganizationId resource s.access.now
      obtain rfl : effective = scopes := by
        have heq := hok.symm.trans hok'
        simpa using heq
      rw [List.mem_filter, List.contains_iff_mem, hmem scope, mem_targetResourceScopes]
      simp only [Consented, huser, Option.isSome_none, Option.map_some, Option.some.injEq]
      simp
      tauto
    | some userId =>
      rw [huser] at hprincipal
      obtain ⟨effective, hok, rfl, -⟩ := filterUserScopes_eq_ok.mp hprincipal
      rcases exec_userEffectiveResourceScopes s.access userId resource s.access.now tenant with
        ⟨e, he, -⟩ | ⟨scopes, hok', -, hmem⟩
      · rw [hok] at he
        exact nomatch he
      obtain rfl : effective = scopes := by
        have heq := hok.symm.trans hok'
        simpa using heq
      have hconsent : scope ∈ targetResourceScopes r application resource →
          (scope ∈ consentOf s application userId resource
            (targetResourceScopes r application resource) ↔
              Consented s r application resource scope) := mem_consentOf huser
      simp only [List.mem_append, List.mem_filter, Bool.and_eq_true, List.contains_iff_mem,
        hmem scope, mem_requestedOidcScopes, Option.isSome_some, true_and]
      rw [mem_targetResourceScopes] at hconsent ⊢
      tauto

end Law

/-- The two states give a request the same authority: only consents that the Application does not
ask for may differ. -/
structure SameAuthority (r : TokenRequest) (s t : State) : Prop where
  access : t.access = s.access
  applications : t.applications = s.applications
  consents : ∀ application, s.findApplication r.applicationId = some application →
    application.consentRequired = true → ∀ userId resourceServerId,
      t.findConsent application.id userId resourceServerId =
        s.findConsent application.id userId resourceServerId

/-- A request of the same principal with other scopes, or under another grant. -/
def TokenRequest.again (r : TokenRequest) (scopes : List String) (grantType : Option String) :
    TokenRequest :=
  { r with scopes := scopes, grantType := grantType }

section Again

variable {r : TokenRequest} {application : Application} {resource : ApiResource} {userId : Id}
  {tenant : Option Id} {url : String} {s t u : State} {scopes result : List String}
  {grantType : Option String}

theorem SameAuthority.usable (h : SameAuthority r s t) :
    t.usableApplication r = s.usableApplication r := by
  unfold State.usableApplication State.findApplication
  rw [h.applications]

theorem SameAuthority.refl : SameAuthority r s s := ⟨rfl, rfl, fun _ _ _ _ _ => rfl⟩

/-- A recorded authorization is one that no consent decides. -/
theorem SameAuthority.recorded (happlication : s.findApplication r.applicationId = some application)
    (resourceServerId : Option Id) :
    SameAuthority r s (recorded application userId resourceServerId scopes s) := by
  unfold AccessTokens.recorded
  cases hconsent : application.consentRequired with
  | true => exact .refl
  | false =>
    have hkept :
        (s.recordPolicyAuthorization application.id userId resourceServerId scopes).access =
        s.access ∧ (s.recordPolicyAuthorization application.id userId resourceServerId
          scopes).applications = s.applications := by
      unfold State.recordPolicyAuthorization
      dsimp only
      split <;> exact ⟨rfl, rfl⟩
    refine ⟨hkept.1, hkept.2, fun other hother hrequired => ?_⟩
    obtain rfl : application = other := Option.some.inj (happlication.symm.trans hother)
    rw [hconsent] at hrequired
    exact nomatch hrequired

theorem SameAuthority.consentOf (h : SameAuthority r s t)
    (happlication : s.findApplication r.applicationId = some application) {targets : List String} :
    consentOf t application userId resource targets =
      consentOf s application userId resource targets := by
  unfold AccessTokens.consentOf
  cases hrequired : application.consentRequired with
  | true => rw [h.consents application happlication hrequired]
  | false => rfl

/-- The filter leaves the authority as it is. -/
theorem sameAuthority_of_filter (h : filterOAuthAccessTokenScopes r s = (.ok result, t)) :
    SameAuthority r s t := by
  rw [filterOAuthAccessTokenScopes_eq_ok] at h
  cases happlication : s.usableApplication r with
  | none =>
    rw [happlication] at h
    obtain ⟨-, rfl⟩ := h
    exact .refl
  | some application =>
    rw [happlication] at h
    have hfound := findApplication_of_usable happlication
    obtain ⟨-, hbranch⟩ := filterScopes_eq_ok.mp h
    cases htarget : r.target with
    | none =>
      rw [htarget] at hbranch
      obtain ⟨-, hresult⟩ := filterIdentityScopes_eq_ok.mp hbranch
      cases huser : r.user with
      | none =>
        rw [huser] at hresult
        obtain ⟨-, rfl⟩ := hresult
        exact .refl
      | some userId =>
        rw [huser] at hresult
        obtain ⟨-, rfl⟩ := hresult
        exact .recorded hfound _
    | some url =>
      rw [htarget] at hbranch
      obtain ⟨resource, tenant, -, -, hprincipal⟩ := filterResourceScopes_eq_ok.mp hbranch
      cases huser : r.user with
      | none =>
        rw [huser] at hprincipal
        obtain ⟨_, -, -, rfl⟩ := filterApplicationScopes_eq_ok.mp hprincipal
        exact .refl
      | some userId =>
        rw [huser] at hprincipal
        obtain ⟨_, -, -, rfl⟩ := filterUserScopes_eq_ok.mp hprincipal
        exact .recorded hfound _

/-- A list of OIDC scopes followed by targets is split into these again. -/
theorem again_parts {oidc : List String} (hoidc : ∀ x ∈ oidc, x ∈ oidcScopes)
    {kept : List String} (hkept : kept ⊆ targetResourceScopes r application resource)
    (grantType : Option String) :
    (r.again (oidc ++ kept) grantType).requestedOidcScopes = oidc ∧
      (r.again (oidc ++ kept) grantType).requestedResourceScopes = kept ∧
      targetResourceScopes (r.again (oidc ++ kept) grantType) application resource = kept := by
  have htarget : ∀ x ∈ kept, x ∉ oidcScopes ∧ x ∈ configuredScopes application resource ∧
      x ∈ resource.declaredScopes := fun x hx => (mem_targetResourceScopes.mp (hkept hx)).2
  have hfirst : (oidc ++ kept).filter oidcScopes.contains = oidc := by
    rw [List.filter_append, List.filter_eq_self.mpr fun x hx => by simpa using hoidc x hx,
      List.filter_eq_nil_iff.mpr fun x hx => by simpa using (htarget x hx).1, List.append_nil]
  have hsecond : (oidc ++ kept).filter (fun scope => !oidcScopes.contains scope) = kept := by
    rw [List.filter_append, List.filter_eq_nil_iff.mpr fun x hx => by simpa using hoidc x hx,
      List.filter_eq_self.mpr fun x hx => by simpa using (htarget x hx).1, List.nil_append]
  refine ⟨hfirst, hsecond, ?_⟩
  unfold targetResourceScopes TokenRequest.again TokenRequest.requestedResourceScopes
  rw [hsecond, List.filter_eq_self]
  intro x hx
  simp [(htarget x hx).2]

theorem Admits.again {d : Directory} (h : Admits d r application)
    (hscopes : ∀ x ∈ scopes, x ∈ oidcScopes → x ∈ r.scopes) :
    Admits d (r.again scopes grantType) application := by
  refine ⟨h.access, fun x hx => ?_⟩
  obtain ⟨hscope, hoidc⟩ := mem_requestedOidcScopes.mp hx
  exact h.identity x (mem_requestedOidcScopes.mpr ⟨hscopes x hscope hoidc, hoidc⟩)

theorem Reaches.again {d : Directory} (h : Reaches d r application url resource tenant) :
    Reaches d (r.again scopes grantType) application url resource tenant :=
  ⟨h.found, h.active, h.context, h.visible⟩

theorem SameAuthority.consented (h : SameAuthority r s t)
    (happlication : s.findApplication r.applicationId = some application) {scope : String}
    (hconsented : Consented s r application resource scope) :
    Consented t r application resource scope := by
  intro userId huser hrequired
  obtain ⟨consent, hfound, hscope⟩ := hconsented userId huser hrequired
  rw [← h.consents application happlication hrequired] at hfound
  exact ⟨consent, hfound, hscope⟩

/-- What the filter keeps for a user it keeps again, and comes to again from the first request. -/
theorem filterUserScopes_again (grantType : Option String) (hauthority : SameAuthority r s t)
    (huser : r.user = some userId)
    (happlication : s.findApplication r.applicationId = some application)
    (h : filterUserScopes r application resource tenant userId s = (.ok result, u)) :
    ∃ kept, kept ⊆ targetResourceScopes r application resource ∧
      result = r.requestedOidcScopes ++ kept ∧
      (∃ u', filterUserScopes (r.again result grantType) application resource tenant userId t =
        (.ok result, u')) ∧
      ∃ u', filterUserScopes (r.again r.scopes grantType) application resource tenant userId t =
        (.ok result, u') := by
  obtain ⟨effective, hok, hresult, -⟩ := filterUserScopes_eq_ok.mp h
  have hok' : (userEffectiveResourceScopes userId resource t.access.now (some tenant)).exec
      t.access = (.ok effective, t.access) := by
    rw [hauthority.access]
    exact hok
  generalize hfilter : ((targetResourceScopes r application resource).filter fun scope =>
    effective.contains scope && (consentOf s application userId resource
      (targetResourceScopes r application resource)).contains scope) = kept at hresult
  have hkept : kept ⊆ targetResourceScopes r application resource := by
    rw [← hfilter]
    exact List.filter_subset_self _
  refine ⟨kept, hkept, hresult.symm, ⟨_, filterUserScopes_eq_ok.mpr ⟨effective, hok', ?_, rfl⟩⟩,
    ⟨_, filterUserScopes_eq_ok.mpr ⟨effective, hok', ?_, rfl⟩⟩⟩
  · obtain ⟨hoidc, -, htargets⟩ := again_parts
      (fun x hx => (mem_requestedOidcScopes.mp hx).2) hkept grantType
    rw [← hresult, hoidc, htargets, List.append_cancel_left_eq, List.filter_eq_self]
    intro x hx
    rw [← hfilter, List.mem_filter, Bool.and_eq_true, List.contains_iff_mem,
      List.contains_iff_mem] at hx
    have hconsented := hauthority.consented happlication ((mem_consentOf huser hx.1).mp hx.2.2)
    have hmem : x ∈ kept := by
      rw [← hfilter]
      simp [hx]
    rw [Bool.and_eq_true, List.contains_iff_mem, List.contains_iff_mem]
    exact ⟨hx.2.1, (mem_consentOf huser hmem).mpr hconsented⟩
  · rw [hauthority.consentOf happlication, ← hresult, ← hfilter]
    rfl

/-- What the filter keeps for an Application it keeps again, and comes to again. -/
theorem filterApplicationScopes_again (hauthority : SameAuthority r s t)
    (h : filterApplicationScopes r application resource s = (.ok result, u)) :
    result ⊆ targetResourceScopes r application resource ∧
      (∃ u', filterApplicationScopes (r.again result grantType) application resource t =
        (.ok result, u')) ∧
      ∃ u', filterApplicationScopes (r.again r.scopes grantType) application resource t =
        (.ok result, u') := by
  obtain ⟨effective, hok, hresult, -⟩ := filterApplicationScopes_eq_ok.mp h
  have hok' : (applicationEffectiveResourceScopes application.id application.ownerOrganizationId
      resource t.access.now).exec t.access = (.ok effective, t.access) := by
    rw [hauthority.access]
    exact hok
  have hkept : result ⊆ targetResourceScopes r application resource := by
    rw [← hresult]
    exact List.filter_subset_self _
  refine ⟨hkept, ⟨_, filterApplicationScopes_eq_ok.mpr ⟨effective, hok', ?_, rfl⟩⟩,
    ⟨_, filterApplicationScopes_eq_ok.mpr ⟨effective, hok', hresult, rfl⟩⟩⟩
  obtain ⟨-, -, htargets⟩ := again_parts
    (fun x (hx : x ∈ ([] : List String)) => nomatch hx) hkept grantType
  rw [List.nil_append] at htargets
  rw [htargets, List.filter_eq_self]
  intro x hx
  rw [← hresult, List.mem_filter] at hx
  exact hx.2

theorem filterIdentityScopes_again
    (h : filterIdentityScopes r application s = (.ok result, u)) :
    (∃ u', filterIdentityScopes (r.again result grantType) application t = (.ok result, u')) ∧
      ∃ u', filterIdentityScopes (r.again r.scopes grantType) application t = (.ok result, u') := by
  obtain ⟨hnone, hresult⟩ := filterIdentityScopes_eq_ok.mp h
  have hagain : ∀ scopes, (r.again scopes grantType).user = r.user := fun _ => rfl
  simp only [filterIdentityScopes_eq_ok, hagain]
  cases huser : r.user with
  | none =>
    rw [huser] at hresult
    obtain ⟨rfl, -⟩ := hresult
    exact ⟨⟨_, rfl, rfl, rfl⟩, ⟨_, hnone, rfl, rfl⟩⟩
  | some userId =>
    rw [huser] at hresult
    obtain ⟨rfl, -⟩ := hresult
    have hresources : (r.again r.requestedOidcScopes grantType).requestedResourceScopes = [] := by
      unfold TokenRequest.requestedResourceScopes
      rw [List.filter_eq_nil_iff]
      intro x hx
      simpa using (mem_requestedOidcScopes.mp hx).2
    have hidentity : (r.again r.requestedOidcScopes grantType).requestedOidcScopes =
        r.requestedOidcScopes := by
      unfold TokenRequest.again TokenRequest.requestedOidcScopes
      rw [List.filter_eq_self]
      intro x hx
      exact (List.mem_filter.mp hx).2
    exact ⟨⟨_, hresources, hidentity, rfl⟩, ⟨_, hnone, rfl, rfl⟩⟩

theorem filterResourceScopes_again (hauthority : SameAuthority r s t)
    (happlication : s.findApplication r.applicationId = some application)
    (h : filterResourceScopes r application url s = (.ok result, u)) :
    (∃ u', filterResourceScopes (r.again result grantType) application url t =
      (.ok result, u')) ∧
      ∃ u', filterResourceScopes (r.again r.scopes (some "refresh_token")) application url t =
        (.ok result, u') := by
  obtain ⟨resource, tenant, hreaches, -, hprincipal⟩ := filterResourceScopes_eq_ok.mp h
  have hagain : ∀ scopes g, (r.again scopes g).user = r.user := fun _ _ => rfl
  have hinteractive : (r.again r.scopes (some "refresh_token")).interactive = true := rfl
  simp only [filterResourceScopes_eq_ok, hauthority.access, hagain]
  cases huser : r.user with
  | none =>
    rw [huser] at hprincipal
    obtain ⟨hkept, ⟨u₁, hresult⟩, ⟨u₂, hfirst⟩⟩ :=
      filterApplicationScopes_again hauthority hprincipal
    obtain ⟨-, hrequested, htargets⟩ := again_parts
      (fun x (hx : x ∈ ([] : List String)) => nomatch hx) hkept grantType
    rw [List.nil_append] at hrequested htargets
    exact ⟨⟨u₁, resource, tenant, hreaches.again, .inr (by rw [hrequested, htargets]), hresult⟩,
      ⟨u₂, resource, tenant, hreaches.again, .inl hinteractive, hfirst⟩⟩
  | some userId =>
    rw [huser] at hprincipal
    obtain ⟨kept, hkept, hsplit, ⟨u₁, hresult⟩, -⟩ :=
      filterUserScopes_again grantType hauthority huser happlication hprincipal
    obtain ⟨-, -, -, -, ⟨u₂, hfirst⟩⟩ :=
      filterUserScopes_again (some "refresh_token") hauthority huser happlication hprincipal
    obtain ⟨-, hrequested, htargets⟩ := again_parts
      (fun x hx => (mem_requestedOidcScopes.mp hx).2) hkept grantType
    rw [← hsplit] at hrequested htargets
    exact ⟨⟨u₁, resource, tenant, hreaches.again, .inr (by rw [hrequested, htargets]), hresult⟩,
      ⟨u₂, resource, tenant, hreaches.again, .inl hinteractive, hfirst⟩⟩

/-- In states of the same authority, filtering the result again returns it, and so does a refresh
of the first request. -/
theorem filter_again (grantType : Option String) (hauthority : SameAuthority r s t)
    (h : filterOAuthAccessTokenScopes r s = (.ok result, u)) :
    (∃ u', filterOAuthAccessTokenScopes (r.again result grantType) t = (.ok result, u')) ∧
      ∃ u', filterOAuthAccessTokenScopes (r.again r.scopes (some "refresh_token")) t =
        (.ok result, u') := by
  simp only [filterOAuthAccessTokenScopes_eq_ok] at h ⊢
  have husable : ∀ scopes g, t.usableApplication (r.again scopes g) = s.usableApplication r :=
    fun _ _ => hauthority.usable
  rw [husable, husable]
  cases happlication : s.usableApplication r with
  | none =>
    rw [happlication] at h
    exact ⟨⟨_, h.1, rfl⟩, ⟨_, h.1, rfl⟩⟩
  | some application =>
    rw [happlication] at h
    have hfound := findApplication_of_usable happlication
    obtain ⟨hadmits, hbranch⟩ := filterScopes_eq_ok.mp h
    have hsubset : ∀ x ∈ result, x ∈ r.scopes := fun x hx =>
      ((mem_filtered happlication (filterOAuthAccessTokenScopes_eq_ok.mpr
        (by rw [happlication]; exact h))).mp hx).1
    simp only [filterScopes_eq_ok, hauthority.access]
    have hadmits₁ : Admits s.access.directory (r.again result grantType) application :=
      hadmits.again fun x hx _ => hsubset x hx
    have hadmits₂ : Admits s.access.directory (r.again r.scopes (some "refresh_token"))
      application := hadmits.again fun _ hx _ => hx
    simp only [hadmits₁, hadmits₂, true_and]
    have htarget : ∀ scopes g, (r.again scopes g).target = r.target := fun _ _ => rfl
    rw [htarget, htarget]
    cases hresource : r.target with
    | none =>
      rw [hresource] at hbranch
      exact ⟨(filterIdentityScopes_again hbranch).1, (filterIdentityScopes_again hbranch).2⟩
    | some url =>
      rw [hresource] at hbranch
      exact filterResourceScopes_again hauthority hfound hbranch

end Again

/-- One filter returned scopes and another one, in any state, filtered them on. -/
def Refiltered (scopes filtered : List String) : Prop :=
  ∃ r s t, filterOAuthAccessTokenScopes r s = (.ok filtered, t) ∧ r.scopes = scopes

theorem filtered_subset {r : TokenRequest} {s t : State} {result : List String}
    (h : filterOAuthAccessTokenScopes r s = (.ok result, t)) : result ⊆ r.scopes := by
  intro scope hscope
  cases happlication : s.usableApplication r with
  | none =>
    rw [filterOAuthAccessTokenScopes_eq_ok, happlication] at h
    obtain ⟨rfl, -⟩ := h
    exact nomatch hscope
  | some application => exact ((mem_filtered happlication h).mp hscope).1

theorem refiltered_subset {scopes final : List String}
    (h : Relation.ReflTransGen Refiltered scopes final) : final ⊆ scopes := by
  induction h with
  | refl => exact List.Subset.refl _
  | tail _ hlast ih =>
    obtain ⟨r, s, t, hfilter, rfl⟩ := hlast
    exact fun scope hscope => ih (filtered_subset hfilter hscope)

/-- The scopes that the filter returns are the OIDC scopes which the Application may use for a user
and the other requested scopes that are granted at the resource. Filtering them again, and
refreshing the first request, returns them while the authority stays; filtering them on, in any
states, only removes some. -/
theorem accessTokenScopes_lawful {r : TokenRequest} {s s' : State} {result : List String}
    (h : filterOAuthAccessTokenScopes r s = (.ok result, s')) :
    (s.usableApplication r = none → result = []) ∧
    (∀ application, s.usableApplication r = some application → ∀ scope,
      scope ∈ result ↔ scope ∈ r.scopes ∧ (IdentityScope r application scope ∨
        (scope ∉ oidcScopes ∧ GrantedScope s r application scope))) ∧
    SameAuthority r s s' ∧
    (∀ t, SameAuthority r s t →
      (∀ grantType, ∃ t', filterOAuthAccessTokenScopes (r.again result grantType) t =
        (.ok result, t')) ∧
      ∃ t', createUserTokens (r.again r.scopes (some "refresh_token")) t =
        (.ok ⟨r.scopes.filter result.contains, r.scopes⟩, t')) ∧
    ∀ final, Relation.ReflTransGen Refiltered result final → final ⊆ result := by
  refine ⟨fun hnone => ?_, fun application happlication scope => mem_filtered happlication h,
    sameAuthority_of_filter h, fun t hauthority => ⟨fun grantType => ?_, ?_⟩,
    fun final => refiltered_subset⟩
  · rw [filterOAuthAccessTokenScopes_eq_ok, hnone] at h
    exact h.1.symm
  · exact (filter_again grantType hauthority h).1
  · obtain ⟨t', hfilter⟩ := (filter_again none hauthority h).2
    exact ⟨t', bind_of_ok hfilter⟩

namespace Sample

/-- A registry with an automatic scope that is named like an OIDC scope. -/
def notes : ApiResource :=
  { FlareAuth.Sample.notes with
    scopeRegistry := some [⟨"groups", .automatic⟩, ⟨"write", .assigned⟩] }

def application : Application where
  id := "app"
  oauthClientId := "client"
  ownerOrganizationId := "o"
  visibility := .publicResource
  disabled := false
  consentRequired := true
  oidcScopes := ["openid", "groups"]
  resourceScopes := [⟨"notes", ["groups", "write"]⟩]
  corsOrigins := []
  tokenExchangePolicies := []

def store : Store :=
  { FlareAuth.Sample.store with
    directory := { FlareAuth.Sample.directory with
      organizations := [⟨"o", "o", false⟩]
      resources := [notes] } }

def state : State where
  access := store
  applications := ⟨[application], List.nodup_singleton _⟩
  consents := [⟨"c", "app", "u", some "notes", ["write"], .userConsent, 0, none⟩]
  teamMembers := []
  generated := 0

/-- The same state after the user was granted the assigned scope. -/
def entitled : State :=
  { state with access := { store with
      entitlements := [⟨"e", .user "u" none, "notes", none, [], sha256 "", "write", .persistent,
        .user "u", none, none, 0⟩] } }

def machine : TokenRequest :=
  ⟨none, ["groups"], some "https://notes", none, some "app", some "client_credentials"⟩

def signIn : TokenRequest :=
  ⟨some "u", ["openid", "write"], some "https://notes", some "user:u", some "app",
    some "authorization_code"⟩

theorem machine_granted : GrantedScope state machine application "groups" := by
  refine ⟨"https://notes", notes, some "o", rfl, rfl, by decide, by decide, fun scopes => ?_,
    ⟨"o", rfl, by decide, .inl (by decide)⟩, fun _ huser => nomatch huser⟩
  exact ⟨_, rfl, rfl⟩

end Sample

theorem accessTokenScopes_lawful_entitled :
    (∃ s', filterOAuthAccessTokenScopes Sample.signIn Sample.entitled =
      (.ok ["openid", "write"], s')) ∧
    GrantedScope Sample.entitled Sample.signIn Sample.application "write" := by
  have hok : filterOAuthAccessTokenScopes Sample.signIn Sample.entitled =
    (.ok ["openid", "write"], Sample.entitled) := rfl
  have hlaw := (accessTokenScopes_lawful hok).2.1 Sample.application rfl "write"
  obtain ⟨-, hidentity | ⟨-, hgranted⟩⟩ := hlaw.mp (by decide)
  · exact absurd hidentity.2.1 (by decide)
  · exact ⟨⟨_, hok⟩, hgranted⟩

/-- A scope that is configured, declared and held may stay out of the Application's token because
of its name, and a refresh may return a scope that the first token did not have. -/
theorem granted_scope_withheld :
    (filterOAuthAccessTokenScopes Sample.machine Sample.state = (.ok [], Sample.state) ∧
      "groups" ∈ Sample.machine.scopes ∧
      GrantedScope Sample.state Sample.machine Sample.application "groups") ∧
    createUserTokens Sample.signIn Sample.state =
      (.ok ⟨["openid"], ["openid", "write"]⟩, Sample.state) ∧
    createUserTokens (Sample.signIn.again ["openid", "write"] (some "refresh_token"))
      Sample.entitled = (.ok ⟨["openid", "write"], ["openid", "write"]⟩, Sample.entitled) :=
  ⟨⟨rfl, by decide, Sample.machine_granted⟩, rfl, rfl⟩

end FlareAuth.AccessTokens
