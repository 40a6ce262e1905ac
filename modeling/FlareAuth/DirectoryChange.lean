import FlareAuth.Directory

/-!
# Changes of the directory

Administration changes the directory at any time. Rows of the tables that
deletion never reaches are written one by one, and only if they keep the columns
which no operation rewrites; the remaining tables may be replaced as a whole.
-/

namespace FlareAuth

open Relational

def AgentIdentity.keeps (old new : AgentIdentity) : Bool :=
  old.issuer == new.issuer && old.subject == new.subject && old.ownerUserId == new.ownerUserId &&
    (!old.deletedAt.isSome || new.deletedAt.isSome)

def AgentBinding.keeps (old new : AgentBinding) : Bool :=
  old.agentIdentityId == new.agentIdentityId

def ApiResource.keeps (old new : ApiResource) : Bool :=
  old.identifier == new.identifier && old.authorizationModel == new.authorizationModel &&
    (!old.deletedAt.isSome || new.deletedAt.isSome)

def ProviderResourceAuthorization.keeps (old new : ProviderResourceAuthorization) : Bool :=
  old.providerConnectionId == new.providerConnectionId && old.resourceId == new.resourceId

inductive DirectoryChange where
  | users (rows : List User)
  | accounts (rows : List LinkedAccount)
  | organizations (rows : List Organization)
  | members (rows : List Member)
  | organizationRoles (rows : List OrganizationRole)
  | connectors (rows : List Connector)
  | providerConnections (rows : List ProviderConnection)
  | credentials (rows : List ProviderCredential)
  | resource (row : ApiResource)
  | authorization (row : ProviderResourceAuthorization)
  | identity (row : AgentIdentity)
  | binding (row : AgentBinding)

namespace Directory

/-- The unique indexes on the identifier and the URL of a resource that is not deleted. -/
def resourceConflict (d : Directory) (row : ApiResource) : Bool :=
  row.deletedAt == none && d.resources.any fun r =>
    r.id != row.id && r.deletedAt == none &&
      (r.identifier == row.identifier || r.resourceUrl == row.resourceUrl)

def identityConflict (d : Directory) (row : AgentIdentity) : Bool :=
  d.identities.any fun i => i.id != row.id && i.issuer == row.issuer && i.subject == row.subject

def change (d : Directory) : DirectoryChange → Directory
  | .users rows => { d with users := rows }
  | .accounts rows => { d with accounts := rows }
  | .organizations rows => { d with organizations := rows }
  | .members rows => { d with members := rows }
  | .organizationRoles rows => { d with organizationRoles := rows }
  | .connectors rows => { d with connectors := rows }
  | .providerConnections rows => { d with providerConnections := rows }
  | .credentials rows => { d with credentials := rows }
  | .resource row =>
    if d.resourceConflict row then d
    else { d with resources := put ApiResource.id ApiResource.keeps row d.resources }
  | .authorization row =>
    let rows := put ProviderResourceAuthorization.id ProviderResourceAuthorization.keeps row
      d.authorizations
    { d with authorizations := rows }
  | .identity row =>
    if d.identityConflict row then d
    else { d with identities := put AgentIdentity.id AgentIdentity.keeps row d.identities }
  | .binding row => { d with bindings := put AgentBinding.id AgentBinding.keeps row d.bindings }

end Directory

structure AgentIdentity.Persists (old new : AgentIdentity) : Prop where
  id : new.id = old.id
  issuer : new.issuer = old.issuer
  subject : new.subject = old.subject
  ownerUserId : new.ownerUserId = old.ownerUserId
  deleted : old.deletedAt.isSome → new.deletedAt.isSome

structure AgentBinding.Persists (old new : AgentBinding) : Prop where
  id : new.id = old.id
  agentIdentityId : new.agentIdentityId = old.agentIdentityId

structure ApiResource.Persists (old new : ApiResource) : Prop where
  id : new.id = old.id
  identifier : new.identifier = old.identifier
  authorizationModel : new.authorizationModel = old.authorizationModel
  deleted : old.deletedAt.isSome → new.deletedAt.isSome

structure ProviderResourceAuthorization.Persists (old new : ProviderResourceAuthorization) :
    Prop where
  id : new.id = old.id
  providerConnectionId : new.providerConnectionId = old.providerConnectionId
  resourceId : new.resourceId = old.resourceId

theorem AgentIdentity.Persists.refl (i : AgentIdentity) : i.Persists i :=
  ⟨rfl, rfl, rfl, rfl, fun h => h⟩

theorem AgentIdentity.Persists.trans {i j k : AgentIdentity} (h : i.Persists j)
    (h' : j.Persists k) : i.Persists k :=
  ⟨h'.id.trans h.id, h'.issuer.trans h.issuer, h'.subject.trans h.subject,
    h'.ownerUserId.trans h.ownerUserId, fun hd => h'.deleted (h.deleted hd)⟩

theorem AgentIdentity.persists_of_keeps {old new : AgentIdentity} (hid : old.id = new.id)
    (h : old.keeps new = true) : old.Persists new := by
  simp only [AgentIdentity.keeps, Bool.and_eq_true, Bool.or_eq_true, Bool.not_eq_true',
    beq_iff_eq] at h
  refine ⟨hid.symm, h.1.1.1.symm, h.1.1.2.symm, h.1.2.symm, fun hd => ?_⟩
  rcases h.2 with hn | hs
  · rw [hd] at hn
    cases hn
  · exact hs

theorem AgentBinding.Persists.refl (b : AgentBinding) : b.Persists b := ⟨rfl, rfl⟩

theorem AgentBinding.Persists.trans {a b c : AgentBinding} (h : a.Persists b)
    (h' : b.Persists c) : a.Persists c :=
  ⟨h'.id.trans h.id, h'.agentIdentityId.trans h.agentIdentityId⟩

theorem AgentBinding.persists_of_keeps {old new : AgentBinding} (hid : old.id = new.id)
    (h : old.keeps new = true) : old.Persists new :=
  ⟨hid.symm, (beq_iff_eq.mp h).symm⟩

theorem ApiResource.Persists.refl (r : ApiResource) : r.Persists r :=
  ⟨rfl, rfl, rfl, fun h => h⟩

theorem ApiResource.Persists.trans {a b c : ApiResource} (h : a.Persists b)
    (h' : b.Persists c) : a.Persists c :=
  ⟨h'.id.trans h.id, h'.identifier.trans h.identifier,
    h'.authorizationModel.trans h.authorizationModel, fun hd => h'.deleted (h.deleted hd)⟩

theorem ApiResource.persists_of_keeps {old new : ApiResource} (hid : old.id = new.id)
    (h : old.keeps new = true) : old.Persists new := by
  simp only [ApiResource.keeps, Bool.and_eq_true, Bool.or_eq_true, Bool.not_eq_true',
    beq_iff_eq] at h
  refine ⟨hid.symm, h.1.1.symm, h.1.2.symm, fun hd => ?_⟩
  rcases h.2 with hn | hs
  · rw [hd] at hn
    cases hn
  · exact hs

theorem ProviderResourceAuthorization.Persists.refl (a : ProviderResourceAuthorization) :
    a.Persists a := ⟨rfl, rfl, rfl⟩

theorem ProviderResourceAuthorization.Persists.trans {a b c : ProviderResourceAuthorization}
    (h : a.Persists b) (h' : b.Persists c) : a.Persists c :=
  ⟨h'.id.trans h.id, h'.providerConnectionId.trans h.providerConnectionId,
    h'.resourceId.trans h.resourceId⟩

theorem ProviderResourceAuthorization.persists_of_keeps
    {old new : ProviderResourceAuthorization} (hid : old.id = new.id)
    (h : old.keeps new = true) : old.Persists new := by
  simp only [ProviderResourceAuthorization.keeps, Bool.and_eq_true, beq_iff_eq] at h
  exact ⟨hid.symm, h.1.symm, h.2.symm⟩

namespace Directory

/-- What every operation leaves of a directory. -/
structure Persists (d d' : Directory) : Prop where
  resources : Evolves ApiResource.Persists d.resources d'.resources
  authorizations :
    Evolves ProviderResourceAuthorization.Persists d.authorizations d'.authorizations
  identities : Evolves AgentIdentity.Persists d.identities d'.identities
  bindings : Evolves AgentBinding.Persists d.bindings d'.bindings

theorem Persists.refl (d : Directory) : d.Persists d :=
  ⟨.refl .refl _, .refl .refl _, .refl .refl _, .refl .refl _⟩

theorem Persists.trans {d e f : Directory} (h : d.Persists e) (h' : e.Persists f) :
    d.Persists f :=
  ⟨h.resources.trans (fun _ _ _ => .trans) h'.resources,
    h.authorizations.trans (fun _ _ _ => .trans) h'.authorizations,
    h.identities.trans (fun _ _ _ => .trans) h'.identities,
    h.bindings.trans (fun _ _ _ => .trans) h'.bindings⟩

theorem Persists.of_eq {d d' : Directory} (hr : d'.resources = d.resources)
    (ha : d'.authorizations = d.authorizations) (hi : d'.identities = d.identities)
    (hb : d'.bindings = d.bindings) : d.Persists d' := by
  constructor
  · rw [hr]
    exact .refl .refl _
  · rw [ha]
    exact .refl .refl _
  · rw [hi]
    exact .refl .refl _
  · rw [hb]
    exact .refl .refl _

theorem persists_change (d : Directory) (c : DirectoryChange) : d.Persists (d.change c) := by
  cases c with
  | resource row =>
    simp only [change]
    split
    · exact .refl d
    · refine ⟨.put .refl row ?_ _, .refl .refl _, .refl .refl _, .refl .refl _⟩
      exact fun r hid h => ApiResource.persists_of_keeps hid h
  | authorization row =>
    refine ⟨.refl .refl _, .put .refl row ?_ _, .refl .refl _, .refl .refl _⟩
    exact fun r hid h => ProviderResourceAuthorization.persists_of_keeps hid h
  | identity row =>
    simp only [change]
    split
    · exact .refl d
    · refine ⟨.refl .refl _, .refl .refl _, .put .refl row ?_ _, .refl .refl _⟩
      exact fun r hid h => AgentIdentity.persists_of_keeps hid h
  | binding row =>
    refine ⟨.refl .refl _, .refl .refl _, .refl .refl _, .put .refl row ?_ _⟩
    exact fun r hid h => AgentBinding.persists_of_keeps hid h
  | users | accounts | organizations | members | organizationRoles | connectors
  | providerConnections | credentials => exact .of_eq rfl rfl rfl rfl

end Directory

end FlareAuth
