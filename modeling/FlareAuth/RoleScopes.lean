import FlareAuth.Directory
import FlareAuth.Web.UriComponents

/-!
# Scopes of organization roles

A role stores each of its scopes as a text: the resource and the scope, both encoded as
components, around a slash. The removals read that text in two ways: through the decoder,
and by comparing its beginning with the encoded resource.
-/

namespace FlareAuth.RoleScopes

open Web

structure RoleScope where
  resourceId : String
  scope : String
  deriving DecidableEq

def encodeRoleScope (resourceId scope : String) : String :=
  encodeURIComponent resourceId ++ "/" ++ encodeURIComponent scope

def decodeRoleScope (value : String) : Option RoleScope :=
  let resourceId := value.toList.takeWhile (· != '/')
  match value.toList.dropWhile (· != '/') with
  | [] => none
  | _ :: scope =>
    if resourceId = [] ∨ scope = [] then none
    else do
      let resourceId ← decodeURIComponent (String.ofList resourceId)
      let scope ← decodeURIComponent (String.ofList scope)
      return ⟨resourceId, scope⟩

structure Permission where
  scope : Option (List String)
  others : List (String × List String)

structure OrganizationRole where
  id : Id
  organizationId : Id
  role : String
  permission : Permission
  updatedAt : ℕ

def OrganizationRole.encodedScopes (role : OrganizationRole) : List String :=
  role.permission.scope.getD []

def OrganizationRole.setScopes (scopes : List String) (now : ℕ) (role : OrganizationRole) :
    OrganizationRole :=
  { role with permission := { role.permission with scope := some scopes }, updatedAt := now }

/-- The decoder of stored permissions is `decodeRoleScope`, written out a second time. -/
def decodePermissionScopes (permission : Permission) : List RoleScope :=
  (permission.scope.getD []).flatMap fun value => (decodeRoleScope value).toList

section Removals

/-- The comparison of the database: the beginning of the text against the encoded resource. -/
def hasPrefix (id : Id) (value : String) : Bool :=
  let encodedRoleScopePrefix := encodeURIComponent id ++ "/"
  value.toList.take encodedRoleScopePrefix.toList.length == encodedRoleScopePrefix.toList

def deleteResourceScopes (id : Id) (now : ℕ) (role : OrganizationRole) : OrganizationRole :=
  if role.encodedScopes.any (hasPrefix id) then
    role.setScopes (role.encodedScopes.filter fun value => !hasPrefix id value) now
  else role

/-- Entries that decode to a scope of the resource. -/
def isOf (id : Id) (value : String) : Bool :=
  (decodeRoleScope value).any fun decoded => decoded.resourceId == id

/-- An update that makes the resource private to the organization. -/
def updateResourceScopes (id ownerOrganizationId : Id) (now : ℕ) (role : OrganizationRole) :
    OrganizationRole :=
  if role.organizationId = ownerOrganizationId then role
  else
    let scopes := role.encodedScopes.filter fun value => !isOf id value
    if scopes.length ≠ role.encodedScopes.length then role.setScopes scopes now else role

def keepAssigned (id : Id) (assigned : List String) (value : String) : Option String :=
  match decodeRoleScope value with
  | none => some value
  | some decoded =>
    if decoded.resourceId ≠ id then some value
    else if decoded.scope ∈ assigned then some (encodeRoleScope id decoded.scope)
    else none

def replaceDiscoveryScopes (id : Id) (assigned : List String) (now : ℕ) (role : OrganizationRole) :
    OrganizationRole :=
  let scopes := role.encodedScopes.filterMap (keepAssigned id assigned)
  if scopes.length ≠ role.encodedScopes.length then role.setScopes scopes now else role

end Removals

section Codec

theorem toList_encodeRoleScope (resourceId scope : String) :
    (encodeRoleScope resourceId scope).toList =
      (encodeURIComponent resourceId).toList ++ '/' :: (encodeURIComponent scope).toList := by
  simp [encodeRoleScope]

/-- What stands before the first slash, and what follows. -/
theorem split_at_slash {cs : List Char} (h : '/' ∉ cs) (rest : List Char) :
    (cs ++ '/' :: rest).takeWhile (· != '/') = cs ∧
      (cs ++ '/' :: rest).dropWhile (· != '/') = '/' :: rest := by
  have hall : ∀ c ∈ cs, (c != '/') = true := by
    intro c hc
    rw [bne_iff_ne]
    rintro rfl
    exact h hc
  constructor
  · rw [List.takeWhile_append_of_pos hall]
    simp
  · rw [List.dropWhile_append_of_pos hall]
    simp

theorem decode_encodeRoleScope {resourceId scope : String} (hresource : resourceId ≠ "")
    (hscope : scope ≠ "") :
    decodeRoleScope (encodeRoleScope resourceId scope) = some ⟨resourceId, scope⟩ := by
  obtain ⟨hbefore, hafter⟩ := split_at_slash (slash_not_mem_encode resourceId)
    (encodeURIComponent scope).toList
  rw [decodeRoleScope, toList_encodeRoleScope, hbefore, hafter]
  have hne : ¬((encodeURIComponent resourceId).toList = [] ∨
      (encodeURIComponent scope).toList = []) :=
    not_or.mpr ⟨encode_ne_nil hresource, encode_ne_nil hscope⟩
  dsimp only
  rw [if_neg hne, String.ofList_toList, String.ofList_toList, decode_encode, decode_encode]
  rfl

/-- A text that begins with the encoded resource and a slash has that resource before its first
slash. -/
theorem resourceId_of_hasPrefix {id : Id} {value : String} (h : hasPrefix id value = true)
    {decoded : RoleScope} (hdecoded : decodeRoleScope value = some decoded) :
    decoded.resourceId = id := by
  have htake : value.toList.take (encodeURIComponent id ++ "/").toList.length =
      (encodeURIComponent id ++ "/").toList := by
    simpa [hasPrefix] using h
  have hlist : value.toList = (encodeURIComponent id).toList ++ '/' ::
      value.toList.drop (encodeURIComponent id ++ "/").toList.length := by
    conv_lhs => rw [
      ← List.take_append_drop (encodeURIComponent id ++ "/").toList.length value.toList,
      htake]
    simp
  obtain ⟨hbefore, hafter⟩ := split_at_slash (slash_not_mem_encode id)
    (value.toList.drop (encodeURIComponent id ++ "/").toList.length)
  rw [← hlist] at hbefore hafter
  rw [decodeRoleScope, hbefore, hafter] at hdecoded
  dsimp only at hdecoded
  split_ifs at hdecoded
  obtain ⟨resourceId, hresource, hdecoded⟩ := Option.bind_eq_some_iff.mp hdecoded
  obtain ⟨scope, _, hdecoded⟩ := Option.bind_eq_some_iff.mp hdecoded
  rw [String.ofList_toList, decode_encode] at hresource
  obtain rfl := Option.some.inj hresource
  obtain rfl := Option.some.inj hdecoded
  rfl

theorem hasPrefix_encodeRoleScope (resourceId scope : String) :
    hasPrefix resourceId (encodeRoleScope resourceId scope) = true := by
  have hlist : (encodeRoleScope resourceId scope).toList =
      (encodeURIComponent resourceId ++ "/").toList ++ (encodeURIComponent scope).toList := by
    simp [encodeRoleScope]
  rw [hasPrefix, hlist, List.take_left]
  exact beq_self_eq_true _

end Codec

namespace RoleScope

/-- Neither part is empty, as is true of every scope of a resource. -/
def Encodable (x : RoleScope) : Prop := x.resourceId ≠ "" ∧ x.scope ≠ ""

def encode (x : RoleScope) : String := encodeRoleScope x.resourceId x.scope

variable {x : RoleScope}

theorem decode_encode (h : x.Encodable) : decodeRoleScope x.encode = some x :=
  decode_encodeRoleScope h.1 h.2

theorem hasPrefix_encode (h : x.Encodable) (id : Id) :
    hasPrefix id x.encode = (x.resourceId == id) := by
  by_cases hid : x.resourceId = id
  · subst hid
    rw [beq_self_eq_true]
    exact hasPrefix_encodeRoleScope x.resourceId x.scope
  · rw [beq_false_of_ne hid, Bool.eq_false_iff]
    exact fun hstart => hid (resourceId_of_hasPrefix hstart (decode_encode h))

theorem isOf_encode (h : x.Encodable) (id : Id) : isOf id x.encode = (x.resourceId == id) := by
  rw [isOf, decode_encode h, Option.any_some]

theorem keepAssigned_encode (h : x.Encodable) (id : Id) (assigned : List String) :
    keepAssigned id assigned x.encode =
      if x.resourceId = id ∧ x.scope ∉ assigned then none else some x.encode := by
  rw [keepAssigned, decode_encode h]
  by_cases hid : x.resourceId = id
  · by_cases hscope : x.scope ∈ assigned
    · simp [hid, hscope, encode]
    · simp [hid, hscope]
  · simp [hid]

end RoleScope

section Lists

variable {xs : List RoleScope} (hxs : ∀ x ∈ xs, x.Encodable)

include hxs

theorem decode_scopes : (xs.map RoleScope.encode).flatMap (fun v => (decodeRoleScope v).toList) =
    xs := by
  induction xs with
  | nil => rfl
  | cons x xs ih =>
    have hx := RoleScope.decode_encode (hxs x List.mem_cons_self)
    have hrest := ih fun y hy => hxs y (List.mem_cons_of_mem _ hy)
    rw [List.map_cons, List.flatMap_cons, hx, hrest]
    rfl

/-- A filter of the texts that knows the resource of each is a filter of the scopes. -/
theorem filter_encoded {p : String → Bool} {q : RoleScope → Bool}
    (h : ∀ x : RoleScope, x.Encodable → p x.encode = q x) :
    (xs.map RoleScope.encode).filter p = (xs.filter q).map RoleScope.encode := by
  rw [List.filter_map]
  congr 1
  exact List.filter_congr fun x hx => h x (hxs x hx)

theorem filterMap_encoded (id : Id) (assigned : List String) :
    (xs.map RoleScope.encode).filterMap (keepAssigned id assigned) =
      (xs.filter fun x => x.resourceId != id || assigned.contains x.scope).map RoleScope.encode
      := by
  induction xs with
  | nil => rfl
  | cons x xs ih =>
    have hx := RoleScope.keepAssigned_encode (hxs x List.mem_cons_self) id assigned
    have hrest := ih fun y hy => hxs y (List.mem_cons_of_mem _ hy)
    rw [List.map_cons, List.filterMap_cons, hx, hrest, List.filter_cons]
    by_cases hid : x.resourceId = id
    · by_cases hscope : x.scope ∈ assigned
      · simp [hid, hscope]
      · simp [hid, hscope]
    · simp [hid]

end Lists

section Roles

variable {role : OrganizationRole}

@[simp] theorem encodedScopes_setScopes (scopes : List String) (now : ℕ) :
    (role.setScopes scopes now).encodedScopes = scopes := rfl

theorem encodedScopes_delete (id : Id) (now : ℕ) :
    (deleteResourceScopes id now role).encodedScopes =
    role.encodedScopes.filter fun value => !hasPrefix id value := by
  unfold deleteResourceScopes
  split
  · rfl
  · rename_i hnone
    rw [List.filter_eq_self.mpr]
    intro value hvalue
    have hfalse := List.any_eq_false.mp (Bool.eq_false_iff.mpr hnone) value hvalue
    simpa using hfalse

theorem encodedScopes_update {id ownerOrganizationId : Id}
    (h : role.organizationId ≠ ownerOrganizationId) (now : ℕ) :
    (updateResourceScopes id ownerOrganizationId now role).encodedScopes =
      role.encodedScopes.filter fun value => !isOf id value := by
  rw [updateResourceScopes, if_neg h]
  dsimp only
  split
  · rfl
  · rename_i hlength
    exact (List.filter_eq_self.mpr (List.length_filter_eq_length_iff.mp (not_not.mp hlength))).symm

theorem encodedScopes_replace {xs : List RoleScope} (hxs : ∀ x ∈ xs, x.Encodable)
    (h : role.encodedScopes = xs.map RoleScope.encode) (id : Id)
    (assigned : List String) (now : ℕ) :
    (replaceDiscoveryScopes id assigned now role).encodedScopes =
      (xs.filter fun x => x.resourceId != id || assigned.contains x.scope).map RoleScope.encode
      := by
  rw [replaceDiscoveryScopes, h, filterMap_encoded hxs]
  split
  · rfl
  · rename_i hlength
    rw [not_not, List.length_map, List.length_map] at hlength
    have hall := List.filter_eq_self.mpr (List.length_filter_eq_length_iff.mp hlength)
    rw [h, hall]

/-- What is left of a role's scopes when a resource is deleted, withdrawn from other organizations,
or given a new scope registry: the scopes of other resources, and the assigned ones of its own. -/
structure Kept (xs : List RoleScope) (role : OrganizationRole) (id : Id) : Prop where
  decode : ∀ x ∈ xs, decodeRoleScope (encodeRoleScope x.resourceId x.scope) = some x
  permission : decodePermissionScopes role.permission = xs
  deleted : ∀ now, (deleteResourceScopes id now role).encodedScopes =
    (xs.filter fun x => x.resourceId != id).map RoleScope.encode
  withdrawn : ∀ now ownerOrganizationId, role.organizationId ≠ ownerOrganizationId →
    (updateResourceScopes id ownerOrganizationId now role).encodedScopes =
      (xs.filter fun x => x.resourceId != id).map RoleScope.encode
  owned : ∀ now, updateResourceScopes id role.organizationId now role = role
  replaced : ∀ now assigned, (replaceDiscoveryScopes id assigned now role).encodedScopes =
    (xs.filter fun x => x.resourceId != id || assigned.contains x.scope).map RoleScope.encode

/-- The decoders read back what was encoded, and the removals agree on whose scopes they remove,
whatever texts the ids and the scopes are. -/
theorem scopes_kept {xs : List RoleScope} (hxs : ∀ x ∈ xs, x.Encodable)
    (h : role.encodedScopes = xs.map RoleScope.encode) (id : Id) : Kept xs role id where
  decode x hx := RoleScope.decode_encode (hxs x hx)
  permission := by
    change role.encodedScopes.flatMap _ = xs
    rw [h]
    exact decode_scopes hxs
  deleted now := by
    rw [encodedScopes_delete, h]
    exact filter_encoded hxs fun x hx => congrArg not (RoleScope.hasPrefix_encode hx id)
  withdrawn now ownerOrganizationId hother := by
    rw [encodedScopes_update hother, h]
    exact filter_encoded hxs fun x hx => congrArg not (RoleScope.isOf_encode hx id)
  owned now := if_pos rfl
  replaced now assigned := encodedScopes_replace hxs h id assigned now

end Roles

namespace Sample

/-- Two resources, the id of one beginning with that of the other. -/
def scopes : List RoleScope := [⟨"api", "a/b%"⟩, ⟨"api/v2", "read"⟩]

def role : OrganizationRole :=
  ⟨"role", "organization", "reader", ⟨some (scopes.map RoleScope.encode), []⟩, 0⟩

theorem scopes_encodable : ∀ x ∈ scopes, x.Encodable := by
  intro x hx
  simp only [scopes, List.mem_cons, List.not_mem_nil, or_false] at hx
  rcases hx with rfl | rfl <;> exact ⟨by decide, by decide⟩

theorem scopes_kept_api : Kept scopes role "api" ∧
    (deleteResourceScopes "api" 1 role).encodedScopes = ["api%2Fv2/read"] :=
  ⟨scopes_kept scopes_encodable rfl "api", by decide +kernel⟩

end Sample

end FlareAuth.RoleScopes
