import FlareAuth.Failure

/-!
# Authorization details

An authorization detail is an opaque JSON object with a `type`. Details are
compared by their canonical text, as multisets, and a concrete detail matches a
template when it agrees with every entry of the template.
-/

namespace FlareAuth

abbrev AuthorizationDetail := Json

variable [Locale]

def exactAuthorizationDetails (left right : List AuthorizationDetail) : Bool :=
  left.length == right.length &&
    Text.sort (left.map canonicalJson) == Text.sort (right.map canonicalJson)

def authorizationDetailMatchesTemplate (detail template : AuthorizationDetail) : Bool :=
  match template with
  | .object fields => fields.all fun x =>
      (detail.field x.1).map canonicalJson == some (canonicalJson x.2)
  | _ => true

/-- Removes the details of a request one by one from those that are still allowed. -/
def subsetFrom : List String → List String → Bool
  | [], _ => true
  | detail :: requested, remaining =>
    if detail ∈ remaining then subsetFrom requested (remaining.erase detail) else false

def isAuthorizationDetailsSubset (requested allowed : List AuthorizationDetail) : Bool :=
  subsetFrom (requested.map canonicalJson) (allowed.map canonicalJson)

def matchFrom : List AuthorizationDetail → List AuthorizationDetail → Bool
  | [], _ => true
  | requirement :: requested, remaining =>
    match remaining.findIdx? fun candidate =>
      canonicalJson candidate == canonicalJson requirement ||
        authorizationDetailMatchesTemplate candidate requirement with
    | none => false
    | some index => matchFrom requested (remaining.eraseIdx index)

def hasDuplicateAuthorizationDetails (details : List AuthorizationDetail) : Bool :=
  (Text.unique (details.map canonicalJson)).length != details.length

def authorizationDetailsMatchRequest (approved requested : List AuthorizationDetail) : Bool :=
  approved.length == requested.length && !hasDuplicateAuthorizationDetails approved &&
    matchFrom requested approved

def invalidAuthorizationDetails (description : String) : Failure :=
  oauthError "invalid_authorization_details" description

def assertAuthorizationDetailsSubset (requested allowed : List AuthorizationDetail)
    (boundary : String) : Except Failure Unit :=
  if isAuthorizationDetailsSubset requested allowed then .ok ()
  else .error (invalidAuthorizationDetails
    ("Requested authorization details exceed the " ++ boundary ++ " boundary."))

def isTemplate (templates : List AuthorizationDetail) (detail : AuthorizationDetail) : Bool :=
  templates.any fun template => canonicalJson template == canonicalJson detail

def matchesSomeTemplate (templates : List AuthorizationDetail) (detail : AuthorizationDetail) :
    Bool :=
  templates.any fun template => authorizationDetailMatchesTemplate detail template

def assertConcreteAuthorizationDetails (templates details : List AuthorizationDetail)
    (label : String) : Except Failure Unit :=
  if details.any fun detail => !matchesSomeTemplate templates detail || isTemplate templates detail
  then .error (invalidAuthorizationDetails
    (label ++ " authorization details must identify concrete resource contexts."))
  else .ok ()

/-- The Context of native authority: the controller's own tenant or an Organization. -/
def realmrootAuthority (authority id : String) : AuthorizationDetail :=
  .object [("type", .string "realmroot_authority"), ("authority", .string authority),
    ("id", .string id)]

def isNativeAuthoritySelection (details : List AuthorizationDetail) : Bool :=
  match details with
  | [detail] =>
    detail.stringField "type" == some "realmroot_authority" &&
      ["organization", "user"].contains ((detail.field "authority").elim "undefined" Json.text) &&
      (detail.stringField "id").isSome
  | _ => false

def assertNativeAuthoritySelection (details : List AuthorizationDetail) : Except Failure Unit :=
  if isNativeAuthoritySelection details then .ok ()
  else .error (invalidAuthorizationDetails "Select exactly one Realmroot authority Context.")

theorem exactAuthorizationDetails_refl (details : List AuthorizationDetail) :
    exactAuthorizationDetails details details = true := by
  simp [exactAuthorizationDetails]

theorem exactAuthorizationDetails_comm (left right : List AuthorizationDetail) :
    exactAuthorizationDetails left right = exactAuthorizationDetails right left := by
  unfold exactAuthorizationDetails
  congr 1 <;> exact Bool.beq_comm

theorem exactAuthorizationDetails_trans {left middle right : List AuthorizationDetail}
    (h : exactAuthorizationDetails left middle = true)
    (h' : exactAuthorizationDetails middle right = true) :
    exactAuthorizationDetails left right = true := by
  simp only [exactAuthorizationDetails, Bool.and_eq_true, beq_iff_eq] at h h' ⊢
  exact ⟨h.1.trans h'.1, h.2.trans h'.2⟩

/-- One detail is exactly another when their canonical texts agree. -/
theorem exactAuthorizationDetails_singleton (left right : AuthorizationDetail) :
    exactAuthorizationDetails [left] [right] = true ↔ canonicalJson left = canonicalJson right := by
  simp [exactAuthorizationDetails, Text.sort]

end FlareAuth
