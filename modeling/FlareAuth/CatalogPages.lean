import FlareAuth.ExternalAuthorization
import FlareAuth.JsonObjects
import FlareAuth.Loops.Counted
import FlareAuth.Relational.Table
import FlareAuth.Text.Like
import Mathlib.Data.Rat.Floor

/-!
# Pages of an authorization detail catalog

A resource server answers each request for a page as it likes. A response is parsed,
its pagination is checked against the request, and the loops that walk a catalog go
on until the page they are at is the last one by what this very response says.
-/

namespace FlareAuth.Catalogs

open Loops

/-- What the runtime and the schema library make of JSON numbers. -/
class Numbers where
  numberOf : String → ℚ
  /-- `z.number().int()`. -/
  int : ℚ → Bool

structure PaginationMetadata where
  page : ℕ
  pageSize : ℕ
  totalItems : ℕ
  totalPages : ℕ

/-- `paginationMetadata`. -/
def paginationMetadata (limit offset total : ℕ) : PaginationMetadata :=
  ⟨offset / limit + 1, limit, total, (total + limit - 1) / limit⟩

structure Display where
  label : String
  description : Option String
  metadata : List (String × String)

structure Item where
  id : Option String
  authorizationDetail : AuthorizationDetail
  grantedScopes : Option (List String)
  display : Display

structure Catalog where
  items : List Item
  pagination : PaginationMetadata

section Schemas

/-- `z.string().trim().min(1)`. -/
def nonEmptyString : Json → Option String
  | .string s =>
    let trimmed := String.ofList (Text.trim s.toList)
    if trimmed = "" then none else some trimmed
  | _ => none

def plainString : Json → Option String
  | .string s => some s
  | _ => none

/-- A field that may be missing. -/
def optional {α : Type} (schema : Json → Option α) : Option Json → Option (Option α)
  | none => some none
  | some value => (schema value).map some

def nullable {α : Type} (schema : Json → Option α) : Json → Option (Option α)
  | .null => some none
  | value => (schema value).map some

def arrayOf {α : Type} (schema : Json → Option α) : Json → Option (List α)
  | .array items => items.mapM schema
  | _ => none

def strictObject (keys : List String) : Json → Option Fields
  | .object fields => if fields.all fun x => keys.contains x.1 then some fields else none
  | _ => none

/-- `z.record(nonEmptyString, z.string())`. -/
def stringRecord : Json → Option (List (String × String))
  | .object fields => fields.foldlM (fun entries x => do
      let key ← nonEmptyString (.string x.1)
      let value ← plainString x.2
      return Relational.put (·.1) (fun _ _ => true) (key, value) entries) []
  | _ => none

def authorizationDetailSchema : Json → Option AuthorizationDetail
  | .object fields => do
    let type ← (fields.lookup "type").bind nonEmptyString
    return .object (("type", .string type) :: fields.filter fun x => x.1 ≠ "type")
  | _ => none

def displaySchema (value : Json) : Option Display := do
  let fields ← strictObject ["label", "description", "metadata"] value
  let label ← (fields.lookup "label").bind nonEmptyString
  let description ← optional (nullable nonEmptyString) (fields.lookup "description")
  let metadata ← optional stringRecord (fields.lookup "metadata")
  return ⟨label, description.join, metadata.getD []⟩

def authorizationDetailCatalogItemSchema (value : Json) : Option Item := do
  let fields ← strictObject ["id", "authorizationDetail", "grantedScopes", "display"] value
  let id ← optional nonEmptyString (fields.lookup "id")
  let detail ← (fields.lookup "authorizationDetail").bind authorizationDetailSchema
  let grantedScopes ← optional (arrayOf nonEmptyString) (fields.lookup "grantedScopes")
  let display ← (fields.lookup "display").bind displaySchema
  return ⟨id, detail, grantedScopes, display⟩

variable [Numbers]

/-- `z.number().int().min(least)`. -/
def intFrom (least : ℕ) : Json → Option ℕ
  | .number text =>
    let q := Numbers.numberOf text
    if Numbers.int q = true ∧ (least : ℚ) ≤ q then some q.floor.toNat else none
  | _ => none

/-- Its ceiling is that of the exact quotient, which rounding keeps for pages of 100 items. -/
def paginationMetadataSchema : Json → Option PaginationMetadata
  | .object fields => do
    let page ← (fields.lookup "page").bind (intFrom 1)
    let pageSize ← (fields.lookup "pageSize").bind (intFrom 1)
    let totalItems ← (fields.lookup "totalItems").bind (intFrom 0)
    let totalPages ← (fields.lookup "totalPages").bind (intFrom 0)
    guard (totalPages = (totalItems + pageSize - 1) / pageSize)
    return ⟨page, pageSize, totalItems, totalPages⟩
  | _ => none

def authorizationDetailCatalogSchema (value : Json) : Option Catalog := do
  let fields ← strictObject ["items", "pagination"] value
  let items ← (fields.lookup "items").bind (arrayOf authorizationDetailCatalogItemSchema)
  let pagination ← (fields.lookup "pagination").bind paginationMetadataSchema
  return ⟨items, pagination⟩

end Schemas

/-- What a request for a page comes to: no response, or one with its JSON if it has one. -/
inductive Response where
  | unreachable
  | received (ok : Bool) (body : Option Json)

/-- What one pass over a catalog finds outside: the authorization of the connector, the access
token of the account and the response of the resource server. -/
structure Answer where
  authorization : Option ResolvedExternalAuthorization
  accessToken : Except Failure String
  response : Response

section Reads

variable [Locale]

/-- The columns of a page that its checks read. -/
def Catalog.toPage (c : Catalog) : CatalogPage where
  items := c.items.map fun item => ⟨item.authorizationDetail, item.grantedScopes⟩
  page := c.pagination.page
  pageSize := c.pagination.pageSize
  totalItems := c.pagination.totalItems
  totalPages := c.pagination.totalPages

def requestAuthorizationDetailCatalog [Numbers] (resource : ApiResource) (limit offset : ℕ) :
    Response → Except Failure Catalog
  | .unreachable => .error (badGateway "Authorization detail catalog could not be reached.")
  | .received false _ => .error (badGateway "Authorization detail catalog request failed.")
  | .received true body => do
    let some catalog := authorizationDetailCatalogSchema (body.getD .null)
      | .error (badGateway "Authorization detail catalog response is invalid.")
    checkCatalogPage resource limit offset catalog.toPage
    return catalog

def readAuthorizationDetailCatalog [Numbers] (resource : ApiResource)
    (connection : ResourceConnection) (limit offset : ℕ) (requiredScope : String)
    (answer : Answer) : Except Failure Catalog := do
  let _ ← requireProviderCredential connection [] []
  if requiredScope ∉ connection.grantedScopes then
    throw (badRequest
      "Resource account must be reauthorized for the authorization detail catalog scope.")
  let _ ← answer.accessToken
  requestAuthorizationDetailCatalog resource limit offset answer.response

omit [Locale] in
/-- `authorizationDetailDisplay`: the entry that names the detail. -/
def authorizationDetailDisplay (detail : AuthorizationDetail) : Display :=
  let fields := match detail with
    | .object fields => fields
    | _ => []
  let entries := fields.filterMap fun x =>
    match x.2 with
    | .string text => if x.1 = "type" then none else some (x.1, text)
    | .number text => if x.1 = "type" then none else some (x.1, text)
    | _ => none
  let identifier := (entries.find? fun x => x.1 = "name") <|>
    (entries.find? fun x => x.1.endsWith "_name") <|>
    (entries.find? fun x => x.1 = "label" ∨ x.1.endsWith "_label") <|> entries.head?
  match identifier with
  | some (key, label) => ⟨label, none, [(key, label)]⟩
  | none =>
    ⟨match fields.lookup "type" with
      | some (.string type) => type
      | _ => "", none, []⟩

/-- A page of the provider's catalog, or of the connection's own details. -/
def readResourceCatalog [Numbers] (resource : ApiResource) (connection : ResourceConnection)
    (limit offset : ℕ) (answer : Answer) : Except Failure Catalog :=
  match answer.authorization.bind fun a => present a.authorizationDetailsCatalogEndpoint,
    answer.authorization.bind fun a => present a.authorizationDetailsCatalogScope with
  | some _, some requiredScope =>
    readAuthorizationDetailCatalog resource connection limit offset requiredScope answer
  | _, _ =>
    let details := connection.authorizationDetails
    .ok ⟨((details.drop offset).take limit).map fun detail =>
        ⟨none, detail, none, authorizationDetailDisplay detail⟩,
      paginationMetadata limit offset details.length⟩

end Reads

section Walks

variable [Locale] [Numbers] (resource : ApiResource) (connection : ResourceConnection)
  (answers : ℕ → Answer)

def readPage (page : ℕ) : Except Failure Catalog :=
  readResourceCatalog resource connection 100 ((page - 1) * 100) (answers page)

omit [Locale] [Numbers] in
/-- `catalog.pagination.page >= catalog.pagination.totalPages`. -/
def Catalog.last (c : Catalog) : Bool := decide (c.pagination.totalPages ≤ c.pagination.page)

def collectPass {α : Type} (take : Item → α) (page : ℕ) (collected : List α) :
    Except Failure (Pass (List α) (List α)) := do
  let catalog ← readPage resource connection answers page
  let collected := collected ++ catalog.items.map take
  return if catalog.last then .leave collected else .again collected

def grantedScopesPass (requested : List String) (page : ℕ)
    (grantedByDetail : List (String × Option (List String))) :
    Except Failure (Pass (List (String × Option (List String)))
      (List (String × Option (List String)))) := do
  let catalog ← readPage resource connection answers page
  let grantedByDetail := catalog.items.foldl (fun granted item =>
    let key := canonicalJson item.authorizationDetail
    if requested.contains key then
      Relational.put (·.1) (fun _ _ => true) (key, item.grantedScopes) granted
    else granted) grantedByDetail
  return if grantedByDetail.length = requested.length ∨ catalog.last then .leave grantedByDetail
    else .again grantedByDetail

def accountScopesForAuthorizationDetails (authorizationDetails : List AuthorizationDetail)
    (requests : ℕ) : Option (Except Failure (Option (List String))) :=
  let requested := Text.unique (authorizationDetails.map canonicalJson)
  (count (grantedScopesPass resource connection answers requested) requests 1 []).map
    (·.map fun grantedByDetail =>
      if grantedByDetail.length ≠ requested.length then some []
      else if grantedByDetail.any (·.2.isNone) then none
      else match grantedByDetail.filterMap (·.2) with
        | [] => some []
        | first :: rest =>
          some (Text.sort (first.filter fun scope => rest.all (·.contains scope))))

def findPass (detail : AuthorizationDetail) (page : ℕ) (_ : Unit) :
    Except Failure (Pass Unit (Option Display)) := do
  let catalog ← readPage resource connection answers page
  match catalog.items.find? fun item =>
    exactAuthorizationDetails [item.authorizationDetail] [detail]
    with
  | some item => return .leave (some item.display)
  | none => return if catalog.last then .leave none else .again ()

/-- The loop of `resolveApprovalAuthorizationDetail`. -/
def resolveApprovalAuthorizationDetail (detail : AuthorizationDetail) (requests : ℕ) :
    Option (Except Failure Display) :=
  (count (findPass resource connection answers detail) requests 1 ()).map fun found =>
    found.bind fun display => display.elim
      (.error (notFound "Authorization detail was not found.")) .ok

/-- The loop of `createAgentPermission`: the Contexts of the account. -/
def permissionSelections (requests : ℕ) :
    Option (Except Failure (List (AuthorizationDetail × Option (List String)))) :=
  (count (collectPass resource connection answers fun item =>
    (item.authorizationDetail, item.grantedScopes)) requests 1 []).map fun collected =>
    collected.bind fun selections =>
      if selections.isEmpty then
        .error (badRequest "The connected account has no available authorization Contexts.")
      else .ok selections

/-- The loop of `resolveRequestedAuthorizationDetails`. -/
def resolveRequestedAuthorizationDetails (authorizationDetails : List AuthorizationDetail)
    (requests : ℕ) : Option (Except Failure (List AuthorizationDetail)) :=
  (count (collectPass resource connection answers (·.authorizationDetail)) requests 1 []).map
    fun collected => collected.bind fun available =>
      if authorizationDetails.all fun detail =>
          available.any fun candidate => exactAuthorizationDetails [candidate] [detail] then
        .ok authorizationDetails
      else .error (invalidAuthorizationDetails
        "Authorization detail is not available through this Resource Server connection.")

end Walks

end FlareAuth.Catalogs
