import FlareAuth.CatalogPages

/-!
# Walks over a catalog end

The total of a page comes from the resource server and may grow with every page.
But it is a safe integer and the page size is fixed, so that no page says there is
one beyond a number that depends on neither.
-/

namespace FlareAuth.Catalogs

open Loops

/-- `Number.MAX_SAFE_INTEGER`. -/
def maxSafeInteger : ℕ := 2 ^ 53 - 1

/-- The pages that safe integers leave room for, and those of the connection's own details. -/
def maxRequests (connection : ResourceConnection) : ℕ :=
  max ((maxSafeInteger + 99) / 100) ((connection.authorizationDetails.length + 99) / 100)

section Pages

variable [Numbers]

/-- `z.number().int()` accepts safe integers only. -/
def SafeIntegers : Prop :=
  ∀ q : ℚ, Numbers.int q = true → ∃ n : ℤ, q = n ∧ |n| ≤ (maxSafeInteger : ℤ)

theorem intFrom_le (hsafe : SafeIntegers) {least n : ℕ} {value : Json}
    (h : intFrom least value = some n) : n ≤ maxSafeInteger := by
  cases value with
  | number text =>
    simp only [intFrom] at h
    split at h
    · rename_i hint
      obtain ⟨m, hm, hle⟩ := hsafe _ hint.1
      have hfloor : (Numbers.numberOf text).floor = m := by
        rw [hm]
        exact Rat.floor_intCast m
      have hn : m.toNat = n := by
        rw [← hfloor]
        exact Option.some.inj h
      have hupper := (abs_le.mp hle).2
      omega
    · cases h
  | _ => cases h

theorem paginationMetadataSchema_bounds (hsafe : SafeIntegers) {value : Json}
    {p : PaginationMetadata} (h : paginationMetadataSchema value = some p) :
    p.totalItems ≤ maxSafeInteger ∧
      p.totalPages = (p.totalItems + p.pageSize - 1) / p.pageSize := by
  cases value with
  | object fields =>
    simp only [paginationMetadataSchema, Option.bind_eq_bind, Option.bind_eq_some_iff,
      Option.pure_def, Option.some.injEq] at h
    obtain ⟨page, _, pageSize, _, totalItems, ⟨v, _, hitems⟩, totalPages, _, _, hguard, rfl⟩ := h
    have htotal : totalPages = (totalItems + pageSize - 1) / pageSize := by
      by_contra hne
      simp [guard, hne] at hguard
    exact ⟨intFrom_le hsafe hitems, htotal⟩
  | _ => cases h

theorem authorizationDetailCatalogSchema_pagination {value : Json} {c : Catalog}
    (h : authorizationDetailCatalogSchema value = some c) :
    ∃ pagination, paginationMetadataSchema pagination = some c.pagination := by
  simp only [authorizationDetailCatalogSchema, Option.bind_eq_bind, Option.bind_eq_some_iff,
    Option.pure_def, Option.some.injEq] at h
  obtain ⟨fields, _, items, _, p, ⟨v, _, hp⟩, rfl⟩ := h
  exact ⟨v, hp⟩

variable [Locale] {resource : ApiResource} {connection : ResourceConnection}

omit [Numbers] in
theorem page_of_checkCatalogPage {limit offset : ℕ} {page : CatalogPage}
    (h : checkCatalogPage resource limit offset page = .ok ()) :
    page.pageSize = limit ∧ page.page = offset / limit + 1 := by
  unfold checkCatalogPage at h
  dsimp only at h
  split at h
  · cases h
  · rename_i hsame
    rw [not_or, not_not, not_not] at hsame
    exact hsame

theorem requestAuthorizationDetailCatalog_eq_ok {limit offset : ℕ} {response : Response}
    {c : Catalog}
    (h : requestAuthorizationDetailCatalog resource limit offset response = .ok c) :
    (∃ value, authorizationDetailCatalogSchema value = some c) ∧
      checkCatalogPage resource limit offset c.toPage = .ok () := by
  cases response with
  | unreachable => cases h
  | received ok body =>
    cases ok with
    | false => cases h
    | true =>
      rw [requestAuthorizationDetailCatalog] at h
      cases hparsed : authorizationDetailCatalogSchema (body.getD .null) with
      | none =>
        rw [hparsed] at h
        cases h
      | some parsed =>
        rw [hparsed] at h
        obtain ⟨⟨⟩, hcheck, hreturn⟩ := except_bind_eq_ok h
        obtain rfl := Except.ok.inj hreturn
        exact ⟨⟨_, hparsed⟩, hcheck⟩

theorem readAuthorizationDetailCatalog_eq_ok {limit offset : ℕ} {scope : String}
    {answer : Answer} {c : Catalog}
    (h : readAuthorizationDetailCatalog resource connection limit offset scope answer = .ok c) :
    requestAuthorizationDetailCatalog resource limit offset answer.response = .ok c := by
  rw [readAuthorizationDetailCatalog] at h
  obtain ⟨_, _, h⟩ := except_bind_eq_ok h
  dsimp only at h
  split at h
  · cases h
  · obtain ⟨_, _, h⟩ := except_bind_eq_ok h
    exact h

/-- What a page says of itself: it is the one that was asked for, and its total is bounded. -/
theorem readPage_bounds (hsafe : SafeIntegers) {answers : ℕ → Answer} {page : ℕ} {c : Catalog}
    (h : readPage resource connection answers page = .ok c) :
    c.pagination.page = page - 1 + 1 ∧ c.pagination.totalPages ≤ maxRequests connection := by
  have hpage : (page - 1) * 100 / 100 = page - 1 := Nat.mul_div_cancel _ (by omega)
  unfold readPage readResourceCatalog at h
  split at h
  · obtain ⟨⟨value, hvalue⟩, hcheck⟩ :=
      requestAuthorizationDetailCatalog_eq_ok (readAuthorizationDetailCatalog_eq_ok h)
    obtain ⟨hsize, hnumber⟩ := page_of_checkCatalogPage hcheck
    obtain ⟨pagination, hpagination⟩ := authorizationDetailCatalogSchema_pagination hvalue
    obtain ⟨hitems, htotal⟩ := paginationMetadataSchema_bounds hsafe hpagination
    change c.pagination.pageSize = 100 at hsize
    change c.pagination.page = (page - 1) * 100 / 100 + 1 at hnumber
    rw [hpage] at hnumber
    rw [hsize] at htotal
    refine ⟨hnumber, htotal ▸ le_trans ?_ (Nat.le_max_left _ _)⟩
    exact Nat.div_le_div_right (by omega)
  · obtain rfl := Except.ok.inj h
    refine ⟨?_, le_trans ?_ (Nat.le_max_right _ _)⟩
    · rw [paginationMetadata, hpage]
    · exact le_rfl

omit [Numbers] [Locale] in
theorem maxRequests_pos (connection : ResourceConnection) : 0 < maxRequests connection :=
  lt_of_lt_of_le (by decide) (Nat.le_max_left _ _)

/-- A page that is not the last one is not beyond the bound. -/
theorem lt_of_not_last (hsafe : SafeIntegers) {answers : ℕ → Answer} {page : ℕ} {c : Catalog}
    (h : readPage resource connection answers page = .ok c) (hlast : c.last = false) :
    page < maxRequests connection := by
  obtain ⟨hpage, htotal⟩ := readPage_bounds hsafe h
  have hgoes : c.pagination.page < c.pagination.totalPages := by
    simpa [Catalog.last] using hlast
  omega

end Pages

section Walks

variable [Locale] [Numbers] {resource : ApiResource} {connection : ResourceConnection}
  {answers : ℕ → Answer}

theorem collectPass_endsBy (hsafe : SafeIntegers) {α : Type} (take : Item → α) :
    EndsBy (collectPass resource connection answers take) (maxRequests connection) := by
  intro page s s' h
  obtain ⟨c, hc, h⟩ := except_bind_eq_ok h
  cases hlast : c.last with
  | true => simp [hlast, pure, Except.pure] at h
  | false => exact lt_of_not_last hsafe hc hlast

theorem grantedScopesPass_endsBy (hsafe : SafeIntegers) (requested : List String) :
    EndsBy (grantedScopesPass resource connection answers requested) (maxRequests connection) := by
  intro page s s' h
  obtain ⟨c, hc, h⟩ := except_bind_eq_ok h
  cases hlast : c.last with
  | true => simp [hlast, pure, Except.pure] at h
  | false => exact lt_of_not_last hsafe hc hlast

theorem findPass_endsBy (hsafe : SafeIntegers) (detail : AuthorizationDetail) :
    EndsBy (findPass resource connection answers detail) (maxRequests connection) := by
  intro page s s' h
  obtain ⟨c, hc, h⟩ := except_bind_eq_ok h
  split at h
  · cases h
  · cases hlast : c.last with
    | true => simp [hlast, pure, Except.pure] at h
    | false => exact lt_of_not_last hsafe hc hlast

open Concurrent Procedure Access in
/-- In a store whose catalog answers in the same way, the items that a call collects are those of
the walk. -/
theorem catalogItemsFrom_exec {answers : ℕ → Answer} {s : Store}
    (hanswers : ∀ page, (FlareAuth.readResourceCatalog resource connection 100
      ((page - 1) * 100)).exec s =
        ((readPage resource connection answers page).map Catalog.toPage, s))
    (pages page : ℕ) (items : List CatalogItem) :
    (catalogItemsFrom resource connection (fun _ => false) pages page items).exec s =
      ((count (collectPass resource connection answers fun item =>
          (⟨item.authorizationDetail, item.grantedScopes⟩ : CatalogItem)) pages page items).getD
        (.error (badGateway "Authorization detail catalog could not be reached.")), s) := by
  induction pages generalizing page items with
  | zero => rfl
  | succ pages ih =>
    have hpage := hanswers page
    rw [catalogItemsFrom, count]
    cases hread : readPage resource connection answers page with
    | error e =>
      rw [hread] at hpage
      have hpass : collectPass resource connection answers (fun item =>
          (⟨item.authorizationDetail, item.grantedScopes⟩ : CatalogItem)) page items =
            .error e := by
        rw [collectPass, hread]
        rfl
      rw [exec_bind_error _ hpage, hpass]
      rfl
    | ok c =>
      rw [hread] at hpage
      have hpass : collectPass resource connection answers (fun item =>
          (⟨item.authorizationDetail, item.grantedScopes⟩ : CatalogItem)) page items =
            .ok (if c.last then .leave (items ++ c.toPage.items)
              else .again (items ++ c.toPage.items)) := by
        rw [collectPass, hread]
        rfl
      have hlast : decide (c.toPage.totalPages ≤ c.toPage.page) = c.last := rfl
      rw [exec_bind_ok _ hpage, hpass, Bool.false_or, hlast]
      cases c.last with
      | true => rfl
      | false => exact ih (page + 1) _

/-- A result that a walk has come to after a number of requests, and that no allowance for more
of them changes. -/
def EndsWithin {α : Type} (walk : ℕ → Option α) (requests : ℕ) : Prop :=
  ∃ r, ∀ allowed, requests ≤ allowed → walk allowed = some r

omit [Locale] [Numbers] in
theorem endsWithin_of_endsBy {σ β γ : Type} {body : ℕ → σ → Except Failure (Pass σ β)} {s : σ}
    {result : Except Failure β → γ} (h : EndsBy body (maxRequests connection)) :
    EndsWithin (fun requests => (count body requests 1 s).map result) (maxRequests connection) := by
  have hend := h.count_isSome (n := 1) (by omega) (maxRequests_pos connection) s
  obtain ⟨r, hr⟩ := Option.isSome_iff_exists.mp hend
  refine ⟨result r, fun allowed hle => ?_⟩
  dsimp only
  rw [count_of_le hr hle, Option.map_some]

end Walks

/-- Whatever a resource server answers, every walk over its catalog ends. -/
theorem walks_end [Locale] [Numbers] (hsafe : SafeIntegers) (resource : ApiResource)
    (connection : ResourceConnection) (answers : ℕ → Answer) :
    (∀ details, EndsWithin
      (accountScopesForAuthorizationDetails resource connection answers details)
      (maxRequests connection)) ∧
    (∀ detail, EndsWithin (resolveApprovalAuthorizationDetail resource connection answers detail)
      (maxRequests connection)) ∧
    EndsWithin (permissionSelections resource connection answers) (maxRequests connection) ∧
    ∀ details, EndsWithin (resolveRequestedAuthorizationDetails resource connection answers details)
      (maxRequests connection) :=
  ⟨fun _ => endsWithin_of_endsBy (grantedScopesPass_endsBy hsafe _),
    fun detail => endsWithin_of_endsBy (findPass_endsBy hsafe detail),
    endsWithin_of_endsBy (collectPass_endsBy hsafe _),
    fun _ => endsWithin_of_endsBy (collectPass_endsBy hsafe _)⟩

namespace Sample

/-- Numbers are written in decimal digits and are safe integers. -/
local instance : Numbers where
  numberOf text := (text.toList.foldl (fun n c => 10 * n + (c.toNat - 48)) 0 : ℕ)
  int q := decide (q.den = 1 ∧ q.num.natAbs ≤ maxSafeInteger)

theorem safeIntegers : SafeIntegers := by
  intro q hq
  obtain ⟨hden, hle⟩ := of_decide_eq_true hq
  refine ⟨q.num, ((Rat.den_eq_one_iff q).mp hden).symm, ?_⟩
  rw [Int.abs_eq_natAbs]
  exact_mod_cast hle

def resource : ApiResource :=
  ⟨"mail", "mail", "https://mail", .external, some "connector",
    [.object [("type", .string "mailbox")]], true, "org", .publicResource, none, true, none⟩

def connection : ResourceConnection :=
  ⟨"account", "provider", "mail", .active, .user "u",
    [⟨"credential", "account", ["catalog"], [], 1, .active⟩]⟩

def metadata (page : ℕ) : Json :=
  .object [("page", .number (.ofNat page)), ("pageSize", .number (.ofNat 100)),
    ("totalItems", .number (.ofNat (100 * page + 1))),
    ("totalPages", .number (.ofNat (page + 1)))]

/-- A catalog whose pages have no items and always announce one more. -/
def growing (page : ℕ) : Answer where
  authorization := some ⟨"connector", "https://mail/token", "https://mail/revoke",
    some "https://mail/catalog", some "catalog", 1, true⟩
  accessToken := .ok "token"
  response := .received true (some (.object [("items", .array []), ("pagination", metadata page)]))

/-- The walk is not over after three requests, but it ends. -/
theorem walks_end_growing :
    (permissionSelections resource connection growing 3).isNone = true ∧
      (∃ r, permissionSelections resource connection growing (maxRequests connection) = some r) ∧
      ∃ r, resolveRequestedAuthorizationDetails resource connection growing []
        (maxRequests connection) = some r := by
  have hends := walks_end safeIntegers resource connection growing
  obtain ⟨r, hr⟩ := hends.2.2.1
  obtain ⟨r', hr'⟩ := hends.2.2.2 []
  exact ⟨by decide +kernel, ⟨r, hr _ le_rfl⟩, r', hr' _ le_rfl⟩

end Sample

end FlareAuth.Catalogs
