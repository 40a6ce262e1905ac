import FlareAuth.AccountScopes
import FlareAuth.ContextHashes
import FlareAuth.Revocations
import Mathlib.Data.List.Perm.Subperm

/-!
# Accounts that are connected again

An account that is authorized again may grant less than before. What its grant no
longer covers is revoked, entitlement by entitlement; the rest of the table stays.
-/

namespace FlareAuth

open Concurrent Procedure Access Relational

section Coverage

variable [Locale]

omit [Locale] in
/-- Removing the requested details one by one succeeds if there are enough of each. -/
theorem subsetFrom_iff {requested remaining : List String} :
    subsetFrom requested remaining = true ↔ requested.Subperm remaining := by
  induction requested generalizing remaining with
  | nil => exact ⟨fun _ => List.nil_subperm, fun _ => rfl⟩
  | cons detail requested ih =>
    by_cases hmem : detail ∈ remaining
    · have hperm : remaining.Perm (detail :: remaining.erase detail) := List.perm_cons_erase hmem
      rw [subsetFrom, if_pos hmem, ih, hperm.subperm_left, List.subperm_cons]
    · rw [subsetFrom, if_neg hmem]
      constructor
      · intro h
        cases h
      · intro h
        exact absurd (h.subset List.mem_cons_self) hmem

/-- What an account grants covers the scope of an entitlement and its details, each with its own. -/
structure ResourceConnection.Covers (c : ResourceConnection) (e : ScopeEntitlement) : Prop where
  scope : e.scope ∈ c.grantedScopes
  details : (e.authorizationDetails.map canonicalJson).Subperm
    (c.authorizationDetails.map canonicalJson)

/-- Details that differ from each other are covered as soon as each of them is. -/
theorem ResourceConnection.Covers.of_distinct {c : ResourceConnection} {e : ScopeEntitlement}
    (hdistinct : (e.authorizationDetails.map canonicalJson).Nodup)
    (hscope : e.scope ∈ c.grantedScopes)
    (hdetails : ∀ d ∈ e.authorizationDetails,
      ∃ d' ∈ c.authorizationDetails, canonicalJson d = canonicalJson d') : c.Covers e := by
  refine ⟨hscope, List.subperm_of_subset hdistinct fun text htext => ?_⟩
  obtain ⟨d, hd, rfl⟩ := List.mem_map.mp htext
  obtain ⟨d', hd', hsame⟩ := hdetails d hd
  exact hsame ▸ List.mem_map_of_mem hd'

theorem covers_eq_true_iff {c : ResourceConnection} {required : Bool} {e : ScopeEntitlement} :
    c.covers required e = true ↔ c.Covers e ∧ (required = true → e.authorizationDetails ≠ []) := by
  rw [ResourceConnection.covers, Bool.and_eq_true, Bool.and_eq_true, isAuthorizationDetailsSubset,
    subsetFrom_iff, List.contains_iff_mem]
  constructor
  · rintro ⟨⟨hscope, hguard⟩, hdetails⟩
    refine ⟨⟨hscope, hdetails⟩, fun hrequired hnil => ?_⟩
    rw [hrequired, hnil] at hguard
    cases hguard
  · rintro ⟨⟨hscope, hdetails⟩, hguard⟩
    refine ⟨⟨hscope, ?_⟩, hdetails⟩
    cases required with
    | false => rfl
    | true => simpa using hguard rfl

end Coverage

section Loop

variable [Locale] {c : ResourceConnection} {controllerUserId : Id} {now : ℕ} {s t : Store}

/-- The revocation of one entitlement that the account does not cover any more. -/
def revokeUncovered (c : ResourceConnection) (controllerUserId : Id) (now : ℕ)
    (entitlement : ScopeEntitlement) : Access Unit := do
  let leaseIds ← revokeEntitlementTokenLeasesAtTarget entitlement now
  let audit ← resourceAuditRecord (accessRevokedAudit entitlement none (some c)
    entitlement.sourceAccessRequestId controllerUserId (some "connection_authorization_changed"))
  let _ ← endEntitlementWithAudit entitlement.id .revoked leaseIds now audit

theorem revokeUncoveredEntitlements_eq (c : ResourceConnection) (required : Bool)
    (controllerUserId : Id) (now : ℕ) :
    revokeUncoveredEntitlements c required controllerUserId now =
      listActiveEntitlementsByConnection c.id now >>= fun entitlements =>
        forEach (entitlements.filter fun e => !c.covers required e)
          (revokeUncovered c controllerUserId now) := rfl

/-- The table without the entitlements of some identifiers. -/
def endedBy (ids : List Id) (now : ℕ) (rows : List ScopeEntitlement) : List ScopeEntitlement :=
  updateWhere (fun e => ids.contains e.id && e.ended.isNone) (·.finish .revoked now) rows

omit [Locale] in
theorem endedBy_cons (id : Id) (ids : List Id) (now : ℕ) (rows : List ScopeEntitlement) :
    endedBy ids now (endedBy [id] now rows) = endedBy (id :: ids) now rows := by
  unfold endedBy updateWhere
  rw [List.map_map]
  refine List.map_congr_left fun e _ => ?_
  rw [Function.comp_apply]
  cases hended : e.ended with
  | some ending => simp [hended]
  | none =>
    by_cases hid : e.id = id
    · simp [hended, hid, ScopeEntitlement.finish]
    · simp [hended, hid]

omit [Locale] in
theorem entitlements_revokeUncovered {e : ScopeEntitlement}
    (h : (revokeUncovered c controllerUserId now e).exec s = (.ok (), t)) :
    t.entitlements = endedBy [e.id] now s.entitlements := by
  unfold revokeUncovered at h
  obtain ⟨leaseIds, s₁, -, hs₁, h⟩ := exec_reads_bind
    (by simp [revokeEntitlementTokenLeasesAtTarget, revokeTokenLeaseAtTarget]) h
  obtain ⟨audit, s₂, -, hs₂, h⟩ := exec_reads_bind (by simp) h
  obtain ⟨found, audits, hbatch⟩ := endEntitlementWithAudit_ok e.id .revoked leaseIds now audit s₂
  have hcommit : (endEntitlementWithAudit e.id .revoked leaseIds now audit).exec s₂ =
      (.ok found, _) := exec_commit_of_ok rfl hbatch
  rw [exec_bind_ok _ hcommit] at h
  obtain ⟨-, rfl⟩ := Prod.mk.inj h
  rw [← hs₁.entitlements_eq, ← hs₂.entitlements_eq]
  unfold endedBy
  simp only [List.contains_cons, List.contains_nil, Bool.or_false]

omit [Locale] in
/-- The loop ends the entitlements of its list, and no others. -/
theorem entitlements_forEach_revokeUncovered {es : List ScopeEntitlement}
    (h : (forEach es (revokeUncovered c controllerUserId now)).exec s = (.ok (), t)) :
    t.entitlements = endedBy (es.map (·.id)) now s.entitlements := by
  induction es generalizing s with
  | nil =>
    obtain ⟨-, rfl⟩ := Prod.mk.inj h
    exact (updateWhere_eq_self fun e _ hselected => absurd hselected (by simp)).symm
  | cons e es ih =>
    obtain ⟨_, s₁, hfirst, hrest⟩ := exec_bind_inv h
    rw [ih hrest, entitlements_revokeUncovered hfirst, endedBy_cons, List.map_cons]

/-- An entitlement to which the account gives nothing any more. -/
def ResourceConnection.Uncovered (c : ResourceConnection) (required : Bool) (now : ℕ)
    (e : ScopeEntitlement) : Prop :=
  e.connectionId = some c.id ∧ e.active now = true ∧
    ¬(c.Covers e ∧ (required = true → e.authorizationDetails ≠ []))

/-- What the loop selects of a table. -/
theorem uncovered_iff {required : Bool} (hvalid : s.Valid) {e : ScopeEntitlement}
    (he : e ∈ s.entitlements) :
    ((((s.listActiveEntitlementsByConnection c.id now).filter fun e => !c.covers required e).map
      (·.id)).contains e.id && e.ended.isNone) = true ↔ c.Uncovered required now e := by
  have hlisted (r : ScopeEntitlement) :
      r ∈ (s.listActiveEntitlementsByConnection c.id now).filter (fun e => !c.covers required e) ↔
        r ∈ s.entitlements ∧ c.Uncovered required now r := by
    unfold Store.listActiveEntitlementsByConnection ResourceConnection.Uncovered
    rw [List.mem_filter, mem_byCreation, List.mem_filter, decide_eq_true_eq,
      Bool.not_eq_true', ← Bool.not_eq_true, covers_eq_true_iff, and_assoc, and_assoc]
  rw [Bool.and_eq_true, List.contains_iff_mem, List.mem_map]
  constructor
  · rintro ⟨⟨r, hr, hid⟩, -⟩
    obtain ⟨hmem, huncovered⟩ := (hlisted r).mp hr
    exact eq_of_key_eq hvalid.entitlements.1 hmem he hid ▸ huncovered
  · intro huncovered
    have hactive := huncovered.2.1
    rw [ScopeEntitlement.active, Bool.and_eq_true] at hactive
    exact ⟨⟨e, (hlisted e).mpr ⟨he, huncovered⟩, rfl⟩, hactive.1⟩

/-- After a revocation that completes, an entitlement is as it was, or was uncovered and is
revoked. -/
theorem mem_revokeUncoveredEntitlements {required : Bool} (hvalid : s.Valid)
    (h : (revokeUncoveredEntitlements c required controllerUserId now).exec s = (.ok (), t))
    {e : ScopeEntitlement} : e ∈ t.entitlements ↔
      (e ∈ s.entitlements ∧ ¬c.Uncovered required now e) ∨
        ∃ e₀ ∈ s.entitlements, c.Uncovered required now e₀ ∧ e = e₀.finish .revoked now := by
  rw [revokeUncoveredEntitlements_eq] at h
  unfold listActiveEntitlementsByConnection at h
  rw [exec_ask_bind] at h
  rw [entitlements_forEach_revokeUncovered h, endedBy, mem_updateWhere]
  constructor
  · rintro ⟨e₀, he₀, rfl⟩
    by_cases huncovered : c.Uncovered required now e₀
    · rw [if_pos ((uncovered_iff hvalid he₀).mpr huncovered)]
      exact .inr ⟨e₀, he₀, huncovered, rfl⟩
    · rw [if_neg fun hselected => huncovered ((uncovered_iff hvalid he₀).mp hselected)]
      exact .inl ⟨he₀, huncovered⟩
  · rintro (⟨he, hcovered⟩ | ⟨e₀, he₀, huncovered, rfl⟩)
    · refine ⟨e, he, if_neg fun hselected => hcovered ((uncovered_iff hvalid he).mp hselected)⟩
    · exact ⟨e₀, he₀, if_pos ((uncovered_iff hvalid he₀).mpr huncovered)⟩

omit [Locale] in
/-- What is active at some time was active before. -/
theorem active_of_active {e : ScopeEntitlement} {later : ℕ} (hlater : now ≤ later)
    (h : e.active later = true) : e.active now = true := by
  unfold ScopeEntitlement.active ScopeEntitlement.unexpired at h ⊢
  rw [Bool.and_eq_true] at h ⊢
  refine ⟨h.1, ?_⟩
  cases hexpiry : e.expiresAt with
  | none => rfl
  | some expiresAt =>
    have hunexpired := h.2
    rw [hexpiry, Option.elim_some, decide_eq_true_eq] at hunexpired
    exact decide_eq_true (by omega)

/-- Once the revocation of what an account does not cover any more completes, each active
entitlement of the account is covered, and each that was covered is as it was: with details, if
they were asked for. In the store of a run the details of an Agent's entitlement are covered as
soon as each of them is. -/
theorem reconnection_covers {required : Bool} (hvalid : s.Valid)
    (h : (revokeUncoveredEntitlements c required controllerUserId now).exec s = (.ok (), t)) :
    (∀ e ∈ t.entitlements, e.connectionId = some c.id → ∀ later, now ≤ later →
      e.active later = true →
        e.scope ∈ c.grantedScopes ∧ ∀ d ∈ e.authorizationDetails,
          ∃ d' ∈ c.authorizationDetails, canonicalJson d = canonicalJson d') ∧
    (∀ e ∈ s.entitlements, c.Covers e → (required = true → e.authorizationDetails ≠ []) →
      e ∈ t.entitlements) ∧
    ∀ pool : AccessPool, AccessReachable pool → pool.store = s → ∀ e ∈ s.entitlements,
      e.agentIdentityId.isSome = true → e.scope ∈ c.grantedScopes →
        (∀ d ∈ e.authorizationDetails,
          ∃ d' ∈ c.authorizationDetails, canonicalJson d = canonicalJson d') →
        (required = true → e.authorizationDetails ≠ []) → e ∈ t.entitlements := by
  have huntouched : ∀ e ∈ s.entitlements, c.Covers e →
      (required = true → e.authorizationDetails ≠ []) → e ∈ t.entitlements := by
    intro e he hcovers hrequired
    exact (mem_revokeUncoveredEntitlements hvalid h).mpr
      (.inl ⟨he, fun huncovered => huncovered.2.2 ⟨hcovers, hrequired⟩⟩)
  refine ⟨?_, huntouched, ?_⟩
  · intro e he hconnection later hlater hactive
    rcases (mem_revokeUncoveredEntitlements hvalid h).mp he with ⟨-, hcovered⟩ | ⟨e₀, -, -, rfl⟩
    · have hcovers : c.Covers e := by
        by_contra hnot
        exact hcovered ⟨hconnection, active_of_active hlater hactive, fun h => hnot h.1⟩
      refine ⟨hcovers.scope, fun d hd => ?_⟩
      obtain ⟨d', hd', hsame⟩ := List.mem_map.mp (hcovers.details.subset (List.mem_map_of_mem hd))
      exact ⟨d', hd', hsame.symm⟩
    · exact absurd hactive (by simp [ScopeEntitlement.active, ScopeEntitlement.finish])
  · rintro pool hpool rfl e he hagent hscope hdetails hrequired
    have hdistinct := distinctDetails_of_reachable hpool e he hagent
    exact huntouched e he (.of_distinct hdistinct hscope hdetails) hrequired

end Loop

namespace Sample

/-- The mail account after it was connected again, for the inbox and its list. -/
def narrowedAccount : ResourceConnection :=
  { mailAccount with
    credentials := [{ mailCredential with
      grantedScopes := ["list"]
      authorizationDetails := [mailbox "inbox"] }] }

def mailEntitlement (id scope : String) (details : List AuthorizationDetail) :
    ScopeEntitlement where
  id := id
  subject := .agent "a"
  resourceServerId := "mail"
  connectionId := some "account"
  authorizationDetails := details
  authorizationContextHash := contextHash details
  scope := scope
  lifetime := .persistent
  grantedBy := .user "u"
  sourceAccessRequestId := none
  ended := none
  createdAt := 0

/-- Grants of the account: in the inbox to list and to write, and to list without details. -/
def grantedMail : Store :=
  { mailStore with entitlements := [mailEntitlement "e-list" "list" [mailbox "inbox"],
      mailEntitlement "e-write" "write" [mailbox "inbox"], mailEntitlement "e-any" "list" []] }

end Sample

/-- The account is asked for the inbox: what stays active may be listed, and the grant to list
stays. -/
theorem reconnection_covers_inbox : ∃ t : Store,
    (∀ e ∈ t.entitlements, e.connectionId = some "account" → e.active 0 = true →
      e.scope ∈ Sample.narrowedAccount.grantedScopes) ∧
    Sample.mailEntitlement "e-list" "list" [Sample.mailbox "inbox"] ∈ t.entitlements := by
  have hvalid : Sample.grantedMail.Valid := by
    constructor <;> decide +kernel
  have hrun : (revokeUncoveredEntitlements Sample.narrowedAccount true "u" 0).exec
      Sample.grantedMail = (.ok (), ((revokeUncoveredEntitlements Sample.narrowedAccount true "u"
        0).exec Sample.grantedMail).2) := by rfl
  obtain ⟨hactive, hcovered, _⟩ := reconnection_covers hvalid hrun
  refine ⟨_, fun e he hconnection h => (hactive e he hconnection 0 le_rfl h).1, ?_⟩
  refine hcovered _ List.mem_cons_self ⟨by decide +kernel, List.Subperm.refl _⟩ fun _ => ?_
  exact List.cons_ne_nil _ _

/-- The grant without details is revoked too, although the account covers it: details were asked
for. -/
theorem grant_without_details_is_revoked : ∃ t : Store, Sample.grantedMail.Valid ∧
    (revokeUncoveredEntitlements Sample.narrowedAccount true "u" 0).exec Sample.grantedMail =
      (.ok (), t) ∧
    ∃ e ∈ Sample.grantedMail.entitlements, Sample.narrowedAccount.Covers e ∧
      e.connectionId = some Sample.narrowedAccount.id ∧ e.active 0 = true ∧ e ∉ t.entitlements := by
  refine ⟨_, by constructor <;> decide +kernel, rfl, Sample.mailEntitlement "e-any" "list" [], ?_⟩
  refine ⟨by decide +kernel, ⟨by decide +kernel, List.nil_subperm⟩, rfl, rfl, ?_⟩
  decide +kernel

end FlareAuth
