import FlareAuth.ContextHashes
import FlareAuth.GrantWarrants

/-!
# No permission without a warrant

Three calls grant permissions to Agents: the decision on a request, the direct grant, and the
request for scopes that are approved by policy. Whatever runs beside them, each entitlement that
one of them inserts or extends repeats a grant that the same call has seen its controller able to
give.
-/

namespace FlareAuth

open Concurrent Relational Procedure Access

section Warrants

def Controlled (seen : List Store) (controllerUserId agentId : Id) : Prop :=
  ∃ s ∈ seen, ∃ identity, s.directory.findIdentity agentId = some identity ∧
    identity.ownerUserId = controllerUserId

variable [Locale]

/-- The controller of the Agent was seen to control it, and to have what the entitlement gives. -/
structure Warrant (seen : List Store) (controllerUserId agentId : Id) (e : ScopeEntitlement) : Prop
    where
  grantedBy : e.grantedBy = .user controllerUserId
  hashed : e.authorizationContextHash = contextHash e.authorizationDetails
  controlled : Controlled seen controllerUserId agentId
  checked : ∃ resource : ApiResource, resource.id = e.resourceServerId ∧ resource.enabled = true ∧
    (∃ s ∈ seen, resource ∈ s.directory.resources) ∧ TargetChecked seen controllerUserId agentId
      resource e.connectionId e.authorizationDetails e.scope

def Warranted (seen : List Store) (e : ScopeEntitlement) : Prop :=
  ∀ agentId, e.subject = .agent agentId → ∃ controllerUserId,
    Warrant seen controllerUserId agentId e

/-- A search for an equivalent of a grant may find the entitlement. -/
structure ScopeEntitlement.Resembles (e input : ScopeEntitlement) : Prop where
  subject : e.subject = input.subject
  resourceServerId : e.resourceServerId = input.resourceServerId
  connectionId : e.connectionId = input.connectionId
  scope : e.scope = input.scope
  context : e.authorizationContextHash = input.authorizationContextHash ∨
    exactAuthorizationDetails e.authorizationDetails input.authorizationDetails = true

/-- What is written over an entitlement that was seen is a grant which it resembles. -/
def Extends (seen : List Store) (w : Id × Digest String) : Prop :=
  ∃ s ∈ seen, ∃ e ∈ s.entitlements, e.id = w.1 ∧ ∃ input, w.2 = input.authorizationContextHash ∧
    e.Resembles input ∧ Warranted seen input

/-- What an operation inserts is warranted, and what it extends resembles something warranted. -/
structure Supported (seen : List Store) (op : Operation) : Prop where
  inserts : ∀ e ∈ op.inserts, Warranted seen e
  writes : ∀ w ∈ op.hashes, Extends seen w

variable {seen seen' : List Store} {e : ScopeEntitlement}

theorem Warrant.mono {controllerUserId agentId : Id} (h : Warrant seen controllerUserId agentId e)
    (hseen : seen ⊆ seen') : Warrant seen' controllerUserId agentId e where
  grantedBy := h.grantedBy
  hashed := h.hashed
  controlled := by
    obtain ⟨s, hs, hcontrolled⟩ := h.controlled
    exact ⟨s, hseen hs, hcontrolled⟩
  checked := by
    obtain ⟨resource, hid, henabled, ⟨s, hs, hstored⟩, hchecked⟩ := h.checked
    exact ⟨resource, hid, henabled, ⟨s, hseen hs, hstored⟩, hchecked.mono hseen⟩

theorem Warranted.mono (h : Warranted seen e) (hseen : seen ⊆ seen') : Warranted seen' e := by
  intro agentId hagent
  obtain ⟨controllerUserId, hwarrant⟩ := h agentId hagent
  exact ⟨controllerUserId, hwarrant.mono hseen⟩

theorem supported_of_spares {op : Operation} (h : op.SparesHashes) : Supported seen op := by
  refine ⟨fun e he => ?_, fun w hw => ?_⟩
  · rw [h.1] at he
    cases he
  · rw [h.2] at hw
    cases hw

end Warrants

theorem ScopeEntitlement.agentIdentityId_eq_some {e : ScopeEntitlement} {id : Id} :
    e.agentIdentityId = some id ↔ e.subject = .agent id := by
  unfold ScopeEntitlement.agentIdentityId
  cases e.subject <;> simp

section Rules

variable [Locale] {α β : Type} {log : AccessLog}

/-- Every operation is supported by what the call has seen before it, from a log on. -/
def Supports (p : Access α) (log : AccessLog) : Prop :=
  p.Obeys (fun log _ op => Supported (log.map (·.before)) op) (fun _ _ => True) log

theorem supports_spares {p : Access α} (h : p.SparesHashes) : Supports p log :=
  h.obeys (fun _ _ _ => supported_of_spares) (fun _ _ _ _ => trivial) fun _ _ _ => trivial

theorem supports_reads {p : Access α} (h : p.Reads) : Supports p log :=
  supports_spares (sparesHashes_of_reads h)

/-- After a part that reads, with what the part has seen. -/
theorem supports_sees_bind {p : Access α} {f : α → Access β} {P : α → List Store → Prop}
    (hp : p.Reads) (h : p.Sees P)
    (hf : ∀ a seen log', P a seen → log'.map (·.before) = seen ++ log.map (·.before) →
      Supports (f a) log') : Supports (p >>= f) log := by
  refine h.leaves.obeys_bind (sparesHashes_of_reads hp) (fun log s op => supported_of_spares)
    (fun new a ha _ => ?_) fun _ _ _ => trivial
  exact hf a _ (new ++ log) ha List.map_append

theorem supports_bind {p : Access α} {f : α → Access β} (hp : Supports p log)
    (hf : ∀ a log', log <:+ log' → Supports (f a) log') : Supports (p >>= f) log :=
  Obeys.bind hp (fun log' a hlog _ => hf a log' hlog) fun _ _ _ => trivial

theorem supports_reads_bind {p : Access α} {f : α → Access β} (hp : p.Reads)
    (hf : ∀ a log', log <:+ log' → Supports (f a) log') : Supports (p >>= f) log :=
  supports_bind (supports_reads hp) hf

theorem supports_ask_bind {query : Query} {answer : Store → α} {f : α → Access β}
    (h : ∀ s, Supports (f (answer s)) (⟨.read query, s⟩ :: log)) :
    Supports (ask query answer >>= f) log := fun s => ⟨supported_of_spares ⟨rfl, rfl⟩, h s⟩

theorem supports_commit {op : Operation} {batch : StoreBatch α}
    (h : Supported (log.map (·.before)) op) : Supports (commit op batch) log :=
  fun _ => ⟨h, supports_reads (only_ofExcept _)⟩

theorem supports_ite {c : Prop} [Decidable c] {p q : Access α} (hp : c → Supports p log)
    (hq : ¬c → Supports q log) : Supports (if c then p else q) log := by
  by_cases h : c
  · rw [if_pos h]
    exact hp h
  · rw [if_neg h]
    exact hq h

theorem supports_collect {bs : List β} {body : β → Access α}
    (h : ∀ b ∈ bs, ∀ log', log <:+ log' → Supports (body b) log') :
    Supports (collect bs body) log := by
  induction bs generalizing log with
  | nil => exact trivial
  | cons b bs ih =>
    refine supports_bind (h b List.mem_cons_self log List.suffix_rfl) fun a log₁ h₁ => ?_
    refine supports_bind (ih fun c hc log₂ h₂ => ?_) fun as log₂ _ => trivial
    exact h c (List.mem_cons_of_mem _ hc) log₂ (h₁.trans h₂)

omit [Locale] in
theorem states_of_suffix {log' : AccessLog} (h : log <:+ log') :
    log.map (·.before) ⊆ log'.map (·.before) := List.map_subset _ h.subset

end Rules

section Decisions

variable [Locale] {log : AccessLog} {seen earlier : List Store}

omit [Locale] in
theorem sees_controlsAgentIdentity (identityId actorUserId : Id) :
    (controlsAgentIdentity identityId actorUserId).Sees fun controlled seen =>
      controlled = true → Controlled seen actorUserId identityId := by
  refine (sees_look _).bind fun found first ⟨s, hfound, hfirst⟩ => sees_done fun hcontrolled => ?_
  obtain ⟨identity, hidentity, howner⟩ := (Option.any_eq_true _ _).mp hcontrolled
  exact ⟨s, by simp [hfirst], identity, hfound.symm.trans hidentity, of_decide_eq_true howner⟩

omit [Locale] in
/-- A request without a connection is decided by the controller of its Agent. -/
theorem sees_prepareDecision (requestId actorUserId : Id) :
    (prepareDecision requestId actorUserId).Sees fun x seen =>
      x.1.connectionId = none → Controlled seen actorUserId x.1.agentIdentityId := by
  refine (sees_true _).bind fun request first _ => ?_
  refine Sees.bind (P := fun _ seen => request.connectionId = none →
    Controlled seen actorUserId request.agentIdentityId) ?_ fun connection second hcontrolled => ?_
  · unfold requireControlledRequestTarget
    cases hconnection : request.connectionId with
    | some connectionId => exact (sees_true _).mono fun _ _ _ hnone => nomatch hnone
    | none =>
      refine (sees_controlsAgentIdentity _ _).bind fun controlled second hcontrolled => ?_
      refine (sees_require _ _).bind fun _ _ ⟨htrue, hnil⟩ => sees_done fun _ => ?_
      obtain ⟨s, hs, hfound⟩ := hcontrolled htrue
      exact ⟨s, by simp [hs], hfound⟩
  · refine (sees_true _).bind fun now third _ => sees_done fun hnone => ?_
    obtain ⟨s, hs, hfound⟩ := hcontrolled hnone
    exact ⟨s, by simp [hs], hfound⟩

/-- What an approval finds about a scope: a new entitlement of it, or one that exists already. -/
def ApprovesScope (c : ApprovalContext) (existing : List ScopeEntitlement) (scope : String)
    (approval : ScopeApproval) : Prop :=
  (∀ e, approval.created = some e → ∃ id, e = c.entitlement id scope) ∧
    ∀ u, approval.updated = some u → ∃ e ∈ existing, e.id = u.id ∧
      u.authorizationContextHash = c.hash ∧ e.scope = scope

theorem sees_approveScope (c : ApprovalContext) (existing : List ScopeEntitlement)
    (scope : String) :
    (c.approveScope existing scope).Sees fun approval _ =>
      ApprovesScope c existing scope approval := by
  unfold ApprovalContext.approveScope
  cases hfound : existing.find? fun e => e.scope = scope with
  | some current =>
    have hscope : current.scope = scope := by simpa using List.find?_some hfound
    dsimp only
    split
    · refine sees_done ⟨fun e he => (nomatch he), fun u hu => ?_⟩
      cases hu
      exact ⟨current, List.mem_of_find?_eq_some hfound, rfl, rfl, hscope⟩
    · exact sees_done ⟨fun e he => (nomatch he), fun u hu => (nomatch hu)⟩
  | none =>
    refine (sees_true _).bind fun id first _ => sees_done ⟨fun e he => ?_, fun u hu => (nomatch hu)⟩
    cases he
    exact ⟨id, rfl⟩

omit [Locale] in
theorem sees_requireEnabledResource (resourceId : Id) :
    (requireEnabledResource resourceId).Sees fun resource seen => resource.id = resourceId ∧
      resource.enabled = true ∧ ∃ s ∈ seen, resource ∈ s.directory.resources := by
  refine (sees_look _).bind fun found first ⟨s, hfound, hfirst⟩ => ?_
  refine (sees_orThrow _ _).mono fun resource seen ⟨hresource, _⟩ => ?_
  obtain ⟨hresource, henabled⟩ := Option.filter_eq_some_iff.mp hresource
  rw [hfound] at hresource
  have hkey := List.find?_some hresource
  simp only [decide_eq_true_eq] at hkey
  exact ⟨hkey.1, henabled, s, by simp [hfirst], List.mem_of_find?_eq_some hresource⟩

/-- An approval whose Context was checked is supported, also where it repeats what was granted. -/
theorem supported_approval {c : ApprovalContext} {existing : List ScopeEntitlement}
    {approvals : List ScopeApproval} (audit : AuditEvent)
    (hchecked : ∀ scope ∈ c.request.scopes, ∀ id,
      Warrant seen c.actorUserId c.request.agentIdentityId (c.entitlement id scope))
    (hlisted : ∃ s ∈ seen, ∀ e ∈ existing, e ∈ s.entitlements ∧
      e.subject = .agent c.request.agentIdentityId ∧ c.equivalent e = true)
    (happrovals : List.Forall₂ (ApprovesScope c existing) c.request.scopes approvals) :
    Supported seen (.approve (c.approval approvals audit)) := by
  have hwarranted : ∀ scope ∈ c.request.scopes, ∀ id, Warranted seen (c.entitlement id scope) := by
    intro scope hscope id agentId hagent
    cases hagent
    exact ⟨c.actorUserId, hchecked scope hscope id⟩
  refine ⟨fun e he => ?_, fun w hw => ?_⟩
  · obtain ⟨approval, happroval, hcreated⟩ := List.mem_filterMap.mp he
    obtain ⟨scope, hscope, happroves⟩ := happrovals.exists_left happroval
    obtain ⟨id, rfl⟩ := happroves.1 e hcreated
    exact hwarranted scope hscope id
  · obtain ⟨u, hu, rfl⟩ := List.mem_map.mp hw
    obtain ⟨approval, happroval, hupdated⟩ := List.mem_filterMap.mp hu
    obtain ⟨scope, hscope, happroves⟩ := happrovals.exists_left happroval
    obtain ⟨e, he, hid, hhash, rfl⟩ := happroves.2 u hupdated
    obtain ⟨s, hs, hexisting⟩ := hlisted
    obtain ⟨hstored, hsubject, hequivalent⟩ := hexisting e he
    rw [ApprovalContext.equivalent, Bool.and_eq_true, Bool.and_eq_true, beq_iff_eq, beq_iff_eq]
      at hequivalent
    refine ⟨s, hs, e, hstored, hid, c.entitlement e.id e.scope, hhash, ?_,
      hwarranted e.scope hscope e.id⟩
    exact ⟨hsubject, hequivalent.1.1, hequivalent.1.2, rfl, .inr hequivalent.2⟩

/-- The input of an approval's batch: what it inserts was checked, and what it updates repeats what
was checked. -/
theorem sees_prepareApproval (request : AgentAccessRequest) (input : DecideApproval)
    (actorUserId : Id) (reasonCode : Option String) (now : ℕ)
    (hcontrolled : request.connectionId = none →
      Controlled earlier actorUserId request.agentIdentityId) :
    (prepareApproval request input actorUserId reasonCode now).Sees fun a seen =>
      Supported (seen ++ earlier) (.approve a) := by
  refine (sees_requireEnabledResource _).bind fun resource first ⟨hid, henabled, hstored⟩ => ?_
  refine (sees_require _ _).bind fun _ _ _ => ?_
  have hresolved : Resolved [] (input.authorizationDetails.getD []) none :=
    fun granted h => nomatch h
  refine (sees_validateAgentPermissionTarget resource _ _ actorUserId none hresolved).bind
    fun connection second ⟨hchecked, hexternal, hnative⟩ => ?_
  refine (sees_require _ _).bind fun _ _ _ => ?_
  refine (sees_ask _ _).bind fun entitlements third ⟨s, hentitlements, hthird⟩ => ?_
  refine (Sees.collect (D := fun scope approval _ => ApprovesScope _ _ scope approval)
    (fun _ _ _ _ _ h => h) fun scope _ => sees_approveScope _ _ scope).bind
    fun approvals fourth happrovals => ?_
  refine (sees_true _).bind fun audit fifth _ =>
    sees_done (supported_approval audit ?_ ?_ happrovals)
  · intro scope hscope id
    refine ⟨rfl, rfl, ?_, resource, hid, henabled, ?_, (hchecked scope hscope).mono fun t ht => ?_⟩
    · cases hkind : resource.requiresAccountConnection with
      | true =>
        obtain ⟨t, ht, hfound⟩ := (hexternal hkind).1
        exact ⟨t, by simp [ht], hfound⟩
      | false =>
        obtain ⟨t, ht, hfound⟩ := hcontrolled (hnative hkind).2
        exact ⟨t, by simp [ht], hfound⟩
    · obtain ⟨t, ht, hmem⟩ := hstored
      exact ⟨t, by simp [ht], hmem⟩
    · rw [List.append_nil] at ht
      simp [ht]
  · refine ⟨s, by simp [hthird], fun e he => ?_⟩
    obtain ⟨hlisted, hequivalent⟩ := List.mem_filter.mp he
    rw [hentitlements, mem_listActiveEntitlementsByAgent] at hlisted
    exact ⟨hlisted.1, ScopeEntitlement.agentIdentityId_eq_some.mp hlisted.2.1, hequivalent⟩

theorem supports_decideAttempts (requestId : Id) (input : DecideAgentAccessRequest)
    (actorUserId : Id) (reasonCode : Option String) (attempts : ℕ) (log : AccessLog) :
    Supports (decideAttempts requestId input actorUserId reasonCode attempts) log := by
  induction attempts generalizing log with
  | zero => exact trivial
  | succ attempts ih =>
    refine supports_sees_bind (by simp) (sees_prepareDecision requestId actorUserId)
      fun ⟨request, connection, now⟩ seen log₁ hcontrolled hlog₁ => ?_
    cases input with
    | deny =>
      refine supports_spares (sparesHashes_reads_bind (by simp) fun audit => ?_)
      exact sparesHashes_bind (sparesHashes_commit ⟨rfl, rfl⟩) fun decided =>
        sparesHashes_of_reads (by simp)
    | approve input =>
      have hearlier : request.connectionId = none →
          Controlled (log₁.map (·.before)) actorUserId request.agentIdentityId := by
        intro hnone
        obtain ⟨s, hs, hfound⟩ := hcontrolled hnone
        exact ⟨s, by simp [hlog₁, hs], hfound⟩
      refine supports_sees_bind (by simp)
        (sees_prepareApproval request input actorUserId reasonCode now hearlier)
        fun approval seen₂ log₂ hsupported hlog₂ => ?_
      rw [← hlog₂] at hsupported
      refine supports_bind (supports_commit hsupported) fun result log₃ _ => ?_
      cases result with
      | approved entitlements approved => exact supports_reads (by simp)
      | resourceUnavailable => exact trivial
      | requestChanged => exact trivial
      | entitlementsChanged =>
        refine supports_reads_bind (by simp) fun found log₄ _ => ?_
        cases found with
        | none => exact ih log₄
        | some decided => exact supports_ite (fun _ => supports_reads (by simp)) fun _ => ih log₄

theorem supports_createAgentAccessRequest (input : CreateAgentAccessRequest)
    (principal : AgentResourcePrincipal) (log : AccessLog) :
    Supports (createAgentAccessRequest input principal) log := by
  have hautomatic : ∀ draft id owner log, Supports (approveAutomatically draft id owner) log :=
    fun draft id owner log => supports_decideAttempts id
      (.approve ⟨.persistent, some draft.authorizationDetails⟩) owner
      (some "automatic_scope_policy") 2 log
  have hstore : ∀ draft, (storeAccessRequest draft input.reason principal).SparesHashes := by
    intro draft
    refine sparesHashes_reads_bind (by simp) fun _ => sparesHashes_reads_bind (by simp) fun _ => ?_
    refine sparesHashes_reads_bind (by simp) fun _ => ?_
    exact sparesHashes_bind (sparesHashes_commit ⟨rfl, rfl⟩) fun _ =>
      sparesHashes_of_reads (by simp)
  refine supports_reads_bind (by simp) fun draft log₁ _ => ?_
  refine supports_reads_bind (by simp [findMatchingRequest]) fun pending log₂ _ => ?_
  cases pending with
  | some pending => exact supports_ite (fun _ => hautomatic _ _ _ _) fun _ => trivial
  | none =>
    refine supports_bind (supports_spares (hstore draft)) fun created log₃ _ => ?_
    exact supports_ite (fun _ => hautomatic _ _ _ _) fun _ => trivial

end Decisions

section Direct

variable [Locale] {log : AccessLog}

theorem resembles_of_equivalent {input e : ScopeEntitlement}
    (h : activeEquivalentEntitlement input e = true) : e.Resembles input := by
  rw [activeEquivalentEntitlement] at h
  simp only [Bool.and_eq_true, beq_iff_eq, Bool.or_eq_true] at h
  obtain ⟨⟨⟨⟨⟨hsubject, hresource⟩, hconnection⟩, hcontext⟩, hscope⟩, -⟩ := h
  refine ⟨hsubject, hresource, hconnection, hscope, hcontext.imp_right fun htext => ?_⟩
  have hdetails : e.authorizationDetails = input.authorizationDetails :=
    Json.array.inj (Json.stringify_injective htext)
  rw [hdetails]
  exact exactAuthorizationDetails_refl _

/-- A grant inserts itself, or extends an equivalent that it finds. -/
theorem supports_createScopeEntitlement {input : ScopeEntitlement}
    (hinput : Warranted (log.map (·.before)) input) (now : ℕ) :
    Supports (createScopeEntitlement input now) log := by
  have hinsert : ∀ {op : Operation} {log' : AccessLog}, log <:+ log' → op.inserts = [input] →
      op.hashes = [] → Supported (log'.map (·.before)) op := by
    intro op log' hlog hinserts hhashes
    refine ⟨fun e he => ?_, fun w hw => ?_⟩
    · rw [hinserts, List.mem_singleton] at he
      subst he
      exact hinput.mono (states_of_suffix hlog)
    · rw [hhashes] at hw
      cases hw
  have hmerge : ∀ (s : Store) e (log' : AccessLog), s ∈ log'.map (·.before) → log <:+ log' →
      s.entitlements.find? (activeEquivalentEntitlement input) = some e →
      Supports (mergeScopeEntitlement e input now) log' := by
    intro s e log' hs hlog hfound
    refine supports_ite (fun _ => ?_) fun _ => supports_ite (fun _ => trivial) fun _ => ?_
    · exact supports_bind (supports_commit (hinsert hlog rfl rfl)) fun _ _ _ => trivial
    · refine supports_bind (supports_commit ⟨fun f hf => (nomatch hf), fun w hw => ?_⟩)
        fun _ _ _ => supports_reads (only_orThrow _ _)
      obtain rfl := List.mem_singleton.mp hw
      exact ⟨s, hs, e, List.mem_of_find?_eq_some hfound, rfl, input, rfl,
        resembles_of_equivalent (List.find?_some hfound), hinput.mono (states_of_suffix hlog)⟩
  refine supports_ask_bind fun s => ?_
  have hread : log <:+ ⟨.read (.equivalentEntitlement input), s⟩ :: log := List.suffix_cons _ _
  cases hfound : s.entitlements.find? (activeEquivalentEntitlement input) with
  | some e => exact hmerge s e _ (by simp) hread hfound
  | none =>
    refine supports_bind (supports_commit (hinsert hread rfl rfl)) fun inserted log₂ h₂ => ?_
    cases inserted with
    | some inserted => exact trivial
    | none =>
      refine supports_ask_bind fun t => ?_
      cases hfound : t.entitlements.find? (activeEquivalentEntitlement input) with
      | none => exact trivial
      | some e =>
        exact hmerge t e _ (by simp) ((hread.trans h₂).trans (List.suffix_cons _ _)) hfound

omit [Locale] in
theorem resolved_none (seen : List Store) (details : List AuthorizationDetail) :
    Resolved seen details none := fun _ h => nomatch h

/-- The Contexts of a direct grant, and what their items grant. -/
theorem sees_permissionSelections (resource : ApiResource) (actorUserId : Id)
    (organizationId : Option Id) :
    (permissionSelections resource actorUserId organizationId).Sees fun found seen =>
      resource.requiresAccountConnection = found.1.isSome ∧ ∀ selection ∈ found.2,
        Resolved seen selection.authorizationDetails selection.grantedScopes := by
  unfold permissionSelections
  split
  · rename_i hexternal
    refine (sees_look _).bind fun found first _ => (sees_orThrow _ _).bind fun connection _ _ => ?_
    split
    · refine sees_done ⟨hexternal, fun selection hselection => ?_⟩
      rw [List.mem_singleton.mp hselection]
      exact resolved_none _ _
    · refine (sees_catalogItems resource connection _).bind fun items second hitems => ?_
      refine (sees_require _ _).bind fun _ _ _ =>
        sees_done ⟨hexternal, fun selection hselection => ?_⟩
      obtain ⟨item, hitem, rfl⟩ := List.mem_map.mp hselection
      intro granted hgranted
      rcases hitems item hitem with hshown | ⟨hnone, _⟩
      · exact ⟨item, hshown.mono (by simp), rfl, hgranted⟩
      · rw [hnone] at hgranted
        cases hgranted
  · rename_i hnative
    refine sees_done ⟨Bool.eq_false_iff.mpr hnative, fun selection hselection => ?_⟩
    rw [List.mem_singleton.mp hselection]
    exact resolved_none _ _

/-- The plan of a direct grant names targets that the controller can give. -/
theorem sees_planPermission (agentId : Id) (input : CreateAgentPermission) (actorUserId : Id)
    (organizationId : Option Id) :
    (planPermission agentId input actorUserId organizationId).Sees fun plan seen =>
      plan.grant.agentId = agentId ∧ plan.grant.actorUserId = actorUserId ∧
      Controlled seen actorUserId agentId ∧ ∃ resource : ApiResource,
        resource.id = plan.grant.resourceId ∧ resource.enabled = true ∧
        (∃ s ∈ seen, resource ∈ s.directory.resources) ∧
        ∀ x ∈ plan.targets, TargetChecked seen actorUserId agentId resource plan.grant.connectionId
          x.1 x.2 := by
  refine (sees_controlsAgentIdentity _ _).bind fun controlled first hcontrolled => ?_
  refine (sees_require _ _).bind fun _ _ ⟨htrue, _⟩ => ?_
  refine (sees_look _).bind fun found second ⟨s, hfound, hsecond⟩ => ?_
  refine (sees_orThrow _ _).bind fun resource _ ⟨hresource, _⟩ => ?_
  refine (sees_true _).bind fun now third _ => (sees_require _ _).bind fun _ _ _ => ?_
  refine (sees_permissionSelections resource actorUserId organizationId).bind
    fun ⟨connectionId, selections⟩ fourth ⟨hkind, hresolved⟩ => ?_
  refine (Sees.forEach (D := fun selection seen => ∀ scope ∈ Text.unique input.scopes,
      TargetChecked (seen ++ fourth) actorUserId agentId resource connectionId
        selection.authorizationDetails scope) ?_ fun selection hselection => ?_).bind
    fun _ fifth hchecked => sees_done ⟨rfl, rfl, ?_, resource, rfl, ?_, ?_, ?_⟩
  · intro selection seen seen' hseen h scope hscope
    exact (h scope hscope).mono (List.append_subset.mpr
      ⟨List.Subset.trans hseen (List.subset_append_left _ _), List.subset_append_right _ _⟩)
  · refine (sees_validateAgentPermissionTarget resource _ _ actorUserId _
      (hresolved selection hselection)).bind fun connection last ⟨htarget, hexternal, hnative⟩ =>
        sees_done fun scope hscope => ?_
    have hconnection : connection.map (·.id) = connectionId := by
      cases hrequires : resource.requiresAccountConnection with
      | true =>
        obtain ⟨id, rfl⟩ := Option.isSome_iff_exists.mp (hkind.symm.trans hrequires)
        exact (hexternal hrequires).2 id rfl
      | false =>
        obtain ⟨hnone, hid⟩ := hnative hrequires
        rw [hnone]
        exact hid.symm
    rw [← hconnection]
    exact htarget scope hscope
  · obtain ⟨t, ht, hidentity⟩ := hcontrolled htrue
    exact ⟨t, by simp [ht], hidentity⟩
  · exact (Option.filter_eq_some_iff.mp hresource).2
  · rw [hfound] at hresource
    exact ⟨s, by simp [hsecond],
      List.mem_of_find?_eq_some (Option.filter_eq_some_iff.mp hresource).1⟩
  · intro x hx
    obtain ⟨selection, hselection, hx⟩ := List.mem_flatMap.mp hx
    obtain ⟨scope, hscope, rfl⟩ := List.mem_map.mp hx
    refine (hchecked selection hselection scope hscope).mono fun t ht => ?_
    rcases List.mem_append.mp ht with ht | ht <;> simp [ht]

theorem supports_createAgentPermission (agentId : Id) (input : CreateAgentPermission)
    (actorUserId : Id) (organizationId : Option Id) (log : AccessLog) :
    Supports (createAgentPermission agentId input actorUserId organizationId) log := by
  rw [createAgentPermission_eq]
  refine supports_sees_bind (reads_planPermission _ _ _ _) (sees_planPermission _ _ _ _)
    fun plan seen log₁ hplan hlog₁ => supports_collect fun x hx log₂ h₂ => ?_
  obtain ⟨rfl, rfl, ⟨s, hs, hidentity⟩, resource, hid, henabled, ⟨t, ht, hstored⟩,
      hchecked⟩ := hplan
  refine supports_reads_bind (by simp) fun id log₃ h₃ => ?_
  have hseen : seen ⊆ log₃.map (·.before) := by
    refine List.Subset.trans ?_ (states_of_suffix (h₂.trans h₃))
    rw [hlog₁]
    exact List.subset_append_left _ _
  refine supports_createScopeEntitlement (fun agentId hagent => ?_) plan.now
  cases hagent
  exact ⟨plan.grant.actorUserId, rfl, rfl, ⟨s, hseen hs, hidentity⟩, resource, hid, henabled,
    ⟨t, hseen ht, hstored⟩, (hchecked x hx).mono hseen⟩

end Direct

section Program

variable [Locale] {α : Type}

theorem supports_then {p : Access α} {reply : α → Reply} {log : AccessLog} (h : Supports p log) :
    Supports (p >>= fun a => done (reply a)) log := supports_bind h fun _ _ _ => trivial

theorem supports_spares_then {p : Access α} {reply : α → Reply} {log : AccessLog}
    (h : p.SparesHashes) : Supports (p >>= fun a => done (reply a)) log :=
  supports_then (supports_spares h)

theorem supports_program (call : Call) : Supports call.program [] := by
  cases call with
  | createAgentAccessRequest agent input =>
    exact supports_reads_bind (by simp) fun principal log _ =>
      supports_then (supports_createAgentAccessRequest input principal log)
  | decideAgentAccessRequest requestId input actorUserId =>
    exact supports_then (supports_decideAttempts requestId input actorUserId none 2 [])
  | createAgentPermission agentId input actorUserId organizationId =>
    exact supports_then (supports_createAgentPermission agentId input actorUserId organizationId [])
  | createScopeEntitlement input now =>
    refine supports_ite (fun h => ?_) fun _ => trivial
    refine supports_then (supports_createScopeEntitlement (fun agentId hagent => ?_) now)
    rw [← ScopeEntitlement.agentIdentityId_eq_some, Option.isNone_iff_eq_none.mp h.1] at hagent
    cases hagent
  | issueTargetAccessToken requestId proof agent =>
    exact supports_reads_bind (by simp) fun principal log _ =>
      supports_spares_then (sparesHashes_issueTargetAccessToken requestId proof principal)
  | revokeAgentPermission entitlementId actorUserId =>
    exact supports_spares_then (sparesHashes_revokeAgentPermission entitlementId actorUserId)
  | revokeAgentResourceAccess agentIdentityId =>
    exact supports_spares_then (sparesHashes_revokeAgentResourceAccess agentIdentityId)
  | revokeAgentResourceLeasesForBinding bindingId =>
    refine supports_spares_then (sparesHashes_reads_bind (by simp) fun now => ?_)
    exact sparesHashes_reads_bind (by simp) fun _ =>
      only_forEach fun lease => sparesHashes_revokeTokenLeaseAtTarget lease now true
  | revokeUncoveredEntitlements connectionId required controllerUserId =>
    refine supports_reads_bind (by simp) fun _ log _ =>
      supports_reads_bind (by simp) fun _ log _ => ?_
    refine supports_reads_bind (by simp) fun now log _ => supports_spares_then ?_
    exact sparesHashes_reads_bind (by simp) fun _ =>
      only_forEach fun e => sparesHashes_closing e now _
  | revokeResourceConnection connectionId actorUserId =>
    exact supports_spares_then (sparesHashes_revokeResourceConnection connectionId actorUserId)
  | disconnectProviderConnection connectionId actorUserId =>
    exact supports_spares_then (sparesHashes_disconnectProviderConnection connectionId actorUserId)
  | resetConnector connectorId =>
    refine supports_spares_then (sparesHashes_reads_bind (by simp) fun now => ?_)
    exact sparesHashes_reads_bind (by simp) fun _ => sparesHashes_commit ⟨rfl, rfl⟩
  | deleteResource resourceId controllerUserId =>
    exact supports_spares_then (sparesHashes_deleteResource resourceId controllerUserId)
  | endEntitlementsById ids =>
    exact supports_reads_bind (by simp) fun now log _ =>
      supports_spares_then (sparesHashes_commit ⟨rfl, rfl⟩)
  | elapse milliseconds => exact fun s => ⟨supported_of_spares ⟨rfl, rfl⟩, trivial⟩
  | outside world => exact fun s => ⟨supported_of_spares ⟨rfl, rfl⟩, trivial⟩
  | administer change => exact fun s => ⟨supported_of_spares ⟨rfl, rfl⟩, trivial⟩

end Program

section Contexts

variable [Locale]

theorem sortedItems_eq_map (details : List Json) :
    Json.sortedItems details = details.map Json.sorted := by
  induction details with
  | nil => rfl
  | cons d details ih => rw [Json.sortedItems, ih, List.map_cons]

/-- Contexts with the same hash have the same details. -/
theorem exact_of_contextHash {left right : List AuthorizationDetail}
    (h : contextHash left = contextHash right) : exactAuthorizationDetails left right = true := by
  have htext : canonicalJson (.array left) = canonicalJson (.array right) := by
    unfold contextHash at h
    injection h
  rw [Json.canonicalJson_eq, Json.canonicalJson_eq, Json.stringify_injective.eq_iff] at htext
  have hsorted : left.map Json.sorted = right.map Json.sorted := by
    rw [← sortedItems_eq_map, ← sortedItems_eq_map]
    exact Json.array.inj htext
  have hcanonical : left.map canonicalJson = right.map canonicalJson := by
    have hsame := congrArg (List.map Json.stringify) hsorted
    simpa only [List.map_map, Function.comp_def, ← Json.canonicalJson_eq] using hsame
  have hlength := congrArg List.length hsorted
  rw [List.length_map, List.length_map] at hlength
  simp [exactAuthorizationDetails, hlength, hcanonical]

/-- The hash of an entitlement is that of its details in some order. -/
def ScopeEntitlement.ContextHashed (e : ScopeEntitlement) : Prop :=
  ∃ details, exactAuthorizationDetails details e.authorizationDetails = true ∧
    e.authorizationContextHash = contextHash details

/-- What resembles a warranted grant is of its Context. -/
theorem ScopeEntitlement.Resembles.exact {e input : ScopeEntitlement} (h : e.Resembles input)
    (he : e.ContextHashed)
    (hinput : input.authorizationContextHash = contextHash input.authorizationDetails) :
    exactAuthorizationDetails e.authorizationDetails input.authorizationDetails = true := by
  rcases h.context with hhash | hexact
  · obtain ⟨details, hdetails, hhashed⟩ := he
    rw [exactAuthorizationDetails_comm] at hdetails
    refine exactAuthorizationDetails_trans hdetails (exact_of_contextHash ?_)
    rw [← hhashed, hhash, hinput]
  · exact hexact

end Contexts

section Runs

variable [Locale] {pool : AccessPool}

/-- The entitlement is what was granted once, though it may have lost its connection. -/
structure ScopeEntitlement.Stems (e granted : ScopeEntitlement) : Prop where
  id : e.id = granted.id
  subject : e.subject = granted.subject
  resourceServerId : e.resourceServerId = granted.resourceServerId
  connectionId : e.connectionId = granted.connectionId ∨ e.connectionId = none
  authorizationDetails : e.authorizationDetails = granted.authorizationDetails
  scope : e.scope = granted.scope
  grantedBy : e.grantedBy = granted.grantedBy

structure ScopeEntitlement.Repeats (e granted : ScopeEntitlement) : Prop where
  subject : e.subject = granted.subject
  resourceServerId : e.resourceServerId = granted.resourceServerId
  connectionId : e.connectionId = granted.connectionId ∨ e.connectionId = none
  context : exactAuthorizationDetails e.authorizationDetails granted.authorizationDetails = true
  scope : e.scope = granted.scope

/-- An entitlement of an Agent is a grant for which there was a warrant. -/
def Grounded (seen : List Store) (e : ScopeEntitlement) : Prop :=
  ∀ agentId, e.subject = .agent agentId → e.ContextHashed ∧
    ∃ granted controllerUserId, e.Stems granted ∧ Warrant seen controllerUserId agentId granted

omit [Locale] in
theorem ScopeEntitlement.Stems.refl (e : ScopeEntitlement) : e.Stems e :=
  ⟨rfl, rfl, rfl, .inl rfl, rfl, rfl, rfl⟩

omit [Locale] in
theorem ScopeEntitlement.Stems.trans {e f granted : ScopeEntitlement} (h : e.Stems f)
    (h' : f.Stems granted) : e.Stems granted where
  id := h.id.trans h'.id
  subject := h.subject.trans h'.subject
  resourceServerId := h.resourceServerId.trans h'.resourceServerId
  connectionId := by
    rcases h.connectionId with hsame | hlost
    · rw [hsame]
      exact h'.connectionId
    · exact .inr hlost
  authorizationDetails := h.authorizationDetails.trans h'.authorizationDetails
  scope := h.scope.trans h'.scope
  grantedBy := h.grantedBy.trans h'.grantedBy

omit [Locale] in
theorem ScopeEntitlement.stems_write (e : ScopeEntitlement) (lifetime : Lifetime)
    (hash : Digest String) :
    ScopeEntitlement.Stems { e with lifetime := lifetime, authorizationContextHash := hash } e :=
  ⟨rfl, rfl, rfl, .inl rfl, rfl, rfl, rfl⟩

theorem ScopeEntitlement.Repeats.of_stems {e f granted : ScopeEntitlement} (h : e.Repeats granted)
    (hstems : f.Stems e) : f.Repeats granted where
  subject := hstems.subject.trans h.subject
  resourceServerId := hstems.resourceServerId.trans h.resourceServerId
  connectionId := by
    rcases hstems.connectionId with hsame | hlost
    · rw [hsame]
      exact h.connectionId
    · exact .inr hlost
  context := by
    rw [hstems.authorizationDetails]
    exact h.context
  scope := hstems.scope.trans h.scope

theorem Grounded.stems {seen : List Store} {e f : ScopeEntitlement} (h : Grounded seen e)
    (hstems : f.Stems e) (hhash : f.authorizationContextHash = e.authorizationContextHash) :
    Grounded seen f := by
  intro agentId hagent
  obtain ⟨⟨details, hexact, hhashed⟩, granted, controllerUserId, hgranted, hwarrant⟩ :=
    h agentId (hstems.subject.symm.trans hagent)
  refine ⟨⟨details, ?_, hhash.trans hhashed⟩, granted, controllerUserId, hstems.trans hgranted,
    hwarrant⟩
  rwa [hstems.authorizationDetails]

theorem Warranted.grounded {seen : List Store} {e : ScopeEntitlement} (h : Warranted seen e) :
    Grounded seen e := by
  intro agentId hagent
  obtain ⟨controllerUserId, hwarrant⟩ := h agentId hagent
  exact ⟨⟨_, exactAuthorizationDetails_refl _, hwarrant.hashed⟩, e, controllerUserId, .refl e,
    hwarrant⟩

theorem Grounded.mono {seen seen' : List Store} {e : ScopeEntitlement} (h : Grounded seen e)
    (hseen : seen ⊆ seen') : Grounded seen' e := by
  intro agentId hagent
  obtain ⟨hhashed, granted, controllerUserId, hstems, hwarrant⟩ := h agentId hagent
  exact ⟨hhashed, granted, controllerUserId, hstems, hwarrant.mono hseen⟩

/-- What a pending operation writes into an entitlement is a grant of the entitlement's Context, for
which the call has a warrant. -/
theorem repeats_of_write (h : AccessReachable pool)
    (hgrounded : ∀ u ∈ pool.past, ∀ e ∈ u.entitlements, Grounded pool.past e) {i : ℕ}
    {t : Thread Call Store Operation Failure Reply} {op : Operation}
    (hpending : pool.pending i = some (t, op)) {w : Id × Digest String} (hw : w ∈ op.hashes)
    {e : ScopeEntitlement} (he : e ∈ pool.store.entitlements) (hid : e.id = w.1) {agentId : Id}
    (hagent : e.subject = .agent agentId) :
    ∃ granted controllerUserId, e.Repeats granted ∧
      w.2 = contextHash granted.authorizationDetails ∧
      Warrant (t.log.map (·.before)) controllerUserId agentId granted := by
  obtain ⟨ht, hsupported⟩ := h.pending_obeys supports_program hpending
  obtain ⟨s, hs, e₀, he₀, hid₀, granted, hhash, hresembles, hwarranted⟩ := hsupported.writes w hw
  obtain ⟨d, hd, rfl⟩ := List.mem_map.mp hs
  have hpersists : e₀.Persists e :=
    (h.evolves_before persists_evolution ht hd).entitlements.of_mem_of_key_eq
      (fun _ _ hp => hp.id) (AccessReachable.valid h).entitlements.1 he₀ he (hid.trans hid₀.symm)
  have hagent₀ : e₀.subject = .agent agentId := hpersists.subject.symm.trans hagent
  obtain ⟨controllerUserId, hwarrant⟩ := hwarranted agentId (hresembles.subject.symm.trans hagent₀)
  have hhashed := (hgrounded _ (h.before_mem_past t ht d hd) e₀ he₀ agentId hagent₀).1
  refine ⟨granted, controllerUserId, ⟨?_, ?_, ?_, ?_, ?_⟩, hhash.trans hwarrant.hashed, hwarrant⟩
  · exact hpersists.subject.trans hresembles.subject
  · exact hpersists.resourceServerId.trans hresembles.resourceServerId
  · rw [← hresembles.connectionId]
    exact hpersists.connectionId
  · rw [hpersists.authorizationDetails]
    exact hresembles.exact hhashed hwarrant.hashed
  · exact hpersists.scope.trans hresembles.scope

/-- In every store of a run, each entitlement of an Agent is grounded. -/
theorem grounded_of_reachable (h : AccessReachable pool) :
    ∀ u ∈ pool.store :: pool.past, ∀ e ∈ u.entitlements, Grounded pool.past e := by
  refine h.keeps_past (I := fun s past => ∀ u ∈ s :: past, ∀ e ∈ u.entitlements, Grounded past e)
    (fun s hs u hu e he => ?_) (fun pool i t op hpool _ hpending hkept => ?_)
  · obtain rfl := List.mem_singleton.mp hu
    rw [hs.entitlements] at he
    cases he
  · have hpast : pool.past ⊆ pool.store :: pool.past := List.subset_cons_self _ _
    have hkept' : ∀ u ∈ pool.store :: pool.past, ∀ e ∈ u.entitlements,
        Grounded (pool.store :: pool.past) e := fun u hu e he => (hkept u hu e he).mono hpast
    rw [List.forall_mem_cons]
    refine ⟨?_, hkept'⟩
    obtain ⟨ht, hsupported⟩ := hpool.pending_obeys supports_program hpending
    have hseen : t.log.map (·.before) ⊆ pool.store :: pool.past := by
      intro s hs
      obtain ⟨d, hd, rfl⟩ := List.mem_map.mp hs
      exact hpast (hpool.before_mem_past t ht d hd)
    let P (e : ScopeEntitlement) : Prop := Grounded (pool.store :: pool.past) e ∧
      ∀ w ∈ op.hashes, e.id = w.1 →
        Grounded (pool.store :: pool.past) { e with authorizationContextHash := w.2 }
    have hsame : ∀ e f, f.Stems e → f.authorizationContextHash = e.authorizationContextHash →
        P e → P f := by
      intro e f hstems hhash hP
      refine ⟨hP.1.stems hstems hhash, fun w hw hid => ?_⟩
      exact (hP.2 w hw (hstems.id.symm.trans hid)).stems
        ⟨hstems.id, hstems.subject, hstems.resourceServerId, hstems.connectionId,
          hstems.authorizationDetails, hstems.scope, hstems.grantedBy⟩ rfl
    have hrespects : op.Respects P := by
      refine ⟨fun e reason now => ?_, fun e => ?_, fun e requestId => ?_, fun e he => ?_,
        fun w hw e lifetime hP hid => ?_⟩
      · exact hsame e _ ⟨rfl, rfl, rfl, .inl rfl, rfl, rfl, rfl⟩ rfl
      · exact hsame e _ ⟨rfl, rfl, rfl, .inr rfl, rfl, rfl, rfl⟩ rfl
      · exact hsame e _ ⟨rfl, rfl, rfl, .inl rfl, rfl, rfl, rfl⟩ rfl
      · have hgrounded := ((hsupported.inserts e he).mono hseen).grounded
        refine ⟨hgrounded, fun w hw _ => ?_⟩
        rw [← ((hpool.pending_obeys hashing_program hpending).2.1 e he).2.2 w hw]
        exact hgrounded
      · refine ⟨(hP.2 w hw hid).stems ⟨rfl, rfl, rfl, .inl rfl, rfl, rfl, rfl⟩ rfl,
          fun w' hw' hid' => ?_⟩
        exact (hP.2 w' hw' hid').stems ⟨rfl, rfl, rfl, .inl rfl, rfl, rfl, rfl⟩ rfl
    intro e he
    refine (rowsKeep_perform hrespects pool.store (fun e he => ?_) e he).1
    refine ⟨hkept' _ List.mem_cons_self e he, fun w hw hid agentId hagent => ?_⟩
    obtain ⟨granted, controllerUserId, hrepeats, hhash, hwarrant⟩ := repeats_of_write hpool
      (fun u hu => hkept u (List.mem_cons_of_mem _ hu)) hpending hw he hid hagent
    obtain ⟨-, granted', controllerUserId', hstems, hwarrant'⟩ :=
      hkept' _ List.mem_cons_self e he agentId hagent
    refine ⟨⟨granted.authorizationDetails, ?_, hhash⟩, granted', controllerUserId',
      (e.stems_write e.lifetime w.2).trans hstems, hwarrant'⟩
    rw [exactAuthorizationDetails_comm]
    exact hrepeats.context

/-- A step after which an Agent has an entitlement that it did not have before, or has one for
longer, is a step of a call with a warrant for it. -/
theorem gained_of_pending (h : AccessReachable pool) {i : ℕ}
    {t : Thread Call Store Operation Failure Reply} {op : Operation}
    (hpending : pool.pending i = some (t, op)) {e : ScopeEntitlement}
    (he : e ∈ (op.perform pool.store).entitlements) {agentId : Id}
    (hagent : e.subject = .agent agentId) :
    (∃ e₀ ∈ pool.store.entitlements, e.Stems e₀ ∧ e₀.Fades e) ∨
      ∃ granted controllerUserId, e.Repeats granted ∧
        Warrant (t.log.map (·.before)) controllerUserId agentId granted := by
  let P (e : ScopeEntitlement) : Prop :=
    (∃ e₀ ∈ pool.store.entitlements, e.Stems e₀ ∧ e.lifetime = e₀.lifetime) ∨ ∀ agentId,
      e.subject = .agent agentId → ∃ granted controllerUserId, e.Repeats granted ∧
        Warrant (t.log.map (·.before)) controllerUserId agentId granted
  have hsame : ∀ e f, f.Stems e → f.lifetime = e.lifetime → P e → P f := by
    rintro e f hstems hlifetime (⟨e₀, he₀, hstems₀, hlifetime₀⟩ | hgained)
    · exact .inl ⟨e₀, he₀, hstems.trans hstems₀, hlifetime.trans hlifetime₀⟩
    · refine .inr fun agentId hagent => ?_
      obtain ⟨granted, controllerUserId, hrepeats, hwarrant⟩ :=
        hgained agentId (hstems.subject.symm.trans hagent)
      exact ⟨granted, controllerUserId, hrepeats.of_stems hstems, hwarrant⟩
  have hrespects : op.Respects P := by
    refine ⟨fun e reason now => ?_, fun e => ?_, fun e requestId => ?_, fun e he => .inr ?_,
      fun w hw e lifetime hP hid => .inr fun agentId hagent => ?_⟩
    · exact hsame e _ ⟨rfl, rfl, rfl, .inl rfl, rfl, rfl, rfl⟩ rfl
    · exact hsame e _ ⟨rfl, rfl, rfl, .inr rfl, rfl, rfl, rfl⟩ rfl
    · exact hsame e _ ⟨rfl, rfl, rfl, .inl rfl, rfl, rfl, rfl⟩ rfl
    · intro agentId hagent
      obtain ⟨ht, hsupported⟩ := h.pending_obeys supports_program hpending
      obtain ⟨controllerUserId, hwarrant⟩ := hsupported.inserts e he agentId hagent
      exact ⟨e, controllerUserId, ⟨rfl, rfl, .inl rfl, exactAuthorizationDetails_refl _,
        rfl⟩, hwarrant⟩
    · have hwrite := e.stems_write lifetime w.2
      rcases hP with ⟨e₀, he₀, hstems, -⟩ | hgained
      · have hstems' := hwrite.trans hstems
        have hgrounded := grounded_of_reachable h
        obtain ⟨granted, controllerUserId, hrepeats, -, hwarrant⟩ := repeats_of_write h
          (fun u hu => hgrounded u (List.mem_cons_of_mem _ hu)) hpending hw he₀
          (hstems.id.symm.trans hid) (hstems'.subject.symm.trans hagent)
        exact ⟨granted, controllerUserId, hrepeats.of_stems hstems', hwarrant⟩
      · obtain ⟨granted, controllerUserId, hrepeats, hwarrant⟩ := hgained agentId hagent
        exact ⟨granted, controllerUserId, hrepeats.of_stems hwrite, hwarrant⟩
  have hstored : ∀ e ∈ pool.store.entitlements, P e := fun e he => .inl ⟨e, he, .refl e, rfl⟩
  rcases rowsKeep_perform hrespects pool.store hstored e he with
    ⟨e₀, he₀, hstems, hlifetime⟩ | hgained
  · -- the row with this identifier has evolved from the earlier one, and what has ended stays ended
    have hprecedes := precedes_perform op pool.store
    have hpersists : e₀.Persists e := hprecedes.persists.entitlements.of_mem_of_key_eq
      (fun _ _ hp => hp.id) (hprecedes.valid (AccessReachable.valid h)).entitlements.1
        he₀ he hstems.id
    exact .inl ⟨e₀, he₀, hstems, hstems.id, hstems.subject, hlifetime, hpersists.ended⟩
  · exact .inr (hgained agentId hagent)

/-- Whatever calls run beside each other, an Agent has only what its controller was seen to have to
give: each of its entitlements was granted so, and each step that adds one or lets one last
longer is a step of a call with a warrant for it. -/
theorem agents_granted_by_warrant (pool : AccessPool) (h : AccessReachable pool) :
    (∀ e ∈ pool.store.entitlements, ∀ agentId, e.subject = .agent agentId →
      ∃ granted controllerUserId, e.Stems granted ∧
        Warrant pool.past controllerUserId agentId granted) ∧
    ∀ i t op, pool.pending i = some (t, op) → ∀ e ∈ (op.perform pool.store).entitlements,
      ∀ agentId, e.subject = .agent agentId →
        (∃ e₀ ∈ pool.store.entitlements, e.Stems e₀ ∧ e₀.Fades e) ∨
          ∃ granted controllerUserId, e.Repeats granted ∧
            Warrant (t.log.map (·.before)) controllerUserId agentId granted := by
  refine ⟨fun e he agentId hagent => ?_, fun i t op hpending e he agentId hagent => ?_⟩
  · exact (grounded_of_reachable h pool.store List.mem_cons_self e he agentId hagent).2
  · exact gained_of_pending h hpending he hagent

end Runs

namespace Sample

/-- A permission that expires, and the step before a second call lets it last. -/
def extendingMoves : List (Move Call) :=
  Move.alone 0 (.createAgentPermission "a" ⟨"https://notes", ["read"], .expiring 50⟩ "u" none) 12 ++
    Move.alone 1 (.createAgentPermission "a" ⟨"https://notes", ["read"], .persistent⟩ "u" none) 11

def lastsFor (agentId : Id) (e : ScopeEntitlement) : Bool :=
  decide (e.subject = .agent agentId) && decide (e.lifetime = .persistent)

set_option maxRecDepth 10000 in
theorem agents_granted_by_warrant_extended : ∃ pool : AccessPool, AccessReachable pool ∧
    ∃ i t op, pool.pending i = some (t, op) ∧ ∃ e ∈ (op.perform pool.store).entitlements,
      ∃ granted controllerUserId, e.lifetime = .persistent ∧ e.Repeats granted ∧
        Warrant (t.log.map (·.before)) controllerUserId "a" granted := by
  have hrun : (run extendingMoves).any (fun pool =>
      pool.store.entitlements.all (fun e => !lastsFor "a" e) && (pool.pending 1).any fun x =>
        (x.2.perform pool.store).entitlements.any (lastsFor "a")) = true := by
    decide +kernel
  obtain ⟨pool, hpool, hcheck⟩ := reachable_of_run hrun
  rw [Bool.and_eq_true, List.all_eq_true, Option.any_eq_true] at hcheck
  obtain ⟨hbefore, ⟨t, op⟩, hpending, hafter⟩ := hcheck
  obtain ⟨e, he, hlasts⟩ := List.any_eq_true.mp hafter
  have hlasts' := hlasts
  simp only [lastsFor, Bool.and_eq_true, decide_eq_true_eq] at hlasts'
  refine ⟨pool, hpool, 1, t, op, hpending, e, he, ?_⟩
  rcases (agents_granted_by_warrant pool hpool).2 1 t op hpending e he "a" hlasts'.1 with
    ⟨e₀, he₀, _, hfades⟩ | ⟨granted, controllerUserId, hrepeats, hwarrant⟩
  · have hnever := hbefore e₀ he₀
    simp only [lastsFor, ← hfades.subject, ← hfades.lifetime, hlasts'] at hnever
    cases hnever
  · exact ⟨granted, controllerUserId, hlasts'.2, hrepeats, hwarrant⟩

end Sample

end FlareAuth
