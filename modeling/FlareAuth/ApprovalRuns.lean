import FlareAuth.AccountScopes
import FlareAuth.LiveResources

/-!
# Approvals that run alone

The input of an approval's batch as a function of the store that it was
prepared in: the context, and for each scope the entitlement to reuse or the
one to create, with the identifiers that are generated on the way.
-/

namespace FlareAuth

open Concurrent Procedure Access Relational

/-- The identifier that is generated after `n` others. -/
def generatedId (n : ℕ) : Id := "id-" ++ toString n

theorem generatedId_inj {m n : ℕ} (h : generatedId m = generatedId n) : m = n :=
  Text.toString_inj ((String.append_right_inj _).mp h)

def Directory.permissionAccount (d : Directory) (resource : ApiResource) (connectionId : Option Id)
    (ownerUserId : Id) : Option ResourceConnection :=
  match connectionId with
  | some id => d.findConnection id
  | none => (d.findConnectionByOwnerResource resource.id ownerUserId).bind fun c =>
      d.findConnection c.id

/-- The connection of an approval's entitlements: none at a native resource. -/
def Directory.approvalConnection (d : Directory) (r : AgentAccessRequest) :
    Option ResourceConnection := do
  let resource ← d.findResource r.resourceId
  guard resource.requiresAccountConnection
  let identity ← d.findIdentity r.agentIdentityId
  d.permissionAccount resource r.connectionId identity.ownerUserId

def approvalContext (s : Store) (r : AgentAccessRequest) (input : DecideApproval)
    (actorUserId : Id) : ApprovalContext where
  request := r
  connectionId := (s.directory.approvalConnection r).map (·.id)
  authorizationDetails := input.authorizationDetails.getD []
  lifetime := input.lifetime
  actorUserId := actorUserId
  now := s.now

section Decisions

variable [Locale]

namespace ApprovalContext

variable (c : ApprovalContext)

def reusable (s : Store) : List ScopeEntitlement :=
  (s.listActiveEntitlementsByAgent c.request.agentIdentityId c.now).filter c.equivalent

def reused (s : Store) (scope : String) : Option ScopeEntitlement :=
  (c.reusable s).find? fun e => e.scope = scope

def reuse (current : ScopeEntitlement) : ScopeApproval :=
  let lifetime := current.lifetime.approvedAs c.lifetime
  if lifetime.isSome ∨ current.authorizationContextHash ≠ c.hash then
    .update current ⟨current.id, lifetime.getD current.lifetime, c.hash⟩
  else .keep current

/-- The approvals of some scopes, with the identifiers from `n` on. -/
def approvalsFrom (existing : List ScopeEntitlement) : ℕ → List String → List ScopeApproval
  | _, [] => []
  | n, scope :: scopes =>
    match existing.find? fun e => e.scope = scope with
    | some current => c.reuse current :: approvalsFrom existing n scopes
    | none => .create (c.entitlement (generatedId n) scope) :: approvalsFrom existing (n + 1) scopes

end ApprovalContext

variable {c : ApprovalContext} {existing : List ScopeEntitlement} {n : ℕ} {scope : String}
  {scopes : List String} {s t : Store}

def ApprovalContext.Approves (c : ApprovalContext) (existing : List ScopeEntitlement) (n : ℕ)
    (scope : String) (approval : ScopeApproval) : Prop :=
  (∃ current, existing.find? (fun e => e.scope = scope) = some current ∧
      approval = c.reuse current) ∨
    existing.find? (fun e => e.scope = scope) = none ∧
      ∃ m, n ≤ m ∧ approval = .create (c.entitlement (generatedId m) scope)

theorem approves_of_mem_zip {approval : ScopeApproval}
    (h : (scope, approval) ∈ scopes.zip (c.approvalsFrom existing n scopes)) :
    c.Approves existing n scope approval := by
  induction scopes generalizing n with
  | nil => cases h
  | cons scope' scopes ih =>
    rw [ApprovalContext.approvalsFrom] at h
    cases hfound : existing.find? fun e => e.scope = scope' with
    | some current =>
      rw [hfound] at h
      rcases List.mem_cons.mp h with heq | h
      · obtain ⟨rfl, rfl⟩ := Prod.mk.inj heq
        exact .inl ⟨current, hfound, rfl⟩
      · exact ih h
    | none =>
      rw [hfound] at h
      rcases List.mem_cons.mp h with heq | h
      · obtain ⟨rfl, rfl⟩ := Prod.mk.inj heq
        exact .inr ⟨hfound, n, le_rfl, rfl⟩
      · rcases ih h with hreused | ⟨hnone, m, hm, happroval⟩
        · exact .inl hreused
        · exact .inr ⟨hnone, m, by omega, happroval⟩

theorem length_approvalsFrom (c : ApprovalContext) (existing : List ScopeEntitlement) (n : ℕ)
    (scopes : List String) : (c.approvalsFrom existing n scopes).length = scopes.length := by
  induction scopes generalizing n with
  | nil => rfl
  | cons scope scopes ih =>
    rw [ApprovalContext.approvalsFrom]
    split <;> simp [ih]

/-- Every approval is that of a scope, and every scope has one. -/
theorem exists_zip_of_mem {approval : ScopeApproval}
    (h : approval ∈ c.approvalsFrom existing n scopes) :
    ∃ scope, (scope, approval) ∈ scopes.zip (c.approvalsFrom existing n scopes) := by
  obtain ⟨i, hi, rfl⟩ := List.mem_iff_getElem.mp h
  have hi' : i < scopes.length := by
    rwa [length_approvalsFrom] at hi
  refine ⟨scopes[i], List.mem_iff_getElem.mpr ⟨i, ?_, ?_⟩⟩
  · rw [List.length_zip]
    omega
  · exact List.getElem_zip

theorem exists_zip_of_scope (c : ApprovalContext) (existing : List ScopeEntitlement) (n : ℕ)
    (h : scope ∈ scopes) :
    ∃ approval, (scope, approval) ∈ scopes.zip (c.approvalsFrom existing n scopes) := by
  obtain ⟨i, hi, rfl⟩ := List.mem_iff_getElem.mp h
  have hi' : i < (c.approvalsFrom existing n scopes).length := by
    rwa [length_approvalsFrom]
  refine ⟨(c.approvalsFrom existing n scopes)[i], List.mem_iff_getElem.mpr ⟨i, ?_, ?_⟩⟩
  · rw [List.length_zip]
    omega
  · exact List.getElem_zip

section Created

def ApprovalContext.createdFrom (c : ApprovalContext) (existing : List ScopeEntitlement) (n : ℕ)
    (scopes : List String) : List ScopeEntitlement :=
  (c.approvalsFrom existing n scopes).filterMap (·.created)

variable {e : ScopeEntitlement}

theorem createdFrom_cons_of_reused {current : ScopeEntitlement}
    (h : existing.find? (fun e => e.scope = scope) = some current) :
    c.createdFrom existing n (scope :: scopes) = c.createdFrom existing n scopes := by
  have hcreated : (c.reuse current).created = none := by
    unfold ApprovalContext.reuse
    dsimp only
    split <;> rfl
  unfold ApprovalContext.createdFrom
  rw [ApprovalContext.approvalsFrom, h]
  exact List.filterMap_cons_none hcreated

theorem createdFrom_cons_of_none (h : existing.find? (fun e => e.scope = scope) = none) :
    c.createdFrom existing n (scope :: scopes) =
      c.entitlement (generatedId n) scope :: c.createdFrom existing (n + 1) scopes := by
  unfold ApprovalContext.createdFrom
  rw [ApprovalContext.approvalsFrom, h]
  exact List.filterMap_cons_some rfl

theorem mem_createdFrom (h : e ∈ c.createdFrom existing n scopes) :
    ∃ scope ∈ scopes, existing.find? (fun e => e.scope = scope) = none ∧
      ∃ m, n ≤ m ∧ e = c.entitlement (generatedId m) scope := by
  obtain ⟨approval, happroval, hcreated⟩ := List.mem_filterMap.mp h
  obtain ⟨scope, hzip⟩ := exists_zip_of_mem happroval
  refine ⟨scope, (List.of_mem_zip hzip).1, ?_⟩
  rcases approves_of_mem_zip hzip with ⟨current, -, rfl⟩ | ⟨hnone, m, hm, rfl⟩
  · unfold ApprovalContext.reuse at hcreated
    dsimp only at hcreated
    split at hcreated <;> cases hcreated
  · exact ⟨hnone, m, hm, (Option.some.inj hcreated).symm⟩

theorem scopes_createdFrom : ((c.createdFrom existing n scopes).map (·.scope)).Sublist scopes := by
  induction scopes generalizing n with
  | nil => exact List.Sublist.refl []
  | cons scope scopes ih =>
    cases h : existing.find? fun e => e.scope = scope with
    | some current =>
      rw [createdFrom_cons_of_reused h]
      exact ih.cons scope
    | none =>
      rw [createdFrom_cons_of_none h, List.map_cons]
      exact ih.cons_cons scope

theorem nodup_ids_createdFrom : ((c.createdFrom existing n scopes).map (·.id)).Nodup := by
  induction scopes generalizing n with
  | nil => exact List.nodup_nil
  | cons scope scopes ih =>
    cases h : existing.find? fun e => e.scope = scope with
    | some current =>
      rw [createdFrom_cons_of_reused h]
      exact ih
    | none =>
      rw [createdFrom_cons_of_none h, List.map_cons, List.nodup_cons]
      refine ⟨fun hmem => ?_, ih⟩
      obtain ⟨e, he, hid⟩ := List.mem_map.mp hmem
      obtain ⟨scope', -, -, m, hm, rfl⟩ := mem_createdFrom he
      have hlater := generatedId_inj hid
      omega

end Created

/-- The identifiers of created entitlements are the next ones. -/
theorem id_of_mem_createdFrom {e : ScopeEntitlement} (h : e ∈ c.createdFrom existing n scopes) :
    ∃ m, m < n + (c.createdFrom existing n scopes).length ∧ e.id = generatedId m := by
  induction scopes generalizing n with
  | nil => cases h
  | cons scope scopes ih =>
    cases hfound : existing.find? fun e => e.scope = scope with
    | some current =>
      rw [createdFrom_cons_of_reused hfound] at h ⊢
      exact ih h
    | none =>
      rw [createdFrom_cons_of_none hfound] at h ⊢
      rw [List.length_cons]
      rcases List.mem_cons.mp h with rfl | h
      · exact ⟨n, by omega, rfl⟩
      · obtain ⟨m, hm, hid⟩ := ih h
        exact ⟨m, by omega, hid⟩

/-- Each scope gets its approval in turn. -/
theorem exec_approveScopes (s : Store) :
    (collect scopes (c.approveScope existing)).exec s =
      (.ok (c.approvalsFrom existing s.generated scopes), { s with
        generated := s.generated + (c.createdFrom existing s.generated scopes).length }) := by
  induction scopes generalizing s with
  | nil => rfl
  | cons scope scopes ih =>
    rw [collect]
    cases hfound : existing.find? fun e => e.scope = scope with
    | some current =>
      have hfirst : (c.approveScope existing scope).exec s = (.ok (c.reuse current), s) := by
        unfold ApprovalContext.approveScope ApprovalContext.reuse
        rw [hfound]
        dsimp only
        split <;> rfl
      rw [exec_bind_ok _ hfirst, exec_bind_ok _ (ih s), ApprovalContext.approvalsFrom, hfound,
        createdFrom_cons_of_reused hfound]
      rfl
    | none =>
      have hfirst : (c.approveScope existing scope).exec s =
          (.ok (.create (c.entitlement (generatedId s.generated) scope)),
            { s with generated := s.generated + 1 }) := by
        unfold ApprovalContext.approveScope
        rw [hfound]
        rfl
      have hcount : s.generated + ((c.createdFrom existing (s.generated + 1) scopes).length + 1) =
          s.generated + 1 + (c.createdFrom existing (s.generated + 1) scopes).length := by
        omega
      rw [exec_bind_ok _ hfirst, exec_bind_ok _ (ih { s with generated := s.generated + 1 }),
        ApprovalContext.approvalsFrom, hfound, createdFrom_cons_of_none hfound, List.length_cons,
        hcount]
      rfl

end Decisions

section Preparations

variable [Locale] {s t : Store} {resource : ApiResource} {account : ResourceConnection}
  {connectionId : Option Id} {ownerUserId actorUserId : Id}

omit [Locale] in
theorem found_of_controlled {id : Id}
    (h : (requireControlledConnection id actorUserId).exec s = (.ok account, t)) :
    s.directory.findConnection id = some account := by
  unfold requireControlledConnection at h
  rw [exec_look_bind] at h
  obtain ⟨c, hc, h⟩ := exec_orThrow_bind h
  split at h
  · obtain ⟨-, h⟩ := exec_require_bind h
    rw [hc, ← Except.ok.inj (congrArg Prod.fst h)]
  · obtain ⟨allowed, u, -, -, h⟩ := exec_reads_bind (by simp) h
    obtain ⟨-, h⟩ := exec_require_bind h
    rw [hc, ← Except.ok.inj (congrArg Prod.fst h)]

omit [Locale] in
theorem permissionAccount_of_exec
    (h : (permissionConnection resource connectionId ownerUserId actorUserId).exec s =
      (.ok account, t)) :
    s.directory.permissionAccount resource connectionId ownerUserId = some account := by
  unfold permissionConnection at h
  cases connectionId with
  | some id => exact found_of_controlled h
  | none =>
    dsimp only at h
    rw [exec_look_bind] at h
    obtain ⟨c, hc, h⟩ := exec_orThrow_bind h
    rw [Directory.permissionAccount, hc]
    exact found_of_controlled h

structure ValidTarget (d : Directory) (resource : ApiResource) (r : AgentAccessRequest)
    (connection : Option ResourceConnection) : Prop where
  external : resource.requiresAccountConnection = true → ∃ identity account,
    d.findIdentity r.agentIdentityId = some identity ∧
    d.permissionAccount resource r.connectionId identity.ownerUserId = some account ∧
    connection = some account ∧ account.status = .active
  native : resource.requiresAccountConnection = false → connection = none

theorem validTarget_of_exec {r : AgentAccessRequest} {details : List AuthorizationDetail}
    {connection : Option ResourceConnection}
    (h : (validateAgentPermissionTarget resource ⟨r.agentIdentityId, r.scopes, r.connectionId⟩
      details actorUserId none).exec s = (.ok connection, t)) :
    ValidTarget s.directory resource r connection := by
  unfold validateAgentPermissionTarget at h
  obtain ⟨_, -, h⟩ := exec_ofExcept_bind h
  rw [exec_look_bind] at h
  obtain ⟨identity, hidentity, h⟩ := exec_orThrow_bind h
  obtain ⟨_, s₁, -, hs₁, h⟩ := exec_reads_bind (by simp) h
  have hfound := (Option.filter_eq_some_iff.mp hidentity).1
  by_cases hexternal : resource.requiresAccountConnection = true
  · rw [if_pos hexternal, exec_clock_bind] at h
    obtain ⟨grantorScopes, s₂, -, hs₂, h⟩ := exec_reads_bind (by simp) h
    obtain ⟨_, -, h⟩ := exec_ofExcept_bind h
    obtain ⟨account, s₃, haccount, -, h⟩ := exec_reads_bind (by simp) h
    obtain ⟨⟨-, hactive⟩, h⟩ := exec_require_bind h
    obtain ⟨_, -, h⟩ := exec_ofExcept_bind h
    obtain ⟨_, -, h⟩ := exec_ofExcept_bind h
    obtain ⟨_, -, h⟩ := exec_ofExcept_bind h
    have haccount' := permissionAccount_of_exec haccount
    rw [(hs₁.trans hs₂).directory_eq] at haccount'
    refine ⟨fun _ => ⟨identity, account, hfound, haccount', ?_, hactive⟩, fun hnative => ?_⟩
    · have hlast {v w : Store} {contextual : Option (List String)}
          (h : (Procedure.ofExcept (assertScopeSubset r.scopes
              (contextual.getD account.grantedScopes) "connected account") >>= fun _ =>
            (pure (some account) : Access (Option ResourceConnection))).exec v =
              (.ok connection, w)) : connection = some account := by
        obtain ⟨_, -, hanswer⟩ := exec_ofExcept_bind h
        exact (Except.ok.inj (congrArg Prod.fst hanswer)).symm
      split at h
      · exact hlast h
      · split at h
        · exact hlast h
        · obtain ⟨contextual, s₄, -, h⟩ := exec_bind_inv h
          exact hlast h
    · rw [hexternal] at hnative
      cases hnative
  · rw [if_neg hexternal] at h
    obtain ⟨_, s₂, -, -, h⟩ := exec_reads_bind (by simp) h
    obtain ⟨grantorScopes, s₃, -, -, h⟩ := exec_reads_bind (by simp) h
    obtain ⟨_, -, h⟩ := exec_ofExcept_bind h
    obtain ⟨-, h⟩ := exec_require_bind h
    obtain ⟨_, -, h⟩ := exec_ofExcept_bind h
    have hanswer := Except.ok.inj (congrArg Prod.fst h)
    exact ⟨fun htrue => absurd htrue hexternal, fun _ => hanswer.symm⟩

omit [Locale] in
/-- The connection of a valid target is that of the directory. -/
theorem ValidTarget.approvalConnection {d : Directory} {r : AgentAccessRequest}
    {connection : Option ResourceConnection} (h : ValidTarget d resource r connection)
    (hfound : d.findResource r.resourceId = some resource) :
    connection = d.approvalConnection r := by
  unfold Directory.approvalConnection
  rw [hfound]
  cases hexternal : resource.requiresAccountConnection with
  | true =>
    obtain ⟨identity, account, hidentity, haccount, rfl, -⟩ := h.external hexternal
    simp [hidentity, haccount, hexternal, guard]
  | false =>
    rw [h.native hexternal]
    simp [hexternal, guard]

omit [Locale] in
theorem ValidTarget.active {d : Directory} {r : AgentAccessRequest}
    {connection : Option ResourceConnection} (h : ValidTarget d resource r connection) :
    (connection.map (·.id)).all d.activeConnection = true := by
  cases hexternal : resource.requiresAccountConnection with
  | true =>
    obtain ⟨identity, account, -, haccount, rfl, hactive⟩ := h.external hexternal
    have hfound : ∃ id, d.findConnection id = some account := by
      unfold Directory.permissionAccount at haccount
      split at haccount
      · exact ⟨_, haccount⟩
      · obtain ⟨c, -, hc⟩ := Option.bind_eq_some_iff.mp haccount
        exact ⟨_, hc⟩
    obtain ⟨id, hid⟩ := hfound
    have hkey := List.find?_some hid
    rw [decide_eq_true_eq] at hkey
    rw [← hkey] at hid
    exact Directory.activeConnection_of_found hid hactive
  | false =>
    rw [h.native hexternal]
    rfl

def ApprovalContext.approvalIn (c : ApprovalContext) (s : Store) (n : ℕ) (audit : AuditEvent) :
    Approval :=
  c.approval (c.approvalsFrom (c.reusable s) n c.request.scopes) audit

/-- An approval that is prepared from one store to another has the context of the first. -/
structure PreparedIn (s t : Store) (r : AgentAccessRequest) (input : DecideApproval)
    (actorUserId : Id) (a : Approval) : Prop where
  approval : ∃ n, s.generated ≤ n ∧
    a = (approvalContext s r input actorUserId).approvalIn s n a.audit
  generated : ∀ e ∈ a.entitlements, ∃ m < t.generated, e.id = generatedId m
  resource : (s.directory.activeResource r.resourceId).isSome = true
  account : (approvalContext s r input actorUserId).connectionId.all
    s.directory.activeConnection = true
  lifetime : input.lifetime.expiresAt.all (fun t => decide (s.now < t)) = true

theorem preparedIn_of_exec {r : AgentAccessRequest} {input : DecideApproval}
    {reasonCode : Option String} {a : Approval}
    (h : (prepareApproval r input actorUserId reasonCode s.now).exec s = (.ok a, t)) :
    PreparedIn s t r input actorUserId a ∧ s.ReadTo t := by
  unfold prepareApproval requireEnabledResource requireFutureExpiry at h
  simp only [bind_assoc] at h
  rw [exec_look_bind] at h
  obtain ⟨resource, hresource, h⟩ := exec_orThrow_bind h
  obtain ⟨-, h⟩ := exec_require_bind h
  obtain ⟨connection, s₁, htarget, hs₁, h⟩ := exec_reads_bind (by simp) h
  obtain ⟨hexpiry, h⟩ := exec_require_bind h
  have hvalid := validTarget_of_exec htarget
  obtain ⟨hfound, henabled⟩ := Option.filter_eq_some_iff.mp hresource
  have hconnection := hvalid.approvalConnection hfound
  obtain ⟨g, hg, rfl⟩ := hs₁
  unfold listActiveEntitlementsByAgent at h
  rw [exec_ask_bind, hconnection] at h
  let c := approvalContext s r input actorUserId
  have hcollect : (collect r.scopes (c.approveScope (c.reusable s))).exec
      { s with generated := g } = (.ok (c.approvalsFrom (c.reusable s) g r.scopes),
        { s with generated := g + (c.createdFrom (c.reusable s) g r.scopes).length }) :=
    exec_approveScopes { s with generated := g }
  have htail := (exec_bind_ok _ hcollect).symm.trans h
  obtain ⟨audit, v, -, hv, hanswer⟩ := exec_reads_bind (by simp) htail
  obtain ⟨happroval, rfl⟩ := Prod.mk.inj hanswer
  obtain rfl := Except.ok.inj happroval
  have hs : s.ReadTo
      { s with generated := g + (c.createdFrom (c.reusable s) g r.scopes).length } :=
    ⟨_, by omega, rfl⟩
  have hgenerated : ∀ e ∈ c.createdFrom (c.reusable s) g r.scopes,
      ∃ m < v.generated, e.id = generatedId m := by
    intro e he
    obtain ⟨m, hm, hid⟩ := id_of_mem_createdFrom he
    exact ⟨m, hm.trans_le hv.generated_le, hid⟩
  refine ⟨⟨⟨g, hg, rfl⟩, hgenerated, Directory.activeResource_of_found hfound henabled,
    ?_, hexpiry⟩,
    hs.trans hv⟩
  have hactive := hvalid.active
  rw [hconnection] at hactive
  exact hactive

end Preparations

end FlareAuth
