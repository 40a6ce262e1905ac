import FlareAuth.AgentSweeps
import FlareAuth.GrantStrength

/-!
# Grants that keep their strength

Approvals, automatic approvals and direct grants of permissions compute the
strongest lifetime from what they read, and write it whatever has been written
since. As long as nothing stronger is written over, what each of them reports
as granted stays in force at least as long as it was granted for.
-/

namespace FlareAuth

open Concurrent Procedure Access Relational Repository

section Program

variable [Locale]

def AgentAccessRequest.permission (r : AgentAccessRequest) (scope : String) :
    ScopeEntitlement.ActiveKey :=
  ⟨.agent r.agentIdentityId, r.resourceId, r.connectionId.getD "",
    contextHash r.authorizationDetails, scope⟩

def Call.Granting : Call → Prop
  | .createAgentAccessRequest _ _ | .decideAgentAccessRequest _ _ _ | .createAgentPermission _ _ _ _
  | .elapse _ | .outside _ | .administer _ => True
  | _ => False

/-- The lifetime of what a call grants; an automatic approval is persistent. -/
def Call.lifetime : Call → Lifetime
  | .decideAgentAccessRequest _ (.approve input) _ => input.lifetime
  | .createAgentPermission _ input _ _ => input.lifetime
  | _ => .persistent

/-- The call approved a request; of a request that was created only if it made an approval. -/
def Call.Approving (log : AccessLog) : Call → Prop
  | .decideAgentAccessRequest _ (.approve _) _ => True
  | .createAgentAccessRequest _ _ => ∃ d ∈ log, ∃ a, d.operation = .approve a
  | _ => False

def Reported (call : Call) (log : AccessLog) (key : ScopeEntitlement.ActiveKey) : Reply → Prop
  | .request r => call.Approving log ∧ ∃ scope ∈ r.scopes, key = r.permission scope
  | .permissions permissions =>
    ∃ e ∈ permissions, ({ e with ended := none } : ScopeEntitlement).activeKey = some key
  | _ => False

section Operations

variable {α β : Type}

def Operation.Direct : Operation → Prop
  | .approve _ => False
  | op => op.Granting

omit [Locale] in
theorem granting_of_direct {p : Access α} (h : p.Only Operation.Direct) :
    p.Only Operation.Granting :=
  h.mono fun op hop => by
    cases op with
    | approve a => exact hop.elim
    | _ => exact hop

omit [Locale] in
theorem direct_of_reads {p : Access α} (h : p.Reads) : p.Only Operation.Direct :=
  h.mono fun op hop => by cases op <;> first | exact trivial | exact hop.elim

omit [Locale] in
theorem direct_commit {op : Operation} {batch : StoreBatch α} (h : op.Direct) :
    (commit op batch).Only Operation.Direct := ⟨h, fun _ => only_ofExcept _⟩

omit [Locale] in
theorem granting_of_reads {p : Access α} (h : p.Reads) : p.Only Operation.Granting :=
  granting_of_direct (direct_of_reads h)

omit [Locale] in
theorem direct_denyAgentAccessRequest (request : AgentAccessRequest)
    (connection : Option ResourceConnection) (actorUserId : Id) (now : ℕ) :
    (denyAgentAccessRequest request connection actorUserId now).Only Operation.Direct := by
  refine only_bind.mpr ⟨direct_of_reads (by simp), fun audit _ => ?_⟩
  refine only_bind.mpr ⟨direct_commit (by exact trivial), fun decided _ => ?_⟩
  exact direct_of_reads (by simp)

theorem granting_decideAttempts (requestId : Id) (input : DecideAgentAccessRequest)
    (actorUserId : Id) (reasonCode : Option String) (attempts : ℕ) :
    (decideAttempts requestId input actorUserId reasonCode attempts).Only Operation.Granting := by
  induction attempts with
  | zero => exact trivial
  | succ attempts ih =>
    refine only_bind.mpr ⟨granting_of_reads (by simp), fun ⟨request, connection, now⟩ _ => ?_⟩
    cases input with
    | deny => exact granting_of_direct (direct_denyAgentAccessRequest _ _ _ _)
    | approve input =>
      refine only_bind.mpr ⟨granting_of_reads (by simp), fun approval _ => ?_⟩
      refine only_bind.mpr ⟨⟨by exact trivial, fun _ => only_ofExcept _⟩, fun result _ => ?_⟩
      cases result with
      | approved entitlements approved => exact granting_of_reads (by simp)
      | resourceUnavailable => exact trivial
      | requestChanged => exact trivial
      | entitlementsChanged =>
        refine only_bind.mpr ⟨granting_of_reads (by simp), fun found _ => ?_⟩
        cases found with
        | none => exact ih
        | some decided => exact only_ite.mpr ⟨fun _ => granting_of_reads (by simp), fun _ => ih⟩

omit [Locale] in
theorem direct_storeAccessRequest (d : RequestDraft) (reason : Option String)
    (principal : AgentResourcePrincipal) :
    (storeAccessRequest d reason principal).Only Operation.Direct := by
  refine only_bind.mpr ⟨direct_of_reads (by simp), fun _ _ => ?_⟩
  refine only_bind.mpr ⟨direct_of_reads (by simp), fun _ _ => ?_⟩
  refine only_bind.mpr ⟨direct_of_reads (by simp), fun _ _ => ?_⟩
  exact only_bind.mpr ⟨direct_commit (by exact trivial), fun _ _ => only_orThrow _ _⟩

theorem granting_createAgentAccessRequest (input : CreateAgentAccessRequest)
    (principal : AgentResourcePrincipal) :
    (createAgentAccessRequest input principal).Only Operation.Granting := by
  have hautomatic : ∀ draft id owner,
      (approveAutomatically draft id owner).Only Operation.Granting :=
    fun draft id owner => granting_decideAttempts id
      (.approve ⟨.persistent, some draft.authorizationDetails⟩) owner
      (some "automatic_scope_policy") 2
  refine only_bind.mpr ⟨granting_of_reads (by simp), fun draft _ => ?_⟩
  refine only_bind.mpr ⟨granting_of_reads (by simp [findMatchingRequest]), fun pending _ => ?_⟩
  cases pending with
  | some pending => exact only_ite.mpr ⟨fun _ => hautomatic _ _ _, fun _ => trivial⟩
  | none =>
    refine only_bind.mpr ⟨granting_of_direct
      (direct_storeAccessRequest draft input.reason principal), fun created _ => ?_⟩
    exact only_ite.mpr ⟨fun _ => hautomatic _ _ _, fun _ => trivial⟩

omit [Locale] in
theorem direct_createScopeEntitlement (input : ScopeEntitlement) (now : ℕ) :
    (createScopeEntitlement input now).Only Operation.Direct := by
  have hmerge : ∀ existing,
      (mergeScopeEntitlement existing input now).Only Operation.Direct := by
    intro existing
    refine only_ite.mpr ⟨fun _ => ?_, fun _ => only_ite.mpr ⟨fun _ => trivial, fun _ => ?_⟩⟩
    · exact only_bind.mpr ⟨direct_commit (by exact trivial), fun _ _ => trivial⟩
    · exact only_bind.mpr ⟨direct_commit (by exact trivial), fun _ _ => only_orThrow _ _⟩
  refine only_bind.mpr ⟨direct_of_reads (by simp [findEquivalentEntitlement]), fun found _ => ?_⟩
  cases found with
  | some existing => exact hmerge existing
  | none =>
    refine only_bind.mpr ⟨direct_commit (by exact trivial), fun inserted _ => ?_⟩
    cases inserted with
    | some inserted => exact trivial
    | none =>
      refine only_bind.mpr ⟨direct_of_reads (by simp [findEquivalentEntitlement]),
        fun found _ => ?_⟩
      exact only_bind.mpr ⟨only_orThrow _ _, fun existing _ => hmerge existing⟩

theorem direct_createAgentPermission (agentId : Id) (input : CreateAgentPermission)
    (actorUserId : Id) (organizationId : Option Id) :
    (createAgentPermission agentId input actorUserId organizationId).Only Operation.Direct := by
  have hreads : ∀ {γ : Type} {p : Access γ}, p.Reads → p.Only Operation.Direct :=
    direct_of_reads
  refine only_bind.mpr ⟨hreads (by simp [controlsAgentIdentity]), fun _ _ => ?_⟩
  refine only_bind.mpr ⟨hreads (by simp), fun _ _ =>
    only_bind.mpr ⟨hreads (by simp), fun _ _ => ?_⟩⟩
  refine only_bind.mpr ⟨hreads (by simp), fun resource _ => ?_⟩
  refine only_bind.mpr ⟨hreads (by simp), fun now _ => ?_⟩
  refine only_bind.mpr ⟨hreads (by simp [requireFutureExpiry]), fun _ _ => ?_⟩
  refine only_bind.mpr ⟨hreads (by simp), fun selected _ => ?_⟩
  obtain ⟨connectionId, selections⟩ := selected
  refine only_bind.mpr ⟨hreads (by simp), fun _ _ => ?_⟩
  refine only_bind.mpr ⟨only_collect fun selection => only_collect fun scope => ?_,
    fun _ _ => trivial⟩
  exact only_bind.mpr ⟨hreads (by simp), fun _ _ => direct_createScopeEntitlement _ now⟩

theorem granting_program {c : Call} (h : c.Granting) : c.program.Only Operation.Granting := by
  cases c with
  | createAgentAccessRequest agent input =>
    refine only_bind.mpr ⟨granting_of_reads (by simp), fun principal _ => ?_⟩
    exact only_bind.mpr ⟨granting_createAgentAccessRequest _ _, fun _ _ => trivial⟩
  | decideAgentAccessRequest requestId input actorUserId =>
    exact only_bind.mpr ⟨granting_decideAttempts _ _ _ _ _, fun _ _ => trivial⟩
  | createAgentPermission agentId input actorUserId organizationId =>
    exact only_bind.mpr ⟨granting_of_direct (direct_createAgentPermission _ _ _ _),
      fun _ _ => trivial⟩
  | elapse milliseconds => exact ⟨trivial, fun _ => trivial⟩
  | outside world => exact ⟨trivial, fun _ => trivial⟩
  | administer change => exact ⟨trivial, fun _ => trivial⟩
  | _ => exact h.elim

end Operations

section Approving

/-- What an approval does about a scope of its request, on the entitlements that it read. -/
def ApprovalContext.Covers (c : ApprovalContext) (existing : List ScopeEntitlement)
    (scope : String) : ScopeApproval → Prop
  | .keep e => e ∈ existing ∧ e.scope = scope ∧ c.lifetime ≤ e.lifetime ∧
      e.authorizationContextHash = c.hash
  | .update e u => e ∈ existing ∧ u.id = e.id ∧ c.lifetime ≤ u.lifetime ∧
      u.authorizationContextHash = c.hash
  | .create e => ∃ id, e = c.entitlement id scope

theorem covers_approveScope {c : ApprovalContext} {existing : List ScopeEntitlement}
    {scope : String} {x : ScopeApproval} (h : (c.approveScope existing scope).Returns x) :
    c.Covers existing scope x := by
  unfold ApprovalContext.approveScope at h
  split at h
  · rename_i current hfound
    have hmem := List.mem_of_find?_eq_some hfound
    have hscope : current.scope = scope := by simpa using List.find?_some hfound
    have hmax := Lifetime.approvedAs_getD current.lifetime c.lifetime
    dsimp only at h
    split at h
    · obtain rfl := h
      refine ⟨hmem, rfl, ?_, rfl⟩
      rw [hmax]
      exact le_max_right _ _
    · rename_i hsame
      obtain rfl := h
      rw [not_or, Bool.not_eq_true, Option.isSome_eq_false_iff, Option.isNone_iff_eq_none,
        not_not] at hsame
      rw [hsame.1, Option.getD_none] at hmax
      refine ⟨hmem, hscope, ?_, hsame.2⟩
      rw [hmax]
      exact le_max_right _ _
  · obtain ⟨_, _, rfl⟩ := h
    exact ⟨_, rfl⟩

/-- An approval that was computed for a lifetime, from the request and the entitlements that a log
shows. -/
structure Computed (log : AccessLog) (lifetime : Lifetime) (c : ApprovalContext)
    (approvals : List ScopeApproval) (a : Approval) : Prop where
  approval : a = c.approval approvals a.audit
  lifetime : c.lifetime = lifetime
  request : ∃ d ∈ log, d.before.findAccessRequest c.request.id = some c.request
  covers : ∃ d ∈ log, ∃ now, List.Forall₂ (c.Covers
    ((d.before.listActiveEntitlementsByAgent c.request.agentIdentityId now).filter c.equivalent))
    c.request.scopes approvals

def Computes (lifetime : Lifetime) (log : AccessLog) (_ : Store) : Operation → Prop
  | .approve a => ∃ c approvals, Computed log lifetime c approvals a
  | _ => True

def Approved (log : AccessLog) (r : AgentAccessRequest) : Prop :=
  ∃ a s es, ⟨.approve a, s⟩ ∈ log ∧
    (Repository.approveAccessRequestWithEntitlements a).outcome s = .ok (.approved es r)

/-- An approval in a log that lost to another one, and the request as it was found then. -/
def Overtaken (log : AccessLog) (r : AgentAccessRequest) : Prop :=
  ∃ later s a s' earlier, log = later ++ ⟨.read (.accessRequest r.id), s⟩ ::
    ⟨.approve a, s'⟩ :: earlier ∧ s.findAccessRequest r.id = some r ∧ r.status = .approved

/-- What stands behind an approval that is reported. -/
def ApprovalIn (log : AccessLog) (r : AgentAccessRequest) : Prop := Approved log r ∨ Overtaken log r

omit [Locale] in
theorem ApprovalIn.append {log : AccessLog} {r : AgentAccessRequest} (h : ApprovalIn log r)
    (new old : AccessLog) : ApprovalIn (new ++ (log ++ old)) r := by
  rcases h with ⟨a, s, es, hevent, houtcome⟩ | ⟨later, s, a, s', earlier, rfl, hfound⟩
  · refine .inl ⟨a, s, es, ?_, houtcome⟩
    exact List.mem_append_right _ (List.mem_append_left _ hevent)
  · exact .inr ⟨new ++ later, s, a, s', earlier ++ old, by simp, hfound⟩

variable {α : Type}

omit [Locale] in
theorem leaves_commit_ok (op : Operation) (batch : StoreBatch α) :
    (commit op batch).Leaves fun x log => ∃ s, log = [⟨op, s⟩] ∧ batch.outcome s = .ok x :=
  fun s => (leaves_ofExcept (batch.outcome s)).mono fun x log ⟨hx, hlog⟩ =>
    ⟨s, by rw [hlog, List.nil_append], hx⟩

omit [Locale] in
theorem leaves_findPendingAccessRequest (requestId : Id) :
    (findPendingAccessRequest requestId).Leaves fun r log =>
      r.id = requestId ∧ ∃ d ∈ log, d.before.findAccessRequest r.id = some r := by
  refine (leaves_query _ _).bind fun found first ⟨s, hfound, hfirst⟩ => ?_
  refine (leaves_true clock).bind fun now second _ => ?_
  refine (leaves_orThrow _ _).mono fun r third ⟨hr, _⟩ => ?_
  rw [hfound] at hr
  have hlookup := (Option.filter_eq_some_iff.mp hr).1
  have hid : r.id = requestId := key_of_lookup hlookup
  exact ⟨hid, ⟨.read (.accessRequest requestId), s⟩, by simp [hfirst], hid ▸ hlookup⟩

omit [Locale] in
theorem leaves_prepareDecision (requestId actorUserId : Id) :
    (prepareDecision requestId actorUserId).Leaves fun x log =>
      x.1.id = requestId ∧ ∃ d ∈ log, d.before.findAccessRequest x.1.id = some x.1 := by
  refine (leaves_findPendingAccessRequest requestId).bind fun r first ⟨hid, d, hd, hfound⟩ => ?_
  refine (leaves_true (requireControlledRequestTarget r actorUserId)).bind
    fun connection second _ => ?_
  refine (leaves_true clock).bind fun now third _ => ⟨hid, d, ?_, hfound⟩
  simp [hd]

theorem leaves_prepareApproval (request : AgentAccessRequest) (input : DecideApproval)
    (actorUserId : Id) (reasonCode : Option String) (now : ℕ) :
    (prepareApproval request input actorUserId reasonCode now).Leaves fun a log =>
      ∃ (c : ApprovalContext) (approvals : List ScopeApproval),
        a = c.approval approvals a.audit ∧ c.request = request ∧
        c.lifetime = input.lifetime ∧
        authorizationDetailsMatchRequest c.authorizationDetails
          request.authorizationDetails = true ∧
        ∃ d ∈ log, ∃ now, List.Forall₂ (c.Covers
          ((d.before.listActiveEntitlementsByAgent request.agentIdentityId now).filter
            c.equivalent)) request.scopes approvals := by
  refine (leaves_true (requireEnabledResource request.resourceId)).bind fun resource _ _ => ?_
  refine (leaves_require _ _).bind fun _ _ ⟨hmatch, _⟩ => ?_
  refine (leaves_true (validateAgentPermissionTarget resource _ _ _ _)).bind
    fun connection _ _ => ?_
  refine (leaves_true (requireFutureExpiry input.lifetime now)).bind fun _ _ _ => ?_
  refine (leaves_query _ _).bind fun existing log ⟨s, hexisting, hlog⟩ => ?_
  refine (Leaves.collect (fun _ _ _ _ _ h => h) fun scope _ =>
    (reads_approveScope _ _ _).leaves.mono fun x _ h => covers_approveScope h.1).bind
    fun approvals _ hcovers => ?_
  refine (leaves_true (resourceAuditRecord _)).bind fun audit _ _ => ?_
  refine ⟨_, approvals, rfl, rfl, rfl, hmatch,
    ⟨.read (.entitlementsByAgent request.agentIdentityId now), s⟩, ?_, now, ?_⟩
  · simp [hlog]
  · rw [hexisting] at hcovers
    exact hcovers

omit [Locale] in
theorem leaves_toDecidedRequest (decided request : AgentAccessRequest) :
    (toDecidedRequest decided request).Leaves fun r _ => r = decided := by
  refine (leaves_true (requestHostId request)).bind fun _ _ _ => ?_
  exact rfl

theorem computes_of_direct {p : Access α} (h : p.Only Operation.Direct) (lifetime : Lifetime)
    (log : AccessLog) : p.Obeys (Computes lifetime) (fun _ _ => True) log :=
  h.obeys (fun _ _ op hop => by
    cases op with
    | approve a => exact hop.elim
    | _ => exact trivial) (fun _ _ _ _ => trivial) fun _ _ _ => trivial

/-- Every attempt computes its approval from what it reads itself. -/
theorem computes_decideAttempts (requestId : Id) (input : DecideApproval) (actorUserId : Id)
    (reasonCode : Option String) (attempts : ℕ) (log : AccessLog) :
    (decideAttempts requestId (.approve input) actorUserId reasonCode attempts).Obeys
      (Computes input.lifetime) (fun _ _ => True) log := by
  have hdirect : ∀ (log : AccessLog) (s : Store) (op : Operation), op.Direct →
      Computes input.lifetime log s op :=
    fun log s op hop => by
      cases op with
      | approve a => exact hop.elim
      | _ => exact trivial
  induction attempts generalizing log with
  | zero => exact trivial
  | succ attempts ih =>
    refine (leaves_prepareDecision requestId actorUserId).obeys_bind (direct_of_reads (by simp))
      hdirect (fun first ⟨request, connection, now⟩ ⟨hid, d, hd, hfound⟩ _ => ?_)
      fun _ _ _ => trivial
    refine (leaves_prepareApproval request input actorUserId reasonCode now).obeys_bind
      (direct_of_reads (by simp)) hdirect
      (fun second a ⟨c, approvals, ha, hrequest, hlifetime, _, d', hd', hcovers⟩ _ => ?_)
      fun _ _ _ => trivial
    have hcomputed : Computed (second ++ (first ++ log)) input.lifetime c approvals a := by
      subst hrequest
      exact ⟨ha, hlifetime, ⟨d, by simp [hd], hfound⟩, d', by simp [hd'], hcovers⟩
    refine Obeys.bind (Q := fun _ _ => True) (fun s => ⟨⟨c, approvals, hcomputed⟩,
      computes_of_direct (only_ofExcept _) _ _⟩) (fun log result _ _ => ?_) fun _ _ _ => trivial
    cases result with
    | approved entitlements approved => exact computes_of_direct (direct_of_reads (by simp)) _ _
    | resourceUnavailable => exact trivial
    | requestChanged => exact trivial
    | entitlementsChanged =>
      refine (computes_of_direct (direct_of_reads (by simp)) _ log).bind (fun log found _ _ => ?_)
        fun _ _ _ => trivial
      cases found with
      | none => exact ih log
      | some decided =>
        dsimp only
        split
        · exact computes_of_direct (direct_of_reads (by simp)) _ _
        · exact ih log

theorem leaves_decideAttempts (requestId : Id) (input : DecideApproval) (actorUserId : Id)
    (reasonCode : Option String) (attempts : ℕ) :
    (decideAttempts requestId (.approve input) actorUserId reasonCode attempts).Leaves
      fun r log => ApprovalIn log r := by
  induction attempts with
  | zero => exact trivial
  | succ attempts ih =>
    refine (leaves_true (prepareDecision requestId actorUserId)).bind
      fun ⟨request, connection, now⟩ first _ => ?_
    refine (leaves_true (prepareApproval request input actorUserId reasonCode now)).bind
      fun a second _ => ?_
    refine (leaves_commit_ok (.approve a) _).bind fun result third ⟨s, hthird, houtcome⟩ => ?_
    have hretry : (decideAttempts requestId (.approve input) actorUserId reasonCode
        attempts).Leaves fun r log => ∀ old, ApprovalIn (log ++ old) r :=
      ih.mono fun r log hr old => hr.append [] old
    cases result with
    | resourceUnavailable => exact trivial
    | requestChanged => exact trivial
    | approved entitlements approved =>
      refine (leaves_toDecidedRequest approved request).mono fun r fourth hr => ?_
      subst hr
      exact .inl ⟨a, s, entitlements, by simp [hthird], houtcome⟩
    | entitlementsChanged =>
      refine (leaves_query _ _).bind fun found fourth ⟨s', hfound', hfourth⟩ => ?_
      cases found with
      | none =>
        refine hretry.mono fun r fifth hr => ?_
        simpa only [List.append_assoc] using hr _
      | some decided =>
        dsimp only
        split
        · rename_i hstatus
          have hdecided : decided.id = requestId := key_of_lookup hfound'.symm
          refine (leaves_toDecidedRequest decided decided).mono fun r fifth hr => ?_
          subst hr
          refine .inr ⟨fifth, s', a, s, second ++ first, ?_, ?_, hstatus⟩
          · simp [hthird, hfourth, hdecided]
          · rw [hdecided]
            exact hfound'.symm
        · refine hretry.mono fun r fifth hr => ?_
          simpa only [List.append_assoc] using hr _

def Unapproved (log : AccessLog) : Prop := ∀ d ∈ log, ∀ a, d.operation ≠ .approve a

omit [Locale] in
theorem Unapproved.append {log log' : AccessLog} (h : Unapproved log) (h' : Unapproved log') :
    Unapproved (log ++ log') := by
  intro d hd
  rcases List.mem_append.mp hd with hd | hd
  · exact h d hd
  · exact h' d hd

omit [Locale] in
theorem unapproved_of_direct {p : Access α} (h : p.Only Operation.Direct) :
    p.Leaves fun _ log => Unapproved log :=
  h.leaves.mono fun _ log ⟨_, hlog⟩ d hd a ha => by
    have hdirect := hlog d hd
    rw [ha] at hdirect
    exact hdirect

/-- A request that is created is approved at once or not at all. -/
theorem leaves_createAgentAccessRequest (input : CreateAgentAccessRequest)
    (principal : AgentResourcePrincipal) :
    (createAgentAccessRequest input principal).Leaves fun r log =>
      Unapproved log ∨ ApprovalIn log r := by
  have hautomatic : ∀ draft id owner old, (approveAutomatically draft id owner).Leaves
      fun r log => Unapproved (log ++ old) ∨ ApprovalIn (log ++ old) r :=
    fun draft id owner old => (leaves_decideAttempts id
      ⟨.persistent, some draft.authorizationDetails⟩ owner (some "automatic_scope_policy") 2).mono
        fun r log hr => .inr (hr.append [] old)
  have hnil : Unapproved [] := fun d hd => nomatch hd
  refine (unapproved_of_direct (direct_of_reads (by simp))).bind fun draft first hfirst => ?_
  refine (unapproved_of_direct (direct_of_reads (by simp [findMatchingRequest]))).bind
    fun pending second hsecond => ?_
  cases pending with
  | some pending =>
    dsimp only
    split
    · refine (hautomatic draft _ _ (second ++ first)).mono fun r log hr => ?_
      simpa only [List.append_assoc] using hr
    · exact .inl (.append (.append hnil hsecond) hfirst)
  | none =>
    refine (unapproved_of_direct (direct_storeAccessRequest _ _ _)).bind
      fun created third hthird => ?_
    split
    · refine (hautomatic draft _ _ (third ++ (second ++ first))).mono fun r log hr => ?_
      simpa only [List.append_assoc] using hr
    · exact .inl (.append (.append (.append hnil hthird) hsecond) hfirst)

theorem computes_createAgentAccessRequest (input : CreateAgentAccessRequest)
    (principal : AgentResourcePrincipal) (log : AccessLog) :
    (createAgentAccessRequest input principal).Obeys (Computes .persistent) (fun _ _ => True)
      log := by
  have hautomatic : ∀ draft id owner log, (approveAutomatically draft id owner).Obeys
      (Computes .persistent) (fun _ _ => True) log :=
    fun draft id owner log => computes_decideAttempts id
      ⟨.persistent, some draft.authorizationDetails⟩ owner (some "automatic_scope_policy") 2 log
  refine (computes_of_direct (direct_of_reads (by simp)) _ log).bind (fun log draft _ _ => ?_)
    fun _ _ _ => trivial
  refine (computes_of_direct (direct_of_reads (by simp [findMatchingRequest])) _ log).bind
    (fun log pending _ _ => ?_) fun _ _ _ => trivial
  cases pending with
  | some pending =>
    dsimp only
    split
    · exact hautomatic _ _ _ _
    · exact trivial
  | none =>
    refine (computes_of_direct (direct_storeAccessRequest _ _ _) _ log).bind
      (fun log created _ _ => ?_) fun _ _ _ => trivial
    split
    · exact hautomatic _ _ _ _
    · exact trivial

/-- A call that grants computes its approvals for its own lifetime. -/
theorem computes_program (c : Call) : c.program.Obeys
    (fun log s op => c.Granting → Computes c.lifetime log s op) (fun _ _ => True) [] := by
  by_cases hc : c.Granting
  · refine Obeys.weaken (G := Computes c.lifetime) ?_ fun log s op h _ => h
    cases c with
    | createAgentAccessRequest agent input =>
      refine (computes_of_direct (direct_of_reads (reads_authenticateAgent agent)) _ []).bind
        (fun log principal _ _ => ?_) fun _ _ _ => trivial
      exact (computes_createAgentAccessRequest input principal log).bind
        (fun _ _ _ _ => trivial) fun _ _ _ => trivial
    | decideAgentAccessRequest requestId input actorUserId =>
      cases input with
      | deny =>
        refine (computes_of_direct (only_bind.mpr ⟨direct_of_reads (by simp), fun x _ => ?_⟩) _
          []).bind (fun _ _ _ _ => trivial) fun _ _ _ => trivial
        obtain ⟨request, connection, now⟩ := x
        exact direct_denyAgentAccessRequest request connection actorUserId now
      | approve input =>
        exact (computes_decideAttempts requestId input actorUserId none 2 []).bind
          (fun _ _ _ _ => trivial) fun _ _ _ => trivial
    | createAgentPermission agentId input actorUserId organizationId =>
      exact (computes_of_direct (direct_createAgentPermission _ _ _ _) _ []).bind
        (fun _ _ _ _ => trivial) fun _ _ _ => trivial
    | elapse milliseconds => exact fun s => ⟨trivial, trivial⟩
    | outside world => exact fun s => ⟨trivial, trivial⟩
    | administer change => exact fun s => ⟨trivial, trivial⟩
    | _ => exact hc.elim
  · exact (only_true _).obeys (fun _ _ _ _ h => absurd h hc) (fun _ _ _ _ => trivial)
      fun _ _ _ => trivial

end Approving

section Granting

/-- What stands behind a permission that is reported: a store in which it was in force, or an
update of an entitlement that was read in force. -/
def GrantIn (log : AccessLog) (lifetime : Lifetime) (e : ScopeEntitlement) : Prop :=
  (∃ d ∈ log, e ∈ (apply d.operation d.before).entitlements ∧ e.ended = none ∧
    lifetime ≤ e.lifetime) ∨
  ∃ later s earlier existing hash, log = later ++ ⟨.strengthenEntitlement existing.id
      (strongerLifetime existing.lifetime lifetime) hash, s⟩ :: earlier ∧
    (∃ d ∈ earlier, existing ∈ (apply d.operation d.before).entitlements) ∧
    (strengthenEntitlement existing.id
      (strongerLifetime existing.lifetime lifetime) hash).outcome s =
      .ok (some e)

omit [Locale] in
theorem GrantIn.append {log : AccessLog} {lifetime : Lifetime} {e : ScopeEntitlement}
    (h : GrantIn log lifetime e) (new old : AccessLog) :
    GrantIn (new ++ (log ++ old)) lifetime e := by
  rcases h with ⟨d, hd, he⟩ | ⟨later, s, earlier, existing, hash, rfl, ⟨d, hd, hread⟩, houtcome⟩
  · exact .inl ⟨d, List.mem_append_right _ (List.mem_append_left _ hd), he⟩
  · exact .inr ⟨new ++ later, s, earlier ++ old, existing, hash, by simp,
      ⟨d, List.mem_append_left _ hd, hread⟩, houtcome⟩

omit [Locale] in
theorem leaves_mergeScopeEntitlement {existing input : ScopeEntitlement} (now : ℕ)
    (hexisting : existing.ended = none) (hinput : input.ended = none) :
    (mergeScopeEntitlement existing input now).Leaves fun e log => ∀ old : AccessLog,
      (∃ d ∈ old, existing ∈ (apply d.operation d.before).entitlements) →
        GrantIn (log ++ old) input.lifetime e := by
  have hmax := Lifetime.strongerLifetime_getD existing.lifetime input.lifetime
  unfold mergeScopeEntitlement
  split
  · refine (leaves_commit_ok _ _).bind fun _ log hlog old _ => .inl ?_
    obtain ⟨s, hlog, houtcome⟩ := hlog
    refine ⟨⟨.replaceExpiredEntitlement existing.id input now, s⟩, by simp [hlog], ?_,
      hinput, le_rfl⟩
    have hrows := replaceExpiredEntitlement_ok (Batch.outcome_eq_ok houtcome)
    rw [apply_eq, Operation.perform, hrows]
    exact List.mem_append_right _ (List.mem_singleton_self _)
  · dsimp only
    split
    · rename_i hsame
      rw [hsame.1, Option.getD_none] at hmax
      rintro old ⟨d, hd, hread⟩
      refine .inl ⟨d, List.mem_append_right _ hd, hread, hexisting, ?_⟩
      rw [hmax]
      exact le_max_right _ _
    · refine (leaves_commit_ok _ _).bind fun updated log hlog => ?_
      obtain ⟨s, hlog, houtcome⟩ := hlog
      refine (leaves_orThrow _ _).mono fun e second hsecond old hread => .inr ?_
      obtain ⟨he, hsecond⟩ := hsecond
      rw [he] at houtcome
      exact ⟨[], s, old, existing, input.authorizationContextHash, by simp [hlog, hsecond], hread,
        houtcome⟩

omit [Locale] in
theorem leaves_findEquivalentEntitlement (input : ScopeEntitlement) :
    (findEquivalentEntitlement input).Leaves fun found log => ∀ e, found = some e →
      e.ended = none ∧ ∃ d ∈ log, e ∈ (apply d.operation d.before).entitlements := by
  refine (leaves_query _ _).mono fun found log ⟨s, hfound, hlog⟩ e he => ?_
  rw [hfound] at he
  have hequivalent := List.find?_some he
  simp only [activeEquivalentEntitlement, Bool.and_eq_true, Option.isNone_iff_eq_none]
    at hequivalent
  exact ⟨hequivalent.2, _, by rw [hlog]; exact List.mem_singleton_self _,
    List.mem_of_find?_eq_some he⟩

omit [Locale] in
theorem leaves_createScopeEntitlement {input : ScopeEntitlement} (hinput : input.ended = none)
    (now : ℕ) :
    (createScopeEntitlement input now).Leaves fun e log => GrantIn log input.lifetime e := by
  refine (leaves_findEquivalentEntitlement input).bind fun found first hfirst => ?_
  cases found with
  | some existing =>
    obtain ⟨hexisting, hread⟩ := hfirst existing rfl
    exact (leaves_mergeScopeEntitlement now hexisting hinput).mono
      fun e second h => h first hread
  | none =>
    refine (leaves_commit_ok _ _).bind fun inserted second hsecond => ?_
    obtain ⟨s, hsecond, houtcome⟩ := hsecond
    cases inserted with
    | some inserted =>
      obtain ⟨rfl, hrows⟩ := insertScopeEntitlement_ok (Batch.outcome_eq_ok houtcome)
      refine .inl ⟨⟨.insertScopeEntitlement inserted, s⟩, by simp [hsecond], ?_, hinput, le_rfl⟩
      rw [apply_eq, Operation.perform, hrows]
      exact List.mem_append_right _ (List.mem_singleton_self _)
    | none =>
      refine (leaves_findEquivalentEntitlement input).bind fun found third hthird => ?_
      refine (leaves_orThrow _ _).bind fun existing fourth hfourth => ?_
      obtain ⟨hended, d, hd, hread⟩ := hthird existing hfourth.1
      refine (leaves_mergeScopeEntitlement now hended hinput).mono fun e fifth h => ?_
      simpa only [List.append_assoc] using
        h (fourth ++ (third ++ (second ++ first))) ⟨d, by simp [hd], hread⟩

theorem leaves_createAgentPermission (agentId : Id) (input : CreateAgentPermission)
    (actorUserId : Id) (organizationId : Option Id) :
    (createAgentPermission agentId input actorUserId organizationId).Leaves fun permissions log =>
      ∀ e ∈ permissions, GrantIn log input.lifetime e := by
  have hplaced : ∀ (e : ScopeEntitlement) (log later earlier : AccessLog),
      GrantIn log input.lifetime e → GrantIn (later ++ (log ++ earlier)) input.lifetime e :=
    fun e log later earlier h => h.append later earlier
  refine (leaves_true (controlsAgentIdentity agentId actorUserId)).bind fun _ _ _ => ?_
  refine (leaves_true (require _ _)).bind fun _ _ _ => ?_
  refine (leaves_true (look _)).bind fun found _ _ => ?_
  refine (leaves_true (orThrow _ _)).bind fun resource _ _ => ?_
  refine (leaves_true clock).bind fun now _ _ => ?_
  refine (leaves_true (requireFutureExpiry input.lifetime now)).bind fun _ _ _ => ?_
  refine (leaves_true (permissionSelections resource actorUserId organizationId)).bind
    fun ⟨connectionId, selections⟩ _ _ => ?_
  refine (leaves_true (forEach selections _)).bind fun _ _ _ => ?_
  refine (Leaves.collect (D := fun _ es log => ∀ e ∈ es, GrantIn log input.lifetime e)
    (fun _ es log later earlier h e he => hplaced e log later earlier (h e he))
    fun selection _ => ?_).bind fun permissions log hpermissions => ?_
  · refine (Leaves.collect (D := fun _ e log => GrantIn log input.lifetime e)
      (fun _ => hplaced) fun scope _ => ?_).mono fun es log hes e he => ?_
    · refine (leaves_true generateId).bind fun id first _ => ?_
      exact (leaves_createScopeEntitlement rfl now).mono fun e second h => h.append [] first
    · obtain ⟨_, _, hgrant⟩ := hes.exists_left he
      exact hgrant
  · intro e he
    obtain ⟨es, hes, he⟩ := List.mem_flatten.mp he
    obtain ⟨_, _, hgrants⟩ := hpermissions.exists_left hes
    simp only [List.nil_append, List.append_assoc]
    exact hplaced e log [] _ (hgrants e he)

/-- What a call that grants has left when it returns. -/
theorem leaves_program {c : Call} (hc : c.Granting) : c.program.Leaves fun reply log =>
    (∀ r, reply = .request r → c.Approving log → ApprovalIn log r) ∧
      ∀ permissions, reply = .permissions permissions →
        ∀ e ∈ permissions, GrantIn log c.lifetime e := by
  cases c with
  | createAgentAccessRequest agent input =>
    refine (unapproved_of_direct (direct_of_reads (reads_authenticateAgent agent))).bind
      fun principal first hfirst => ?_
    refine (leaves_createAgentAccessRequest input principal).bind fun r second hsecond => ?_
    refine ⟨fun r' hr => ?_, nofun⟩
    obtain rfl : r = r' := by injection hr
    rintro ⟨d, hd, a, ha⟩
    rcases hsecond with hnone | happroval
    · exact absurd ha ((hnone.append hfirst) d hd a)
    · exact happroval.append [] first
  | decideAgentAccessRequest requestId input actorUserId =>
    cases input with
    | deny =>
      refine (leaves_true _).bind fun r log _ => ⟨fun _ _ h => h.elim, nofun⟩
    | approve input =>
      refine (leaves_decideAttempts requestId input actorUserId none 2).bind fun r log h => ?_
      refine ⟨fun r' hr _ => ?_, nofun⟩
      obtain rfl : r = r' := by injection hr
      exact h
  | createAgentPermission agentId input actorUserId organizationId =>
    refine (leaves_createAgentPermission agentId input actorUserId organizationId).bind
      fun permissions log h => ⟨nofun, fun permissions' hp => ?_⟩
    obtain rfl : permissions = permissions' := by injection hp
    exact h
  | elapse milliseconds => exact fun s => ⟨nofun, nofun⟩
  | outside world => exact fun s => ⟨nofun, nofun⟩
  | administer change => exact fun s => ⟨nofun, nofun⟩
  | _ => exact hc.elim

end Granting

section Runs

/-- A store that some run of agent access has left. -/
def Left (s : Store) : Prop := ∃ pool : AccessPool, AccessReachable pool ∧ pool.store = s

/-- A move of a call that grants: it writes nothing weaker over what it finds, and it reports the
approval that another call made of its request only if that call granted for no less. -/
structure Strengthening (pool : AccessPool) (m : Move Call) : Prop where
  start : ∀ c, m = .start c → c.Granting
  writes : ∀ i t op, m = .resume i → pool.pending i = some (t, op) → op.Strengthens pool.store
  overtaken : ∀ i t requestId a s earlier, m = .resume i →
    pool.pending i = some (t, .read (.accessRequest requestId)) →
    t.log = ⟨.approve a, s⟩ :: earlier → ∀ r, pool.store.findAccessRequest requestId = some r →
    r.status = .approved → ∃ u ∈ pool.threads, Approved u.log r ∧ t.call.lifetime ≤ u.call.lifetime

/-- The runs of calls that grant, from any store that a run has left. -/
abbrev GrantReachable : AccessPool → Prop := Reachable Call.program Left Strengthening

variable {pool : AccessPool} {t : Thread Call Store Operation Failure Reply}

theorem left_valid {s : Store} (h : Left s) : s.Valid := by
  obtain ⟨pool, hpool, rfl⟩ := h
  exact hpool.invariant (fun s hs => hs.valid) (fun op s => (precedes_perform op s).valid) _
    List.mem_cons_self

theorem grants_valid (h : GrantReachable pool) : ∀ s ∈ pool.history, s.Valid :=
  h.invariant (fun _ => left_valid) fun op s => (precedes_perform op s).valid

/-- What is in force stays in force as long as nothing weaker is written over it. -/
theorem widens_drift : Drift Call.program Left Strengthening Store.Widens where
  refl := .refl
  trans _ _ _ := .trans
  step _ i t op hreach hok hpending :=
    widens_perform (hreach.pending_only (fun _ _ hm => hm.start _ rfl)
      (fun _ => granting_program) hpending) (hok.writes i t op rfl hpending)

theorem holds_of_log (h : GrantReachable pool) (ht : t ∈ pool.threads)
    {d : Event Store Operation} (hd : d ∈ t.log) {key : ScopeEntitlement.ActiveKey}
    {lifetime : Lifetime} (hholds : d.before.Holds key lifetime) :
    pool.store.Holds key lifetime := (h.drifts_before widens_drift ht hd).keys _ _ hholds

theorem holds_of_apply (h : GrantReachable pool) (ht : t ∈ pool.threads)
    {d : Event Store Operation} (hd : d ∈ t.log) {key : ScopeEntitlement.ActiveKey}
    {lifetime : Lifetime} (hholds : (apply d.operation d.before).Holds key lifetime) :
    pool.store.Holds key lifetime := ((h.drifts widens_drift t ht).2 d hd).keys _ _ hholds

/-- Two requests of one run with one identifier are the same but for what a decision sets. -/
theorem same_request (h : GrantReachable pool) {s u : Store} (hs : s.Persists pool.store)
    (hu : u.Persists pool.store) {q r : AgentAccessRequest} (hq : q ∈ s.requests)
    (hr : r ∈ u.requests) (hid : q.id = r.id) : r.agentIdentityId = q.agentIdentityId ∧
      r.resourceId = q.resourceId ∧ r.scopes = q.scopes := by
  obtain ⟨q', hq', hqq'⟩ := hs.requests.exists_of_mem hq
  obtain ⟨r', hr', hrr'⟩ := hu.requests.exists_of_mem hr
  have hsame : q' = r' := eq_of_key_eq (grants_valid h _ List.mem_cons_self).requests hq' hr'
    (by rw [hqq'.id, hrr'.id, hid])
  subst hsame
  exact ⟨hrr'.agentIdentityId.symm.trans hqq'.agentIdentityId,
    hrr'.resourceId.symm.trans hqq'.resourceId, hrr'.scopes.symm.trans hqq'.scopes⟩

/-- Two rows of one run with one identifier have one holder. -/
theorem same_subject (h : GrantReachable pool) {s u : Store} (hs : s.Persists pool.store)
    (hu : u.Persists pool.store) {e f : ScopeEntitlement} (he : e ∈ s.entitlements)
    (hf : f ∈ u.entitlements) (hid : e.id = f.id) : f.subject = e.subject := by
  obtain ⟨e', he', hee'⟩ := hs.entitlements.exists_of_mem he
  obtain ⟨f', hf', hff'⟩ := hu.entitlements.exists_of_mem hf
  have hsame : e' = f' := eq_of_key_eq (grants_valid h _ List.mem_cons_self).entitlements.1 he' hf'
    (by rw [hee'.id, hff'.id, hid])
  subst hsame
  exact hff'.subject.symm.trans hee'.subject

def ApprovalContext.key (c : ApprovalContext) (scope : String) : ScopeEntitlement.ActiveKey :=
  ⟨.agent c.request.agentIdentityId, c.request.resourceId, c.connectionId.getD "", c.hash, scope⟩

theorem ApprovalContext.activeKey_eq {c : ApprovalContext} {e : ScopeEntitlement}
    (hended : e.ended = none) (hsubject : e.subject = .agent c.request.agentIdentityId)
    (hresource : e.resourceServerId = c.request.resourceId)
    (hconnection : e.connectionId = c.connectionId) (hhash : e.authorizationContextHash = c.hash) :
    e.activeKey = some (c.key e.scope) := by
  rw [ScopeEntitlement.activeKey_agent hended hsubject, hresource, hconnection, hhash, key]

theorem ApprovalContext.of_listed {c : ApprovalContext} {s : Store} {now : ℕ}
    {e : ScopeEntitlement} (h : e ∈ (s.listActiveEntitlementsByAgent c.request.agentIdentityId
      now).filter c.equivalent) :
    e ∈ s.entitlements ∧ e.ended = none ∧ e.subject = .agent c.request.agentIdentityId ∧
      e.resourceServerId = c.request.resourceId ∧ e.connectionId = c.connectionId := by
  obtain ⟨hlisted, hequivalent⟩ := List.mem_filter.mp h
  obtain ⟨hmem, hlisted⟩ := List.mem_filter.mp (mem_byCreation.mp hlisted)
  simp only [ApprovalContext.equivalent, Bool.and_eq_true, beq_iff_eq] at hequivalent
  simp only [ScopeEntitlement.active, Bool.and_eq_true, Option.isNone_iff_eq_none,
    decide_eq_true_eq] at hlisted
  refine ⟨hmem, hlisted.2.1, ?_, hequivalent.1.1, hequivalent.1.2⟩
  have hagent := hlisted.1
  unfold ScopeEntitlement.agentIdentityId at hagent
  split at hagent
  · rename_i id hsubject
    rw [hsubject, Option.some.inj hagent]
  · cases hagent

/-- What the updates of an approval write is no weaker than the approval, and in its Context. -/
theorem Computed.updates {log : AccessLog} {lifetime : Lifetime} {c : ApprovalContext}
    {approvals : List ScopeApproval} {a : Approval} (h : Computed log lifetime c approvals a) :
    ∀ u ∈ a.updates,
      c.lifetime ≤ u.lifetime ∧ u.authorizationContextHash = c.hash := by
  intro u hu
  rw [h.approval] at hu
  obtain ⟨x, hx, hupdated⟩ := List.mem_filterMap.mp hu
  obtain ⟨_, _, _, hcovers⟩ := h.covers
  obtain ⟨_, _, hcover⟩ := hcovers.exists_left hx
  cases x with
  | keep e => cases hupdated
  | create e => cases hupdated
  | update e v =>
    cases hupdated
    exact hcover.2.2

/-- An approval that succeeded left each scope of its request in force, or found it so. -/
theorem holds_of_approved (h : GrantReachable pool) (ht : t ∈ pool.threads)
    {r : AgentAccessRequest} (happroved : Approved t.log r) {scope : String}
    (hscope : scope ∈ r.scopes) : pool.store.Holds (r.permission scope) t.call.lifetime := by
  obtain ⟨a, s, es, hevent, houtcome⟩ := happroved
  obtain ⟨earlier, later, hlog, hcomputes⟩ := (h.logged computes_program ht).of_mem hevent
  obtain ⟨c, approvals, hcomputed⟩ := hcomputes (h.started (fun _ _ hm => hm.start _ rfl) t ht)
  have hearlier : earlier ⊆ t.log := fun d hd => by simp [hlog, hd]
  obtain ⟨d, hd, hrequest⟩ := hcomputed.request
  obtain ⟨d', hd', now, hcovers⟩ := hcomputed.covers
  replace hd := hearlier hd
  replace hd' := hearlier hd'
  obtain ⟨hrows, hr, q, hqid, hdecide, hnamed⟩ := approved_ok (Batch.outcome_eq_ok houtcome)
  have hafter : (apply (Operation.approve a) s).Persists pool.store :=
    (h.evolves persists_evolution t ht).2 _ hevent
  have hdecision : a.decision = (c.approval approvals a.audit).decision :=
    congrArg Approval.decision hcomputed.approval
  have hrid : c.request.id = r.id := by
    rw [hdecide]
    exact ((congrArg Approval.requestId hcomputed.approval).symm.trans hqid.symm)
  obtain ⟨hagent, hresource, hscopes⟩ := same_request h (h.evolves_before persists_evolution ht hd)
    hafter (mem_of_lookup hrequest) hr hrid
  have hqresource : q.resourceId = c.request.resourceId := by
    rw [← hresource, hdecide]
    rfl
  have hkey : r.permission scope = c.key scope := by
    have hconnection : r.connectionId = c.connectionId := by
      rw [hdecide, hdecision]
      rfl
    have hdetails : r.authorizationDetails = c.authorizationDetails := by
      rw [hdecide, hdecision]
      rfl
    rw [AgentAccessRequest.permission, hagent, hresource, hconnection, hdetails]
    rfl
  rw [hkey, ← hcomputed.lifetime]
  rw [hscopes] at hscope
  obtain ⟨x, hx, hcover, hzip⟩ := hcovers.exists_zip hscope
  cases x with
  | keep e =>
    obtain ⟨hlisted, rfl, hlifetime, hhash⟩ := hcover
    obtain ⟨he, hended, hsubject, heresource, heconnection⟩ := ApprovalContext.of_listed hlisted
    exact holds_of_log h ht hd' ⟨e, he,
      ApprovalContext.activeKey_eq hended hsubject heresource heconnection hhash, hlifetime⟩
  | update e u =>
    obtain ⟨hlisted, hid, _⟩ := hcover
    obtain ⟨he, _, hsubject, _⟩ := ApprovalContext.of_listed hlisted
    have hu : u ∈ a.updates := by
      rw [hcomputed.approval]
      exact List.mem_filterMap.mpr ⟨_, hx, rfl⟩
    obtain ⟨f, hf, hfid, hfresource, hfconnection, hfscope, hfended⟩ :=
      hnamed ⟨scope, e.id⟩ (by rw [hdecision]; exact List.mem_map.mpr ⟨_, hzip, rfl⟩)
    have hfsubject : f.subject = e.subject :=
      same_subject h (h.evolves_before persists_evolution ht hd') hafter he hf hfid.symm
    have hwritten : c.lifetime ≤ f.lifetime ∧ f.authorizationContextHash = c.hash := by
      rw [hrows] at hf
      obtain ⟨g, _, rfl⟩ := List.mem_map.mp hf
      rw [rewriteAll_id] at hfid
      rw [rewriteAll_ended] at hfended
      rcases rewriteAll_cases a.updates g with ⟨_, hnone⟩ | ⟨v, hv, _, _, hrow⟩
      · exact absurd hfended (hnone u hu (hid.trans hfid.symm))
      · rw [hrow]
        exact hcomputed.updates v hv
    refine holds_of_apply h ht hevent ⟨f, hf, ?_, hwritten.1⟩
    rw [ApprovalContext.activeKey_eq hfended (hfsubject.trans hsubject)
      (hfresource.trans hqresource) (by rw [hfconnection, hdecision]; rfl) hwritten.2, hfscope]
  | create e =>
    obtain ⟨id, rfl⟩ := hcover
    have hrow : (c.entitlement id scope).grantedUnder a.requestId ∈ a.rows := by
      refine List.mem_map.mpr ⟨c.entitlement id scope, ?_, rfl⟩
      rw [hcomputed.approval]
      exact List.mem_filterMap.mpr ⟨_, hx, rfl⟩
    have hmem := List.mem_map_of_mem (f := rewriteAll a.updates)
      (List.mem_append_right s.entitlements hrow)
    rw [← hrows] at hmem
    refine holds_of_apply h ht hevent ⟨_, hmem, ?_⟩
    rcases rewriteAll_cases a.updates ((c.entitlement id scope).grantedUnder a.requestId) with
      ⟨hsame, _⟩ | ⟨v, hv, _, _, hwritten⟩
    · rw [hsame]
      exact ⟨ApprovalContext.activeKey_eq rfl rfl rfl rfl rfl, le_rfl⟩
    · obtain ⟨hlifetime, hhash⟩ := hcomputed.updates v hv
      rw [hwritten]
      exact ⟨ApprovalContext.activeKey_eq rfl rfl rfl rfl hhash, hlifetime⟩

theorem holds_of_overtaken (h : GrantReachable pool) (ht : t ∈ pool.threads)
    {r : AgentAccessRequest} (hovertaken : Overtaken t.log r) {scope : String}
    (hscope : scope ∈ r.scopes) : pool.store.Holds (r.permission scope) t.call.lifetime := by
  obtain ⟨later, s, a, s', earlier, hlog, hfound, hstatus⟩ := hovertaken
  have hmem : (⟨.read (.accessRequest r.id), s⟩ : Event Store Operation) ∈ t.log := by simp [hlog]
  obtain ⟨pool₀, i, t₀, after, hreach, hok, hi, hcall, hlog₀, hrest, hstore, _⟩ := h.of_log ht hlog
  have hovertaken :=
    hok.overtaken i t₀ r.id a s' earlier rfl (Pool.pending_of_step hi hrest) hlog₀ r
  rw [hstore, hcall] at hovertaken
  obtain ⟨u, hu, happroved, hle⟩ := hovertaken hfound hstatus
  obtain ⟨e, he, hkey, hlifetime⟩ := holds_of_approved hreach hu happroved hscope
  rw [hstore] at he
  exact holds_of_log h ht hmem ⟨e, he, hkey, hle.trans hlifetime⟩

theorem holds_of_grantIn (h : GrantReachable pool) (ht : t ∈ pool.threads) {lifetime : Lifetime}
    {e : ScopeEntitlement} (hgrant : GrantIn t.log lifetime e) {key : ScopeEntitlement.ActiveKey}
    (hkey : ({ e with ended := none } : ScopeEntitlement).activeKey = some key) :
    pool.store.Holds key lifetime := by
  rcases hgrant with ⟨d, hd, he, hended, hlifetime⟩ |
    ⟨later, s, earlier, existing, hash, hlog, ⟨d, hd, hread⟩, houtcome⟩
  · refine holds_of_apply h ht hd ⟨e, he, ?_, hlifetime⟩
    rwa [← hended] at hkey
  · obtain ⟨hrows, hfound⟩ := strengthenEntitlement_ok (Batch.outcome_eq_ok houtcome)
    have hmem := mem_of_lookup hfound.symm
    have hid : e.id = existing.id := key_of_lookup hfound.symm
    obtain ⟨pool₀, i, t₀, after, hreach, hok, hi, _, _, hrest, hstore, _⟩ := h.of_log ht hlog
    have hstrengthens := hok.writes i t₀ _ rfl (Pool.pending_of_step hi hrest)
    have hvalid := grants_valid hreach pool₀.store List.mem_cons_self
    rw [hstore] at hstrengthens hvalid
    have hmem' := hmem
    rw [hrows] at hmem'
    obtain ⟨e₀, he₀, rfl⟩ := mem_updateWhere.mp hmem'
    have hid₀ : e₀.id = existing.id := by
      by_cases hp : (e₀.id == existing.id) = true
      · simpa using hp
      · rwa [if_neg hp] at hid
    rw [if_pos (by simpa using hid₀)] at hmem hkey
    have hended := (hstrengthens e₀ he₀ hid₀).1
    obtain ⟨f, hf, hwidens⟩ := (h.drifts_between widens_drift ht hlog hd).rows existing hread
    have hsame : f = e₀ := eq_of_key_eq hvalid.entitlements.1 hf he₀ (hwidens.id.trans hid₀.symm)
    subst hsame
    have hlifetime : lifetime ≤ (strongerLifetime existing.lifetime lifetime).getD f.lifetime := by
      have hmax := Lifetime.strongerLifetime_getD existing.lifetime lifetime
      cases hstronger : strongerLifetime existing.lifetime lifetime with
      | none =>
        rw [hstronger, Option.getD_none] at hmax
        have hle : lifetime ≤ existing.lifetime := hmax ▸ le_max_right _ _
        exact hle.trans (hwidens.lifetime hended)
      | some l =>
        rw [hstronger, Option.getD_some] at hmax
        rw [Option.getD_some, hmax]
        exact le_max_right _ _
    have hevent := List.mem_append_right later (List.mem_cons_self (l := earlier)
      (a := ⟨.strengthenEntitlement existing.id (strongerLifetime existing.lifetime lifetime) hash,
        s⟩))
    rw [← hlog] at hevent
    refine holds_of_apply h ht hevent ⟨_, hmem, ?_, hlifetime⟩
    rw [← hended] at hkey
    exact hkey

/-- In a run of approvals, automatic approvals and direct grants that write nothing weaker over
what they find, each grant that was reported is still in force, in one entitlement that is at
least as strong. -/
theorem grants_keep_strength (h : GrantReachable pool) :
    ∀ t ∈ pool.threads, ∀ reply, t.rest = .done reply → ∀ key, Reported t.call t.log key reply →
      ∃ e ∈ pool.store.entitlements, e.activeKey = some key ∧ t.call.lifetime ≤ e.lifetime ∧
        ∀ f ∈ pool.store.entitlements, f.activeKey = some key → f = e := by
  intro t ht reply hdone key hreported
  have hcall := h.started (fun _ _ hm => hm.start _ rfl) t ht
  have hleft := h.left ht hdone (P := fun c reply log => c.Granting →
    (∀ r, reply = .request r → c.Approving log → ApprovalIn log r) ∧
      ∀ permissions, reply = .permissions permissions →
        ∀ e ∈ permissions, GrantIn log c.lifetime e) fun c => by
    by_cases hc : c.Granting
    · exact (leaves_program hc).mono fun _ _ h _ => h
    · exact (leaves_true _).mono fun _ _ _ h => absurd h hc
  obtain ⟨hrequest, hpermissions⟩ := hleft hcall
  have hholds : pool.store.Holds key t.call.lifetime := by
    cases reply with
    | none => exact hreported.elim
    | token token => exact hreported.elim
    | request r =>
      obtain ⟨happroving, scope, hscope, rfl⟩ := hreported
      rcases hrequest r rfl happroving with happroved | hovertaken
      · exact holds_of_approved h ht happroved hscope
      · exact holds_of_overtaken h ht hovertaken hscope
    | permissions permissions =>
      obtain ⟨e, he, hkey⟩ := hreported
      exact holds_of_grantIn h ht (hpermissions permissions rfl e he) hkey
  obtain ⟨e, he, hkey, hlifetime⟩ := hholds
  have hvalid := grants_valid h _ List.mem_cons_self
  refine ⟨e, he, hkey, hlifetime, fun f hf hfkey => ?_⟩
  exact eq_of_some_key_eq hvalid.entitlements.2 hf he hfkey hkey

end Runs

end Program

section Samples

variable {pool : AccessPool}

def Call.isGranting : Call → Bool
  | .createAgentAccessRequest _ _ | .decideAgentAccessRequest _ _ _ | .createAgentPermission _ _ _ _
  | .elapse _ | .outside _ | .administer _ => true
  | _ => false

theorem granting_of_check {c : Call} (h : c.isGranting = true) : c.Granting := by
  cases c <;> first | exact trivial | cases h

def Grants (_ : AccessPool) (m : Move Call) : Prop := ∀ c, m = .start c → c.Granting

def grantsCheck (_ : AccessPool) : Move Call → Bool
  | .start c => c.isGranting
  | .resume _ => true

theorem grants_of_check {m : Move Call} (h : grantsCheck pool m = true) :
    Grants pool m := by
  rintro c rfl
  exact granting_of_check h

instance (s : Store) (op : Operation) : Decidable (op.Strengthens s) :=
  match op with
  | .approve a => inferInstanceAs (Decidable (∀ u ∈ a.updates, ∀ e ∈ s.entitlements ++ a.rows,
      e.id = u.id → e.ended = none →
        e.lifetime ≤ u.lifetime ∧ e.authorizationContextHash = u.authorizationContextHash))
  | .replaceExpiredEntitlement id input _ => inferInstanceAs (Decidable (∀ e ∈ s.entitlements,
      e.id = id → e.ended = none → e.activeKey = input.activeKey ∧ e.lifetime ≤ input.lifetime))
  | .strengthenEntitlement id lifetime hash => inferInstanceAs (Decidable (∀ e ∈ s.entitlements,
      e.id = id → e.ended = none ∧ e.lifetime ≤ lifetime.getD e.lifetime ∧
        e.authorizationContextHash = hash))
  | .read _ | .generateId | .elapse _ | .outside _ | .administer _ | .createAccessRequest _ _
  | .decideAccessRequest _ _ _ | .endEntitlement _ _ _ | .endEntitlementWithAudit _ _ _ _ _
  | .endEntitlementsById _ _ | .issueTokenLease _ | .revokeTokenLease _ _
  | .insertScopeEntitlement _ | .revokeConnection _ _ | .revokeProviderConnection _ _ _
  | .revokeResourceAuthorizations _ _ | .deleteResource _ _ _ => inferInstanceAs (Decidable True)

def strengtheningCheck (pool : AccessPool) : Move Call → Bool
  | .start c => c.isGranting
  | .resume i =>
    match pool.pending i with
    | some (t, op) => decide (op.Strengthens pool.store) && !t.log.head?.any fun d =>
        match d.operation with
        | .approve _ => match op with
          | .read (.accessRequest _) => true
          | _ => false
        | _ => false
    | none => true

theorem strengthening_of_check {m : Move Call}
    (h : strengtheningCheck pool m = true) : Strengthening pool m := by
  cases m with
  | start c =>
    exact ⟨fun _ hm => Move.start.inj hm ▸ granting_of_check h, (fun _ _ _ hm => nomatch hm),
      fun _ _ _ _ _ _ hm => nomatch hm⟩
  | resume i =>
    refine ⟨(fun _ hm => nomatch hm), fun j t op hm hpending => ?_,
      fun j t requestId a s earlier hm hpending hlog => ?_⟩
    · obtain rfl := Move.resume.inj hm
      rw [strengtheningCheck, hpending, Bool.and_eq_true, decide_eq_true_eq] at h
      exact h.1
    · obtain rfl := Move.resume.inj hm
      rw [strengtheningCheck, hpending] at h
      simp [hlog] at h

def granted (lifetime : Lifetime) : Call :=
  .createAgentPermission "a" ⟨"https://notes", ["list"], lifetime⟩ "u" none

/-- Two requests of an Agent for one scope, of which the first is approved for a single use. -/
def grantMoves : List (Move Call) :=
  Move.alone 0 (askedFor ["list"]) 16 ++ Move.alone 1 (askedFor ["list", "write"]) 16 ++
    Move.alone 2 (approvedFor "id-1" .once) 19

def runGrants (check : AccessPool → Move Call → Bool) (moves : List (Move Call)) :
    Option AccessPool :=
  (Sample.run (Move.alone 0 (.createScopeEntitlement (held "e-list" "list") 0) 2 ++
      Move.alone 1 (.createScopeEntitlement (held "e-write" "write") 0) 2)).bind
    fun pool => (Pool.initial pool.store).run Call.program check moves

theorem reachable_of_runGrants {check : AccessPool → Move Call → Bool}
    {ok : AccessPool → Move Call → Prop} (hcheck : ∀ pool m, check pool m = true → ok pool m)
    {moves : List (Move Call)} {p : AccessPool → Bool}
    (h : (runGrants check moves).any p = true) :
    ∃ pool, Reachable Call.program Left ok pool ∧ p pool = true := by
  obtain ⟨pool, hrun, hp⟩ := (Option.any_eq_true _ _).mp h
  obtain ⟨pool₀, hrun₀, hrun⟩ := Option.bind_eq_some_iff.mp hrun
  have hreach : AccessReachable pool₀ :=
    Reachable.of_run (fun _ _ _ => trivial) (.initial Sample.store_fresh) hrun₀
  exact ⟨pool, Reachable.of_run hcheck (.initial ⟨pool₀, hreach, rfl⟩) hrun, hp⟩

def returnedAll (pool : AccessPool) : Bool :=
  pool.threads.length == 5 && pool.threads.all fun t => t.rest.result.any (·.toBool)

set_option maxRecDepth 10000 in
/-- An approval for a single use, then one that expires, then a persistent grant. -/
theorem grants_keep_strength_sample : ∃ pool : AccessPool, returnedAll pool = true ∧
    ∀ t ∈ pool.threads, ∀ reply, t.rest = .done reply → ∀ key, Reported t.call t.log key reply →
      ∃ e ∈ pool.store.entitlements, e.activeKey = some key ∧ t.call.lifetime ≤ e.lifetime ∧
        ∀ f ∈ pool.store.entitlements, f.activeKey = some key → f = e := by
  have hrun : (runGrants strengtheningCheck (grantMoves ++
      Move.alone 3 (approvedFor "id-4" (.expiring 100)) 19 ++
      Move.alone 4 (granted .persistent) 12)).any returnedAll = true := by
    decide +kernel
  obtain ⟨pool, hreach, hall⟩ := reachable_of_runGrants (fun _ _ => strengthening_of_check) hrun
  exact ⟨pool, hall, grants_keep_strength hreach⟩

/-- A call reported a permission that is now in force for less. -/
def lostGrant (pool : AccessPool) (t : Thread Call Store Operation Failure Reply) : Bool :=
  match t.rest with
  | .done (.permissions permissions) =>
    permissions.any fun e => pool.store.entitlements.any fun f =>
      decide (({ e with ended := none } : ScopeEntitlement).activeKey = f.activeKey) &&
        f.active pool.store.now && !decide (t.call.lifetime ≤ f.lifetime)
  | _ => false

theorem reported_of_lostGrant {t : Thread Call Store Operation Failure Reply}
    (h : lostGrant pool t = true) : ∃ reply key, t.rest = .done reply ∧
      Reported t.call t.log key reply ∧ ∃ f ∈ pool.store.entitlements, f.activeKey = some key ∧
        f.active pool.store.now = true ∧ ¬t.call.lifetime ≤ f.lifetime := by
  unfold lostGrant at h
  split at h
  · rename_i permissions hrest
    simp only [List.any_eq_true, Bool.and_eq_true, decide_eq_true_eq, Bool.not_eq_true',
      decide_eq_false_iff_not] at h
    obtain ⟨e, he, f, hf, ⟨hkey, hactive⟩, hweaker⟩ := h
    obtain ⟨key, hsome⟩ := ScopeEntitlement.activeKey_isSome
      (e := ({ e with ended := none } : ScopeEntitlement)) rfl
    exact ⟨_, key, hrest, ⟨e, he, hsome⟩, f, hf, hkey.symm.trans hsome, hactive, hweaker⟩
  · cases h

set_option maxRecDepth 10000 in
/-- An approval for a while reads a single use, a persistent grant comes between and returns, and
then the approval writes its expiry over it. -/
theorem persistent_grant_overwritten : ∃ pool : AccessPool,
    Reachable Call.program Left Grants pool ∧ ∃ t ∈ pool.threads, ∃ reply key,
      t.rest = .done reply ∧ Reported t.call t.log key reply ∧
      ∃ f ∈ pool.store.entitlements, f.activeKey = some key ∧ f.active pool.store.now = true ∧
        ¬t.call.lifetime ≤ f.lifetime := by
  have hrun : (runGrants grantsCheck (grantMoves ++
      Move.alone 3 (approvedFor "id-4" (.expiring 100)) 16 ++
      Move.alone 4 (granted .persistent) 12 ++ List.replicate 3 (.resume 3))).any
      (fun pool => returnedAll pool && pool.threads.any (lostGrant pool)) = true := by
    decide +kernel
  obtain ⟨pool, hreach, hlost⟩ := reachable_of_runGrants (fun _ _ => grants_of_check) hrun
  rw [Bool.and_eq_true] at hlost
  obtain ⟨t, ht, hlost⟩ := List.any_eq_true.mp hlost.2
  exact ⟨pool, hreach, t, ht, reported_of_lostGrant hlost⟩

end Samples

end FlareAuth
