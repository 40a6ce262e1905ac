import FlareAuth.AgentApprovals

/-!
# Which approvals of Agents are whole

The statements of a decision's batch look each at their own row. A request that
is no longer there to decide stops none of them, and rows that have left the
pending state since they were read are passed over without an error.
-/

namespace FlareAuth.ProtocolAgents

open Concurrent Procedure Relational

/-- The approval requests, Agents, hosts and grants are as they were. -/
def Untouched (s t : Store) : Prop :=
  t.requests = s.requests ∧ t.agents = s.agents ∧ t.hosts = s.hosts ∧ t.grants = s.grants

namespace Decision

variable (d : Decision)

/-- The grant is as the decision on what was read wants it. -/
def Stands (g r : CapabilityGrant) : Prop :=
  if g.capability ∈ d.approvedCapabilities then r.status = .active ∧ r.grantedBy = some d.userId
  else r.status = .denied ∧ r.deniedBy = some d.userId

/-- The decision as a whole has come about from the one store to the other. -/
structure Complete (s t : Store) : Prop where
  grants : ∀ g ∈ d.pendingGrants, ∃ r, t.grants.find g.id = some r ∧ d.Stands g r
  others : ∀ k, (∀ g ∈ d.pendingGrants, g.id ≠ k) → t.grants.find k = s.grants.find k
  agent : ∃ a, t.agents.find d.agentId = some a ∧ a.status = .active ∧ a.userId = some d.userId
  host : ∃ h, t.hosts.find d.currentAgent.hostId = some h ∧ h.status = .active ∧
    h.userId = some d.userId
  audits : t.audits = s.audits ++ [d.audit]

/-- Each row that an approval must write is still pending, or already as it has to be. -/
structure Lands (s : Store) : Prop where
  grants : ∀ g ∈ d.pendingGrants, ∃ r, s.grants.find g.id = some r ∧
    (r.status = .pending ∨ d.Stands g r)
  agent : ∃ a, s.agents.find d.agentId = some a ∧
    (d.currentAgent.status = .pending ∧ a.status = .pending ∨
      a.status = .active ∧ a.userId = some d.userId)
  host : ∃ h, s.hosts.find d.currentAgent.hostId = some h ∧
    ((∃ p, d.pendingHost = some p ∧ p.id = h.id) ∧ h.status = .pending ∨
      h.status = .active ∧ h.userId = some d.userId)

/-- No row is left that the batch would write for a request that it cannot decide. -/
structure Idle (s : Store) : Prop where
  grants : match d.action with
    | .approve => ∀ g ∈ d.pendingGrants, ∀ r ∈ s.grants.rows, r.id = g.id → r.status ≠ .pending
    | .deny => d.pendingGrants ≠ [] → ∀ r ∈ s.grants.rows, r.agentId = d.agentId →
        r.status ≠ .pending
  agent : d.currentAgent.status = .pending →
    ∀ a ∈ s.agents.rows, a.id = d.agentId → a.status ≠ .pending
  host : d.action = .approve → ∀ p, d.pendingHost = some p →
    ∀ h ∈ s.hosts.rows, h.id = p.id → h.status ≠ .pending

/-- The store lets the batch do all of the decision or nothing. -/
def Clear (s : Store) : Prop :=
  if d.found s = [] then d.Idle s else d.action = .approve → d.Lands s

section Grants

variable {d} {g r : CapabilityGrant} {gs : List CapabilityGrant}
  {t : Keyed CapabilityGrant.id} {k : Id}

theorem decided_status : (d.decided g r).status ≠ .pending := by
  unfold decided
  split <;> exact Stage.noConfusion

theorem decided_stands : d.Stands g (d.decided g r) := by
  unfold Stands decided
  split <;> exact ⟨rfl, rfl⟩

/-- What the statements for these grants make of a row. -/
def outcome (gs : List CapabilityGrant) (r : CapabilityGrant) : CapabilityGrant :=
  match gs.find? fun g => g.id = r.id with
  | some g => if r.status = .pending then d.decided g r else r
  | none => r

theorem find_decideGrants (hids : (gs.map (·.id)).Nodup) :
    (gs.foldl d.decideGrant t).find k = (t.find k).map (d.outcome gs) := by
  induction gs generalizing t with
  | nil => exact (congrFun Option.map_id (t.find k)).symm
  | cons g gs ih =>
    rw [List.map_cons, List.nodup_cons] at hids
    rw [List.foldl_cons, ih hids.2, decideGrant, Keyed.find_update, Option.map_map]
    congr 1
    funext r
    by_cases hid : g.id = r.id
    · have hfresh : ∀ q : CapabilityGrant, q.id = r.id →
        gs.find? (fun g => g.id = q.id) = none := by
        intro q hq
        rw [List.find?_eq_none]
        intro g' hg' hsame
        rw [decide_eq_true_eq, hq, ← hid] at hsame
        exact hids.1 (List.mem_map.mpr ⟨g', hg', hsame⟩)
      by_cases hpending : r.status = .pending
      · simp [outcome, hid, hpending, hfresh _ (d.decided_id g r)]
      · simp [outcome, hid, hpending, hfresh r rfl]
    · have hother : ¬(r.id = g.id) := fun h => hid h.symm
      simp [outcome, hid, hother]

theorem outcome_of_mem (hids : (gs.map (·.id)).Nodup) (hg : g ∈ gs) (hid : r.id = g.id) :
    d.outcome gs r = if r.status = .pending then d.decided g r else r := by
  have hfind : gs.find? (fun g => g.id = r.id) = some g := by
    rw [hid]
    exact lookup_of_mem hids hg
  rw [outcome, hfind]

theorem outcome_of_not_mem (h : ∀ g ∈ gs, g.id ≠ r.id) : d.outcome gs r = r := by
  have hfind : gs.find? (fun g => g.id = r.id) = none := by
    rw [List.find?_eq_none]
    intro g hg
    simpa using h g hg
  rw [outcome, hfind]

theorem decideGrants_eq_self (hids : (gs.map (·.id)).Nodup) : gs.foldl d.decideGrant t = t ↔
    ∀ g ∈ gs, ∀ r ∈ t.rows, r.id = g.id → r.status ≠ .pending := by
  constructor
  · intro h g hg r hr hid hpending
    have hfound := find_decideGrants (d := d) (t := t) (k := r.id) hids
    rw [h, Keyed.find_eq_some.mpr ⟨hr, rfl⟩, Option.map_some, outcome_of_mem hids hg hid,
      if_pos hpending] at hfound
    have hsame := Option.some.inj hfound
    exact decided_status (hsame ▸ hpending)
  · intro h
    induction gs with
    | nil => rfl
    | cons g gs ih =>
      have hself : d.decideGrant t g = t := by
        apply (Keyed.update_eq_self _).mpr
        intro r hr hselected
        simp only [Bool.and_eq_true, decide_eq_true_eq] at hselected
        exact absurd hselected.2 (h g List.mem_cons_self r hr hselected.1)
      rw [List.foldl_cons, hself]
      exact ih (List.nodup_cons.mp hids).2 fun g' hg' => h g' (List.mem_cons_of_mem _ hg')

end Grants

section Batch

variable {d} {s : Store} {f : Agent → Agent} {hf : ∀ a, (f a).id = a.id}

theorem updateAgent_agents (s : Store) : (d.updateAgent f hf s).agents =
    if d.currentAgent.status = .pending then
      s.agents.update (fun a => a.id = d.agentId && a.status = .pending) f hf
    else s.agents := by
  unfold updateAgent
  split <;> rfl

theorem mem_found {r : ApprovalRequest} : r ∈ d.found s ↔ r ∈ s.requests.rows ∧
    d.selects s r = true :=
  List.mem_filter

/-- The statements of an approval, each on the table that it found. -/
theorem perform_approve (h : d.action = .approve) : d.perform s = { s with
    requests := (d.updateRequest .approved s).requests
    agents := (d.activateAgent s).agents
    hosts := (d.activateHost s).hosts
    grants := (d.decideGrants s).grants
    audits := s.audits ++ (d.found s).map fun _ => d.audit } := by
  unfold perform activateHost activateAgent updateAgent
  rw [h]
  by_cases hagent : d.currentAgent.status = .pending
  · cases hhost : d.pendingHost <;> simp only [if_pos hagent] <;> rfl
  · cases hhost : d.pendingHost <;> simp only [if_neg hagent] <;> rfl

theorem perform_deny (h : d.action = .deny) : d.perform s = { s with
    requests := (d.updateRequest .denied s).requests
    agents := (d.rejectAgent s).agents
    grants := (d.denyGrants s).grants
    audits := s.audits ++ (d.found s).map fun _ => d.audit } := by
  unfold perform rejectAgent updateAgent denyGrants
  rw [h]
  by_cases hagent : d.currentAgent.status = .pending
  · by_cases hempty : d.pendingGrants.isEmpty = true <;> simp only [if_pos hagent, hempty] <;> rfl
  · by_cases hempty : d.pendingGrants.isEmpty = true <;> simp only [if_neg hagent, hempty] <;> rfl

theorem updateRequest_eq_self (h : d.found s = []) (status : Stage) :
    (d.updateRequest status s).requests = s.requests := by
  rw [updateRequest, Keyed.update_eq_self]
  intro r hr hselected
  have hmem : r ∈ d.found s := mem_found.mpr ⟨hr, hselected⟩
  rw [h] at hmem
  cases hmem

/-- An update that takes rows out of the pending state changes nothing only if there are none. -/
theorem updateAgent_eq_self (h : ∀ a, (f a).status ≠ .pending) :
    (d.updateAgent f hf s).agents = s.agents ↔ (d.currentAgent.status = .pending →
      ∀ a ∈ s.agents.rows, a.id = d.agentId → a.status ≠ .pending) := by
  rw [updateAgent_agents]
  by_cases hread : d.currentAgent.status = .pending
  · rw [if_pos hread, Keyed.update_eq_self]
    constructor
    · intro hsame _ a ha hid hpending
      have hself := hsame a ha (by simp [hid, hpending])
      exact h a (by rw [hself, hpending])
    · intro hnone a ha hselected
      simp only [Bool.and_eq_true, decide_eq_true_eq] at hselected
      exact absurd hselected.2 (hnone hread a ha hselected.1)
  · rw [if_neg hread]
    exact iff_of_true rfl fun hread' => absurd hread' hread

theorem activateHost_eq_self : (d.activateHost s).hosts = s.hosts ↔ ∀ p, d.pendingHost = some p →
    ∀ h ∈ s.hosts.rows, h.id = p.id → h.status ≠ .pending := by
  unfold activateHost
  cases hread : d.pendingHost with
  | none => simp
  | some p =>
    dsimp only
    rw [Keyed.update_eq_self]
    constructor
    · intro hsame p' hp' h hh hid hpending
      obtain rfl := Option.some.inj hp'
      have hself := hsame h hh (by simp [hid, hpending])
      have hstatus := congrArg AgentHost.status hself
      rw [hpending] at hstatus
      cases hstatus
    · intro hnone h hh hselected
      simp only [Bool.and_eq_true, decide_eq_true_eq] at hselected
      exact absurd hselected.2 (hnone p rfl h hh hselected.1)

theorem denyGrants_eq_self : (d.denyGrants s).grants = s.grants ↔ (d.pendingGrants ≠ [] →
    ∀ r ∈ s.grants.rows, r.agentId = d.agentId → r.status ≠ .pending) := by
  unfold denyGrants
  by_cases hempty : d.pendingGrants = []
  · rw [if_pos (by simp [hempty])]
    exact iff_of_true rfl fun hne => absurd hempty hne
  · rw [if_neg (by simp [hempty]), Keyed.update_eq_self]
    constructor
    · intro hsame _ r hr hagent hpending
      have hstatus := congrArg CapabilityGrant.status (hsame r hr (by simp [hagent, hpending]))
      rw [hpending] at hstatus
      cases hstatus
    · intro hnone r hr hselected
      simp only [Bool.and_eq_true, decide_eq_true_eq] at hselected
      exact absurd hselected.2 (hnone hempty r hr hselected.1)

/-- A batch whose request is not there to decide changes nothing exactly in an idle store. -/
theorem untouched_iff (hids : (d.pendingGrants.map (·.id)).Nodup) (h : d.found s = []) :
    Untouched s (d.perform s) ↔ d.Idle s := by
  cases haction : d.action with
  | approve =>
    have hgrants := decideGrants_eq_self (d := d) (t := s.grants) hids
    have hagent : (d.activateAgent s).agents = s.agents ↔ _ :=
      updateAgent_eq_self fun _ => Stage.noConfusion
    rw [Untouched, perform_approve haction]
    dsimp only
    rw [updateRequest_eq_self h, hagent, activateHost_eq_self]
    constructor
    · rintro ⟨-, hagents, hhosts, hgrantsSame⟩
      refine ⟨?_, hagents, fun _ => hhosts⟩
      rw [haction]
      exact hgrants.mp hgrantsSame
    · rintro ⟨hpending, hagents, hhosts⟩
      rw [haction] at hpending
      exact ⟨rfl, hagents, hhosts haction, hgrants.mpr hpending⟩
  | deny =>
    have hagent : (d.rejectAgent s).agents = s.agents ↔ _ :=
      updateAgent_eq_self fun _ => Stage.noConfusion
    rw [Untouched, perform_deny haction]
    dsimp only
    rw [updateRequest_eq_self h, hagent, denyGrants_eq_self]
    constructor
    · rintro ⟨-, hagents, -, hgrants⟩
      refine ⟨?_, hagents, ?_⟩
      · rw [haction]
        exact hgrants
      · rw [haction]
        exact Action.noConfusion
    · rintro ⟨hgrants, hagents, -⟩
      rw [haction] at hgrants
      exact ⟨rfl, hagents, rfl, hgrants⟩

/-- A found request is one row, so its decision is recorded once. -/
theorem found_eq_singleton (h : d.found s ≠ []) : ∃ r, d.found s = [r] := by
  obtain ⟨r, hr⟩ := List.exists_mem_of_ne_nil _ h
  have hall : ∀ q ∈ d.found s, q = r := by
    intro q hq
    have hid : ∀ q ∈ d.found s, q.id = d.request.id := by
      intro q hq
      have hselected := (mem_found.mp hq).2
      simp only [selects, Bool.and_eq_true, decide_eq_true_eq] at hselected
      exact hselected.1.1
    exact List.inj_on_of_nodup_map s.requests.nodup (mem_found.mp hq).1 (mem_found.mp hr).1
      ((hid q hq).trans (hid r hr).symm)
  have hnodup : (d.found s).Nodup := s.requests.nodup.of_map.filter _
  refine ⟨r, ?_⟩
  cases hfound : d.found s with
  | nil => exact absurd hfound h
  | cons q rest =>
    rw [hfound] at hall hnodup
    cases rest with
    | nil => rw [hall q List.mem_cons_self]
    | cons q' rest =>
      have hq := hall q List.mem_cons_self
      have hq' := hall q' (by simp)
      simp [hq, hq'] at hnodup

theorem find_activateAgent : (d.activateAgent s).agents.find d.agentId =
    (s.agents.find d.agentId).map fun a =>
      if d.currentAgent.status = .pending ∧ a.status = .pending then { a with
        status := .active
        userId := some d.userId
        activatedAt := some d.now
        updatedAt := d.now } else a := by
  rw [activateAgent, updateAgent_agents]
  by_cases hread : d.currentAgent.status = .pending
  · rw [if_pos hread, Keyed.find_update]
    cases hfind : s.agents.find d.agentId with
    | none => rfl
    | some a =>
      have hid := (Keyed.find_eq_some.mp hfind).2
      simp [hread, hid]
  · simp [hread]

theorem find_activateHost {k : Id} : (d.activateHost s).hosts.find k =
    (s.hosts.find k).map fun h =>
      if (∃ p, d.pendingHost = some p ∧ p.id = h.id) ∧ h.status = .pending then { h with
        status := .active
        userId := some d.userId
        activatedAt := some d.now
        updatedAt := d.now } else h := by
  unfold activateHost
  cases hread : d.pendingHost with
  | none => simp
  | some p =>
    dsimp only
    rw [Keyed.find_update]
    congr 1
    funext h
    by_cases hid : p.id = h.id
    · simp [hid]
    · have hother : ¬h.id = p.id := fun heq => hid heq.symm
      simp [hid, hother]

/-- A grant ends up as decided if it was pending or already so. -/
theorem find_decideGrants_stands (hids : (d.pendingGrants.map (·.id)).Nodup) {g : CapabilityGrant}
    (hg : g ∈ d.pendingGrants) : (∃ r, (d.decideGrants s).grants.find g.id = some r ∧
      d.Stands g r) ↔
      ∃ r, s.grants.find g.id = some r ∧ (r.status = .pending ∨ d.Stands g r) := by
  rw [decideGrants, find_decideGrants hids]
  constructor
  · rintro ⟨r', hr', hstands⟩
    obtain ⟨r, hr, rfl⟩ := Option.map_eq_some_iff.mp hr'
    refine ⟨r, hr, ?_⟩
    rw [outcome_of_mem hids hg (Keyed.find_eq_some.mp hr).2] at hstands
    by_cases hpending : r.status = .pending
    · exact .inl hpending
    · rw [if_neg hpending] at hstands
      exact .inr hstands
  · rintro ⟨r, hr, hcase⟩
    refine ⟨_, Option.map_eq_some_iff.mpr ⟨r, hr, rfl⟩, ?_⟩
    rw [outcome_of_mem hids hg (Keyed.find_eq_some.mp hr).2]
    by_cases hpending : r.status = .pending
    · rw [if_pos hpending]
      exact decided_stands
    · rw [if_neg hpending]
      exact hcase.resolve_left hpending

theorem find_decideGrants_other (hids : (d.pendingGrants.map (·.id)).Nodup) {k : Id}
    (hk : ∀ g ∈ d.pendingGrants, g.id ≠ k) :
    (d.decideGrants s).grants.find k = s.grants.find k := by
  rw [decideGrants, find_decideGrants hids]
  cases hfind : s.grants.find k with
  | none => rfl
  | some r =>
    have hid := (Keyed.find_eq_some.mp hfind).2
    rw [Option.map_some, outcome_of_not_mem fun g hg => hid ▸ hk g hg]

theorem activateAgent_owned : (∃ a, (d.activateAgent s).agents.find d.agentId = some a ∧
    a.status = .active ∧ a.userId = some d.userId) ↔ ∃ a, s.agents.find d.agentId = some a ∧
      (d.currentAgent.status = .pending ∧ a.status = .pending ∨
        a.status = .active ∧ a.userId = some d.userId) := by
  rw [find_activateAgent]
  cases s.agents.find d.agentId with
  | none => simp
  | some a =>
    by_cases hpending : d.currentAgent.status = .pending ∧ a.status = .pending
    · simp [hpending]
    · simp [hpending]

theorem activateHost_owned {k : Id} : (∃ h, (d.activateHost s).hosts.find k = some h ∧
    h.status = .active ∧ h.userId = some d.userId) ↔ ∃ h, s.hosts.find k = some h ∧
      ((∃ p, d.pendingHost = some p ∧ p.id = h.id) ∧ h.status = .pending ∨
        h.status = .active ∧ h.userId = some d.userId) := by
  rw [find_activateHost]
  cases s.hosts.find k with
  | none => simp
  | some h =>
    by_cases hpending : (∃ p, d.pendingHost = some p ∧ p.id = h.id) ∧ h.status = .pending
    · simp [hpending]
    · simp [hpending]

/-- A batch that decides its request does the whole decision exactly where it lands. -/
theorem complete_iff (hids : (d.pendingGrants.map (·.id)).Nodup) (haction : d.action = .approve)
    (h : d.found s ≠ []) : d.Complete s (d.perform s) ↔ d.Lands s := by
  obtain ⟨r, hfound⟩ := found_eq_singleton h
  rw [perform_approve haction]
  constructor
  · intro hcomplete
    refine ⟨?_, activateAgent_owned.mp hcomplete.agent, activateHost_owned.mp hcomplete.host⟩
    intro g hg
    exact (find_decideGrants_stands hids hg).mp (hcomplete.grants g hg)
  · intro hlands
    refine ⟨?_, ?_, activateAgent_owned.mpr hlands.agent, activateHost_owned.mpr hlands.host, ?_⟩
    · intro g hg
      exact (find_decideGrants_stands hids hg).mpr (hlands.grants g hg)
    · intro k hk
      exact find_decideGrants_other hids hk
    · rw [hfound]
      rfl

end Batch

end Decision

def Operation.Idles : Operation → Prop
  | .read | .generateId | .elapse _ => True
  | _ => False

section Calls

variable [UserCodes]

structure Prepared (log : Log Store Operation) (input : DecisionInput) (userId : Id)
    (d : Decision) :
    Prop where
  agentId : d.agentId = input.agentId
  userId : d.userId = userId
  action : d.action = input.action
  request : ∃ e ∈ log, e.before.findPendingRequest input.agentId
    (UserCodes.hashAgentUserCode input.userCode) d.now = some d.request
  currentAgent : ∃ e ∈ log, e.before.agents.find input.agentId = some d.currentAgent
  host : ∃ e ∈ log, d.request.hostId.bind e.before.hosts.find = d.host
  pendingGrants : ∃ e ∈ log, e.before.pendingGrants input.agentId = d.pendingGrants
  capabilities : d.approvedCapabilities =
    input.capabilities.getD (d.pendingGrants.map (·.capability))

/-- How a decision ends: without its batch, or with it. -/
def Concluded (input : DecisionInput) (userId : Id) (log : Log Store Operation)
    (result : Except Failure ApprovalStatus) : Prop :=
  ((∃ e, result = .error e) ∧ ∀ e ∈ log, e.operation.Idles) ∨
    ∃ d s earlier, log = ⟨.decideApproval d, s⟩ :: earlier ∧ (∀ e ∈ earlier, e.operation.Idles) ∧
      Prepared earlier input userId d ∧
      if d.found s = [] then ∃ e, result = .error e
      else result = .ok (match input.action with
        | .approve => .approved
        | .deny => .denied)

variable {input : DecisionInput} {userId : Id}

theorem decideApproval_contract (now : ℕ) (audit : Audit) {log : Log Store Operation}
    (hlog : ∀ e ∈ log, e.operation.Idles) :
    Obeys (fun _ _ _ => True) (Concluded input userId)
      (decideApproval input.agentId (UserCodes.hashAgentUserCode input.userCode) input.action
        input.capabilities userId now audit) log := by
  have hread : ∀ {log : Log Store Operation}, (∀ e ∈ log, e.operation.Idles) → ∀ s : Store,
      ∀ e ∈ (⟨.read, s⟩ :: log : Log Store Operation), e.operation.Idles :=
    fun hlog s => List.forall_mem_cons.mpr ⟨trivial, hlog⟩
  unfold decideApproval look
  simp only [query_bind]
  intro s₁
  refine ⟨trivial, obeys_orThrow_bind ?_ fun _ => .inl ⟨⟨_, rfl⟩, hread hlog s₁⟩⟩
  intro request hrequest s₂
  refine ⟨trivial, ?_⟩
  intro s₃
  refine ⟨trivial, ?_⟩
  intro s₄
  have hreads := hread (hread (hread (hread hlog s₁) s₂) s₃) s₄
  refine ⟨trivial, obeys_orThrow_bind ?_ fun _ => .inl ⟨⟨_, rfl⟩, hreads⟩⟩
  intro currentAgent hagent
  refine obeys_require_bind (fun _ => ?_) fun _ => .inl ⟨⟨_, rfl⟩, hreads⟩
  refine obeys_require_bind (fun _ => ?_) fun _ => .inl ⟨⟨_, rfl⟩, hreads⟩
  refine obeys_require_bind (fun _ => ?_) fun _ => .inl ⟨⟨_, rfl⟩, hreads⟩
  intro s₅
  have hprepared : ∀ {d : Decision}, d = ⟨input.agentId, userId, input.action, now, request,
      currentAgent, request.hostId.bind s₃.hosts.find, s₄.pendingGrants input.agentId,
      input.capabilities.getD ((s₄.pendingGrants input.agentId).map (·.capability)), audit⟩ →
      Prepared (⟨.read, s₄⟩ :: ⟨.read, s₃⟩ :: ⟨.read, s₂⟩ :: ⟨.read, s₁⟩ :: log) input
        userId d := by
    rintro d rfl
    exact ⟨rfl, rfl, rfl, ⟨⟨.read, s₁⟩, by simp, hrequest⟩, ⟨⟨.read, s₂⟩, by simp, hagent⟩,
      ⟨⟨.read, s₃⟩, by simp, rfl⟩, ⟨⟨.read, s₄⟩, by simp, rfl⟩, rfl⟩
  refine ⟨trivial, obeys_require_bind (fun hfound => ?_) fun hfound => ?_⟩
  · cases haction : input.action with
    | approve =>
      refine .inr ⟨_, s₅, _, rfl, hreads, hprepared (by rw [haction]), ?_⟩
      rw [haction] at hfound
      rw [if_neg hfound, haction]
    | deny =>
      refine .inr ⟨_, s₅, _, rfl, hreads, hprepared (by rw [haction]), ?_⟩
      rw [haction] at hfound
      rw [if_neg hfound, haction]
  · refine .inr ⟨_, s₅, _, rfl, hreads, hprepared rfl, ?_⟩
    rw [if_pos (not_not.mp hfound)]
    exact ⟨_, rfl⟩

theorem decideAgentApproval_contract :
    Obeys (fun _ _ _ => True) (Concluded input userId) (decideAgentApproval input userId) [] := by
  unfold decideAgentApproval look
  simp only [query_bind]
  intro s₁
  refine ⟨trivial, ?_⟩
  intro s₂
  refine ⟨trivial, ?_⟩
  intro s₃
  refine ⟨trivial, ?_⟩
  intro s₄
  refine ⟨trivial, ?_⟩
  intro s₅
  refine ⟨trivial, ?_⟩
  intro s₆
  refine ⟨trivial, ?_⟩
  exact decideApproval_contract _ _ (by simp [Operation.Idles])

/-- All or nothing: a decision that throws has left every row as it found it, and one that
returns `approved` has made the approval complete and recorded it once. -/
def Whole (input : DecisionInput) (userId : Id) (log : Log Store Operation) :
    Except Failure (Option ApprovalStatus) → Prop
  | .error _ => ∀ e ∈ log, Untouched e.before (apply e.operation e.before)
  | .ok (some .approved) => ∃ d s earlier, log = ⟨.decideApproval d, s⟩ :: earlier ∧
    (∀ e ∈ earlier, e.operation.Idles) ∧ Prepared earlier input userId d ∧
    d.Complete s (apply (Operation.decideApproval d) s)
  | .ok _ => True

omit [UserCodes] in
theorem untouched_of_idles {op : Operation} (h : op.Idles) (s : Store) :
    Untouched s (apply op s) := by
  cases op with
  | read | generateId | elapse => exact ⟨rfl, rfl, rfl, rfl⟩
  | _ => exact h.elim

theorem Prepared.ids {log : Log Store Operation} {d : Decision} (h : Prepared log input userId d) :
    (d.pendingGrants.map (·.id)).Nodup := by
  obtain ⟨e, _, hread⟩ := h.pendingGrants
  rw [← hread]
  exact (List.filter_sublist.map _).nodup e.before.grants.nodup

/-- A call that comes to its batch is whole exactly when the batch finds a clear store. -/
theorem whole_iff_clear {log : Log Store Operation} {d : Decision} {s : Store}
    {result : Except Failure ApprovalStatus} (hidles : ∀ e ∈ log, e.operation.Idles)
    (hprepared : Prepared log input userId d)
    (hresult : if d.found s = [] then ∃ e, result = .error e
      else result = .ok (match input.action with
        | .approve => .approved
        | .deny => .denied)) :
    Whole input userId (⟨.decideApproval d, s⟩ :: log) (some <$> result) ↔ d.Clear s := by
  unfold Decision.Clear
  by_cases hfound : d.found s = []
  · rw [if_pos hfound] at hresult ⊢
    obtain ⟨e, rfl⟩ := hresult
    change (∀ e ∈ _ :: log, _) ↔ _
    rw [List.forall_mem_cons, and_iff_left fun e he => untouched_of_idles (hidles e he) _]
    exact Decision.untouched_iff hprepared.ids hfound
  · rw [if_neg hfound] at hresult ⊢
    subst hresult
    rw [hprepared.action]
    cases haction : input.action with
    | deny => exact iff_of_true trivial fun h => Action.noConfusion h
    | approve =>
      have haction' := hprepared.action.trans haction
      have hcomplete := Decision.complete_iff hprepared.ids haction' hfound
      constructor
      · rintro ⟨d', s', earlier, hlog, -, -, hwhole⟩ -
        obtain ⟨hevent, -⟩ := List.cons.inj hlog
        obtain ⟨hop, rfl⟩ := Event.mk.inj hevent
        obtain rfl := Operation.decideApproval.inj hop
        exact hcomplete.mp hwhole
      · intro hlands
        exact ⟨d, s, log, rfl, hidles, hprepared, hcomplete.mpr (hlands rfl)⟩

/-- What is asked of a call: only a decision has a contract. -/
def CallConcluded : Call → Log Store Operation → Except Failure (Option ApprovalStatus) → Prop
  | .decideAgentApproval input userId, log, result =>
    ∃ r, result = some <$> r ∧ Concluded input userId log r
  | _, _, _ => True

theorem program_contract (c : Call) :
    c.program.Obeys (fun _ _ _ => True) (CallConcluded c) [] := by
  have hfree : ∀ {β : Type} (p : Agents β) (log : Log Store Operation),
      p.Obeys (fun _ _ _ => True) (fun _ _ => True) log := by
    intro β p
    induction p with
    | done a => exact fun _ => trivial
    | fail e => exact fun _ => trivial
    | step op next ih => exact fun log s => ⟨trivial, ih s _⟩
  cases c with
  | decideAgentApproval input userId =>
    rw [Call.program, map_eq_pure_bind]
    apply decideAgentApproval_contract.bind
    · intro log a _ hconcluded
      exact ⟨.ok a, rfl, hconcluded⟩
    · intro log e hconcluded
      exact ⟨.error e, rfl, hconcluded⟩
  | _ => exact hfree _ _

/-- In every interleaving a decision is whole exactly when its batch, if it comes to one, finds a
store that lets it do all or nothing. -/
theorem decision_whole_iff {pool : AgentPool} (h : AgentReachable pool)
    {t : Thread Call Store Operation Failure (Option ApprovalStatus)} (ht : t ∈ pool.threads)
    (hcall : t.call = .decideAgentApproval input userId)
    {result : Except Failure (Option ApprovalStatus)} (hresult : t.rest.result = some result) :
    Whole input userId t.log result ↔
      ∀ d s, (⟨.decideApproval d, s⟩ : Event Store Operation) ∈ t.log → d.Clear s := by
  have hended := h.ended program_contract ht hresult
  rw [hcall] at hended
  obtain ⟨r, rfl, hconcluded⟩ := hended
  rcases hconcluded with ⟨⟨e, rfl⟩, hidles⟩ | ⟨d, s, earlier, hlog, hidles, hprepared, hr⟩
  · constructor
    · intro _ d s hmem
      exact (hidles _ hmem).elim
    · intro _ e he
      exact untouched_of_idles (hidles e he) _
  · rw [hlog, whole_iff_clear hidles hprepared hr]
    constructor
    · intro hclear d' s' hmem
      rcases List.mem_cons.mp hmem with heq | hmem
      · obtain ⟨hop, rfl⟩ := Event.mk.inj heq
        obtain rfl := Operation.decideApproval.inj hop
        exact hclear
      · exact (hidles _ hmem).elim
    · intro hclear
      exact hclear d s List.mem_cons_self

end Calls

namespace Sample

/-- Codes that are their own hashes. -/
instance (priority := low) plainCodes : UserCodes := ⟨fun code => code⟩

def request (id agentId : Id) : ApprovalRequest :=
  ⟨id, "device_authorization", some agentId, some "host", .pending, some agentId, 100, 0⟩

def agent (id : Id) : Agent := ⟨id, none, "host", .pending, none, 0⟩

def grant (id agentId : Id) : CapabilityGrant := ⟨id, agentId, "read", none, none, .pending, 0⟩

/-- Two Agents that wait for approval on one host, which is nobody's yet. -/
def store : Store where
  now := 1
  generated := 0
  identities := []
  bindings := []
  requests := ⟨[request "request-1" "agent-1", request "request-2" "agent-2"], by decide⟩
  agents := ⟨[agent "agent-1", agent "agent-2"], by decide⟩
  hosts := ⟨[⟨"host", none, .pending, none, 0⟩], by decide⟩
  grants := ⟨[grant "grant-1" "agent-1", grant "grant-2" "agent-2"], by decide⟩
  audits := []

def approve (agentId userId : Id) : Call :=
  .decideAgentApproval ⟨agentId, agentId, .approve, none⟩ userId

/-- The call, from its start to right before its batch. -/
def prepared (i : ℕ) (call : Call) : List (Move Call) :=
  .start call :: List.replicate 10 (.resume i)

def run (moves : List (Move Call)) : Option AgentPool :=
  (Pool.initial store).run Call.program (fun _ _ => true) moves

theorem reachable_of_run {moves : List (Move Call)} {check : AgentPool → Bool}
    (h : (run moves).any check = true) : ∃ pool : AgentPool, AgentReachable pool ∧
      check pool = true :=
  Reachable.of_any (fun _ _ _ => trivial) (.initial trivial) h

end Sample

/-- A check that is stricter than the condition: every row is still pending. -/
def clearCheck (e : Event Store Operation) : Bool :=
  match e.operation with
  | .decideApproval d => !(d.found e.before).isEmpty && d.currentAgent.status == .pending &&
    (d.pendingGrants.all fun g => (e.before.grants.find g.id).any (·.status == .pending)) &&
    (e.before.agents.find d.agentId).any (·.status == .pending) &&
    (e.before.hosts.find d.currentAgent.hostId).any fun h =>
      h.status == .pending && d.pendingHost.any (·.id == h.id)
  | _ => true

theorem clear_of_check {d : Decision} {s : Store} (h : clearCheck ⟨.decideApproval d, s⟩ = true) :
    d.Clear s := by
  simp only [clearCheck, Bool.and_eq_true, List.all_eq_true, Option.any_eq_true, beq_iff_eq,
    Bool.not_eq_true'] at h
  obtain ⟨⟨⟨⟨hfound, hread⟩, hgrants⟩, a, ha, hagent⟩, q, hq, hhost, p, hp, hid⟩ := h
  rw [Decision.Clear, if_neg (by simpa using hfound)]
  intro _
  refine ⟨?_, ⟨a, ha, .inl ⟨hread, hagent⟩⟩, ⟨q, hq, .inl ⟨⟨p, hp, hid⟩, hhost⟩⟩⟩
  intro g hg
  obtain ⟨r, hr, hpending⟩ := hgrants g hg
  exact ⟨r, hr, .inl hpending⟩

def approves : Call → Option (Except Failure (Option ApprovalStatus)) → Bool
  | .decideAgentApproval _ _, some (.ok (some .approved)) => true
  | _, _ => false

def throwsFor (userId : Id) : Call → Option (Except Failure (Option ApprovalStatus)) → Bool
  | .decideAgentApproval _ actorUserId, some (.error _) => actorUserId == userId
  | _, _ => false

set_option maxRecDepth 10000 in
/-- An approval that runs alone is whole. -/
theorem decision_whole_sample : ∃ pool : AgentPool, AgentReachable pool ∧ ∃ t ∈ pool.threads,
    ∃ input userId, t.rest.result = some (.ok (some .approved)) ∧
      Whole input userId t.log (.ok (some .approved)) := by
  have hrun : (Sample.run (Sample.prepared 0 (Sample.approve "agent-1" "u") ++ [.resume 0])).any
      (fun pool => pool.threads.any fun t =>
        t.log.all clearCheck && approves t.call t.rest.result) = true := by
    decide +kernel
  obtain ⟨pool, hpool, hcheck⟩ := Sample.reachable_of_run hrun
  simp only [List.any_eq_true, Bool.and_eq_true, List.all_eq_true] at hcheck
  obtain ⟨t, ht, hclear, hended⟩ := hcheck
  unfold approves at hended
  split at hended
  · rename_i input userId hcall hresult
    refine ⟨pool, hpool, t, ht, input, userId, hresult, ?_⟩
    apply (decision_whole_iff hpool ht hcall hresult).mpr
    intro d s hmem
    exact clear_of_check (hclear _ hmem)
  · cases hended

set_option maxRecDepth 10000 in
/-- Two users decide on Agents of one host. The first batch takes the host, and the second, which
throws for that, activates its Agent all the same. -/
theorem decision_throws_after_writing : ∃ pool : AgentPool, AgentReachable pool ∧
    ∃ t ∈ pool.threads, ∃ input e, t.call = .decideAgentApproval input "v" ∧
      t.rest.result = some (.error e) ∧ ¬Whole input "v" t.log (.error e) := by
  have hrun : (Sample.run (Sample.prepared 0 (Sample.approve "agent-1" "u") ++
      Sample.prepared 1 (Sample.approve "agent-2" "v") ++ [.resume 0, .resume 1])).any
      (fun pool => pool.threads.any fun t =>
        throwsFor "v" t.call t.rest.result &&
        t.log.any fun e => (apply e.operation e.before).agents.rows !=
          e.before.agents.rows) = true := by
    decide +kernel
  obtain ⟨pool, hpool, hcheck⟩ := Sample.reachable_of_run hrun
  simp only [List.any_eq_true, Bool.and_eq_true, bne_iff_ne] at hcheck
  obtain ⟨t, ht, hended, e, he, hwrites⟩ := hcheck
  refine ⟨pool, hpool, t, ht, ?_⟩
  unfold throwsFor at hended
  split at hended
  · rename_i input userId failure hcall hresult
    obtain rfl : userId = "v" := by simpa using hended
    refine ⟨input, failure, hcall, hresult, ?_⟩
    intro hwhole
    exact hwrites (by rw [(hwhole e he).2.1])
  · cases hended

end FlareAuth.ProtocolAgents
