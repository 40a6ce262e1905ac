import FlareAuth.AgentIdentities
import FlareAuth.LiveResources

/-!
# Identities and their bindings through the operations

What each operation makes of the identities, of their bindings and of the
protocol agents, and the invariant of those runs in which every batch writes
what it was prepared for.
-/

namespace FlareAuth

open Concurrent Relational Statement Repository

theorem sameAgents_createAccessRequestWithAudit (input : AgentAccessRequest) (audit : AuditEvent) :
    Batch.Within Store.SameAgents (createAccessRequestWithAudit input audit) := by
  refine .bind (fun _ _ _ => .trans) (fun s x t hs => ?_) fun _ =>
    .bind (fun _ _ _ => .trans) ((sameTargets_insertAudit _ _).mono fun _ _ h => h.agents) fun _ =>
      .pure .refl _
  unfold insertAccessRequest at hs
  split at hs
  · cases hs
    exact .refl s
  · split at hs <;> cases hs
    exact ⟨rfl, rfl⟩

theorem sameAgents_perform {op : Operation} (h : op.keepsIdentities = true) (s : Store) :
    s.SameAgents (op.perform s) := by
  by_cases htargets : op.Targets
  · cases op with
    | createAccessRequest input audit =>
      exact (sameAgents_createAccessRequestWithAudit input audit).settle .refl s
    | deleteResource id now audit =>
      exact (sameAgents_deleteResource id now audit).settle .refl s
    | administer change =>
      cases change with
      | identity row => cases h
      | binding row => cases h
      | resource row =>
        change s.SameAgents { s with directory := s.directory.change (.resource row) }
        simp only [Directory.change]
        split <;> exact ⟨rfl, rfl⟩
      | _ => exact ⟨rfl, rfl⟩
    | _ => exact htargets.elim
  · exact (sameTargets_perform htargets s).agents

end FlareAuth

namespace FlareAuth.AgentIdentities

open Concurrent Relational

/-- The same binding, which does not become active again. -/
structure Wanes (old new : AgentBinding) : Prop where
  id : new.id = old.id
  agentIdentityId : new.agentIdentityId = old.agentIdentityId
  protocolAgentId : new.protocolAgentId = old.protocolAgentId
  status : old.status ≠ .active → new.status ≠ .active

theorem Wanes.refl (b : AgentBinding) : Wanes b b := ⟨rfl, rfl, rfl, fun h => h⟩

theorem Wanes.trans {a b c : AgentBinding} (h : Wanes a b) (h' : Wanes b c) : Wanes a c :=
  ⟨h'.id.trans h.id, h'.agentIdentityId.trans h.agentIdentityId,
    h'.protocolAgentId.trans h.protocolAgentId, fun hs => h'.status (h.status hs)⟩

theorem Wanes.revoke (b : AgentBinding) (now : ℕ) :
    Wanes b { b with status := .revoked, revokedAt := some now } :=
  ⟨rfl, rfl, rfl, fun _ hactive => by cases hactive⟩

namespace Site

/-- What every operation leaves of a site. -/
structure Persists (s t : Site) : Prop where
  access : s.access.Persists t.access
  bindings : Evolves Wanes s.directory.bindings t.directory.bindings

theorem Persists.refl (s : Site) : s.Persists s := ⟨.refl _, .refl Wanes.refl _⟩

theorem Persists.trans {s t u : Site} (h : s.Persists t) (h' : t.Persists u) : s.Persists u :=
  ⟨h.access.trans h'.access, h.bindings.trans (fun _ _ _ => .trans) h'.bindings⟩

def Deleted (s : Site) (id : Id) : Prop :=
  ∃ i ∈ s.directory.identities, i.id = id ∧ i.deletedAt.isSome = true

def AgentRevoked (s : Site) (id : Id) : Prop :=
  ∃ a, s.agents.find id = some a ∧ a.status = .revoked

def HasActiveBinding (s : Site) (id : Id) : Prop :=
  ∃ b ∈ s.directory.bindings, b.agentIdentityId = id ∧ b.status = .active

def Lists (s : Site) (id : Id) (protocolAgentIds : List Id) : Prop :=
  ∀ b ∈ s.directory.bindings, b.agentIdentityId = id → b.status = .active →
    b.protocolAgentId ∈ protocolAgentIds

/-- The keys of identities and bindings, and what their states say of each other. -/
structure Bound (s : Site) : Prop where
  access : s.access.Valid
  requested : s.access.LeasesRequested
  identityIds : (s.directory.identities.map (·.id)).Nodup
  bindingIds : (s.directory.bindings.map (·.id)).Nodup
  registered : ∀ b ∈ s.directory.bindings, (s.agents.find b.protocolAgentId).isSome = true
  revoked : ∀ b ∈ s.directory.bindings, b.status ≠ .active → s.AgentRevoked b.protocolAgentId
  deleted : ∀ b ∈ s.directory.bindings, s.Deleted b.agentIdentityId → b.status ≠ .active
  active : ∀ i ∈ s.directory.identities, i.status = .active → i.deletedAt = none →
    s.HasActiveBinding i.id

def enroll (s : Site) (identity : Option NewIdentity) (row : AgentBinding)
    (intents : List EnrollmentIntent) : Site :=
  { s.setDirectory fun d => { d with
      identities := d.identities ++ identity.toList.map (·.row)
      bindings := d.bindings ++ [row] } with
    intents := intents }

structure Enrolls (s : Site) (identity : Option NewIdentity) (row : AgentBinding) : Prop where
  active : row.status = .active
  registered : (s.agents.find row.protocolAgentId).isSome = true
  fresh : ∀ b ∈ s.directory.bindings, b.id ≠ row.id
  created : ∀ i, identity = some i →
    i.id = row.agentIdentityId ∧ ∀ j ∈ s.directory.identities, j.id ≠ i.id

end Site

section Batches

variable {s : Site}

theorem insertIdentity_ok {row : AgentIdentity} {x : Unit} {t : Site}
    (h : Repository.insertIdentity row s = .ok (x, t)) :
    (∀ i ∈ s.directory.identities, i.id ≠ row.id) ∧
      t = s.setDirectory fun d => { d with identities := d.identities ++ [row] } := by
  unfold Repository.insertIdentity at h
  split at h
  · cases h
  · split at h
    · cases h
    · rename_i hunique
      cases h
      refine ⟨fun i hi hid => hunique ?_, rfl⟩
      exact List.any_eq_true.mpr ⟨i, hi, by simp [hid]⟩

theorem insertBinding_ok {input : NewBinding} {x : Unit} {t : Site}
    (h : Repository.insertBinding input s = .ok (x, t)) :
    ∃ agent, s.agents.find input.protocolAgentId = some agent ∧
      (∀ b ∈ s.directory.bindings, b.id ≠ input.id) ∧
      t = s.setDirectory fun d =>
        { d with bindings := d.bindings ++ [input.row agent.hostId] } := by
  unfold Repository.insertBinding at h
  split at h
  · cases h
  · rename_i agent hagent
    split at h
    · cases h
    · split at h
      · cases h
      · rename_i hunique
        cases h
        refine ⟨agent, hagent, fun b hb hid => hunique ?_, rfl⟩
        exact List.any_eq_true.mpr ⟨b, hb, by simp [hid]⟩

/-- An identity is created together with its first binding, or not at all. -/
theorem createIdentity_cases (identity : NewIdentity) (bindingId protocolAgentId : Id) (s : Site) :
    (Repository.createIdentity identity bindingId protocolAgentId).settle s = s ∨
      ∃ row, s.Enrolls (some identity) row ∧
        (Repository.createIdentity identity bindingId protocolAgentId).settle s =
          s.enroll (some identity) row s.intents := by
  cases hbatch : Repository.createIdentity identity bindingId protocolAgentId s with
  | error e => exact .inl (Batch.settle_of_error hbatch)
  | ok result =>
    obtain ⟨x, t⟩ := result
    obtain ⟨_, s₁, hidentity, hbinding⟩ := Batch.bind_eq_ok.mp hbatch
    obtain ⟨hfresh, rfl⟩ := insertIdentity_ok hidentity
    obtain ⟨agent, hagent, hunique, rfl⟩ := insertBinding_ok hbinding
    refine .inr ⟨(NewBinding.mk bindingId identity.id protocolAgentId).row agent.hostId,
      ⟨rfl, Option.isSome_of_eq_some hagent, hunique, fun i hi => ?_⟩, Batch.settle_of_ok hbatch⟩
    obtain rfl := Option.some.inj hi
    exact ⟨rfl, hfresh⟩

/-- An approval inserts its binding, under the identity that it found or creates, or does
nothing. -/
theorem approveIntent_cases (a : IntentApproval) (s : Site) :
    (Repository.approveIntent a).settle s = s ∨
      ∃ identity row intents, s.Enrolls identity row ∧
        (identity = none → a.target = .existing row.agentIdentityId) ∧
        (Repository.approveIntent a).settle s = s.enroll identity row intents := by
  cases hbatch : Repository.approveIntent a s with
  | error e => exact .inl (Batch.settle_of_error hbatch)
  | ok result =>
    obtain ⟨x, t⟩ := result
    obtain ⟨_, s₁, htarget, hrest⟩ := Batch.bind_eq_ok.mp hbatch
    obtain ⟨_, s₂, hbinding, hintents⟩ := Batch.bind_eq_ok.mp hrest
    obtain ⟨agent, hagent, hunique, rfl⟩ := insertBinding_ok hbinding
    cases hintents
    rw [Batch.settle_of_ok hbatch]
    cases ht : a.target with
    | existing identityId =>
      rw [ht] at htarget
      cases htarget
      refine .inr ⟨none, a.binding.row agent.hostId, a.approved s.intents,
        ⟨rfl, Option.isSome_of_eq_some hagent, hunique, ?_⟩, ?_, ?_⟩
      · exact fun i hi => nomatch hi
      · intro _
        simp [NewBinding.row, IntentApproval.binding, ht, EnrollmentTarget.identityId]
      · simp [Site.enroll, Site.setDirectory]
    | created identity =>
      rw [ht] at htarget
      obtain ⟨hfresh, rfl⟩ := insertIdentity_ok htarget
      refine .inr ⟨some identity, a.binding.row agent.hostId, a.approved s.intents,
        ⟨rfl, Option.isSome_of_eq_some hagent, hunique, fun i hi => ?_⟩, (fun h => nomatch h), rfl⟩
      obtain rfl := Option.some.inj hi
      refine ⟨?_, hfresh⟩
      simp [NewBinding.row, IntentApproval.binding, ht, EnrollmentTarget.identityId]

end Batches

section Rows

variable {s : Site} {selected : AgentIdentity → Bool} {f : AgentIdentity → AgentIdentity}

def Site.changed (s : Site) (selected : AgentIdentity → Bool) (f : AgentIdentity → AgentIdentity) :
    Site := s.setDirectory fun d => { d with identities := updateWhere selected f d.identities }

def Site.revokedAgents (s : Site) (id : Id) (ids : List Id) (now : ℕ) : Site :=
  (Repository.revokeProtocolAgents id ids now).settle s

theorem settle_deactivateIdentity (id : Id) (ids : List Id) (revokeBindings : Bool) (now : ℕ)
    (s : Site) : (Repository.deactivateIdentity id ids revokeBindings now).settle s =
      if revokeBindings then
        (s.changed (fun i => i.id == id) fun i => { i with status := .inactive }).revokedAgents id
          ids now
      else s.changed (fun i => i.id == id) fun i => { i with status := .inactive } := by
  cases revokeBindings <;> rfl

theorem settle_activateIdentity (id : Id) (s : Site) :
    (Repository.activateIdentity id).settle s =
      s.changed (fun i => i.id == id && i.status == .inactive && i.deletedAt.isNone)
        fun i => { i with status := .active } := rfl

theorem settle_deleteIdentity (id : Id) (ids : List Id) (now : ℕ) (s : Site) :
    (Repository.deleteIdentity id ids now).settle s =
      (s.changed (fun i => i.id == id && i.deletedAt.isNone)
        fun i => { i with status := .inactive, deletedAt := some now }).revokedAgents id ids now :=
  rfl

/-- A site whose directory was rewritten. -/
theorem Site.persists_directory {t : Site} {d : Directory}
    (haccess : t.access = { s.access with directory := d }) (hd : s.directory.Persists d)
    (hb : Evolves Wanes s.directory.bindings d.bindings) : s.Persists t := by
  constructor
  · rw [haccess]
    exact (Store.Precedes.directory hd).persists
  · rw [Site.directory, Site.directory, haccess]
    exact hb

theorem Site.persists_changed (hf : ∀ i : AgentIdentity, i.Persists (f i)) :
    s.Persists (s.changed selected f) := by
  refine Site.persists_directory rfl ⟨.refl .refl _, .refl .refl _, ?_, .refl .refl _⟩
    (.refl Wanes.refl _)
  exact .updateWhere .refl fun i _ _ => hf i

theorem Site.persists_revokedAgents (id : Id) (ids : List Id) (now : ℕ) (s : Site) :
    s.Persists (s.revokedAgents id ids now) := by
  refine Site.persists_directory rfl ⟨.refl .refl _, .refl .refl _, .refl .refl _, ?_⟩
    (.updateWhere Wanes.refl fun b _ _ => .revoke b now)
  exact .updateWhere .refl fun b _ _ => ⟨rfl, rfl⟩

theorem Site.persists_enroll (s : Site) (identity : Option NewIdentity) (row : AgentBinding)
    (intents : List EnrollmentIntent) : s.Persists (s.enroll identity row intents) := by
  refine Site.persists_directory rfl ⟨.refl .refl _, .refl .refl _, ?_, ?_⟩
    (.append Wanes.refl _ _)
  · exact .append .refl _ _
  · exact .append .refl _ _

theorem Site.persists_access {op : Operation} (h : op.keepsIdentities = true) (s : Site) :
    s.Persists { s with access := op.perform s.access } := by
  refine ⟨(FlareAuth.precedes_perform op s.access).persists, ?_⟩
  have hsame := (sameAgents_perform h s.access).2
  change Evolves Wanes s.access.directory.bindings (op.perform s.access).directory.bindings
  rw [hsame]
  exact .refl Wanes.refl _

theorem Site.persists_same {t : Site} (h : t.access = s.access) : s.Persists t := by
  constructor
  · rw [h]
    exact .refl _
  · rw [Site.directory, Site.directory, h]
    exact .refl Wanes.refl _

theorem persists_perform (op : SiteOperation) (s : Site) : s.Persists (op.perform s) := by
  have hdone : ∀ now : ℕ, ∀ i : AgentIdentity,
      i.Persists { i with status := .inactive, deletedAt := some now } :=
    fun now i => ⟨rfl, rfl, rfl, rfl, fun _ => rfl⟩
  cases op with
  | read => exact .refl s
  | access op =>
    by_cases h : op.keepsIdentities = true
    · rw [SiteOperation.perform, if_pos h]
      exact Site.persists_access h s
    · rw [SiteOperation.perform, if_neg h]
      exact .refl s
  | putAgent row =>
    refine Site.persists_same ?_
    change ((Repository.putAgent row).settle s).access = s.access
    simp only [Repository.putAgent, Batch.settle, Batch.modify]
    split <;> rfl
  | createIdentity identity bindingId protocolAgentId =>
    rw [SiteOperation.perform]
    rcases createIdentity_cases identity bindingId protocolAgentId s with hsame | ⟨row, _, heq⟩
    · rw [hsame]
      exact .refl s
    · rw [heq]
      exact s.persists_enroll _ _ _
  | insertIntent row =>
    refine Site.persists_same ?_
    change ((Repository.insertIntent row).settle s).access = s.access
    simp only [Repository.insertIntent, Batch.settle]
    split
    · rename_i heq
      split at heq
      · cases heq
      · split at heq <;> cases heq <;> rfl
    · rfl
  | approveIntent a =>
    rw [SiteOperation.perform]
    rcases approveIntent_cases a s with hsame | ⟨identity, row, intents, _, _, heq⟩
    · rw [hsame]
      exact .refl s
    · rw [heq]
      exact s.persists_enroll _ _ _
  | deactivateIdentity id ids revokeBindings now =>
    rw [SiteOperation.perform, settle_deactivateIdentity]
    have hchanged : s.Persists
        (s.changed (fun i => i.id == id) fun i => { i with status := .inactive }) :=
      s.persists_changed fun i => ⟨rfl, rfl, rfl, rfl, fun h => h⟩
    split
    · exact hchanged.trans (Site.persists_revokedAgents _ _ _ _)
    · exact hchanged
  | activateIdentity id =>
    rw [SiteOperation.perform, settle_activateIdentity]
    exact Site.persists_changed fun i => ⟨rfl, rfl, rfl, rfl, fun h => h⟩
  | deleteIdentity id ids now =>
    rw [SiteOperation.perform, settle_deleteIdentity]
    exact (Site.persists_changed (hdone now)).trans (Site.persists_revokedAgents _ _ _ _)

end Rows

section Invariant

variable {s : Site} {id : Id} {ids : List Id} {now : ℕ}

theorem Site.revokedAgents_find (k : Id) : (s.revokedAgents id ids now).agents.find k =
    (s.agents.find k).map fun a =>
      if ids.contains a.id then { a with status := .revoked, updatedAt := now } else a :=
  Keyed.find_update (t := s.agents) (p := fun a => ids.contains a.id)
    (f := fun a => { a with status := .revoked, updatedAt := now }) fun _ => rfl

theorem Site.mem_revokedAgents_bindings {b : AgentBinding}
    (h : b ∈ (s.revokedAgents id ids now).directory.bindings) :
    ∃ b₀ ∈ s.directory.bindings, Wanes b₀ b ∧
      ((b₀.agentIdentityId = id ∧ b₀.status = .active ∧ b.status = .revoked) ∨
        (¬(b₀.agentIdentityId = id ∧ b₀.status = .active) ∧ b = b₀)) := by
  obtain ⟨b₀, hb₀, rfl⟩ := mem_updateWhere.mp h
  refine ⟨b₀, hb₀, ?_⟩
  by_cases hp : (b₀.agentIdentityId == id && b₀.status == .active) = true
  · rw [if_pos hp]
    rw [Bool.and_eq_true, beq_iff_eq, beq_iff_eq] at hp
    exact ⟨.revoke b₀ now, .inl ⟨hp.1, hp.2, rfl⟩⟩
  · rw [if_neg hp]
    rw [Bool.and_eq_true, beq_iff_eq, beq_iff_eq] at hp
    exact ⟨.refl b₀, .inr ⟨hp, rfl⟩⟩

theorem Site.mem_revokedAgents_of_not {b : AgentBinding} (hb : b ∈ s.directory.bindings)
    (h : ¬(b.agentIdentityId = id ∧ b.status = .active)) :
    b ∈ (s.revokedAgents id ids now).directory.bindings := by
  refine mem_updateWhere_of_not hb ?_
  rwa [← Bool.not_eq_true, Bool.and_eq_true, beq_iff_eq, beq_iff_eq]

theorem Site.AgentRevoked.revokedAgents {k : Id} (h : s.AgentRevoked k) :
    (s.revokedAgents id ids now).AgentRevoked k := by
  obtain ⟨a, ha, hrevoked⟩ := h
  rw [AgentRevoked, Site.revokedAgents_find, ha]
  refine ⟨_, rfl, ?_⟩
  beta_reduce
  split
  · rfl
  · exact hrevoked

theorem Site.agentRevoked_of_listed {k : Id} (hk : k ∈ ids)
    (hfound : (s.agents.find k).isSome = true) : (s.revokedAgents id ids now).AgentRevoked k := by
  obtain ⟨a, ha⟩ := Option.isSome_iff_exists.mp hfound
  rw [AgentRevoked, Site.revokedAgents_find, ha]
  refine ⟨_, rfl, ?_⟩
  have hkey : a.id = k := (Keyed.find_eq_some.mp ha).2
  beta_reduce
  rw [if_pos (by simpa [hkey] using hk)]

variable {selected : AgentIdentity → Bool} {f : AgentIdentity → AgentIdentity}

/-- Identities that are deactivated or deleted lose all their bindings in the same batch. -/
theorem bound_retire (h : s.Bound) (hselected : ∀ i, selected i = true → i.id = id)
    (hall : ∀ i, i.id = id → i.deletedAt = none → selected i = true)
    (hf : ∀ i : AgentIdentity, i.Persists (f i)) (hstatus : ∀ i, (f i).status ≠ .active)
    (hlists : s.Lists id ids) : ((s.changed selected f).revokedAgents id ids now).Bound := by
  have hidentity : ∀ i ∈ ((s.changed selected f).revokedAgents id ids now).directory.identities,
      ∃ i₀ ∈ s.directory.identities,
        (selected i₀ = true ∧ i = f i₀) ∨ (selected i₀ ≠ true ∧ i = i₀) := by
    intro i hi
    obtain ⟨i₀, hi₀, rfl⟩ := mem_updateWhere.mp hi
    refine ⟨i₀, hi₀, ?_⟩
    by_cases hp : selected i₀ = true
    · exact .inl ⟨hp, if_pos hp⟩
    · exact .inr ⟨hp, if_neg hp⟩
  refine ⟨⟨h.access.1, h.access.2, h.access.3, h.access.4⟩, h.requested, ?_, ?_, ?_, ?_, ?_, ?_⟩
  · exact nodup_map_updateWhere (fun i _ => (hf i).id) h.identityIds
  · exact nodup_map_updateWhere (fun _ _ => rfl) h.bindingIds
  · intro b hb
    obtain ⟨b₀, hb₀, hwanes, _⟩ := Site.mem_revokedAgents_bindings hb
    rw [Site.revokedAgents_find, hwanes.protocolAgentId, Option.isSome_map]
    exact h.registered b₀ hb₀
  · intro b hb hstatus
    obtain ⟨b₀, hb₀, hwanes, ⟨hid, hactive, _⟩ | ⟨_, rfl⟩⟩ := Site.mem_revokedAgents_bindings hb
    · rw [hwanes.protocolAgentId]
      exact Site.agentRevoked_of_listed (hlists b₀ hb₀ hid hactive) (h.registered b₀ hb₀)
    · have hrevoked : s.AgentRevoked b.protocolAgentId := h.revoked b hb₀ hstatus
      have hlater : (s.revokedAgents id ids now).AgentRevoked b.protocolAgentId :=
        hrevoked.revokedAgents
      exact hlater
  · rintro b hb ⟨i, hi, hid, hdeleted⟩
    obtain ⟨b₀, hb₀, _, ⟨_, _, hrevoked⟩ | ⟨hnot, rfl⟩⟩ := Site.mem_revokedAgents_bindings hb
    · rw [hrevoked]
      exact fun h => by cases h
    · obtain ⟨i₀, hi₀, ⟨hp, rfl⟩ | ⟨_, rfl⟩⟩ := hidentity i hi
      · intro hactive
        refine hnot ⟨?_, hactive⟩
        rw [← hid, (hf i₀).id]
        exact hselected i₀ hp
      · exact h.deleted b hb₀ ⟨i, hi₀, hid, hdeleted⟩
  · intro i hi hactive hlive
    obtain ⟨i₀, hi₀, ⟨_, rfl⟩ | ⟨hp, rfl⟩⟩ := hidentity i hi
    · exact absurd hactive (hstatus i₀)
    · obtain ⟨b, hb, hbid, hbactive⟩ := h.active i hi₀ hactive hlive
      refine ⟨b, Site.mem_revokedAgents_of_not hb ?_, hbid, hbactive⟩
      rintro ⟨hother, _⟩
      exact hp (hall i (hbid.symm.trans hother) hlive)

/-- Identities that change their status keep their bindings. -/
theorem bound_changed (h : s.Bound) (hf : ∀ i : AgentIdentity, i.Persists (f i))
    (hdeleted : ∀ i, (f i).deletedAt = i.deletedAt)
    (hactive : ∀ i ∈ s.directory.identities, selected i = true → i.deletedAt = none →
      (f i).status = .active → s.HasActiveBinding i.id) : (s.changed selected f).Bound := by
  refine ⟨⟨h.access.1, h.access.2, h.access.3, h.access.4⟩, h.requested, ?_, h.bindingIds,
    h.registered, h.revoked, ?_, ?_⟩
  · exact nodup_map_updateWhere (fun i _ => (hf i).id) h.identityIds
  · rintro b hb ⟨i, hi, hid, hsome⟩
    obtain ⟨i₀, hi₀, rfl⟩ := mem_updateWhere.mp hi
    refine h.deleted b hb ⟨i₀, hi₀, ?_, ?_⟩
    · rw [← hid]
      split
      · exact (hf i₀).id.symm
      · rfl
    · split at hsome
      · rwa [hdeleted] at hsome
      · exact hsome
  · intro i hi hstatus hlive
    obtain ⟨i₀, hi₀, rfl⟩ := mem_updateWhere.mp hi
    by_cases hp : selected i₀ = true
    · rw [if_pos hp] at hstatus hlive ⊢
      rw [hdeleted] at hlive
      rw [(hf i₀).id]
      exact hactive i₀ hi₀ hp hlive hstatus
    · rw [if_neg hp] at hstatus hlive ⊢
      exact h.active i₀ hi₀ hstatus hlive

/-- A binding to an identity that is not deleted, or to a new one. -/
theorem bound_enroll (h : s.Bound) {identity : Option NewIdentity} {row : AgentBinding}
    (intents : List EnrollmentIntent) (henrolls : s.Enrolls identity row)
    (hlive : identity = none → ¬s.Deleted row.agentIdentityId) :
    (s.enroll identity row intents).Bound := by
  have hidentities : (s.enroll identity row intents).directory.identities =
      s.directory.identities ++ identity.toList.map (·.row) := rfl
  have hbindings : (s.enroll identity row intents).directory.bindings =
      s.directory.bindings ++ [row] := rfl
  -- a new identity is not deleted and has no earlier binding
  have hdeleted : ∀ k, (s.enroll identity row intents).Deleted k → s.Deleted k := by
    rintro k ⟨i, hi, hid, hsome⟩
    rw [hidentities] at hi
    rcases List.mem_append.mp hi with hi | hi
    · exact ⟨i, hi, hid, hsome⟩
    · obtain ⟨j, _, rfl⟩ := List.mem_map.mp hi
      cases hsome
  refine ⟨⟨h.access.1, h.access.2, h.access.3, h.access.4⟩, h.requested, ?_, ?_, ?_, ?_, ?_, ?_⟩
  · rw [hidentities]
    cases identity with
    | none => simpa using h.identityIds
    | some i => exact nodup_map_append_singleton h.identityIds (henrolls.created i rfl).2
  · rw [hbindings]
    exact nodup_map_append_singleton h.bindingIds henrolls.fresh
  · intro b hb
    rw [hbindings] at hb
    rcases List.mem_append.mp hb with hb | hb
    · exact h.registered b hb
    · obtain rfl := List.mem_singleton.mp hb
      exact henrolls.registered
  · intro b hb hstatus
    rw [hbindings] at hb
    rcases List.mem_append.mp hb with hb | hb
    · exact h.revoked b hb hstatus
    · obtain rfl := List.mem_singleton.mp hb
      exact absurd henrolls.active hstatus
  · intro b hb hgone
    rw [hbindings] at hb
    rcases List.mem_append.mp hb with hb | hb
    · exact h.deleted b hb (hdeleted _ hgone)
    · obtain rfl := List.mem_singleton.mp hb
      cases identity with
      | none => exact absurd (hdeleted _ hgone) (hlive rfl)
      | some i =>
        obtain ⟨j, hj, hid, _⟩ := hdeleted _ hgone
        obtain ⟨hrow, hfresh⟩ := henrolls.created i rfl
        exact absurd (hid.trans hrow.symm) (hfresh j hj)
  · intro i hi hstatus hnone
    rw [hidentities] at hi
    rcases List.mem_append.mp hi with hi | hi
    · obtain ⟨b, hb, hbid, hactive⟩ := h.active i hi hstatus hnone
      exact ⟨b, List.mem_append_left _ hb, hbid, hactive⟩
    · obtain ⟨j, hj, rfl⟩ := List.mem_map.mp hi
      obtain ⟨hrow, _⟩ := henrolls.created j (Option.mem_toList.mp hj)
      exact ⟨row, List.mem_append_right _ List.mem_cons_self, hrow.symm, henrolls.active⟩

theorem bound_access (h : s.Bound) {op : Operation} (hop : op.keepsIdentities = true) :
    ({ s with access := op.perform s.access } : Site).Bound := by
  obtain ⟨hidentities, hbindings⟩ := sameAgents_perform hop s.access
  have hi : ({ s with access := op.perform s.access } : Site).directory.identities =
      s.directory.identities := hidentities
  have hb : ({ s with access := op.perform s.access } : Site).directory.bindings =
      s.directory.bindings := hbindings
  refine ⟨(FlareAuth.precedes_perform op s.access).valid h.access,
    leasesRequested_perform h.requested, ?_, ?_, ?_, ?_, ?_, ?_⟩
  · rw [hi]
    exact h.identityIds
  · rw [hb]
    exact h.bindingIds
  · rw [hb]
    exact h.registered
  · rw [hb]
    exact h.revoked
  · rw [hb]
    rintro b hmem ⟨i, hmem', hid⟩
    rw [hi] at hmem'
    exact h.deleted b hmem ⟨i, hmem', hid⟩
  · rw [hi]
    intro i hmem hactive hlive
    obtain ⟨b, hmem', hbinding⟩ := h.active i hmem hactive hlive
    rw [← hb] at hmem'
    exact ⟨b, hmem', hbinding⟩

/-- A site that keeps its access tables and in which no protocol agent was revived or lost. -/
theorem bound_agents (h : s.Bound) {t : Site} (haccess : t.access = s.access)
    (hfound : ∀ k, (s.agents.find k).isSome = true → (t.agents.find k).isSome = true)
    (hrevoked : ∀ k, s.AgentRevoked k → t.AgentRevoked k) : t.Bound := by
  have hdirectory : t.directory = s.directory := congrArg Store.directory haccess
  refine ⟨haccess ▸ h.access, haccess ▸ h.requested, hdirectory ▸ h.identityIds,
    hdirectory ▸ h.bindingIds, ?_, ?_, ?_, ?_⟩
  · rw [hdirectory]
    exact fun b hb => hfound _ (h.registered b hb)
  · rw [hdirectory]
    exact fun b hb hs => hrevoked _ (h.revoked b hb hs)
  · rw [hdirectory]
    rintro b hb ⟨i, hi, hid⟩
    rw [hdirectory] at hi
    exact h.deleted b hb ⟨i, hi, hid⟩
  · rw [hdirectory]
    intro i hi hactive hlive
    obtain ⟨b, hb, hbinding⟩ := h.active i hi hactive hlive
    rw [← hdirectory] at hb
    exact ⟨b, hb, hbinding⟩

theorem find_insert? {t u : Keyed ProtocolAgents.Agent.id} {row : ProtocolAgents.Agent}
    (h : t.insert? row = some u) {k : Id} {a : ProtocolAgents.Agent} (ha : t.find k = some a) :
    u.find k = some a := by
  unfold Keyed.insert? at h
  split at h
  · obtain rfl := Option.some.inj h
    obtain ⟨hmem, hkey⟩ := Keyed.find_eq_some.mp ha
    exact Keyed.find_eq_some.mpr ⟨List.mem_append_left _ hmem, hkey⟩
  · cases h

theorem bound_putAgent (h : s.Bound) (row : ProtocolAgents.Agent) :
    ((Repository.putAgent row).settle s).Bound := by
  simp only [Repository.putAgent, Batch.settle, Batch.modify]
  split
  · rename_i agents hinsert
    refine bound_agents h rfl (fun k hk => ?_) fun k hk => ?_
    · obtain ⟨a, ha⟩ := Option.isSome_iff_exists.mp hk
      exact Option.isSome_of_eq_some (find_insert? hinsert ha)
    · obtain ⟨a, ha, hstatus⟩ := hk
      exact ⟨a, find_insert? hinsert ha, hstatus⟩
  · have hfind := fun k : Id => Keyed.find_update (t := s.agents) (k := k)
      (p := fun a => a.id == row.id && a.status != .revoked)
      (f := fun a => { row with id := a.id }) fun _ => rfl
    refine bound_agents h rfl (fun k hk => ?_) fun k hk => ?_
    · dsimp only
      rw [hfind, Option.isSome_map]
      exact hk
    · obtain ⟨a, ha, hstatus⟩ := hk
      refine ⟨a, ?_, hstatus⟩
      dsimp only
      rw [hfind, ha, Option.map_some, if_neg (by simp [hstatus])]

/-- The operation writes what it was prepared for: an approval finds its identity not deleted, a
batch that revokes bindings lists all their protocol agents, and an activation finds an active
binding. -/
def WritesKnown (s : Site) : SiteOperation → Prop
  | .approveIntent a => ∀ id, a.target = .existing id → ¬s.Deleted id
  | .deactivateIdentity id ids revokeBindings _ => revokeBindings = true → s.Lists id ids
  | .deleteIdentity id ids _ => s.Lists id ids
  | .activateIdentity id => (∃ i ∈ s.directory.identities, i.id = id ∧ i.status = .inactive ∧
      i.deletedAt = none) → s.HasActiveBinding id
  | _ => True

/-- One step of a run whose batches write what they were prepared for. -/
theorem bound_perform (h : s.Bound) {op : SiteOperation} (hop : WritesKnown s op) :
    (op.perform s).Bound := by
  have hinactive : ∀ i : AgentIdentity, i.Persists { i with status := .inactive } :=
    fun i => ⟨rfl, rfl, rfl, rfl, fun h => h⟩
  cases op with
  | read => exact h
  | access op =>
    by_cases hkeeps : op.keepsIdentities = true
    · rw [SiteOperation.perform, if_pos hkeeps]
      exact bound_access h hkeeps
    · rw [SiteOperation.perform, if_neg hkeeps]
      exact h
  | putAgent row => exact bound_putAgent h row
  | createIdentity identity bindingId protocolAgentId =>
    rw [SiteOperation.perform]
    rcases createIdentity_cases identity bindingId protocolAgentId s with hsame | ⟨row, hrow, heq⟩
    · rw [hsame]
      exact h
    · rw [heq]
      exact bound_enroll h _ hrow fun hnone => nomatch hnone
  | insertIntent row =>
    have hsame : ((Repository.insertIntent row).settle s).access = s.access ∧
        ((Repository.insertIntent row).settle s).agents = s.agents := by
      simp only [Repository.insertIntent, Batch.settle]
      split
      · rename_i heq
        split at heq
        · cases heq
        · split at heq <;> cases heq <;> exact ⟨rfl, rfl⟩
      · exact ⟨rfl, rfl⟩
    refine bound_agents h hsame.1 (fun k hk => ?_) fun k hk => ?_
    · change (((Repository.insertIntent row).settle s).agents.find k).isSome = true
      rwa [hsame.2]
    · change ∃ a, ((Repository.insertIntent row).settle s).agents.find k = some a ∧ _
      rwa [hsame.2]
  | approveIntent a =>
    rw [SiteOperation.perform]
    rcases approveIntent_cases a s with hsame | ⟨identity, row, intents, hrow, htarget, heq⟩
    · rw [hsame]
      exact h
    · rw [heq]
      exact bound_enroll h _ hrow fun hnone => hop _ (htarget hnone)
  | deactivateIdentity id ids revokeBindings now =>
    rw [SiteOperation.perform, settle_deactivateIdentity]
    split
    · rename_i hrevokes
      refine bound_retire h (fun i hi => by simpa using hi) (fun i hi _ => by simpa using hi)
        hinactive (fun i hactive => by cases hactive) (hop hrevokes)
    · refine bound_changed h hinactive (fun _ => rfl) ?_
      intro i _ _ _ hactive
      cases hactive
  | activateIdentity id =>
    rw [SiteOperation.perform, settle_activateIdentity]
    refine bound_changed h (fun i => ⟨rfl, rfl, rfl, rfl, fun h => h⟩) (fun _ => rfl) ?_
    intro i hi hselected hlive _
    simp only [Bool.and_eq_true, beq_iff_eq] at hselected
    obtain rfl := hselected.1.1
    exact hop ⟨i, hi, rfl, hselected.1.2, hlive⟩
  | deleteIdentity id ids now =>
    rw [SiteOperation.perform, settle_deleteIdentity]
    refine bound_retire h (fun i hi => ?_) (fun i hid hlive => ?_)
      (fun i => ⟨rfl, rfl, rfl, rfl, fun _ => rfl⟩) (fun i hactive => by cases hactive) hop
    · rw [Bool.and_eq_true, beq_iff_eq] at hi
      exact hi.1
    · simp [hid, hlive]

end Invariant

end FlareAuth.AgentIdentities
