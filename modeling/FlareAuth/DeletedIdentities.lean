import FlareAuth.AgentSweeps
import FlareAuth.IdentityBindings

/-!
# Deletion and recovery of Agent identities

Both read the protocol agents before the batch that revokes them, and a deletion
then sweeps the Agent's access in many steps. They are complete in those runs in
which no batch of another call falls into a gap between a read and a write.
-/

namespace FlareAuth.AgentIdentities

open Concurrent Procedure Relational

def SiteOperation.onAccess? : SiteOperation → Option Operation
  | .access op => if op.keepsIdentities then some op else none
  | _ => none

abbrev SiteLog := Log Site SiteOperation

/-- What a call has done on the access tables. -/
def accessLog (log : SiteLog) : AccessLog := log.restrict Site.access SiteOperation.onAccess?

theorem onAccess?_eq_some {op : SiteOperation} {op' : Operation} (h : op.onAccess? = some op') :
    op = .access op' ∧ op'.keepsIdentities = true := by
  unfold SiteOperation.onAccess? at h
  split at h
  · split at h
    · rename_i hkeeps
      cases h
      exact ⟨rfl, hkeeps⟩
    · cases h
  · cases h

section Logs

variable {α : Type}

/-- The log shows the batch that deleted an identity which an earlier operation had found. -/
def DeletedIn (log : SiteLog) (id : Id) : Prop :=
  ∃ d later earlier, log = later ++ d :: earlier ∧
    (∃ ids now, d.operation = .deleteIdentity id ids now) ∧
    ∃ e ∈ earlier, ∃ i ∈ e.before.directory.identities, i.id = id

/-- The log shows the batch that deactivated the identity and revoked its bindings. -/
def RecoveredIn (log : SiteLog) (id : Id) : Prop :=
  ∃ d ∈ log, ∃ ids now, d.operation = .deactivateIdentity id ids true now

theorem DeletedIn.append {log : SiteLog} {id : Id} (h : DeletedIn log id) (new old : SiteLog) :
    DeletedIn (new ++ (log ++ old)) id := by
  obtain ⟨d, later, earlier, rfl, hop, e, he, hfound⟩ := h
  exact ⟨d, new ++ later, earlier ++ old, by simp, hop, e, List.mem_append_left _ he, hfound⟩

/-- A procedure that does not touch identities, on the access tables. -/
theorem leaves_onAccess {p : Access α} {P : α → AccessLog → Prop}
    (hkeeps : p.Only fun op => op.keepsIdentities = true) (h : p.Leaves P) :
    (onAccess p).Leaves fun a log => P a (accessLog log) :=
  .lift (hkeeps.mono fun _ hop => if_pos hop) h

theorem leaves_commit (op : SiteOperation) (batch : SiteBatch α) :
    (commit op batch).Leaves fun _ log => ∃ s new, log = new ++ [⟨op, s⟩] := by
  intro s
  exact (leaves_true _).mono fun a log _ => ⟨s, log, rfl⟩

theorem leaves_deleteIdentity (id : Id) (now : ℕ) :
    (deleteIdentity id now).Leaves fun deleted log => deleted = true → DeletedIn log id := by
  refine (leaves_query SiteOperation.read _).bind fun found first hfirst => ?_
  obtain ⟨s, rfl, rfl⟩ := hfirst
  cases hfound : s.directory.findIdentity id with
  | none => exact fun h => by cases h
  | some i =>
    refine (leaves_query SiteOperation.read _).bind fun ids second hsecond => ?_
    obtain ⟨s', rfl, rfl⟩ := hsecond
    refine (leaves_commit (.deleteIdentity id (s'.activeProtocolAgentIds id) now) _).bind
      fun _ third hthird => ?_
    obtain ⟨s'', new, rfl⟩ := hthird
    have hi := List.find?_some hfound
    simp only [decide_eq_true_eq] at hi
    intro _
    refine ⟨⟨.deleteIdentity id (s'.activeProtocolAgentIds id) now, s''⟩, new,
      [⟨.read, s'⟩, ⟨.read, s⟩], by simp, ⟨_, now, rfl⟩, ⟨.read, s⟩, ?_, i,
      List.mem_of_find?_eq_some hfound, hi.1⟩
    exact List.mem_cons_of_mem _ List.mem_cons_self

theorem leaves_deactivateIdentity (id : Id) (now : ℕ) :
    (deactivateIdentity id now true).Leaves fun done log => done = true → RecoveredIn log id := by
  refine (leaves_query SiteOperation.read _).bind fun found first _ => ?_
  cases found with
  | none => exact fun h => by cases h
  | some i =>
    dsimp only
    rw [if_neg (by simp)]
    refine (leaves_query SiteOperation.read _).bind fun ids second _ => ?_
    refine (leaves_commit (.deactivateIdentity id ids true now) _).bind fun _ third hthird => ?_
    obtain ⟨s, new, rfl⟩ := hthird
    intro _
    refine ⟨⟨.deactivateIdentity id ids true now, s⟩, ?_, ids, now, rfl⟩
    simp

/-- The operations that write neither identities nor bindings. -/
abbrev Keeps (p : Access α) : Prop := p.Only fun op => op.keepsIdentities = true

theorem keeps_of_reads {p : Access α} (h : p.Reads) : Keeps p := by
  refine h.mono fun op hread => ?_
  cases op with
  | read query => rfl
  | generateId => rfl
  | _ => exact hread.elim

theorem keeps_revokeAgentResourceAccess (id : Id) : Keeps (revokeAgentResourceAccess id) := by
  have hcommit : ∀ {β : Type} {op : Operation} {batch : StoreBatch β},
      op.keepsIdentities = true → Keeps (Access.commit op batch) :=
    fun hop => ⟨hop, fun _ => only_ofExcept _⟩
  have hlease : ∀ l now, Keeps (revokeTokenLeaseAtTarget l now true) := fun l now =>
    only_bind.mpr ⟨keeps_of_reads (reads_revokeTokenAtTarget l), fun _ _ => hcommit rfl⟩
  refine only_bind.mpr ⟨keeps_of_reads (by simp), fun now _ => ?_⟩
  refine only_bind.mpr ⟨keeps_of_reads (by simp), fun entitlements _ => ?_⟩
  refine only_forEach fun e => only_bind.mpr ⟨?_, fun _ _ => ?_⟩
  · refine only_bind.mpr ⟨keeps_of_reads (by simp), fun leases _ => ?_⟩
    exact only_forEach fun l => hlease l now
  · exact only_bind.mpr ⟨hcommit rfl, fun _ _ => trivial⟩

theorem leaves_deleteFound (id : Id) : (deleteFound id).Leaves fun _ log =>
    DeletedIn log id ∧ SweptAgent (accessLog log) id := by
  refine (leaves_true (onAccess Access.clock)).bind fun now first _ => ?_
  refine (leaves_deleteIdentity id now).bind fun deleted second hsecond => ?_
  refine (leaves_require (deleted = true) _).bind fun _ third ⟨hdeleted, _⟩ => ?_
  refine (leaves_onAccess (keeps_revokeAgentResourceAccess id)
    (leaves_revokeAgentResourceAccess id)).mono fun _ fourth hswept => ⟨?_, ?_⟩
  · rw [List.append_assoc]
    exact (hsecond hdeleted).append (fourth ++ third) first
  · rw [List.append_assoc, List.append_assoc, accessLog, Log.restrict_append]
    exact hswept.append [] _

theorem leaves_recoverAgentIdentity (id actorUserId : Id) :
    (recoverAgentIdentity id actorUserId).Leaves fun _ log => RecoveredIn log id := by
  refine (leaves_true (requireControlledIdentity id actorUserId)).bind fun identity first _ => ?_
  refine (leaves_require (identity.status = .active) _).bind fun _ second _ => ?_
  refine (leaves_true (onAccess Access.clock)).bind fun now third _ => ?_
  refine (leaves_deactivateIdentity id now).bind fun done fourth hfourth => ?_
  refine (leaves_require (done = true) _).bind fun _ fifth ⟨hdone, _⟩ => ?_
  refine (leaves_true (onAccess (revokeAgentResourceAccess id))).mono fun _ sixth _ => ?_
  obtain ⟨d, hd, hop⟩ := hfourth hdone
  refine ⟨d, ?_, hop⟩
  simp [hd]

end Logs

section Runs

variable [Locale]

def Call.deletes : Call → Option Id
  | .deleteAgentIdentity identityId _ => some identityId
  | .emergencyDeleteAgentIdentity identityId => some identityId
  | _ => none

structure Completed (call : Call) (log : SiteLog) : Prop where
  deletes : ∀ id, call.deletes = some id → DeletedIn log id ∧ SweptAgent (accessLog log) id
  recovers : ∀ id actorUserId, call = .recoverAgentIdentity id actorUserId → RecoveredIn log id

theorem completed_program (call : Call) :
    call.program.Leaves fun _ log => Completed call log := by
  have hdelete : ∀ {β : Type} (p : Identities β) (id : Id),
      (p >>= fun _ => deleteFound id).Leaves fun _ log =>
        DeletedIn log id ∧ SweptAgent (accessLog log) id := by
    intro β p id
    refine (leaves_true p).bind fun _ first _ => ?_
    refine (leaves_deleteFound id).mono fun _ second ⟨hdeleted, hswept⟩ => ⟨?_, ?_⟩
    · exact hdeleted.append [] first
    · rw [accessLog, Log.restrict_append]
      exact hswept.append [] _
  cases call with
  | deleteAgentIdentity identityId actorUserId =>
    refine (hdelete (requireControlledIdentity identityId actorUserId) identityId).mono
      fun _ log h => ⟨?_, fun _ _ hcall => nomatch hcall⟩
    rintro id hid
    cases hid
    exact h
  | emergencyDeleteAgentIdentity identityId =>
    refine (hdelete (requireIdentity identityId) identityId).mono
      fun _ log h => ⟨?_, fun _ _ hcall => nomatch hcall⟩
    rintro id hid
    cases hid
    exact h
  | recoverAgentIdentity identityId actorUserId =>
    refine (leaves_recoverAgentIdentity identityId actorUserId).mono fun _ log h => ⟨?_, ?_⟩
    · exact fun _ hid => nomatch hid
    · rintro id _ hcall
      cases hcall
      exact h
  | _ => exact (leaves_true _).mono fun _ log _ => ⟨(fun _ h => nomatch h), fun _ _ h => nomatch h⟩

/-- No identity and no agent access yet, whatever protocol agents there are. -/
structure Site.Fresh (s : Site) : Prop where
  access : s.access.Fresh
  identities : s.directory.identities = []
  bindings : s.directory.bindings = []

abbrev IdentityReachable (ok : IdentityPool → Move Call → Prop) : IdentityPool → Prop :=
  Reachable Call.program Site.Fresh ok

/-- Nothing happens in the gaps of a deletion or a recovery. Each batch writes what it was prepared
for; once a deletion has listed the entitlements, the Agent is granted nothing and no lease is
issued to it that the deletion will not see; and the listing names an entitlement of each of the
Agent's active leases. -/
def Orderly (pool : IdentityPool) (m : Move Call) : Prop :=
  ∀ i t op, m = .resume i → pool.pending i = some (t, op) → WritesKnown pool.store op ∧
    ∀ op', op.onAccess? = some op' →
      (∀ u ∈ pool.threads, ∀ id, u.call.deletes = some id →
        GrantsInTime (accessLog u.log) id pool.store.access op' ∧
        IssuesInTime (accessLog u.log) id pool.store.access op') ∧
      ∀ id, t.call.deletes = some id → ListsAll id pool.store.access op'

variable {ok : IdentityPool → Move Call → Prop} {pool : IdentityPool}
  {t : Thread Call Site SiteOperation Failure Unit} {id : Id}

omit [Locale] in
theorem persists_evolution : Evolution SiteOperation Site.Persists :=
  ⟨.refl, fun _ _ _ => .trans, persists_perform⟩

omit [Locale] in
theorem Site.Fresh.bound {s : Site} (h : s.Fresh) : s.Bound := by
  refine ⟨h.access.valid, ?_, ?_, ?_, ?_, ?_, ?_, ?_⟩ <;>
    simp [h.identities, h.bindings, h.access.leases, Store.LeasesRequested]

theorem bound_of_reachable (h : IdentityReachable Orderly pool) : pool.store.Bound :=
  h.keeps (fun _ => Site.Fresh.bound) fun _ i t op _ hm hpending hbound =>
    bound_perform hbound (hm i t op rfl hpending).1

omit [Locale] in
/-- The tables of agent access that a step on the identities leaves alone. -/
structure SameAccess (s t : Store) : Prop where
  now : t.now = s.now
  requests : t.requests = s.requests
  entitlements : t.entitlements = s.entitlements
  leases : t.leases = s.leases

omit [Locale] in
theorem sameAccess_perform {op : SiteOperation} (h : op.onAccess? = none) (s : Site) :
    SameAccess s.access (op.perform s).access := by
  have hrefl : ∀ {t : Site}, t.access = s.access → SameAccess s.access t.access := by
    intro t ht
    rw [ht]
    exact ⟨rfl, rfl, rfl, rfl⟩
  cases op with
  | access op =>
    refine hrefl ?_
    by_cases hkeeps : op.keepsIdentities = true
    · rw [SiteOperation.onAccess?, if_pos hkeeps] at h
      cases h
    · rw [SiteOperation.perform, if_neg hkeeps]
  | read => exact hrefl rfl
  | putAgent row =>
    refine hrefl ?_
    simp only [SiteOperation.perform, Repository.putAgent, Batch.settle, Batch.modify]
    split <;> rfl
  | createIdentity identity bindingId protocolAgentId =>
    rw [SiteOperation.perform]
    rcases createIdentity_cases identity bindingId protocolAgentId s with hsame | ⟨row, _, heq⟩
    · exact hrefl (by rw [hsame])
    · rw [heq]
      exact ⟨rfl, rfl, rfl, rfl⟩
  | insertIntent row =>
    refine hrefl ?_
    simp only [SiteOperation.perform, Repository.insertIntent, Batch.settle]
    split
    · rename_i heq
      split at heq
      · cases heq
      · split at heq <;> cases heq <;> rfl
    · rfl
  | approveIntent a =>
    rw [SiteOperation.perform]
    rcases approveIntent_cases a s with hsame | ⟨identity, row, intents, _, _, heq⟩
    · exact hrefl (by rw [hsame])
    · rw [heq]
      exact ⟨rfl, rfl, rfl, rfl⟩
  | deactivateIdentity id ids revokeBindings now =>
    cases revokeBindings <;> exact ⟨rfl, rfl, rfl, rfl⟩
  | activateIdentity id => exact ⟨rfl, rfl, rfl, rfl⟩
  | deleteIdentity id ids now => exact ⟨rfl, rfl, rfl, rfl⟩

omit [Locale] in
theorem perform_onAccess {op : SiteOperation} {op' : Operation} (h : op.onAccess? = some op')
    (s : Site) : (op.perform s).access = op'.perform s.access := by
  obtain ⟨rfl, hkeeps⟩ := onAccess?_eq_some h
  rw [SiteOperation.perform, if_pos hkeeps]

/-- What a deletion has listed, and what its listings have shown, in the present store. -/
structure Tracked (call : Call) (log : SiteLog) (s : Site) : Prop where
  listed : ∀ id, call.deletes = some id → s.access.HoldsListed id (accessLog log)
  seen : ∀ id, call.deletes = some id → s.access.HoldsSeen id (accessLog log)

omit [Locale] in
theorem SameAccess.holdsListed {s t : Store} (h : SameAccess s t) {log : AccessLog}
    (hlisted : s.HoldsListed id log) : t.HoldsListed id log := by
  unfold Store.HoldsListed
  rw [h.entitlements]
  exact hlisted

omit [Locale] in
theorem SameAccess.holdsSeen {s t : Store} (h : SameAccess s t) {log : AccessLog}
    (hseen : s.HoldsSeen id log) : t.HoldsSeen id log := by
  unfold Store.HoldsSeen Store.LeaseOf
  rw [h.leases, h.requests, h.now]
  exact hseen

theorem tracked_of_reachable (h : IdentityReachable Orderly pool) :
    ∀ t ∈ pool.threads, Tracked t.call t.log pool.store := by
  refine h.tracks (fun c s => ⟨fun id _ => ?_, fun id _ => ?_⟩)
    fun pool i t op hpool hm hpending ht => ?_
  · rintro now listed later ⟨d, earlier, hlog, _⟩
    exact absurd hlog (by simp [accessLog, Log.restrict])
  · rintro now listed later ⟨d, earlier, hlog, _⟩
    exact absurd hlog (by simp [accessLog, Log.restrict])
  have hbound := bound_of_reachable hpool
  obtain ⟨_, horderly⟩ := hm i t op rfl hpending
  rw [apply_eq]
  cases hop : op.onAccess? with
  | none =>
    have hsame := sameAccess_perform hop pool.store
    have hlog : accessLog (⟨op, pool.store⟩ :: t.log) = accessLog t.log :=
      Log.restrict_cons_of_none hop _
    refine ⟨fun u _ hu => ⟨fun id hid => hsame.holdsListed (hu.listed id hid),
      fun id hid => hsame.holdsSeen (hu.seen id hid)⟩, fun hself => ⟨fun id hid => ?_,
      fun id hid => ?_⟩⟩
    · rw [hlog]
      exact hsame.holdsListed (hself.listed id hid)
    · rw [hlog]
      exact hsame.holdsSeen (hself.seen id hid)
  | some op' =>
    obtain ⟨hothers, hown⟩ := horderly op' hop
    have hlog : accessLog (⟨op, pool.store⟩ :: t.log) =
        ⟨op', pool.store.access⟩ :: accessLog t.log := Log.restrict_cons_of_some hop _
    refine ⟨fun u hu htracked => ⟨fun id hid => ?_, fun id hid => ?_⟩, fun htracked =>
      ⟨fun id hid => ?_, fun id hid => ?_⟩⟩
    · rw [perform_onAccess hop]
      exact holdsListed_perform (htracked.listed id hid) (hothers u hu id hid).1
    · rw [perform_onAccess hop]
      exact holdsSeen_perform hbound.access hbound.requested (htracked.seen id hid)
        (hothers u hu id hid).2
    · rw [perform_onAccess hop, hlog]
      exact holdsListed_cons (htracked.listed id hid) (hothers t ht id hid).1
    · rw [perform_onAccess hop, hlog]
      exact holdsSeen_cons hbound.access hbound.requested (htracked.seen id hid)
        (hothers t ht id hid).2 (hown id hid)

/-- The stores that a call found on the access tables come in their order. -/
theorem inOrder_of_reachable (h : IdentityReachable ok pool) (ht : t ∈ pool.threads) :
    InOrder (accessLog t.log) pool.store.access := by
  obtain ⟨hpairs, hafter⟩ := h.evolves persists_evolution t ht
  constructor
  · refine Log.pairwise_restrict hpairs fun e d op op' hpersists _ hop' => ?_
    have haccess := hpersists.access
    rw [apply_eq, perform_onAccess hop'] at haccess
    exact haccess
  · intro e he
    obtain ⟨d, hd, hop, hbefore⟩ := Log.mem_restrict.mp he
    have haccess := (hafter d hd).access
    rw [apply_eq, perform_onAccess hop, hbefore] at haccess
    exact haccess

omit [Locale] in
theorem Site.Persists.deleted {s u : Site} (h : s.Persists u) (hdeleted : s.Deleted id) :
    u.Deleted id := by
  obtain ⟨i, hi, hid, hsome⟩ := hdeleted
  obtain ⟨i', hi', hpersists⟩ := h.access.directory.identities.exists_of_mem hi
  exact ⟨i', hi', hpersists.id.trans hid, hpersists.deleted hsome⟩

omit [Locale] in
theorem deleted_deleteIdentity {ids : List Id} {now : ℕ} {s : Site}
    (h : ∃ i ∈ s.directory.identities, i.id = id) :
    ((SiteOperation.deleteIdentity id ids now).perform s).Deleted id := by
  obtain ⟨i, hi, hid⟩ := h
  refine ⟨_, mem_updateWhere.mpr ⟨i, hi, rfl⟩, ?_⟩
  by_cases hp : (i.id == id && i.deletedAt.isNone) = true
  · rw [if_pos hp]
    exact ⟨hid, rfl⟩
  · rw [if_neg hp]
    rw [hid, beq_self_eq_true, Bool.true_and] at hp
    exact ⟨hid, by simpa [Option.isSome_iff_ne_none] using hp⟩

/-- A batch that was logged has deleted its identity for ever. -/
theorem deleted_of_logged (h : IdentityReachable ok pool) (ht : t ∈ pool.threads)
    (hlogged : DeletedIn t.log id) : pool.store.Deleted id := by
  obtain ⟨d, later, earlier, hlog, ⟨ids, now, hop⟩, e, he, i, hi, hid⟩ := hlogged
  have hbetween : Site.Persists (apply e.operation e.before) d.before :=
    h.evolves_between persists_evolution ht hlog he
  have hbefore := (persists_perform e.operation e.before).trans hbetween
  obtain ⟨i', hi', hpersists⟩ := hbefore.access.directory.identities.exists_of_mem hi
  have hd : d ∈ t.log := by
    rw [hlog]
    exact List.mem_append_right _ List.mem_cons_self
  have hafter : Site.Persists (apply d.operation d.before) pool.store :=
    (h.evolves persists_evolution t ht).2 d hd
  refine hafter.deleted ?_
  rw [hop]
  exact deleted_deleteIdentity ⟨i', hi', hpersists.id.trans hid⟩

/-- Nothing is left of an identity. -/
structure Site.Gone (s : Site) (id : Id) : Prop where
  deleted : s.Deleted id
  bindings : ∀ b ∈ s.directory.bindings, b.agentIdentityId = id → b.status ≠ .active
  agents : ∀ b ∈ s.directory.bindings, b.agentIdentityId = id → s.AgentRevoked b.protocolAgentId
  entitlements : ∀ e ∈ s.access.entitlements, e.agentIdentityId = some id →
    e.active s.access.now = false
  leases : ∀ l ∈ s.access.leases, s.access.LeaseOf id l → l.active s.access.now = false

/-- The bindings from before a recovery are gone, and the identity is active by a later one. -/
structure Site.Recovered (before now : Site) (id : Id) : Prop where
  bindings : ∀ b ∈ now.directory.bindings, b.agentIdentityId = id →
    (∃ b₀ ∈ before.directory.bindings, b₀.id = b.id) → b.status ≠ .active
  active : ∀ i ∈ now.directory.identities, i.id = id → i.status = .active → i.deletedAt = none →
    ∃ b ∈ now.directory.bindings, b.agentIdentityId = id ∧ b.status = .active ∧
      ∀ b₀ ∈ before.directory.bindings, b₀.id ≠ b.id

omit [Locale] in
theorem revoked_deactivateIdentity {ids : List Id} {now : ℕ} {s : Site} {b : AgentBinding}
    (h : b ∈ ((SiteOperation.deactivateIdentity id ids true now).perform s).directory.bindings)
    (hid : b.agentIdentityId = id) : b.status ≠ .active := by
  rw [SiteOperation.perform, settle_deactivateIdentity, if_pos rfl] at h
  obtain ⟨b₀, _, hwanes, ⟨_, _, hrevoked⟩ | ⟨hnot, rfl⟩⟩ := Site.mem_revokedAgents_bindings h
  · rw [hrevoked]
    exact fun h => by cases h
  · exact fun hactive => hnot ⟨hid, hactive⟩

/-- The bindings that were there at the batch of a recovery are never active again. -/
theorem bindings_of_recovery (h : IdentityReachable ok pool) (hbound : pool.store.Bound)
    (ht : t ∈ pool.threads) {d : Event Site SiteOperation} (hd : d ∈ t.log) {ids : List Id}
    {now : ℕ} (hop : d.operation = .deactivateIdentity id ids true now) {b : AgentBinding}
    (hb : b ∈ pool.store.directory.bindings) (hid : b.agentIdentityId = id)
    (hbefore : ∃ b₀ ∈ d.before.directory.bindings, b₀.id = b.id) : b.status ≠ .active := by
  obtain ⟨b₀, hb₀, hsame⟩ := hbefore
  have hstep := (persists_perform d.operation d.before).bindings
  have hafter : Site.Persists (apply d.operation d.before) pool.store :=
    (h.evolves persists_evolution t ht).2 d hd
  obtain ⟨b₁, hb₁, hwanes₁⟩ := hstep.exists_of_mem hb₀
  have hwanes : Wanes b₁ b := hafter.bindings.of_mem_of_key_eq (fun _ _ hp => hp.id)
    hbound.bindingIds hb₁ hb (by rw [hwanes₁.id, hsame])
  refine hwanes.status ?_
  rw [hop] at hb₁
  exact revoked_deactivateIdentity hb₁ (hwanes.agentIdentityId.symm.trans hid)

/-- In a run in which nothing happens in their gaps, a deletion that has returned leaves nothing of
its identity, and a recovery that has returned leaves only what was approved after its batch. -/
theorem lifecycle_complete (h : IdentityReachable Orderly pool) (ht : t ∈ pool.threads)
    (hdone : t.rest = .done ()) :
    (∀ id, t.call.deletes = some id → pool.store.Gone id) ∧
    ∀ id actorUserId, t.call = .recoverAgentIdentity id actorUserId →
      ∃ d ∈ t.log, (∃ ids now, d.operation = .deactivateIdentity id ids true now) ∧
        d.before.Recovered pool.store id := by
  have hbound := bound_of_reachable h
  have hcompleted := h.left ht hdone completed_program
  have horder := inOrder_of_reachable h ht
  refine ⟨fun id hid => ?_, fun id actorUserId hcall => ?_⟩
  · obtain ⟨hlogged, hswept⟩ := hcompleted.deletes id hid
    have htracked := tracked_of_reachable h t ht
    have hdeleted := deleted_of_logged h ht hlogged
    have hbindings : ∀ b ∈ pool.store.directory.bindings, b.agentIdentityId = id →
        b.status ≠ .active := by
      rintro b hb rfl
      exact hbound.deleted b hb hdeleted
    exact ⟨hdeleted, hbindings, fun b hb hid => hbound.revoked b hb (hbindings b hb hid),
      fun e he hagent => hswept.no_entitlement horder hbound.access (htracked.listed id hid) he
        hagent,
      fun l hl hof => hswept.no_lease horder hbound.access (htracked.seen id hid) hl hof⟩
  · obtain ⟨d, hd, ids, now, hop⟩ := hcompleted.recovers id actorUserId hcall
    refine ⟨d, hd, ⟨ids, now, hop⟩, ?_, ?_⟩
    · exact fun b hb hid hbefore => bindings_of_recovery h hbound ht hd hop hb hid hbefore
    · rintro i hi rfl hactive hlive
      obtain ⟨b, hb, hbid, hbactive⟩ := hbound.active i hi hactive hlive
      refine ⟨b, hb, hbid, hbactive, fun b₀ hb₀ hsame => ?_⟩
      exact bindings_of_recovery h hbound ht hd hop hb hbid ⟨b₀, hb₀, hsame⟩ hbactive

end Runs

section Samples

namespace Sample

/-- The sample store without its Agent, and two protocol agents to enroll. -/
def site : Site where
  access := { FlareAuth.Sample.store with
    directory := { FlareAuth.Sample.directory with identities := [], bindings := [] } }
  agents := ⟨[⟨"p", some "u", "h", .active, none, 0⟩, ⟨"q", some "u", "g", .active, none, 0⟩],
    by decide⟩
  capabilityGrants := .empty _
  approvalRequests := .empty _
  intents := []

theorem site_fresh : site.Fresh := ⟨⟨rfl, rfl, rfl, rfl⟩, rfl, rfl⟩

end Sample

/-- The batch lists the protocol agents of the active bindings, and nothing else is written. -/
def listsCheck (s : Site) : SiteOperation → Bool
  | .approveIntent _ => false
  | .activateIdentity _ => false
  | .deactivateIdentity id ids _ _ => (s.activeProtocolAgentIds id).all ids.contains
  | .deleteIdentity id ids _ => (s.activeProtocolAgentIds id).all ids.contains
  | _ => true

theorem lists_of_check {s : Site} {id : Id} {ids : List Id}
    (h : (s.activeProtocolAgentIds id).all ids.contains = true) : s.Lists id ids := by
  intro b hb hid hactive
  have hmem : b.protocolAgentId ∈ s.activeProtocolAgentIds id :=
    List.mem_map_of_mem (List.mem_filter.mpr ⟨hb, by simp [hid, hactive]⟩)
  exact List.contains_iff_mem.mp (List.all_eq_true.mp h _ hmem)

theorem writesKnown_of_check {s : Site} {op : SiteOperation} (h : listsCheck s op = true) :
    WritesKnown s op := by
  cases op with
  | approveIntent a => cases h
  | activateIdentity id => cases h
  | deactivateIdentity id ids revokeBindings now => exact fun _ => lists_of_check h
  | deleteIdentity id ids now => exact lists_of_check h
  | _ => exact trivial

/-- The operation neither grants nor issues anything. -/
def quietCheck (op : Operation) : Bool :=
  op.inserts.isEmpty && op.extends.isEmpty && !op matches .issueTokenLease _

/-- Leases are never issued, and nothing is granted once a deletion has started. -/
def orderlyCheck (pool : IdentityPool) : Move Call → Bool
  | .start _ => true
  | .resume i => (pool.pending i).all fun (_, op) => listsCheck pool.store op &&
      (op.onAccess?.all fun op' => pool.store.access.leases.isEmpty &&
        (quietCheck op' || pool.threads.all (·.call.deletes.isNone)))

theorem orderly_of_check {pool : IdentityPool} {m : Move Call} (h : orderlyCheck pool m = true) :
    Orderly pool m := by
  rintro i t op rfl hpending
  rw [orderlyCheck, hpending, Option.all_some, Bool.and_eq_true] at h
  refine ⟨writesKnown_of_check h.1, fun op' hop' => ?_⟩
  have haccess := h.2
  rw [hop', Option.all_some, Bool.and_eq_true, List.isEmpty_iff] at haccess
  obtain ⟨hleases, hquiet⟩ := haccess
  constructor
  · intro u hu id hid
    have hop : quietCheck op' = true := by
      rcases Bool.or_eq_true_iff.mp hquiet with hop | hnone
      · exact hop
      · have hcall := List.all_eq_true.mp hnone u hu
        rw [hid] at hcall
        cases hcall
    simp only [quietCheck, Bool.and_eq_true, List.isEmpty_iff] at hop
    obtain ⟨⟨hinserts, hextends⟩, hissue⟩ := hop
    constructor
    · intro now listed later _
      rw [hinserts, hextends]
      exact ⟨by simp, by simp⟩
    · rintro issuance rfl
      cases hissue
  · intro id _ now _ l hl
    rw [hleases] at hl
    cases hl

def returned : Procedure Site SiteOperation Failure Unit → Bool
  | .done _ => true
  | _ => false

theorem eq_done_of_returned {p : Procedure Site SiteOperation Failure Unit}
    (h : returned p = true) : p = .done () := by
  cases p with
  | done a => rfl
  | fail e => exact absurd h Bool.false_ne_true
  | step op next => exact absurd h Bool.false_ne_true

def Call.recovers : Call → Option (Id × Id)
  | .recoverAgentIdentity identityId actorUserId => some (identityId, actorUserId)
  | _ => none

theorem Call.eq_of_recovers {call : Call} {id actorUserId : Id}
    (h : call.recovers = some (id, actorUserId)) : call = .recoverAgentIdentity id actorUserId := by
  unfold Call.recovers at h
  split at h
  · cases h
    rfl
  · cases h

/-- Two Agents are enrolled and one is granted a scope; the other is recovered, and the first is
deleted. -/
def grantThenDelete : List (Move Call) :=
  Move.alone 0 (.createIdentity ⟨"a", "iss", "sub", "u"⟩ "b" "p") 1 ++
    Move.alone 1 (.createIdentity ⟨"c", "iss", "sub2", "u"⟩ "d" "q") 1 ++
    Move.alone 2 (.access (.createAgentPermission "a" ⟨"https://notes", ["read"], .persistent⟩
      "u" none)) 12 ++
    Move.alone 3 (.recoverAgentIdentity "c" "u") 7 ++
    Move.alone 4 (.deleteAgentIdentity "a" "u") 9

set_option maxRecDepth 10000 in
theorem lifecycle_complete_sample : ∃ pool : IdentityPool,
    pool.store.access.entitlements ≠ [] ∧ pool.store.Gone "a" ∧
      ∃ before : Site, before.Recovered pool.store "c" := by
  have hrun : ((Pool.initial Sample.site).run Call.program orderlyCheck grantThenDelete).any
      (fun pool => !pool.store.access.entitlements.isEmpty &&
        pool.threads.any (fun t => t.call.deletes == some "a" && returned t.rest) &&
        pool.threads.any (fun t => t.call.recovers == some ("c", "u") && returned t.rest)) =
          true := by
    decide +kernel
  obtain ⟨pool, hpool, hcheck⟩ := (Option.any_eq_true _ _).mp hrun
  have hreach : IdentityReachable Orderly pool := Reachable.of_run (fun _ _ => orderly_of_check)
    (.initial Sample.site_fresh) hpool
  simp only [Bool.and_eq_true, List.any_eq_true, beq_iff_eq] at hcheck
  obtain ⟨⟨hgranted, t, ht, hdeletes, hdone⟩, u, hu, hrecovers, hudone⟩ := hcheck
  refine ⟨pool, by simpa using hgranted, ?_, ?_⟩
  · exact (lifecycle_complete hreach ht (eq_done_of_returned hdone)).1 "a" hdeletes
  · obtain ⟨d, _, _, hd⟩ := (lifecycle_complete hreach hu (eq_done_of_returned hudone)).2 "c" "u"
      (Call.eq_of_recovers hrecovers)
    exact ⟨d.before, hd⟩

/-- An enrollment that has read its identity, the deletion of the identity, and then the binding. -/
def enrollAcrossDeletion : List (Move Call) :=
  Move.alone 0 (.createIdentity ⟨"a", "iss", "sub", "u"⟩ "b" "p") 1 ++
    Move.alone 1 (.createAdditionalAgentEnrollmentIntent "a" "q" "u" "key") 7 ++
    Move.alone 2 (.approveAgentEnrollment "id-0" "iss" "u") 7 ++
    Move.alone 3 (.deleteAgentIdentity "a" "u") 7 ++ [.resume 2, .resume 2]

set_option maxRecDepth 10000 in
/-- An installation that is approved across the deletion of its identity is active on the deleted
identity, with every call at its end. -/
theorem binding_survives_deletion : ∃ pool : IdentityPool,
    IdentityReachable (fun _ _ => True) pool ∧
    (∃ t ∈ pool.threads, t.call.deletes = some "a" ∧ t.rest = .done ()) ∧
    (∀ t ∈ pool.threads, t.rest.result.isSome = true) ∧ ¬pool.store.Gone "a" := by
  have hrun : ((Pool.initial Sample.site).run Call.program (fun _ _ => true)
      enrollAcrossDeletion).any (fun pool =>
        pool.threads.any (fun t => t.call.deletes == some "a" && returned t.rest) &&
        pool.threads.all (·.rest.result.isSome) && pool.store.directory.bindings.any fun b =>
          b.agentIdentityId == "a" && b.status == .active) = true := by
    decide +kernel
  obtain ⟨pool, hpool, hcheck⟩ := (Option.any_eq_true _ _).mp hrun
  simp only [Bool.and_eq_true, List.any_eq_true, List.all_eq_true, beq_iff_eq] at hcheck
  obtain ⟨⟨⟨t, ht, hdeletes, hdone⟩, hfinished⟩, b, hb, hid, hactive⟩ := hcheck
  refine ⟨pool, Reachable.of_run (fun _ _ _ => trivial) (.initial Sample.site_fresh) hpool, ?_,
    hfinished, fun hgone => hgone.bindings b hb hid hactive⟩
  exact ⟨t, ht, hdeletes, eq_done_of_returned hdone⟩

end Samples

end FlareAuth.AgentIdentities
