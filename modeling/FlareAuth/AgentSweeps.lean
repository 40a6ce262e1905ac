import FlareAuth.Concurrent.Trace
import FlareAuth.GrantFrames

/-!
# Sweeps of an Agent's access

The revocation of all access of an Agent lists its active entitlements, revokes
the active leases of each of them and ends it. What it leaves behind is what
came after a listing or what no listing showed.
-/

namespace FlareAuth

open Concurrent Procedure Access Relational Repository Statement

section Sweeping

def RevokedLeases (log : AccessLog) (id : Id) (now : ℕ) : Prop :=
  ∃ f later earlier, log = later ++ f :: earlier ∧
    f.operation = .read (.tokenLeasesByEntitlement id now) ∧
    ∀ l ∈ f.before.listActiveTokenLeasesByEntitlement id now,
      ∃ g ∈ later, g.operation = .revokeTokenLease l.id now

structure SweptEntitlement (log : AccessLog) (e : ScopeEntitlement) (now : ℕ) : Prop where
  leases : RevokedLeases log e.id now
  ended : ∃ g ∈ log, g.operation = .endEntitlement e.id .revoked now

/-- The active entitlements of the Agent were listed, at a time that was read before, and each
of them was swept. -/
def SweptAgent (log : AccessLog) (id : Id) : Prop :=
  ∃ d later earlier now, log = later ++ d :: earlier ∧
    d.operation = .read (.entitlementsByAgent id now) ∧ (∃ c ∈ earlier, c.before.now = now) ∧
    ∀ e ∈ d.before.listActiveEntitlementsByAgent id now, SweptEntitlement later e now

theorem RevokedLeases.append {log : AccessLog} {id : Id} {now : ℕ} (h : RevokedLeases log id now)
    (new old : AccessLog) : RevokedLeases (new ++ (log ++ old)) id now := by
  obtain ⟨f, later, earlier, rfl, hop, hleases⟩ := h
  refine ⟨f, new ++ later, earlier ++ old, by simp, hop, fun l hl => ?_⟩
  obtain ⟨g, hg, hrevoked⟩ := hleases l hl
  exact ⟨g, List.mem_append_right _ hg, hrevoked⟩

theorem SweptEntitlement.append {log : AccessLog} {e : ScopeEntitlement} {now : ℕ}
    (h : SweptEntitlement log e now) (new old : AccessLog) :
    SweptEntitlement (new ++ (log ++ old)) e now := by
  obtain ⟨g, hg, hended⟩ := h.ended
  refine ⟨h.leases.append new old, g, ?_, hended⟩
  exact List.mem_append_right _ (List.mem_append_left _ hg)

theorem SweptAgent.append {log : AccessLog} {id : Id} (h : SweptAgent log id)
    (new old : AccessLog) : SweptAgent (new ++ (log ++ old)) id := by
  obtain ⟨d, later, earlier, now, rfl, hop, ⟨c, hc, hclock⟩, hswept⟩ := h
  refine ⟨d, new ++ later, earlier ++ old, now, by simp, hop,
    ⟨c, List.mem_append_left _ hc, hclock⟩, fun e he => ?_⟩
  have happend := (hswept e he).append new []
  rwa [List.append_nil] at happend

variable {α : Type}

/-- A committed operation is in the log. -/
theorem leaves_commit (op : Operation) (batch : StoreBatch α) :
    (commit op batch).Leaves fun _ log => ∃ g ∈ log, g.operation = op := by
  intro s
  refine (leaves_true _).mono fun a log _ => ⟨⟨op, s⟩, ?_, rfl⟩
  exact List.mem_append_right _ List.mem_cons_self

theorem leaves_revokeTokenLeaseAtTarget (l : TokenLease) (now : ℕ) :
    (revokeTokenLeaseAtTarget l now true).Leaves fun _ log =>
      ∃ g ∈ log, g.operation = .revokeTokenLease l.id now := by
  refine (leaves_true (revokeTokenAtTarget l)).bind fun _ first _ => ?_
  refine (leaves_commit (.revokeTokenLease l.id now) _).mono fun _ second h => ?_
  obtain ⟨g, hg, hop⟩ := h
  exact ⟨g, List.mem_append_left _ hg, hop⟩

theorem leaves_revokeEntitlementTokenLeases (e : ScopeEntitlement) (now : ℕ) :
    (revokeEntitlementTokenLeases e now).Leaves fun _ log => RevokedLeases log e.id now := by
  intro s
  have hloop : (forEach (s.listActiveTokenLeasesByEntitlement e.id now)
      (revokeTokenLeaseAtTarget · now true)).Leaves fun _ log =>
        ∀ l ∈ s.listActiveTokenLeasesByEntitlement e.id now,
          ∃ g ∈ log, g.operation = Operation.revokeTokenLease l.id now :=
    Leaves.forEach (fun l log later earlier ⟨g, hg, hop⟩ =>
      ⟨g, List.mem_append_right _ (List.mem_append_left _ hg), hop⟩)
      fun l _ => leaves_revokeTokenLeaseAtTarget l now
  exact hloop.mono fun _ log hrevoked => ⟨_, log, [], rfl, rfl, hrevoked⟩

/-- A revocation of all access that has returned has swept the Agent. -/
theorem leaves_revokeAgentResourceAccess (id : Id) :
    (revokeAgentResourceAccess id).Leaves fun _ log => SweptAgent log id := by
  intro s₀ s
  have hloop : (forEach (s.listActiveEntitlementsByAgent id s₀.now) fun e => do
      revokeEntitlementTokenLeases e s₀.now
      let _ ← Access.endEntitlement e.id .revoked s₀.now).Leaves fun _ log =>
        ∀ e ∈ s.listActiveEntitlementsByAgent id s₀.now, SweptEntitlement log e s₀.now := by
    refine Leaves.forEach (fun e log later earlier h => h.append later earlier) fun e _ => ?_
    refine (leaves_revokeEntitlementTokenLeases e s₀.now).bind fun _ first hfirst => ?_
    refine (leaves_commit (.endEntitlement e.id .revoked s₀.now) _).bind fun _ second hsecond => ?_
    obtain ⟨g, hg, hop⟩ := hsecond
    have hleases := hfirst.append second []
    rw [List.append_nil] at hleases
    exact ⟨hleases, g, List.mem_append_left _ hg, hop⟩
  refine hloop.mono fun _ log hswept => ?_
  exact ⟨⟨.read (.entitlementsByAgent id s₀.now), s⟩, log, [⟨.read .clock, s₀⟩], s₀.now,
    by simp, rfl, ⟨_, List.mem_cons_self, rfl⟩, hswept⟩

end Sweeping

section Tracking

variable {log : AccessLog} {id : Id} {now : ℕ} {listed : List ScopeEntitlement}
  {later : AccessLog} {s : Store} {op : Operation}

/-- The log shows a listing of the Agent's active entitlements, and what the call did after it. -/
def ListedAgent (log : AccessLog) (id : Id) (now : ℕ) (listed : List ScopeEntitlement)
    (later : AccessLog) : Prop :=
  ∃ d earlier, log = later ++ d :: earlier ∧ d.operation = .read (.entitlementsByAgent id now) ∧
    d.before.listActiveEntitlementsByAgent id now = listed

theorem ListedAgent.cons {e : Event Store Operation}
    (h : ListedAgent (e :: log) id now listed later) :
    (∃ later', later = e :: later' ∧ ListedAgent log id now listed later') ∨
      (later = [] ∧ e.operation = .read (.entitlementsByAgent id now) ∧
        e.before.listActiveEntitlementsByAgent id now = listed) := by
  obtain ⟨d, earlier, hlog, hop, hlisted⟩ := h
  cases later with
  | nil =>
    obtain ⟨rfl, _⟩ := List.cons.inj hlog
    exact .inr ⟨rfl, hop, hlisted⟩
  | cons f later =>
    obtain ⟨rfl, hrest⟩ := List.cons.inj hlog
    exact .inl ⟨later, rfl, d, earlier, hrest, hop, hlisted⟩

def Store.HoldsListed (s : Store) (id : Id) (log : AccessLog) : Prop :=
  ∀ now listed later, ListedAgent log id now listed later → ∀ e ∈ s.entitlements,
    e.agentIdentityId = some id → e.active now = true → ∃ e₀ ∈ listed, e₀.id = e.id

/-- Once the Agent's entitlements have been listed, the operation grants it nothing and extends
only what was listed. -/
def GrantsInTime (log : AccessLog) (id : Id) (s : Store) (op : Operation) : Prop :=
  ∀ now listed later, ListedAgent log id now listed later →
    (∀ e ∈ op.inserts, e.agentIdentityId ≠ some id) ∧
    ∀ e ∈ s.entitlements, e.agentIdentityId = some id → e.id ∈ op.extends →
      ∃ e₀ ∈ listed, e₀.id = e.id

theorem holdsListed_perform (h : s.HoldsListed id log) (hop : GrantsInTime log id s op) :
    (op.perform s).HoldsListed id log := by
  intro now listed later hlisted e he hagent hactive
  obtain ⟨hinserts, hextends⟩ := hop now listed later hlisted
  obtain ⟨e₀, he₀, hid, hagent₀, hmem | hfades⟩ := fadesFor_perform hinserts e he hagent
  · obtain ⟨e₁, he₁, hid₁⟩ := hextends e₀ he₀ hagent₀ (hid ▸ hmem)
    exact ⟨e₁, he₁, hid₁.trans hid⟩
  · obtain ⟨e₁, he₁, hid₁⟩ := h now listed later hlisted e₀ he₀ hagent₀ (hfades.active hactive)
    exact ⟨e₁, he₁, hid₁.trans hid⟩

theorem holdsListed_cons (h : s.HoldsListed id log) (hop : GrantsInTime log id s op) :
    (op.perform s).HoldsListed id (⟨op, s⟩ :: log) := by
  intro now listed later hlisted e he hagent hactive
  rcases hlisted.cons with ⟨later', rfl, hold⟩ | ⟨rfl, hread, rfl⟩
  · exact holdsListed_perform h hop now listed later' hold e he hagent hactive
  · obtain rfl : op = .read (.entitlementsByAgent id now) := hread
    refine ⟨e, mem_byCreation.mpr (List.mem_filter.mpr ⟨he, ?_⟩), rfl⟩
    simp [hagent, hactive]

def Store.LeaseOf (s : Store) (id : Id) (l : TokenLease) : Prop :=
  ∃ r ∈ s.requests, r.id = l.requestId ∧ r.agentIdentityId = id

/-- An active lease of the Agent references a listed entitlement, and every later listing of
that entitlement's leases found it. -/
def Store.HoldsSeen (s : Store) (id : Id) (log : AccessLog) : Prop :=
  ∀ now listed later, ListedAgent log id now listed later → ∀ l ∈ s.leases, s.LeaseOf id l →
    l.active s.now = true → ∃ e ∈ listed, e.id ∈ l.entitlementIds ∧ ∀ f ∈ later, ∀ t,
      f.operation = .read (.tokenLeasesByEntitlement e.id t) → ∃ l₀ ∈ f.before.leases, l₀.id = l.id

/-- An issuance for the Agent, after its entitlements have been listed, references a listed one
whose leases have not been listed. -/
def IssuesInTime (log : AccessLog) (id : Id) (s : Store) (op : Operation) : Prop :=
  ∀ i, op = .issueTokenLease i → s.Admits i → s.LeaseOf id i.lease →
    ∀ now listed later, ListedAgent log id now listed later →
      ∃ e ∈ listed, e.id ∈ i.lease.entitlementIds ∧ ∀ f ∈ later, ∀ t,
        f.operation ≠ .read (.tokenLeasesByEntitlement e.id t)

/-- At a listing of the Agent, each of its active leases references an entitlement listed. -/
def ListsAll (id : Id) (s : Store) (op : Operation) : Prop :=
  ∀ now, op = .read (.entitlementsByAgent id now) → ∀ l ∈ s.leases, s.LeaseOf id l →
    l.active s.now = true → ∃ e ∈ s.listActiveEntitlementsByAgent id now, e.id ∈ l.entitlementIds

/-- A lease was the Agent's as long as its request is there. -/
theorem Store.LeaseOf.before {t : Store} (h : s.Persists t) (hvalid : t.Valid)
    {l l' : TokenLease} (hid : l'.requestId = l.requestId)
    (hrequested : ∃ r ∈ s.requests, r.id = l.requestId) (hl : t.LeaseOf id l') :
    s.LeaseOf id l := by
  obtain ⟨r, hr, hrid⟩ := hrequested
  obtain ⟨r', hr', hrid', hagent⟩ := hl
  have hpersists : r.Persists r' := h.requests.of_mem_of_key_eq (fun _ _ hp => hp.id)
    hvalid.requests hr hr' (hrid'.trans (hid.trans hrid.symm))
  exact ⟨r, hr, hrid, hpersists.agentIdentityId ▸ hagent⟩

theorem TokenLease.Persists.active {l l' : TokenLease} (h : l.Persists l') {t t' : ℕ}
    (ht : t ≤ t') (hactive : l'.active t' = true) : l.active t = true := by
  simp only [TokenLease.active, Bool.and_eq_true, decide_eq_true_eq, h.expiresAt,
    Option.isNone_iff_eq_none] at hactive ⊢
  refine ⟨by omega, ?_⟩
  cases hr : l.revokedAt with
  | none => rfl
  | some x =>
    have hlater := h.revoked (by rw [hr]; rfl)
    rw [hactive.2] at hlater
    cases hlater

theorem holdsSeen_perform (hvalid : s.Valid) (hrequested : s.LeasesRequested)
    (h : s.HoldsSeen id log) (hop : IssuesInTime log id s op) :
    (op.perform s).HoldsSeen id log := by
  intro now listed later hlisted l hl hof hactive
  have hprecedes := precedes_perform op s
  rcases mem_leases_perform hl with ⟨l₀, hl₀, hpersists⟩ | ⟨i, rfl, hadmits, rfl⟩
  · have hof₀ : s.LeaseOf id l₀ := hof.before hprecedes.persists (hprecedes.valid hvalid)
      hpersists.requestId (hrequested l₀ hl₀)
    obtain ⟨e, he, hmem, hseen⟩ := h now listed later hlisted l₀ hl₀ hof₀
      (hpersists.active hprecedes.persists.now hactive)
    refine ⟨e, he, hpersists.entitlementIds ▸ hmem, fun f hf t hread => ?_⟩
    obtain ⟨l₁, hl₁, hid⟩ := hseen f hf t hread
    exact ⟨l₁, hl₁, hid.trans hpersists.id.symm⟩
  · obtain ⟨r, hr, _⟩ := (Option.any_eq_true _ _).mp hadmits.1
    have hof₀ : s.LeaseOf id i.lease := hof.before hprecedes.persists (hprecedes.valid hvalid) rfl
      ⟨r, mem_of_lookup hr, key_of_lookup hr⟩
    obtain ⟨e, he, hmem, hunseen⟩ := hop i rfl hadmits hof₀ now listed later hlisted
    exact ⟨e, he, hmem, fun f hf t hread => absurd hread (hunseen f hf t)⟩

theorem holdsSeen_cons (hvalid : s.Valid) (hrequested : s.LeasesRequested)
    (h : s.HoldsSeen id log) (hop : IssuesInTime log id s op) (hlists : ListsAll id s op) :
    (op.perform s).HoldsSeen id (⟨op, s⟩ :: log) := by
  intro now listed later hlisted l hl hof hactive
  rcases hlisted.cons with ⟨later', rfl, hold⟩ | ⟨rfl, hread, rfl⟩
  · obtain ⟨e, he, hmem, hseen⟩ :=
      holdsSeen_perform hvalid hrequested h hop now listed later' hold l hl hof hactive
    refine ⟨e, he, hmem, fun f hf t hread => ?_⟩
    rcases List.mem_cons.mp hf with rfl | hf
    · obtain rfl : op = .read (.tokenLeasesByEntitlement e.id t) := hread
      exact ⟨l, hl, rfl⟩
    · exact hseen f hf t hread
  · obtain rfl : op = .read (.entitlementsByAgent id now) := hread
    obtain ⟨e, he, hmem⟩ := hlists now rfl l hl hof hactive
    exact ⟨e, he, hmem, fun f hf => nomatch hf⟩

end Tracking

section Completeness

variable {log : AccessLog} {id : Id} {s : Store}

/-- The stores of a log come one after the other, and then the given one. -/
structure InOrder (log : AccessLog) (s : Store) : Prop where
  between : log.Pairwise fun e d => (d.operation.perform d.before).Persists e.before
  after : ∀ e ∈ log, (e.operation.perform e.before).Persists s

theorem InOrder.of_append {new old : AccessLog} (h : InOrder (new ++ old) s) : InOrder new s :=
  ⟨(List.pairwise_append.mp h.between).1, fun e he => h.after e (List.mem_append_left _ he)⟩

theorem InOrder.before (h : InOrder log s) {e : Event Store Operation} (he : e ∈ log) :
    e.before.Persists s := (precedes_perform e.operation e.before).persists.trans (h.after e he)

theorem InOrder.later {d e : Event Store Operation} {new old : AccessLog}
    (h : InOrder (new ++ d :: old) s) (he : e ∈ new) : d.before.Persists e.before :=
  (precedes_perform d.operation d.before).persists.trans
    ((List.pairwise_append.mp h.between).2.2 e he d List.mem_cons_self)

/-- A revoked lease stays revoked, whoever revokes it and whatever follows. -/
theorem revoked_of_event {g : Event Store Operation} {l₀ l : TokenLease} {now : ℕ}
    (hvalid : s.Valid) (hop : g.operation = .revokeTokenLease l₀.id now)
    (hrow : ∃ l₁ ∈ g.before.leases, l₀.Persists l₁) (hunexpired : now < l₀.expiresAt)
    (hafter : (g.operation.perform g.before).Persists s) (hl : l ∈ s.leases) (hid : l.id = l₀.id) :
    l.revokedAt.isSome = true := by
  obtain ⟨l₁, hl₁, hpersists⟩ := hrow
  have hselected : (l₁.id == l₀.id && decide (now < l₁.expiresAt)) = true := by
    rw [Bool.and_eq_true, beq_iff_eq, decide_eq_true_eq, hpersists.expiresAt]
    exact ⟨hpersists.id, hunexpired⟩
  have hmem : { l₁ with revokedAt := some now } ∈ (g.operation.perform g.before).leases := by
    rw [hop]
    refine mem_updateWhere.mpr ⟨l₁, hl₁, ?_⟩
    rw [if_pos hselected]
  have hlast := hafter.leases.of_mem_of_key_eq (fun _ _ hp => hp.id) hvalid.leases hmem hl
    (hid.trans hpersists.id.symm)
  exact hlast.revoked rfl

/-- An Agent that was swept holds no active entitlement, if its active ones were listed. -/
theorem SweptAgent.no_entitlement (h : SweptAgent log id) (horder : InOrder log s)
    (hvalid : s.Valid) (hlisted : s.HoldsListed id log) {e : ScopeEntitlement}
    (he : e ∈ s.entitlements) (hagent : e.agentIdentityId = some id) :
    e.active s.now = false := by
  obtain ⟨d, later, earlier, now, rfl, hread, ⟨c, hc, hclock⟩, hswept⟩ := h
  by_contra hactive
  rw [Bool.not_eq_false] at hactive
  have hnow : now ≤ s.now := by
    rw [← hclock]
    exact (horder.before (List.mem_append_right _ (List.mem_cons_of_mem _ hc))).now
  have hactiveThen : e.active now = true := by
    simp only [ScopeEntitlement.active, ScopeEntitlement.unexpired, Bool.and_eq_true] at hactive ⊢
    refine ⟨hactive.1, ?_⟩
    cases hexpiry : e.expiresAt with
    | none => rfl
    | some t =>
      rw [hexpiry] at hactive
      simp only [Option.elim_some, decide_eq_true_eq] at hactive ⊢
      omega
  obtain ⟨e₀, he₀, hid⟩ := hlisted now _ later ⟨d, earlier, rfl, hread, rfl⟩ e he hagent hactiveThen
  obtain ⟨g, hg, hop⟩ := (hswept e₀ he₀).ended
  -- the listed row is there when it is ended
  obtain ⟨hrow, _⟩ := List.mem_filter.mp (mem_byCreation.mp he₀)
  obtain ⟨e₁, hfound⟩ : ∃ e₁, lookup ScopeEntitlement.id e₀.id d.before.entitlements = some e₁ :=
    lookup_isSome_of_mem hrow
  obtain ⟨e₂, he₂, _⟩ := (horder.later hg).entitlements.lookup (fun _ _ hp => hp.id) hfound
  have hended : (g.operation.perform g.before).HasEnded e₀.id := by
    rw [hop]
    exact hasEnded_of_finish rfl ⟨e₂, he₂⟩
  have hafter := horder.after g (List.mem_append_left _ hg)
  obtain ⟨e₃, he₃, hsome⟩ := hasEnded_of_persists hafter hended
  obtain rfl : e₃ = e := eq_of_key_eq hvalid.entitlements.1 (mem_of_lookup he₃) he
    ((key_of_lookup he₃).trans hid)
  simp only [ScopeEntitlement.active, Bool.and_eq_true, Option.isNone_iff_eq_none] at hactive
  rw [hactive.1] at hsome
  cases hsome

/-- An Agent that was swept holds no active lease, if its active leases were seen. -/
theorem SweptAgent.no_lease (h : SweptAgent log id) (horder : InOrder log s)
    (hvalid : s.Valid) (hseen : s.HoldsSeen id log) {l : TokenLease} (hl : l ∈ s.leases)
    (hof : s.LeaseOf id l) : l.active s.now = false := by
  obtain ⟨d, later, earlier, now, rfl, hread, ⟨c, hc, hclock⟩, hswept⟩ := h
  by_contra hactive
  rw [Bool.not_eq_false] at hactive
  have hnow : now ≤ s.now := by
    rw [← hclock]
    exact (horder.before (List.mem_append_right _ (List.mem_cons_of_mem _ hc))).now
  obtain ⟨e, he, hmem, hfound⟩ := hseen now _ later ⟨d, earlier, rfl, hread, rfl⟩ l hl hof hactive
  obtain ⟨f, later₂, later₁, rfl, hlist, hrevoked⟩ := (hswept e he).leases
  have hlater : InOrder (later₂ ++ f :: later₁) s := horder.of_append
  obtain ⟨l₀, hl₀, hid⟩ := hfound f (List.mem_append_right _ List.mem_cons_self) now hlist
  have hf : f ∈ later₂ ++ f :: later₁ := List.mem_append_right _ List.mem_cons_self
  have hpersists : l₀.Persists l := (hlater.before hf).leases.of_mem_of_key_eq
    (fun _ _ hp => hp.id) hvalid.leases hl₀ hl hid.symm
  have hactiveThen : l₀.active now = true := hpersists.active hnow hactive
  obtain ⟨g, hg, hop⟩ := hrevoked l₀ (by
    refine List.mem_filter.mpr ⟨hl₀, ?_⟩
    rw [decide_eq_true_eq, ← hpersists.entitlementIds]
    exact ⟨hmem, hactiveThen⟩)
  have hunexpired : now < l₀.expiresAt := by
    rw [TokenLease.active, Bool.and_eq_true, decide_eq_true_eq] at hactiveThen
    exact hactiveThen.1
  have hrow := (hlater.later hg).leases.exists_of_mem hl₀
  have hsome := revoked_of_event hvalid hop hrow hunexpired
    (hlater.after g (List.mem_append_left _ hg)) hl hid.symm
  rw [TokenLease.active, Bool.and_eq_true, Option.isNone_iff_eq_none] at hactive
  rw [hactive.2] at hsome
  cases hsome

end Completeness

end FlareAuth
