import FlareAuth.AccessRuns
import FlareAuth.DeletedIdentities

/-!
# The revocation of one host

An identity may be bound to a protocol agent on each of several hosts. The statements that
revoke a host are those of a recovery: they revoke the protocol agents that are listed, and the
bindings of the identity.
-/

namespace FlareAuth.AgentIdentities

open Concurrent Procedure Relational

section Hosts

inductive HostOperation where
  | site (op : SiteOperation)
  | revokeProtocolAgents (identityId : Id) (protocolAgentIds : List Id) (now : ℕ)

def HostOperation.perform : HostOperation → Site → Site
  | .site op, s => op.perform s
  | .revokeProtocolAgents identityId ids now, s =>
    (Repository.revokeProtocolAgents identityId ids now).settle s

instance : Operational HostOperation Site := ⟨HostOperation.perform⟩

abbrev Hosts := Procedure Site HostOperation Failure

def onSite {α : Type} (p : Identities α) : Hosts α := p.lift id .site

def Site.findHostBinding (s : Site) (identityId protocolAgentId : Id) : Option AgentBinding :=
  s.directory.bindings.find? fun b =>
    b.agentIdentityId = identityId ∧ b.protocolAgentId = protocolAgentId ∧ b.status = .active

def revokeBinding (identityId protocolAgentId : Id) (now : ℕ) : Hosts Bool := do
  let binding ← onSite (ask (·.findHostBinding identityId protocolAgentId))
  if binding.isNone then return false
  else
    query (.revokeProtocolAgents identityId [protocolAgentId] now) fun _ => ()
    return true

def revokeAgentIdentityHost [Locale] (identityId protocolAgentId actorUserId : Id) :
    Hosts Unit := do
  let _ ← onSite (requireControlledIdentity identityId actorUserId)
  let bindings ← onSite (ask (·.directory.bindingsOf identityId))
  let now ← onSite (onAccess Access.clock)
  let revoked ← revokeBinding identityId protocolAgentId now
  require (revoked = true) (notFound "Active Agent host binding was not found.")
  match bindings.find? fun b => b.protocolAgentId = protocolAgentId with
  | some binding => onSite (onAccess (revokeAgentResourceLeasesForBinding binding.id))
  | none => return ()

/-- The session of a protocol agent on its host, which an active binding lets in. -/
def Site.authenticateAgent (s : Site) (protocolAgentId hostId : Id) :
    Option (AgentIdentity × AgentBinding) :=
  if (s.findProtocolAgent protocolAgentId).any fun a => a.status = .active then
    (s.directory.findActiveBinding protocolAgentId).filter fun p => p.2.hostId = hostId
  else none

def ofHost (identityId protocolAgentId : Id) (b : AgentBinding) : Bool :=
  b.agentIdentityId == identityId && b.protocolAgentId == protocolAgentId

/-- The lease was issued under a binding of the host. -/
def Site.leasedBy (s : Site) (identityId protocolAgentId : Id) (l : TokenLease) : Bool :=
  s.directory.bindings.any fun b => ofHost identityId protocolAgentId b && b.id == l.bindingId

/-- Between two sites nothing happens but to one host of an identity: its binding, its protocol
agent and its tokens. -/
structure OnlyHost (identityId protocolAgentId : Id) (s t : Site) : Prop where
  identities : t.directory.identities = s.directory.identities
  bindings : (t.directory.bindings.filter fun b => !ofHost identityId protocolAgentId b) =
    s.directory.bindings.filter fun b => !ofHost identityId protocolAgentId b
  agents : ∀ id, id ≠ protocolAgentId → t.findProtocolAgent id = s.findProtocolAgent id
  capabilityGrants : (t.capabilityGrants.rows.filter (·.agentId != protocolAgentId)) =
    s.capabilityGrants.rows.filter (·.agentId != protocolAgentId)
  approvalRequests : (t.approvalRequests.rows.filter (·.agentId != some protocolAgentId)) =
    s.approvalRequests.rows.filter (·.agentId != some protocolAgentId)
  intents : t.intents = s.intents
  leases : (t.access.leases.filter fun l => !s.leasedBy identityId protocolAgentId l) =
    s.access.leases.filter fun l => !s.leasedBy identityId protocolAgentId l
  entitlements : t.access.entitlements = s.access.entitlements
  requests : t.access.requests = s.access.requests
  others : ∀ b ∈ s.directory.bindings, b.agentIdentityId = identityId →
    b.protocolAgentId ≠ protocolAgentId → b.status = .active →
      ∃ b' ∈ t.directory.bindings, b'.id = b.id ∧ b'.status = .active
  authenticates : ∀ id hostId, id ≠ protocolAgentId →
    t.authenticateAgent id hostId = s.authenticateAgent id hostId

end Hosts

section Frames

variable {s t u : Site} {identityId protocolAgentId actorUserId : Id} {ids : List Id} {now : ℕ}

/-- The bindings of a host do not show at the other protocol agents. -/
theorem findActiveBinding_of_filter {d d' : Directory} {id : Id} (hid : id ≠ protocolAgentId)
    (hidentities : d'.identities = d.identities)
    (hbindings : (d'.bindings.filter fun b => !ofHost identityId protocolAgentId b) =
      d.bindings.filter fun b => !ofHost identityId protocolAgentId b) :
    d'.findActiveBinding id = d.findActiveBinding id := by
  have hfilter (e : Directory) : e.findActiveBinding id =
      { e with bindings := e.bindings.filter fun b => !ofHost identityId protocolAgentId b
        : Directory }.findActiveBinding id := by
    unfold Directory.findActiveBinding
    rw [List.filterMap_filter]
    refine congrArg List.head? (List.filterMap_congr fun b _ => ?_)
    by_cases hb : b.protocolAgentId = id ∧ b.status = .active
    · have hother : ofHost identityId protocolAgentId b = false := by
        unfold ofHost
        rw [hb.1, beq_false_of_ne hid, Bool.and_false]
      rw [if_pos hb, hother]
      rfl
    · rw [if_neg hb, ite_self]
  rw [hfilter d, hfilter d', hbindings]
  unfold Directory.findActiveBinding
  rw [hidentities]

/-- Some leases are revoked, and nothing else is written. -/
def Site.Releases (ids : List Id) (s t : Site) : Prop :=
  ∃ (generated : ℕ) (f : TokenLease → TokenLease),
    (∀ l, (f l).id = l.id ∧ (f l).bindingId = l.bindingId ∧ (l.id ∉ ids → f l = l)) ∧
      t = { s with access := { s.access with
        generated := generated, leases := s.access.leases.map f } }

theorem Site.Releases.refl (s : Site) : s.Releases ids s := by
  refine ⟨s.access.generated, id, fun l => ⟨rfl, rfl, fun _ => rfl⟩, ?_⟩
  rw [List.map_id]

theorem Site.Releases.trans (h : s.Releases ids t) (h' : t.Releases ids u) : s.Releases ids u := by
  obtain ⟨n, f, hf, rfl⟩ := h
  obtain ⟨n', f', hf', rfl⟩ := h'
  refine ⟨n', f' ∘ f, fun l => ?_, ?_⟩
  · obtain ⟨hid, hbinding, hfixed⟩ := hf l
    obtain ⟨hid', hbinding', hfixed'⟩ := hf' (f l)
    refine ⟨hid'.trans hid, hbinding'.trans hbinding, fun hl => ?_⟩
    rw [Function.comp_apply, hfixed' (hid ▸ hl), hfixed hl]
  · rw [List.map_map]

def releasing (ids : List Id) (op : Operation) : Prop :=
  op.IsRead ∨ ∃ id ∈ ids, ∃ now, op = .revokeTokenLease id now

theorem releases_perform {op : Operation} (h : releasing ids op) (s : Site) :
    s.Releases ids ((SiteOperation.access op).perform s) := by
  rcases h with hread | ⟨id, hid, now, rfl⟩
  · have hkeeps : op.keepsIdentities = true := by
      cases op with
      | read query => rfl
      | generateId => rfl
      | _ => exact hread.elim
    obtain ⟨generated, -, haccess⟩ := apply_isRead hread s.access
    refine ⟨generated, id, fun l => ⟨rfl, rfl, fun _ => rfl⟩, ?_⟩
    rw [SiteOperation.perform, if_pos hkeeps, List.map_id]
    exact congrArg (fun access => { s with access := access }) haccess
  · refine ⟨s.access.generated, fun l =>
      if l.id == id && decide (now < l.expiresAt) then { l with revokedAt := some now } else l,
      fun l => ⟨?_, ?_, fun hl => if_neg ?_⟩, rfl⟩
    · dsimp only
      split <;> rfl
    · dsimp only
      split <;> rfl
    · have hne : l.id ≠ id := fun heq => hl (heq ▸ hid)
      simp [hne]

/-- The revocation of a list of leases, wherever it stops. -/
theorem releases_forEach [Locale] (leases : List TokenLease) (now : ℕ) (s : Site) :
    s.Releases (leases.map (·.id)) ((onSite (onAccess
      (forEach leases fun l => revokeTokenLeaseAtTarget l now true))).exec s).2 := by
  have honly : (forEach leases fun l => revokeTokenLeaseAtTarget l now true).Only
      (releasing (leases.map (·.id))) := by
    refine only_forEach_of_mem fun l hl => only_bind.mpr ⟨?_, fun _ _ => ?_⟩
    · exact (reads_revokeTokenAtTarget l).mono fun _ => .inl
    · exact ⟨.inr ⟨l.id, List.mem_map_of_mem hl, now, rfl⟩, fun _ => only_ofExcept _⟩
  have hlifted : (onSite (onAccess (forEach leases fun l =>
      revokeTokenLeaseAtTarget l now true))).Only fun op =>
        ∃ op', op = .site (.access op') ∧ releasing (leases.map (·.id)) op' :=
    only_lift (only_lift (honly.mono fun op hop => ⟨op, rfl, hop⟩))
  refine hlifted.relates Site.Releases.refl (fun _ _ _ => .trans) ?_ s
  rintro _ ⟨op, rfl, hop⟩ t
  exact releases_perform hop t

/-- A host can be revoked: the actor controls the identity, and the host has an active binding. -/
def Site.Revocable (s : Site) (identityId protocolAgentId actorUserId : Id) : Prop :=
  ((s.directory.findIdentity identityId).any fun i => i.ownerUserId = actorUserId) = true ∧
    (s.findHostBinding identityId protocolAgentId).isSome = true

theorem exec_onSite {α : Type} (p : Identities α) (s : Site) : (onSite p).exec s = p.exec s := by
  unfold onSite
  induction p generalizing s with
  | done a => rfl
  | fail e => rfl
  | step op next ih => exact ih s (op.perform s)

theorem exec_requireControlledIdentity (identityId actorUserId : Id) (s : Site) :
    (∃ i, (requireControlledIdentity identityId actorUserId).exec s = (.ok i, s) ∧
      ((s.directory.findIdentity identityId).any fun i => i.ownerUserId = actorUserId) = true) ∨
    ∃ e, (requireControlledIdentity identityId actorUserId).exec s = (.error e, s) ∧
      ((s.directory.findIdentity identityId).any fun i => i.ownerUserId = actorUserId) = false := by
  have hfound : (requireControlledIdentity identityId actorUserId).exec s =
      (orThrow (s.directory.findIdentity identityId) (notFound "Agent identity was not found.") >>=
        fun i => assertController i.ownerUserId actorUserId >>= fun _ => pure i :
          Identities AgentIdentity).exec s := rfl
  rw [hfound]
  cases s.directory.findIdentity identityId with
  | none => exact .inr ⟨_, rfl, rfl⟩
  | some i =>
    rw [orThrow_some, exec_bind_ok _ (exec_done i s), assertController]
    by_cases howner : i.ownerUserId = actorUserId
    · rw [require_pos howner]
      exact .inl ⟨i, rfl, by simpa using howner⟩
    · rw [require_neg howner]
      exact .inr ⟨_, rfl, by simpa using howner⟩

theorem exec_revokeBinding (now : ℕ) (s : Site) :
    (revokeBinding identityId protocolAgentId now).exec s =
      if (s.findHostBinding identityId protocolAgentId).isNone then (.ok false, s)
      else (.ok true, s.revokedAgents identityId [protocolAgentId] now) := by
  have hread : (revokeBinding identityId protocolAgentId now).exec s =
      (if (s.findHostBinding identityId protocolAgentId).isNone then pure false
        else query (.revokeProtocolAgents identityId [protocolAgentId] now) (fun _ => ()) >>=
          fun _ => pure true : Hosts Bool).exec s := rfl
  rw [hread]
  split <;> rfl

/-- The end of a revocation, from what its statements answer. -/
def revokeLeases [Locale] (protocolAgentId : Id) (bindings : List AgentBinding) (revoked : Bool) :
    Hosts Unit := do
  require (revoked = true) (notFound "Active Agent host binding was not found.")
  match bindings.find? fun b => b.protocolAgentId = protocolAgentId with
  | some binding => onSite (onAccess (revokeAgentResourceLeasesForBinding binding.id))
  | none => return ()

theorem revokeAgentIdentityHost_eq [Locale] (identityId protocolAgentId actorUserId : Id) :
    revokeAgentIdentityHost identityId protocolAgentId actorUserId =
      onSite (requireControlledIdentity identityId actorUserId) >>= fun _ =>
        onSite (ask (·.directory.bindingsOf identityId)) >>= fun bindings =>
          onSite (onAccess Access.clock) >>= fun now =>
            revokeBinding identityId protocolAgentId now >>= fun revoked =>
              revokeLeases protocolAgentId bindings revoked := rfl

/-- A controlled identity: the call is its two statements, one after the other. -/
theorem exec_revokeAgentIdentityHost [Locale] {i : AgentIdentity}
    (h : (requireControlledIdentity identityId actorUserId).exec s = (.ok i, s)) :
    (revokeAgentIdentityHost identityId protocolAgentId actorUserId).exec s =
      (revokeBinding identityId protocolAgentId s.access.now >>= fun revoked =>
        revokeLeases protocolAgentId (s.directory.bindingsOf identityId) revoked).exec s := by
  rw [revokeAgentIdentityHost_eq, exec_bind_ok _ ((exec_onSite _ s).trans h)]
  rfl

/-- A host that cannot be revoked is not touched. -/
theorem exec_of_not_revocable [Locale]
    (h : ¬s.Revocable identityId protocolAgentId actorUserId) :
    ((revokeAgentIdentityHost identityId protocolAgentId actorUserId).exec s).2 = s := by
  rcases exec_requireControlledIdentity identityId actorUserId s with
    ⟨i, hi, hcontrolled⟩ | ⟨e, he, -⟩
  · have hbinding : (s.findHostBinding identityId protocolAgentId).isNone = true := by
      cases hfound : s.findHostBinding identityId protocolAgentId with
      | none => rfl
      | some b => exact absurd ⟨hcontrolled, by rw [hfound]; rfl⟩ h
    rw [exec_revokeAgentIdentityHost hi,
      exec_bind_ok _ ((exec_revokeBinding _ s).trans (if_pos hbinding))]
    rfl
  · rw [revokeAgentIdentityHost_eq, exec_bind_error _ ((exec_onSite _ s).trans he)]

/-- A host that can be revoked loses the leases of its binding after the statements. -/
theorem exec_of_revocable [Locale] (h : s.Revocable identityId protocolAgentId actorUserId) :
    ∃ ids, (∀ id ∈ ids, ∃ l ∈ s.access.leases, l.id = id ∧
        s.leasedBy identityId protocolAgentId l = true) ∧
      (s.revokedAgents identityId [protocolAgentId] s.access.now).Releases ids
        ((revokeAgentIdentityHost identityId protocolAgentId actorUserId).exec s).2 := by
  obtain ⟨hcontrolled, hbinding⟩ := h
  rcases exec_requireControlledIdentity identityId actorUserId s with ⟨i, hi, -⟩ | ⟨e, -, hnot⟩
  · have hsome : ¬(s.findHostBinding identityId protocolAgentId).isNone = true := by
      cases hfound : s.findHostBinding identityId protocolAgentId with
      | none => rw [hfound] at hbinding; cases hbinding
      | some b => exact Bool.false_ne_true
    rw [exec_revokeAgentIdentityHost hi,
      exec_bind_ok _ ((exec_revokeBinding _ s).trans (if_neg hsome))]
    unfold revokeLeases
    rw [require_pos rfl]
    cases hfound : (s.directory.bindingsOf identityId).find?
        (fun b => b.protocolAgentId = protocolAgentId) with
    | none => exact ⟨[], fun _ h => absurd h List.not_mem_nil, .refl _⟩
    | some b =>
      refine ⟨_, ?_, releases_forEach (s.access.listActiveTokenLeasesByBinding b.id s.access.now)
        s.access.now _⟩
      intro id hid
      obtain ⟨l, hl, rfl⟩ := List.mem_map.mp hid
      obtain ⟨hlease, hlisted⟩ := List.mem_filter.mp hl
      rw [decide_eq_true_eq] at hlisted
      obtain ⟨hb, hidentity⟩ := List.mem_filter.mp (List.mem_of_find?_eq_some hfound)
      have hagent := List.find?_some hfound
      refine ⟨l, hlease, rfl, List.any_eq_true.mpr ⟨b, hb, ?_⟩⟩
      rw [decide_eq_true_eq] at hidentity hagent
      unfold ofHost
      simp [hidentity, hagent, hlisted.1]
  · rw [hcontrolled] at hnot
    cases hnot

/-- No other host has an active binding of the identity. -/
def Site.Lone (s : Site) (identityId protocolAgentId : Id) : Prop :=
  ∀ b ∈ s.directory.bindings, b.agentIdentityId = identityId → b.status = .active →
    b.protocolAgentId = protocolAgentId

theorem OnlyHost.refl (s : Site) : OnlyHost identityId protocolAgentId s s :=
  ⟨rfl, rfl, fun _ _ => rfl, rfl, rfl, rfl, rfl, rfl, rfl, fun b hb _ _ h => ⟨b, hb, rfl, h⟩,
    fun _ _ _ => rfl⟩

/-- What is left of a binding that a filter keeps: it is a row of both tables. -/
theorem mem_of_filter_bindings {b : AgentBinding} (hb : b ∈ s.directory.bindings)
    (hother : b.protocolAgentId ≠ protocolAgentId)
    (hbindings : (t.directory.bindings.filter fun b => !ofHost identityId protocolAgentId b) =
      s.directory.bindings.filter fun b => !ofHost identityId protocolAgentId b) :
    b ∈ t.directory.bindings := by
  have hkept : b ∈ s.directory.bindings.filter fun b => !ofHost identityId protocolAgentId b := by
    refine List.mem_filter.mpr ⟨hb, ?_⟩
    unfold ofHost
    rw [beq_false_of_ne hother, Bool.and_false, Bool.not_false]
  rw [← hbindings] at hkept
  exact (List.mem_filter.mp hkept).1

/-- The statements touch one host only if it is the only one. -/
theorem onlyHost_of_lone (hleases : (s.access.leases.map (·.id)).Nodup)
    (hlone : s.Lone identityId protocolAgentId)
    (hids : ∀ id ∈ ids, ∃ l ∈ s.access.leases, l.id = id ∧
      s.leasedBy identityId protocolAgentId l = true)
    (h : (s.revokedAgents identityId [protocolAgentId] now).Releases ids t) :
    OnlyHost identityId protocolAgentId s t := by
  obtain ⟨generated, f, hf, rfl⟩ := h
  have hbindings : ((s.revokedAgents identityId [protocolAgentId] now).directory.bindings.filter
      fun b => !ofHost identityId protocolAgentId b) =
        s.directory.bindings.filter fun b => !ofHost identityId protocolAgentId b := by
    refine filter_updateWhere fun b hb hp => ?_
    rw [Bool.and_eq_true, beq_iff_eq, beq_iff_eq] at hp
    unfold ofHost
    simp [hp.1, hlone b hb hp.1 hp.2]
  have hagents (id : Id) (hid : id ≠ protocolAgentId) :
      (s.revokedAgents identityId [protocolAgentId] now).findProtocolAgent id =
        s.findProtocolAgent id := by
    unfold Site.findProtocolAgent
    rw [Site.revokedAgents_find]
    cases hfound : s.agents.find id with
    | none => rfl
    | some a =>
      have hkey : a.id = id := (Keyed.find_eq_some.mp hfound).2
      rw [Option.map_some, if_neg (by simpa [hkey] using hid)]
  constructor
  · rfl
  · exact hbindings
  · exact hagents
  · refine filter_updateWhere fun g _ hp => ?_
    have hagent : g.agentId = protocolAgentId := by simpa using hp
    simp [hagent]
  · refine filter_updateWhere fun r _ hp => ?_
    have hagent : r.agentId = some protocolAgentId := by
      cases hr : r.agentId with
      | none => simp [hr] at hp
      | some id => simpa [hr] using hp
    simp [hagent]
  · rfl
  · refine filter_map_of_fixed fun l hl => ⟨?_, fun hother => (hf l).2.2 fun hid => ?_⟩
    · unfold Site.leasedBy
      rw [(hf l).2.1]
    · obtain ⟨l', hl', heq, hleased⟩ := hids l.id hid
      rw [eq_of_key_eq hleases hl' hl heq] at hleased
      rw [hleased] at hother
      cases hother
  · rfl
  · rfl
  · intro b hb hidentity hother hactive
    exact ⟨b, mem_of_filter_bindings hb hother hbindings, rfl, hactive⟩
  · intro id hostId hid
    have hactive : (s.revokedAgents identityId [protocolAgentId] now).directory.findActiveBinding
        id = s.directory.findActiveBinding id := findActiveBinding_of_filter hid rfl hbindings
    have hagent := hagents id hid
    unfold Site.authenticateAgent
    change (if ((s.revokedAgents identityId [protocolAgentId] now).findProtocolAgent id).any _
      then ((s.revokedAgents identityId [protocolAgentId] now).directory.findActiveBinding
        id).filter _ else none) = _
    rw [hagent, hactive]

/-- Where the host can be revoked, every active binding of the identity is revoked with it. -/
theorem lone_of_onlyHost
    (hreleases : (s.revokedAgents identityId [protocolAgentId] now).Releases ids t)
    (h : OnlyHost identityId protocolAgentId s t) : s.Lone identityId protocolAgentId := by
  obtain ⟨generated, f, -, rfl⟩ := hreleases
  intro b hb hidentity hactive
  by_contra hother
  have hkept : b ∈ (s.revokedAgents identityId [protocolAgentId] now).directory.bindings :=
    mem_of_filter_bindings hb hother h.bindings
  obtain ⟨b₀, -, -, ⟨-, -, hrevoked⟩ | ⟨hnot, rfl⟩⟩ := Site.mem_revokedAgents_bindings hkept
  · rw [hactive] at hrevoked
    cases hrevoked
  · exact hnot ⟨hidentity, hactive⟩

/-- The revocation of a host touches only that host exactly when it is refused, or the identity
has no active binding to another. -/
theorem onlyHost_iff [Locale] (hleases : (s.access.leases.map (·.id)).Nodup) :
    OnlyHost identityId protocolAgentId s
        ((revokeAgentIdentityHost identityId protocolAgentId actorUserId).exec s).2 ↔
      (s.Revocable identityId protocolAgentId actorUserId →
        s.Lone identityId protocolAgentId) := by
  by_cases hrevocable : s.Revocable identityId protocolAgentId actorUserId
  · obtain ⟨ids, hids, hreleases⟩ := exec_of_revocable hrevocable
    constructor
    · intro h _
      exact lone_of_onlyHost hreleases h
    · intro h
      exact onlyHost_of_lone hleases (h hrevocable) hids hreleases
  · rw [exec_of_not_revocable hrevocable]
    constructor
    · intro _ h
      exact absurd h hrevocable
    · intro _
      exact .refl s

end Frames

namespace Sample

/-- The Agent of the sample store with bindings, on hosts of its two protocol agents. -/
def hosts (bindings : List AgentBinding) : Site :=
  { site with
    access := { FlareAuth.Sample.store with
      directory := { FlareAuth.Sample.directory with bindings := bindings } } }

def laptop : AgentBinding := ⟨"b", "a", "p", "h", .active, none⟩

def server : AgentBinding := ⟨"d", "a", "q", "g", .active, none⟩

theorem onlyHost_laptop :
    OnlyHost "a" "p" (hosts [laptop])
      ((revokeAgentIdentityHost "a" "p" "u").exec (hosts [laptop])).2 := by
  refine (onlyHost_iff (s := hosts [laptop]) List.nodup_nil).mpr fun _ b hb _ _ => ?_
  rw [List.mem_singleton.mp hb]
  rfl

/-- The revocation of one of two hosts locks out the other one too. -/
theorem revocation_locks_out_other_host :
    ((hosts [laptop, server]).authenticateAgent "q" "g").isSome = true ∧
      (((revokeAgentIdentityHost "a" "p" "u").exec
        (hosts [laptop, server])).2.authenticateAgent "q" "g").isSome = false ∧
      ¬OnlyHost "a" "p" (hosts [laptop, server])
        ((revokeAgentIdentityHost "a" "p" "u").exec (hosts [laptop, server])).2 := by
  have hbefore : ((hosts [laptop, server]).authenticateAgent "q" "g").isSome = true := by
    decide +kernel
  have hafter : (((revokeAgentIdentityHost "a" "p" "u").exec
      (hosts [laptop, server])).2.authenticateAgent "q" "g").isSome = false := by
    decide +kernel
  refine ⟨hbefore, hafter, fun h => ?_⟩
  rw [h.authenticates "q" "g" (by decide), hbefore] at hafter
  cases hafter

end Sample

end FlareAuth.AgentIdentities
