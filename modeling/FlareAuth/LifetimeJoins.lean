import FlareAuth.LapsedGrants
import Mathlib.Order.Bounds.Basic

/-!
# The lifetime that grants leave

An approval says with flags, and a direct grant with a comparison, which lifetime an
entitlement has after it. Both leave the maximum of what they find and what they
grant, so grants that run one after another leave the maximum of them all.
-/

namespace FlareAuth

open Concurrent Procedure Access Relational Repository

section Grants

variable [Locale]

inductive Grant where
  | approval (requestId : Id) (input : DecideApproval) (actorUserId : Id)
      (reasonCode : Option String)
  | direct (input : ScopeEntitlement)

def Grant.lifetime : Grant → Lifetime
  | .approval _ input _ _ => input.lifetime
  | .direct input => input.lifetime

def Grant.For (s : Store) (key : ScopeEntitlement.ActiveKey) : Grant → Prop
  | .approval requestId input actorUserId _ => ∃ r, s.findAccessRequest requestId = some r ∧
      ∃ scope ∈ r.scopes, key = (approvalContext s r input actorUserId).key scope
  | .direct input => input.activeKey = some key

/-- The grant succeeds when it runs alone in a store, and leaves another one. -/
def Grant.Succeeds (s t : Store) : Grant → Prop
  | .approval requestId input actorUserId reasonCode => ∃ decided,
      (decideAgentAccessRequest requestId (.approve input) actorUserId reasonCode).exec s =
        (.ok decided, t)
  | .direct input => ∃ entitlement,
      (createScopeEntitlement input s.now).exec s = (.ok entitlement, t)

/-- A store of a run in which no row has an identifier that is generated later. -/
def Store.Reached (s : Store) : Prop :=
  (∃ pool : AccessPool, AccessReachable pool ∧ pool.store = s) ∧ s.FreshIds

/-- Grants for a key that succeed one after another, with their lifetimes, each at a time when the
entitlement under the key is active. What comes between them leaves the entitlements as they
are. -/
inductive InTurn (key : ScopeEntitlement.ActiveKey) : Store → List Lifetime → Store → Prop where
  | done (s : Store) : InTurn key s [] s
  | grant {s t u v : Store} {g : Grant} {gs : List Lifetime} : s.Reached →
      (∃ e ∈ s.entitlements, e.activeKey = some key ∧ e.unexpired s.now = true) →
      g.For s key → g.Succeeds s t → u.entitlements = t.entitlements → InTurn key u gs v →
      InTurn key s (g.lifetime :: gs) v

variable {s t : Store} {key : ScopeEntitlement.ActiveKey} {e : ScopeEntitlement}

structure Store.Lasts (s : Store) (key : ScopeEntitlement.ActiveKey) (id : Id)
    (lifetime : Lifetime) : Prop where
  row : ∃ e ∈ s.entitlements, e.id = id ∧ e.activeKey = some key ∧ e.lifetime = lifetime
  only : ∀ e ∈ s.entitlements, e.activeKey = some key → e.id = id ∧ e.lifetime = lifetime

omit [Locale] in
theorem lasts_of_mem (hvalid : s.Valid) (he : e ∈ s.entitlements) (hkey : e.activeKey = some key) :
    s.Lasts key e.id e.lifetime := by
  refine ⟨⟨e, he, rfl, hkey, rfl⟩, fun f hf hfkey => ?_⟩
  rw [eq_of_some_key_eq hvalid.entitlements.2 hf he hfkey hkey]
  exact ⟨rfl, rfl⟩

end Grants

section Direct

variable {s t : Store} {input e f : ScopeEntitlement} {key : ScopeEntitlement.ActiveKey}

/-- An equivalent of a grant has its key, once it has its hash. -/
theorem activeKey_of_equivalent (h : activeEquivalentEntitlement input f = true)
    (hkey : input.activeKey = some key) (lifetime : Lifetime) : ({ f with
      lifetime := lifetime
      authorizationContextHash := input.authorizationContextHash } :
        ScopeEntitlement).activeKey = some key := by
  rw [activeEquivalentEntitlement] at h
  simp only [Bool.and_eq_true, beq_iff_eq, Option.isNone_iff_eq_none] at h
  obtain ⟨⟨⟨⟨⟨hsubject, hresource⟩, hconnection⟩, -⟩, hscope⟩, hended⟩ := h
  rw [← hkey]
  have hinput := ScopeEntitlement.ended_of_activeKey hkey
  exact ScopeEntitlement.activeKey_congr (hended.trans hinput.symm) hsubject hresource hconnection
    rfl hscope

variable {now : ℕ} {x : ScopeEntitlement}

/-- No expired equivalent is replaced while another row has the key. -/
theorem id_of_replaced (hvalid : s.Valid) (he : e ∈ s.entitlements) (hkey : e.activeKey = some key)
    (hinput : input.activeKey = some key) {u : Unit}
    (h : Repository.replaceExpiredEntitlement f.id input now s = .ok (u, t)) : f.id = e.id := by
  by_contra hne
  have hrows := replaceExpiredEntitlement_ok h
  have ht : (Operation.replaceExpiredEntitlement f.id input now).perform s = t :=
    Batch.settle_of_ok h
  have htvalid := (precedes_perform (.replaceExpiredEntitlement f.id input now) s).valid hvalid
  rw [ht] at htvalid
  have hkeys := htvalid.entitlements.2
  rw [hrows, List.filterMap_append, List.nodup_append] at hkeys
  have hold : key ∈ (updateWhere (fun e => e.id == f.id) (·.finish .expired now)
      s.entitlements).filterMap (·.activeKey) :=
    List.mem_filterMap.mpr ⟨e, mem_updateWhere_of_not he (by simpa using Ne.symm hne), hkey⟩
  have hnew : key ∈ [input].filterMap (·.activeKey) :=
    List.mem_filterMap.mpr ⟨input, List.mem_singleton_self input, hinput⟩
  exact hkeys.2.2 key hold key hnew rfl

/-- An update of an equivalent is of the row under the key. -/
theorem lasts_of_strengthened (hvalid : s.Valid) (he : e ∈ s.entitlements)
    (hkey : e.activeKey = some key) (hf : f ∈ s.entitlements)
    (hequivalent : activeEquivalentEntitlement input f = true) (hinput : input.activeKey = some key)
    {lifetime : Option Lifetime} {y : Option ScopeEntitlement}
    (h : Repository.strengthenEntitlement f.id lifetime input.authorizationContextHash s =
      .ok (y, t)) : f = e ∧ t.Lasts key e.id (lifetime.getD e.lifetime) := by
  obtain ⟨hrows, -⟩ := strengthenEntitlement_ok h
  have ht : (Operation.strengthenEntitlement f.id lifetime
      input.authorizationContextHash).perform s = t := Batch.settle_of_ok h
  have htvalid := (precedes_perform (.strengthenEntitlement f.id lifetime
    input.authorizationContextHash) s).valid hvalid
  rw [ht] at htvalid
  let g : ScopeEntitlement := { f with
    lifetime := lifetime.getD f.lifetime
    authorizationContextHash := input.authorizationContextHash }
  have hg : g ∈ t.entitlements := by
    rw [hrows]
    exact mem_updateWhere.mpr ⟨f, hf, if_pos (by simp)⟩
  have hgkey : g.activeKey = some key := activeKey_of_equivalent hequivalent hinput _
  have hsame : f = e := by
    by_contra hne
    have hid : e.id ≠ f.id := fun hid => hne (eq_of_key_eq hvalid.entitlements.1 hf he hid.symm)
    have hkept : e ∈ t.entitlements := by
      rw [hrows]
      exact mem_updateWhere_of_not he (by simpa using hid)
    have hclash : g = e := eq_of_some_key_eq htvalid.entitlements.2 hg hkept hgkey hkey
    exact hid (congrArg ScopeEntitlement.id hclash).symm
  subst hsame
  exact ⟨rfl, lasts_of_mem htvalid hg hgkey⟩

/-- What a grant makes of the equivalent that it has found. -/
theorem lasts_of_merged (hvalid : s.Valid) (he : e ∈ s.entitlements) (hkey : e.activeKey = some key)
    (hactive : e.unexpired now = true) (hf : f ∈ s.entitlements)
    (hequivalent : activeEquivalentEntitlement input f = true) (hinput : input.activeKey = some key)
    (h : (mergeScopeEntitlement f input now).exec s = (.ok x, t)) :
    t.Lasts key e.id (max e.lifetime input.lifetime) := by
  have hmax := Lifetime.strongerLifetime_getD e.lifetime input.lifetime
  unfold mergeScopeEntitlement at h
  by_cases hexpired : (!f.unexpired now) = true
  · rw [if_pos hexpired] at h
    obtain ⟨u, s₁, hcommit, -⟩ := exec_bind_inv h
    have hid := id_of_replaced hvalid he hkey hinput (exec_commit_inv rfl hcommit)
    obtain rfl := eq_of_key_eq hvalid.entitlements.1 hf he hid
    rw [hactive] at hexpired
    cases hexpired
  · rw [if_neg hexpired] at h
    dsimp only at h
    split at h
    · rename_i hsame
      cases h
      -- nothing is written: the row has the hash of the grant, so it is the one under the key
      have hrow : ({ f with
          lifetime := f.lifetime
          authorizationContextHash := input.authorizationContextHash } :
            ScopeEntitlement).activeKey = some key :=
        activeKey_of_equivalent hequivalent hinput f.lifetime
      rw [← hsame.2] at hrow
      obtain rfl : f = e := eq_of_some_key_eq hvalid.entitlements.2 hf he hrow hkey
      rw [hsame.1, Option.getD_none] at hmax
      rw [← hmax]
      exact lasts_of_mem hvalid he hkey
    · obtain ⟨y, s₁, hcommit, h⟩ := exec_bind_inv h
      have hupdated := exec_commit_inv rfl hcommit
      obtain ⟨rfl, hlasts⟩ :=
        lasts_of_strengthened hvalid he hkey hf hequivalent hinput hupdated
      have hanswer : s₁ = t := by
        cases y with
        | none => cases h
        | some y =>
          cases h
          rfl
      rwa [hmax, hanswer] at hlasts

/-- A direct grant leaves the maximum of the entitlement under its key and its own lifetime. -/
theorem lasts_of_direct (hvalid : s.Valid) (he : e ∈ s.entitlements) (hkey : e.activeKey = some key)
    (hactive : e.unexpired now = true) (hinput : input.activeKey = some key)
    (h : (createScopeEntitlement input now).exec s = (.ok x, t)) :
    t.Lasts key e.id (max e.lifetime input.lifetime) := by
  unfold createScopeEntitlement findEquivalentEntitlement at h
  rw [exec_ask_bind] at h
  cases hfound : s.entitlements.find? (activeEquivalentEntitlement input) with
  | some f =>
    rw [hfound] at h
    exact lasts_of_merged hvalid he hkey hactive (List.mem_of_find?_eq_some hfound)
      (List.find?_some hfound) hinput h
  | none =>
    rw [hfound] at h
    -- the key is taken, and there is still no equivalent
    have htaken : ¬KeysUnique (s.entitlements ++ [input]) := by
      intro hkeys
      have hindex := hkeys.2
      rw [List.filterMap_append, List.nodup_append] at hindex
      exact hindex.2.2 key (List.mem_filterMap.mpr ⟨e, he, hkey⟩) key
        (List.mem_filterMap.mpr ⟨input, List.mem_singleton_self input, hinput⟩) rfl
    have hinsert : Repository.insertScopeEntitlement input s = .ok (none, s) := if_neg htaken
    dsimp only at h
    rw [exec_bind_ok _ (exec_commit_of_ok rfl hinsert)] at h
    dsimp only at h
    rw [exec_ask_bind, hfound] at h
    cases h

end Direct

section Approvals

variable [Locale] {s t : Store} {e : ScopeEntitlement} {c : ApprovalContext} {n : ℕ}
  {scope : String} {audit : AuditEvent} {requestId actorUserId : Id} {r : AgentAccessRequest}
  {input : DecideApproval} {reasonCode : Option String}

/-- The updates of an approval leave the maximum of an entitlement that it reuses and its own
lifetime. -/
theorem lifetime_rewriteAll (hvalid : s.Valid) (hscope : scope ∈ c.request.scopes)
    (hreused : c.reused s scope = some e) :
    (rewriteAll (c.approvalIn s n audit).updates e).lifetime = max e.lifetime c.lifetime := by
  have hreuses := reuses_of_reused hreused
  rcases rewriteAll_cases (c.approvalIn s n audit).updates e with
    ⟨hsame, hnone⟩ | ⟨u, hu, hid, -, hwritten⟩
  · rw [hsame]
    obtain ⟨approval, hzip⟩ := exists_zip_of_scope c (c.reusable s) n hscope
    have happroval : approval = c.reuse e := by
      rcases approves_of_mem_zip hzip with ⟨current, hcurrent, rfl⟩ | ⟨hno, -⟩
      · rw [Option.some.inj (hcurrent.symm.trans hreused)]
      · exact absurd (hreused.symm.trans hno) (Option.some_ne_none e)
    -- an update would be of a row in force
    have hkeeps : e.lifetime.approvedAs c.lifetime = none := by
      by_contra hchanges
      have hupdated : (c.reuse e).updated =
          some ⟨e.id, (e.lifetime.approvedAs c.lifetime).getD e.lifetime, c.hash⟩ := by
        unfold ApprovalContext.reuse
        dsimp only
        rw [if_pos (.inl (Option.isSome_iff_ne_none.mpr hchanges))]
        rfl
      have hupdate := List.mem_filterMap.mpr ⟨approval, (List.of_mem_zip hzip).2,
        happroval ▸ hupdated⟩
      exact hnone _ hupdate rfl hreuses.ended
    have hmax := Lifetime.approvedAs_getD e.lifetime c.lifetime
    rwa [hkeeps, Option.getD_none] at hmax
  · obtain ⟨current, hcurrent, rfl⟩ := mem_updatesFrom hu
    have hlisted := mem_listActiveEntitlementsByAgent.mp (List.mem_of_mem_filter hcurrent)
    obtain rfl : current = e := eq_of_key_eq hvalid.entitlements.1 hlisted.1 hreuses.mem hid
    rw [hwritten]

/-- An approval leaves the maximum of the entitlement under its key and its own lifetime. -/
theorem lasts_of_approval (hs : s.Reached) (he : e ∈ s.entitlements)
    (hfound : s.findAccessRequest requestId = some r) (hscope : scope ∈ r.scopes)
    (hkey : e.activeKey = some ((approvalContext s r input actorUserId).key scope))
    {answer : AgentAccessRequest}
    (h : (decideAgentAccessRequest requestId (.approve input) actorUserId reasonCode).exec s =
      (.ok answer, t)) :
    t.Lasts ((approvalContext s r input actorUserId).key scope) e.id
      (max e.lifetime input.lifetime) := by
  obtain ⟨⟨pool, hpool, rfl⟩, hfresh⟩ := hs
  have hscopes := nodup_scopes hpool r (mem_of_lookup hfound)
  have hvalid := hpool.valid
  have hid : r.id = requestId := key_of_lookup hfound
  unfold decideAgentAccessRequest at h
  cases hdecision : (prepareDecision requestId actorUserId).exec pool.store with
  | mk decision s₁ =>
  cases decision with
  | error e =>
    rw [decideAttempts, exec_bind_error _ hdecision] at h
    cases h
  | ok prepared =>
  obtain ⟨request, connection, now⟩ := prepared
  obtain ⟨hrequest, hpending, rfl, hs₁⟩ := pending_of_exec hdecision
  obtain rfl := Option.some.inj (hfound.symm.trans hrequest)
  cases happroval : (prepareApproval r input actorUserId reasonCode pool.store.now).exec s₁ with
  | mk approval s₂ =>
  cases approval with
  | error e =>
    rw [decideAttempts, exec_bind_ok _ hdecision] at h
    dsimp only at h
    rw [exec_bind_error _ happroval] at h
    cases h
  | ok a =>
  rw [← hid] at hfound
  obtain ⟨hs₂, n, audit, ha, hclear, -⟩ :=
    clear_of_prepared hvalid hfresh hscopes hfound hpending hs₁ happroval
  by_cases hunblocked : (approvalContext pool.store r input actorUserId).Unblocked pool.store
  · have hreused := hunblocked scope hscope e he hkey
    obtain ⟨g, -, rfl⟩ := hs₂
    obtain ⟨result, u, hbatch, hresult, -⟩ := approve_of_unblocked audit hclear hunblocked
    have huvalid :=
      (precedes_approveAccessRequestWithEntitlements _ _ _ _ hbatch).valid hclear.valid
    obtain ⟨kept, audits, -, -, -, hrows⟩ := approve_parts hclear.valid hbatch
    rw [← ha] at hbatch
    rw [exec_attempt hdecision happroval, exec_bind_ok _ (exec_approve_of_ok hbatch)] at h
    have hread : u.ReadTo
        ((finishAttempt requestId input actorUserId reasonCode 1 r result).exec u).2 :=
      readTo_finishAttempt hresult u
    rw [h] at hread
    have hrow : (rewriteAll ((approvalContext pool.store r input actorUserId).approvalIn
        pool.store n audit).updates e).lifetime = max e.lifetime input.lifetime :=
      lifetime_rewriteAll hvalid hscope hreused
    have hmem : rewriteAll ((approvalContext pool.store r input actorUserId).approvalIn
        pool.store n audit).updates e ∈ t.entitlements := by
      rw [hread.entitlements_eq, hrows]
      exact List.mem_map_of_mem (List.mem_append_left kept he)
    have hlasts := lasts_of_mem (huvalid.readTo hread) hmem (activeKey_rewriteAll hkey)
    rwa [rewriteAll_id, hrow] at hlasts
  · have hstuck : Stuck pool.store r input actorUserId :=
      ⟨hvalid, hfresh, hscopes, hfound, hpending, hunblocked⟩
    obtain ⟨e, u, hfails, -⟩ := hstuck.fails reasonCode 2
    rw [hid, h] at hfails
    cases hfails

end Approvals

section Sequences

variable [Locale] {s t : Store} {e : ScopeEntitlement} {key : ScopeEntitlement.ActiveKey}
  {g : Grant}

/-- Either path leaves the maximum of what it finds under its key and what it grants. -/
theorem lasts_of_grant (hs : s.Reached) (he : e ∈ s.entitlements) (hkey : e.activeKey = some key)
    (hactive : e.unexpired s.now = true) (hfor : g.For s key) (h : g.Succeeds s t) :
    t.Lasts key e.id (max e.lifetime g.lifetime) := by
  cases g with
  | approval requestId input actorUserId reasonCode =>
    obtain ⟨r, hfound, scope, hscope, rfl⟩ := hfor
    obtain ⟨decided, h⟩ := h
    exact lasts_of_approval hs he hfound hscope hkey h
  | direct input =>
    obtain ⟨⟨pool, hpool, rfl⟩, -⟩ := hs
    obtain ⟨entitlement, h⟩ := h
    exact lasts_of_direct hpool.valid he hkey hactive hfor h

/-- Grants in turn leave the greatest of what they find at first and what they grant. -/
theorem lasts_of_inTurn {gs : List Lifetime} {id : Id} {lifetime : Lifetime}
    (h : InTurn key s gs t) (hlasts : s.Lasts key id lifetime) :
    ∃ greatest, t.Lasts key id greatest ∧
      IsGreatest {l | l = lifetime ∨ l ∈ gs} greatest := by
  induction h generalizing lifetime with
  | done s =>
    refine ⟨lifetime, hlasts, .inl rfl, ?_⟩
    rintro l (rfl | hl)
    · exact le_rfl
    · cases hl
  | @grant s t u v g gs hs hactive hfor hsucceeds hsame _ ih =>
    obtain ⟨e, he, hkey, hunexpired⟩ := hactive
    obtain ⟨rfl, rfl⟩ := hlasts.only e he hkey
    have hstep := lasts_of_grant hs he hkey hunexpired hfor hsucceeds
    have hnext : u.Lasts key e.id (max e.lifetime g.lifetime) := by
      constructor
      · rw [hsame]
        exact hstep.row
      · rw [hsame]
        exact hstep.only
    obtain ⟨greatest, hgreatest, hmem, hle⟩ := ih hnext
    refine ⟨greatest, hgreatest, ?_, ?_⟩
    · rcases hmem with rfl | hmem
      · rcases le_total e.lifetime g.lifetime with hle' | hle'
        · rw [max_eq_right hle']
          exact .inr List.mem_cons_self
        · exact .inl (max_eq_left hle')
      · exact .inr (List.mem_cons_of_mem _ hmem)
    · have hmax : max e.lifetime g.lifetime ≤ greatest := hle (.inl rfl)
      rintro l (rfl | hl)
      · exact (le_max_left _ _).trans hmax
      · rcases List.mem_cons.mp hl with rfl | hl
        · exact (le_max_right _ _).trans hmax
        · exact hle (.inr hl)

/-- Both paths leave the least upper bound of what they find and what they grant, in the order from
a single use over the expiries to no expiry; so any grants in turn, by either path, leave the
greatest of them. -/
theorem grants_join :
    ((∀ t, Lifetime.once < .expiring t ∧ Lifetime.expiring t < .persistent) ∧
      ∀ t t', Lifetime.expiring t < .expiring t' ↔ t < t') ∧
    (∀ current requested : Lifetime,
      (current.approvedAs requested).getD current =
        (strongerLifetime current requested).getD current ∧
      IsLUB {current, requested} ((strongerLifetime current requested).getD current)) ∧
    ∀ (key : ScopeEntitlement.ActiveKey) (s t : Store) (gs : List Lifetime), InTurn key s gs t →
      ∀ id lifetime, s.Lasts key id lifetime → ∃ greatest, t.Lasts key id greatest ∧
        IsGreatest {l | l = lifetime ∨ l ∈ gs} greatest := by
  refine ⟨⟨fun t => ⟨?_, ?_⟩, fun t t' => ?_⟩, fun current requested => ⟨?_, ?_⟩, ?_⟩
  · exact lt_of_not_ge (Lifetime.not_expiring_le_once t)
  · refine lt_of_not_ge fun hle => ?_
    cases Lifetime.persistent_le.mp hle
  · rw [← not_le, Lifetime.expiring_le_expiring, not_le]
  · rw [Lifetime.approvedAs_getD, Lifetime.strongerLifetime_getD]
  · rw [Lifetime.strongerLifetime_getD]
    exact isLUB_pair
  · intro key s t gs h id lifetime hlasts
    exact lasts_of_inTurn h hlasts

end Sequences

section Samples

def listKey : ScopeEntitlement.ActiveKey :=
  ⟨.agent "a", "notes", "", contextHash [Sample.authority], "list"⟩

/-- A single use is approved, with another request of the same scope pending. -/
def usedOnce : List (Move Call) :=
  Move.alone 0 (.createScopeEntitlement (held "id-0" "list") 0) 2 ++
    Move.alone 1 (.createScopeEntitlement (held "id-1" "write") 0) 2 ++
    Move.alone 2 (askedFor ["list"]) 16 ++ Move.alone 3 (askedFor ["list", "write"]) 16 ++
    Move.alone 4 (approvedFor "id-1" .once) 19

/-- Then that request is approved for a while. -/
def usedForAWhile : List (Move Call) :=
  usedOnce ++ Move.alone 5 (approvedFor "id-4" (.expiring 100)) 19

def approvedForAWhile : Grant :=
  .approval "id-4" ⟨.expiring 100, some [Sample.authority]⟩ "u" none

def keptForGood : ScopeEntitlement where
  id := "id-10"
  subject := .agent "a"
  resourceServerId := "notes"
  connectionId := none
  authorizationDetails := [Sample.authority]
  authorizationContextHash := contextHash [Sample.authority]
  scope := "list"
  lifetime := .persistent
  grantedBy := .user "u"
  sourceAccessRequestId := none
  ended := none
  createdAt := 0

/-- What a grant leaves, if it succeeds. -/
def Grant.result (s : Store) : Grant → Option Store
  | .approval requestId input actorUserId reasonCode =>
    match (decideAgentAccessRequest requestId (.approve input) actorUserId reasonCode).exec s with
    | (.ok _, t) => some t
    | (.error _, _) => none
  | .direct input =>
    match (createScopeEntitlement input s.now).exec s with
    | (.ok _, t) => some t
    | (.error _, _) => none

theorem succeeds_of_result {g : Grant} {s t : Store} (h : g.result s = some t) :
    g.Succeeds s t := by
  cases g with
  | approval requestId input actorUserId reasonCode =>
    unfold Grant.result at h
    dsimp only at h
    split at h
    · rename_i decided u hexec
      cases h
      exact ⟨decided, hexec⟩
    · cases h
  | direct input =>
    unfold Grant.result at h
    dsimp only at h
    split at h
    · rename_i entitlement u hexec
      cases h
      exact ⟨entitlement, hexec⟩
    · cases h

def activeRow (s : Store) : Option ScopeEntitlement :=
  s.entitlements.find? fun e => decide (e.activeKey = some listKey) && e.unexpired s.now

theorem of_activeRow {s : Store} {e : ScopeEntitlement} (h : activeRow s = some e) :
    e ∈ s.entitlements ∧ e.activeKey = some listKey ∧ e.unexpired s.now = true := by
  have hselected := List.find?_some h
  rw [Bool.and_eq_true, decide_eq_true_eq] at hselected
  exact ⟨List.mem_of_find?_eq_some h, hselected⟩

def requestsList (s : Store) : Bool :=
  (s.findAccessRequest "id-4").any fun r => decide ("list" ∈ r.scopes ∧ listKey =
    (approvalContext s r ⟨.expiring 100, some [Sample.authority]⟩ "u").key "list")

theorem for_of_requestsList {s : Store} (h : requestsList s = true) :
    approvedForAWhile.For s listKey := by
  obtain ⟨r, hr, hcheck⟩ := (Option.any_eq_true _ _).mp h
  obtain ⟨hscope, hkey⟩ := of_decide_eq_true hcheck
  exact ⟨r, hr, "list", hscope, hkey⟩

set_option maxRecDepth 10000 in
/-- A single use becomes an expiry by an approval and then persistent by a direct grant. -/
theorem grants_join_sample : ∃ s t greatest, s.Lasts listKey "id-6" .once ∧
    InTurn listKey s [.expiring 100, .persistent] t ∧ t.Lasts listKey "id-6" greatest ∧
      IsGreatest {l | l = .once ∨ l ∈ [Lifetime.expiring 100, .persistent]} greatest := by
  let first (pool : AccessPool) : Bool := pool.store.freshCheck && requestsList pool.store &&
    (activeRow pool.store).any fun e => decide (e.id = "id-6" ∧ e.lifetime = .once)
  let second (pool : AccessPool) : Bool := pool.store.freshCheck && (activeRow pool.store).isSome &&
    ((Grant.direct keptForGood).result pool.store).isSome
  have hruns : (Sample.run usedOnce).any (fun pool => first pool &&
      (Sample.run usedForAWhile).any fun later => second later &&
        (approvedForAWhile.result pool.store).any fun t =>
          decide (later.store.entitlements = t.entitlements)) = true := by
    decide +kernel
  obtain ⟨pool, hpool, hchecks⟩ := Sample.reachable_of_run hruns
  rw [Bool.and_eq_true] at hchecks
  obtain ⟨later, hlater, hchecks'⟩ := Sample.reachable_of_run hchecks.2
  simp only [first, second, Bool.and_eq_true] at hchecks hchecks'
  obtain ⟨⟨⟨hfresh, hrequest⟩, hrow⟩, -⟩ := hchecks
  obtain ⟨⟨⟨hfresh', hrow'⟩, hkept⟩, happroved⟩ := hchecks'
  obtain ⟨e, he, hlifetime⟩ := (Option.any_eq_true _ _).mp hrow
  obtain ⟨f, hf⟩ := Option.isSome_iff_exists.mp hrow'
  obtain ⟨t, ht, hsame⟩ := (Option.any_eq_true _ _).mp happroved
  obtain ⟨u, hu⟩ := Option.isSome_iff_exists.mp hkept
  obtain ⟨hid, honce⟩ := of_decide_eq_true hlifetime
  obtain ⟨hmem, hkey, hactive⟩ := of_activeRow he
  have hlasts : pool.store.Lasts listKey "id-6" .once := by
    rw [← hid, ← honce]
    exact lasts_of_mem hpool.valid hmem hkey
  have hfor : (Grant.direct keptForGood).For later.store listKey := rfl
  have hdirect : InTurn listKey later.store [Lifetime.persistent] u :=
    .grant ⟨⟨later, hlater, rfl⟩, freshIds_of_check hfresh'⟩ ⟨f, of_activeRow hf⟩ hfor
      (succeeds_of_result hu) rfl (.done u)
  have hturns : InTurn listKey pool.store [.expiring 100, .persistent] u :=
    .grant ⟨⟨pool, hpool, rfl⟩, freshIds_of_check hfresh⟩ ⟨e, hmem, hkey, hactive⟩
      (for_of_requestsList hrequest) (succeeds_of_result ht) (of_decide_eq_true hsame) hdirect
  obtain ⟨greatest, hgreatest, hisGreatest⟩ := grants_join.2.2 _ _ _ _ hturns _ _ hlasts
  exact ⟨pool.store, u, greatest, hlasts, hturns, hgreatest, hisGreatest⟩

end Samples

end FlareAuth
