import FlareAuth.PermissionChecks

/-!
# Requests for permissions that are made again

A request for permissions makes its grants without a transaction. When it stops after some
of them and is made again later, it makes the rest of them, unless its checks do not pass
any longer. Once it has run to its end it leaves nothing for another run of it.
-/

namespace FlareAuth

open Concurrent Procedure Access Relational

section Runs

variable {α : Type}

inductive Reruns (p : Access α) : Store → Store → Prop where
  | done (s : Store) : Reruns p s s
  | again {s t : Store} {later : ℕ} : s.now ≤ later → Reruns p (p.exec (s.atTime later)).2 t →
      Reruns p s t

end Runs

namespace DirectGrant

variable [Locale] {g : DirectGrant} {now : ℕ} {xs : List GrantTarget} {s t : Store}

/-- The grants for some targets are there, with lifetimes that are not weaker. -/
def Made (g : DirectGrant) (xs : List GrantTarget) (s : Store) : Prop :=
  ∀ x ∈ xs, ∃ e, inForce (g.key x) s.entitlements = some e ∧ e.connectionId = g.connectionId ∧
    g.lifetime ≤ e.lifetime

theorem Granted.made (h : g.Granted now xs s t) (hfree : g.Free s xs) : g.Made xs t := by
  intro x hx
  obtain ⟨id, y, hrow⟩ := h.row x hx
  exact ⟨_, hrow, (h.freeFor_iff hfree (g.key x)).mpr (hfree x hx) _ hrow, le_grantedRow _ _ _⟩

theorem Made.of_entitlements (h : g.Made xs s) (hsame : t.entitlements = s.entitlements) :
    g.Made xs t := by
  intro x hx
  rw [hsame]
  exact h x hx

theorem Made.free (h : g.Made xs s) : g.Free s xs := by
  intro x hx e he
  obtain ⟨f, hf, hconnection, -⟩ := h x hx
  rw [hf] at he
  exact Option.some.inj he ▸ hconnection

/-- Grants that are there already change no row. -/
theorem Made.unchanged (hlasts : g.Lasts now) (hs : s.Regular) (hmade : g.Made xs s)
    (hsingle : ∀ x ∈ xs, x.1.length ≤ 1) (h : Procedure.InOrder (g.grant now) xs s t) :
    t.entitlements = s.entitlements := by
  induction h with
  | nil s => rfl
  | @cons x xs s t u e hbody _ ih =>
    have hx := hsingle x List.mem_cons_self
    obtain ⟨f, hf, -, hle⟩ := hmade x List.mem_cons_self
    obtain ⟨-, rfl⟩ := free_of_exec hs hx hbody
    have hsame := entitlements_after hs hlasts hf hle
    have hmade' : g.Made xs (g.after now x s) :=
      Made.of_entitlements (fun y hy => hmade y (List.mem_cons_of_mem x hy)) hsame
    rw [ih (granted_after g now hs hx).regular hmade' fun y hy =>
      hsingle y (List.mem_cons_of_mem x hy), hsame]

end DirectGrant

section Requests

variable [Locale] (agentId : Id) (input : CreateAgentPermission) (actorUserId : Id)
  (organizationId : Option Id)

/-- The checks of the request pass. -/
def Store.Passes (s : Store) : Prop := ∃ plan t,
  (planPermission agentId input actorUserId organizationId).exec s = (.ok plan, t)

variable {agentId input actorUserId organizationId} {s t : Store} {plan : PermissionPlan}

theorem exec_of_not_passes (h : ¬s.Passes agentId input actorUserId organizationId) :
    ∃ e t, (createAgentPermission agentId input actorUserId organizationId).exec s = (.error e, t) ∧
      s.ReadTo t := by
  rw [createAgentPermission_eq]
  cases hplan : (planPermission agentId input actorUserId organizationId).exec s with
  | mk result t =>
    cases result with
    | error e =>
      exact ⟨e, t, exec_bind_error _ hplan, readTo_of_exec (reads_planPermission _ _ _ _) hplan⟩
    | ok plan => exact absurd ⟨plan, t, hplan⟩ h

/-- A request that passes its checks grants for its targets one after another. -/
theorem exec_of_plan
    (hplan : (planPermission agentId input actorUserId organizationId).exec s = (.ok plan, t)) :
    (createAgentPermission agentId input actorUserId organizationId).exec s =
      (collect plan.targets (plan.grant.grant plan.now)).exec t := by
  rw [createAgentPermission_eq, exec_bind_ok _ hplan]

variable (hs : s.Regular) (hreusable : input.lifetime ≠ .once)
  (hplan : (planPermission agentId input actorUserId organizationId).exec s = (.ok plan, t))

include hs hreusable hplan

/-- A request that passes its checks makes all its grants, if no other account holds their keys. -/
theorem exec_of_free (hfree : plan.grant.Free s plan.targets) : ∃ es u,
    (createAgentPermission agentId input actorUserId organizationId).exec s = (.ok es, u) ∧
      plan.grant.Granted s.now plan.targets s u := by
  have hlasts := lasts_of_plan hreusable hplan
  have hsingle := single_of_plan hplan
  have hnow := now_of_plan hplan
  obtain ⟨n, hn, rfl⟩ := (plan_of_exec hplan).1
  have hnone : plan.grant.Granted s.now [] s { s with generated := n } := .refl hs n hn
  obtain ⟨u, horder⟩ := DirectGrant.inOrder_of_free plan.now hnone.regular hsingle
    fun x hx => hfree x hx
  obtain ⟨es, hexec⟩ := collect_of_inOrder horder
  rw [hnow] at horder
  obtain ⟨-, hgranted⟩ := DirectGrant.granted_of_inOrder hnone.regular hsingle hlasts horder
  refine ⟨es, u, ?_, hnone.trans hlasts hgranted⟩
  rw [exec_of_plan hplan, hexec]

/-- A request that succeeds has found no key with another account. -/
theorem free_of_complete {es : List ScopeEntitlement} {u : Store}
    (h : (createAgentPermission agentId input actorUserId organizationId).exec s = (.ok es, u)) :
    plan.grant.Free s plan.targets := by
  have hlasts := lasts_of_plan hreusable hplan
  have hnow := now_of_plan hplan
  rw [exec_of_plan hplan, hnow] at h
  obtain ⟨n, hn, rfl⟩ := (plan_of_exec hplan).1
  have hnone : plan.grant.Granted s.now [] s { s with generated := n } := .refl hs n hn
  exact (DirectGrant.granted_of_inOrder hnone.regular (single_of_plan hplan) hlasts
    (inOrder_of_collect h)).1

/-- A request that stops has made some of its grants. -/
theorem granted_of_stopped (hfree : plan.grant.Free s plan.targets) (n : ℕ) :
    ∃ before, before ⊆ plan.targets ∧ plan.grant.Granted s.now before s
      ((createAgentPermission agentId input actorUserId organizationId).stopped n s) := by
  have hlasts := lasts_of_plan hreusable hplan
  have hsingle := single_of_plan hplan
  have hnow := now_of_plan hplan
  have hread : ∀ m, s.ReadTo
      ((planPermission agentId input actorUserId organizationId).stopped m s) := fun m =>
    (reads_planPermission agentId input actorUserId organizationId).stopped Store.ReadTo.refl
      (fun _ _ _ => Store.ReadTo.trans) (fun op s hop => apply_isRead hop s) m s
  rw [createAgentPermission_eq]
  rcases stopped_bind (planPermission agentId input actorUserId organizationId)
    (fun plan => collect plan.targets (plan.grant.grant plan.now)) n s with
    ⟨m, hm⟩ | ⟨plan', u, m, hplan', hm⟩
  · obtain ⟨g, hg, hstopped⟩ := hread m
    rw [hm, hstopped]
    exact ⟨[], List.nil_subset _, .refl hs g hg⟩
  · rw [hplan] at hplan'
    cases hplan'
    obtain ⟨g, hg, rfl⟩ := (plan_of_exec hplan).1
    have hnone : plan.grant.Granted s.now [] s { s with generated := g } := .refl hs g hg
    obtain ⟨before, after, htargets, hgranted⟩ := DirectGrant.stopped_grants hnone.regular hsingle
      hlasts (fun x hx => hfree x hx) m
    rw [hm, hnow]
    refine ⟨before, ?_, hnone.trans hlasts hgranted⟩
    rw [htargets]
    exact List.subset_append_left before after

end Requests

namespace DirectGrant

variable [Locale] {g : DirectGrant} {now later : ℕ} {xs before : List GrantTarget} {x : GrantTarget}
  {s t u v : Store} {e : ScopeEntitlement}

def For (g : DirectGrant) (x : GrantTarget) (now : ℕ) (e : ScopeEntitlement) : Prop :=
  e.active now = true ∧ ∃ lifetime, e.authority = g.authority x lifetime

theorem For.activeKey (h : g.For x now e) : e.activeKey = some (g.key x) := by
  obtain ⟨hactive, lifetime, hauthority⟩ := h
  rw [ScopeEntitlement.active, Bool.and_eq_true, Option.isNone_iff_eq_none] at hactive
  simp only [ScopeEntitlement.authority, authority, Authority.mk.injEq] at hauthority
  obtain ⟨hsubject, hresource, hconnection, hhash, hscope, -⟩ := hauthority
  rw [ScopeEntitlement.activeKey_agent hactive.1 hsubject, hresource, hconnection, hhash, hscope]
  rfl

/-- A lifetime is the requested one, or a stronger one that was there. -/
theorem lifetimeOver_cases (hfree : g.Free s xs) (hsingle : ∀ x ∈ xs, x.1.length ≤ 1)
    (hx : x ∈ xs) :
    g.lifetimeOver now (inForce (g.key x) s.entitlements) = g.lifetime ∨
      g.lifetime ≤ g.lifetimeOver now (inForce (g.key x) s.entitlements) ∧
        g.authority x (g.lifetimeOver now (inForce (g.key x) s.entitlements)) ∈
          s.authorities now := by
  cases hfound : inForce (g.key x) s.entitlements with
  | none => exact .inl rfl
  | some e =>
    unfold lifetimeOver
    dsimp only
    by_cases hunexpired : e.unexpired now = true
    · rw [if_pos hunexpired]
      rcases le_total e.lifetime g.lifetime with hle | hle
      · exact .inl (max_eq_right hle)
      · refine .inr ⟨le_max_right _ _, ?_⟩
        rw [max_eq_left hle]
        obtain ⟨hsubject, hresource, hhash, hscope⟩ :=
          (grantUnder now "" (hsingle x hx)).same (index_of_under hfound)
        have hactive : e.active now = true := by
          rw [ScopeEntitlement.active, hunexpired, Bool.and_true, Option.isNone_iff_eq_none]
          exact ScopeEntitlement.ended_of_activeKey (index_of_under hfound)
        refine ⟨e, mem_of_under hfound, hactive, ?_⟩
        rw [ScopeEntitlement.authority, hsubject, hresource, hfree x hx e hfound, hhash, hscope]
        rfl
    · rw [if_neg hunexpired]
      exact .inl rfl

/-- What an interrupted request and its repetition leave, from what was there before. `t` is what
the request would have left at once, and `u` where it was interrupted. -/
structure Completes (g : DirectGrant) (xs : List GrantTarget) (later : ℕ) (s t u v : Store) :
    Prop where
  same : v.authorities later = t.authorities later
  target : ∀ x ∈ xs, ∃ lifetime, (lifetime = g.lifetime ∨
    g.lifetime ≤ lifetime ∧ g.authority x lifetime ∈ s.authorities s.now) ∧
      ∃ e ∈ v.entitlements, g.For x later e ∧ e.authority = g.authority x lifetime ∧
        ∀ f ∈ v.entitlements, g.For x later f → f = e
  reused : ∀ e ∈ u.entitlements, e.active later = true → ∃ f ∈ v.entitlements,
    f.active later = true ∧ e.lifetime ≤ f.lifetime ∧ f = { e with lifetime := f.lifetime } ∧
      (e ∉ s.entitlements → f = e)

variable (hfree : g.Free s xs) (hsingle : ∀ x ∈ xs, x.1.length ≤ 1) (hlasts : g.Lasts later)
  (hle : s.now ≤ later) (hsub : before ⊆ xs)
  (hall : g.Granted s.now xs s t) (hsome : g.Granted s.now before s u)
  (hrest : g.Granted later xs (u.atTime later) v)

include hlasts hsub hsome hrest in
/-- What is active when the request is repeated keeps its identifier, and what the request has
granted before stays as it is. -/
theorem reused_of_active (he : e ∈ u.entitlements) (hactive : e.active later = true) :
    ∃ f ∈ v.entitlements, f.active later = true ∧ e.lifetime ≤ f.lifetime ∧
      f = { e with lifetime := f.lifetime } ∧ (e ∉ s.entitlements → f = e) := by
  have hinForce := hactive
  rw [ScopeEntitlement.active, Bool.and_eq_true, Option.isNone_iff_eq_none] at hinForce
  obtain ⟨hended, hunexpired⟩ := hinForce
  obtain ⟨k, hk⟩ := ScopeEntitlement.activeKey_isSome hended
  have hfound : inForce k u.entitlements = some e := under_of_mem hsome.regular.keys.2 he hk
  by_cases hkey : ∃ x ∈ xs, g.key x = k
  · obtain ⟨x, hx, rfl⟩ := hkey
    obtain ⟨id, y, hrow⟩ := hrest.row x hx
    change inForce (g.key x) v.entitlements = some (grantedRow (g.entitlement id later y) later
      (inForce (g.key x) u.entitlements)) at hrow
    rw [hfound, grantedRow, if_pos hunexpired] at hrow
    refine ⟨_, mem_of_under hrow, ?_, le_max_left _ _, rfl, fun hnew => ?_⟩
    · rw [ScopeEntitlement.active, hended, Option.isNone_none, Bool.true_and, unexpired_eq]
      rw [unexpired_eq] at hunexpired
      exact Lifetime.lasts_max hunexpired hlasts.lasts
    · by_cases hbefore : ∃ y ∈ before, g.key y = g.key x
      · obtain ⟨y', hy', hkey⟩ := hbefore
        have hsame := inForce_before hlasts hsub hsome hrest hy'
        rw [hkey, hfound, hrow] at hsame
        exact Option.some.inj hsame
      · -- no grant was made under the key, so the row is an old one
        have hold := hsome.other (g.key x) fun y' hy' hkey => hbefore ⟨y', hy', hkey⟩
        rw [hfound] at hold
        exact absurd (mem_of_under hold.symm) hnew
  · have hother : ∀ x ∈ xs, g.key x ≠ k := fun x hx hx' => hkey ⟨x, hx, hx'⟩
    have hkept : inForce k v.entitlements = some e := (hrest.other k hother).trans hfound
    exact ⟨e, mem_of_under hkept, hactive, le_rfl, rfl, fun _ => rfl⟩

include hfree hsingle hlasts hle hsub hall hsome hrest

theorem completes : g.Completes xs later s t u v where
  same := (authorities_eq hall.regular hrest.regular
    (authority_resumed hfree hsingle hlasts hle hsub hall hsome hrest) later).symm
  target x hx := by
    refine ⟨g.lifetimeOver s.now (inForce (g.key x) s.entitlements),
      lifetimeOver_cases hfree hsingle hx, ?_⟩
    have hauthority := authority_resumed hfree hsingle hlasts hle hsub hall hsome hrest (g.key x)
    rw [hall.authority hfree hsingle hx] at hauthority
    obtain ⟨e, he, hesame⟩ := Option.map_eq_some_iff.mp hauthority.symm
    obtain ⟨id, y, hrow⟩ := hrest.row x hx
    have hweaker : g.lifetime ≤ e.lifetime := by
      rw [he] at hrow
      rw [Option.some.inj hrow]
      exact le_grantedRow _ _ _
    have hactive : e.active later = true := by
      rw [ScopeEntitlement.active, unexpired_of_le hlasts hweaker, Bool.and_true,
        Option.isNone_iff_eq_none]
      exact ScopeEntitlement.ended_of_activeKey (index_of_under he)
    refine ⟨e, mem_of_under he, ⟨hactive, _, hesame⟩, hesame, fun f hf hfor => ?_⟩
    have hfound : inForce (g.key x) v.entitlements = some f :=
      under_of_mem hrest.regular.keys.2 hf hfor.activeKey
    exact Option.some.inj (hfound.symm.trans he)
  reused e he hactive := reused_of_active hlasts hsub hsome hrest he hactive

end DirectGrant

section Resumed

variable [Locale] {agentId : Id} {input : CreateAgentPermission} {actorUserId : Id}
  {organizationId : Option Id} {s t u v w : Store} {plan : PermissionPlan} {later : ℕ}

/-- The checks of a request look at nothing that its own grants change. -/
theorem sameChecks_of_granted {g : DirectGrant} {now : ℕ} {xs : List GrantTarget}
    (h : g.Granted now xs s u) (later : ℕ) : SameChecks (s.atTime later) (u.atTime later) := by
  have husers := h.users
  obtain ⟨n, rows, rfl⟩ := h.elsewhere
  exact ⟨rfl, rfl, rfl, fun userId resourceId time => (husers userId resourceId time).symm⟩

theorem passes_iff (h : SameChecks s t) : s.Passes agentId input actorUserId organizationId ↔
    t.Passes agentId input actorUserId organizationId := by
  have hsame :=
    ((agrees_planPermission agentId input actorUserId organizationId).exec h).1
  constructor
  · rintro ⟨plan, u, hplan⟩
    rw [hplan] at hsame
    exact ⟨plan, (exec _ t).2, Prod.ext hsame.symm rfl⟩
  · rintro ⟨plan, u, hplan⟩
    rw [hplan] at hsame
    exact ⟨plan, (exec _ s).2, Prod.ext hsame rfl⟩

variable (hreusable : input.lifetime ≠ .once)

include hreusable

/-- A request whose grants are there changes no entitlement. -/
theorem exec_of_made (hs : s.Regular)
    (hplan : (planPermission agentId input actorUserId organizationId).exec s = (.ok plan, t))
    (hmade : plan.grant.Made plan.targets s) : ∃ es u,
    (createAgentPermission agentId input actorUserId organizationId).exec s = (.ok es, u) ∧
      plan.grant.Granted s.now plan.targets s u ∧ u.entitlements = s.entitlements := by
  obtain ⟨es, u, hexec, hgranted⟩ := exec_of_free hs hreusable hplan hmade.free
  refine ⟨es, u, hexec, hgranted, ?_⟩
  rw [exec_of_plan hplan, now_of_plan hplan] at hexec
  obtain ⟨n, hn, rfl⟩ := (plan_of_exec hplan).1
  have hnone : plan.grant.Granted s.now [] s { s with generated := n } := .refl hs n hn
  have hmade' : plan.grant.Made plan.targets { s with generated := n } := hmade.of_entitlements rfl
  have hunchanged := hmade'.unchanged (lasts_of_plan hreusable hplan) hnone.regular
    (single_of_plan hplan) (inOrder_of_collect hexec)
  exact hunchanged

/-- Once its grants are there, a request that is made again and again changes no entitlement. -/
theorem unchanged_of_reruns
    (hplan : (planPermission agentId input actorUserId organizationId).exec s = (.ok plan, t))
    (h : Reruns (createAgentPermission agentId input actorUserId organizationId) v w)
    (hv : v.Regular) (hdirectory : s.directory = v.directory) (hworld : s.world = v.world)
    (hmade : plan.grant.Made plan.targets v) : w.entitlements = v.entitlements := by
  induction h with
  | done v => rfl
  | @again v w later _ _ ih =>
    by_cases hpasses : (v.atTime later).Passes agentId input actorUserId organizationId
    · obtain ⟨plan', u, hplan'⟩ := hpasses
      obtain ⟨hgrant, htargets⟩ := plan_unique hplan hplan' hdirectory hworld
      have hmade' : plan'.grant.Made plan'.targets (v.atTime later) := by
        rw [hgrant, htargets]
        exact hmade
      obtain ⟨es, u', hexec, hgranted, hsame⟩ :=
        exec_of_made hreusable (hv.atTime later) hplan' hmade'
      have hregular := hgranted.regular
      obtain ⟨n, rows, rfl⟩ := hgranted.elsewhere
      rw [hexec] at ih
      rw [ih hregular hdirectory hworld (hmade.of_entitlements hsame)]
      exact hsame
    · obtain ⟨e, u, hexec, n, hn, rfl⟩ := exec_of_not_passes hpasses
      rw [hexec] at ih
      exact ih ⟨hv.keys, hv.hashes, fun e he m hm => hv.fresh e he m (hn.trans hm)⟩ hdirectory
        hworld hmade

variable (later) in
/-- A request that stops anywhere and is made again later, without anything else happening to the
tables, completes the grants of the whole request, if its checks still pass by then, and any
further repetition changes nothing. If they do not pass, the repetition is refused and changes
nothing. -/
theorem createAgentPermission_resumes (hs : s.Reached) (hle : s.now ≤ later)
    {es : List ScopeEntitlement}
    (hall : (createAgentPermission agentId input actorUserId organizationId).exec s = (.ok es, t))
    (n : ℕ) :
    let request := createAgentPermission agentId input actorUserId organizationId
    ∃ plan, (∃ u, (planPermission agentId input actorUserId organizationId).exec s =
        (.ok plan, u)) ∧
      ((s.atTime later).Passes agentId input actorUserId organizationId →
        ∃ es v, request.exec ((request.stopped n s).atTime later) = (.ok es, v) ∧
          plan.grant.Completes plan.targets later s t (request.stopped n s) v ∧
          ∀ w, Reruns request v w → w.entitlements = v.entitlements) ∧
      (¬(s.atTime later).Passes agentId input actorUserId organizationId →
        ∃ e v, request.exec ((request.stopped n s).atTime later) = (.error e, v) ∧
          v.entitlements = (request.stopped n s).entitlements) := by
  intro request
  have hregular := hs.regular
  have hpassed : s.Passes agentId input actorUserId organizationId := by
    by_contra hrefused
    obtain ⟨e, u, hexec, -⟩ := exec_of_not_passes hrefused
    rw [hall] at hexec
    cases hexec
  obtain ⟨plan, u, hplan⟩ := hpassed
  have hfree := free_of_complete hregular hreusable hplan hall
  obtain ⟨es', t', hall', hgranted⟩ := exec_of_free hregular hreusable hplan hfree
  obtain rfl : t = t' := congrArg Prod.snd (hall.symm.trans hall')
  obtain ⟨before, hsub, hsome⟩ := granted_of_stopped hregular hreusable hplan hfree n
  have hpasses : (s.atTime later).Passes agentId input actorUserId organizationId ↔
      ((request.stopped n s).atTime later).Passes agentId input actorUserId organizationId :=
    passes_iff (sameChecks_of_granted hsome later)
  refine ⟨plan, ⟨u, hplan⟩, fun hlater => ?_, fun hrefused => ?_⟩
  · obtain ⟨plan', u', hplan'⟩ := hpasses.mp hlater
    have helsewhere := hsome.elsewhere
    have hsame : plan'.grant = plan.grant ∧ plan'.targets = plan.targets := by
      obtain ⟨m, rows, hstopped⟩ := helsewhere
      refine plan_unique hplan hplan' ?_ ?_
      · rw [hstopped]
        rfl
      · rw [hstopped]
        rfl
    have hfree' : plan.grant.Free ((request.stopped n s).atTime later) plan.targets :=
      DirectGrant.free_after hfree hsub hsome
    obtain ⟨fs, v, hexec, hrest⟩ := exec_of_free (hsome.regular.atTime later) hreusable hplan' (by
      rw [hsame.1, hsame.2]
      exact hfree')
    rw [hsame.1, hsame.2] at hrest
    have hlasts := lasts_of_plan hreusable hplan'
    rw [hsame.1] at hlasts
    refine ⟨fs, v, hexec, DirectGrant.completes hfree (single_of_plan hplan) hlasts hle hsub
      hgranted
      hsome hrest, fun w hw => ?_⟩
    obtain ⟨m, rows, hstopped⟩ := helsewhere
    obtain ⟨m', rows', hv⟩ := hrest.elsewhere
    refine unchanged_of_reruns hreusable hplan hw hrest.regular ?_ ?_ (hrest.made hfree')
    · rw [hv, hstopped]
      rfl
    · rw [hv, hstopped]
      rfl
  · obtain ⟨e, v, hexec, hread⟩ := exec_of_not_passes fun h => hrefused (hpasses.mpr h)
    exact ⟨e, v, hexec, hread.entitlements_eq⟩

end Resumed

namespace Sample

/-- A scope of the controller that lapses. -/
def lapsing : ScopeEntitlement where
  id := "id-1"
  subject := .user "u" none
  resourceServerId := "notes"
  connectionId := none
  authorizationDetails := []
  authorizationContextHash := contextHash []
  scope := "list"
  lifetime := .expiring 10
  grantedBy := .user "u"
  sourceAccessRequestId := none
  ended := none
  createdAt := 0

/-- The Agent may read and its controller may list, each for a while. -/
def beforeRequest : List (Move Call) :=
  let brief : Call := .createAgentPermission "a" ⟨"https://notes", ["read"], .expiring 50⟩ "u" none
  Move.alone 0 brief 12 ++ Move.alone 1 brief 11 ++
    Move.alone 2 (.createScopeEntitlement lapsing 0) 2

def readAndList : CreateAgentPermission := ⟨"https://notes", ["read", "list"], .persistent⟩

abbrev request : Access (List ScopeEntitlement) := createAgentPermission "a" readAndList "u" none

/-- The request, which is interrupted after its first grant and made again at a time. -/
def resumedAt (s : Store) (later : ℕ) : Except Failure (List ScopeEntitlement) × Store :=
  request.exec ((request.stopped 13 s).atTime later)

def listsAt (later : ℕ) (s : Store) : Bool :=
  s.entitlements.any fun e => e.active later && e.agentIdentityId.isSome && e.scope == "list"

theorem exists_beforeRequest (check : Store → Bool)
    (h : (run beforeRequest).any (fun pool => pool.store.freshCheck && pool.store.now == 0 &&
      check pool.store) = true) :
    ∃ s : Store, s.Reached ∧ s.now = 0 ∧ check s = true := by
  obtain ⟨pool, hpool, hcheck⟩ := reachable_of_run h
  simp only [Bool.and_eq_true, beq_iff_eq] at hcheck
  obtain ⟨⟨hfresh, hnow⟩, hcheck⟩ := hcheck
  exact ⟨pool.store, ⟨⟨pool, hpool, rfl⟩, freshIds_of_check hfresh⟩, hnow, hcheck⟩

theorem exec_of_isOk {α : Type} {p : Access α} {s : Store} (h : (p.exec s).1.isOk = true) :
    ∃ a, p.exec s = (.ok a, (p.exec s).2) := by
  cases hexec : p.exec s with
  | mk result t =>
    rw [hexec] at h
    cases result with
    | error e => cases h
    | ok a => exact ⟨a, rfl⟩

set_option maxRecDepth 10000 in
/-- The request is made again while its controller may still list. -/
theorem createAgentPermission_resumed : ∃ (s t v : Store) (plan : PermissionPlan), s.Reached ∧
    (∃ es, request.exec s = (.ok es, t)) ∧ (∃ es, resumedAt s 5 = (.ok es, v)) ∧
      plan.grant.Completes plan.targets 5 s t (request.stopped 13 s) v := by
  obtain ⟨s, hs, hnow, hcheck⟩ := exists_beforeRequest (fun s =>
    (request.exec s).1.isOk && ((planPermission "a" readAndList "u" none).exec (s.atTime 5)).1.isOk)
    (by decide +kernel)
  rw [Bool.and_eq_true] at hcheck
  obtain ⟨es, hall⟩ := exec_of_isOk hcheck.1
  obtain ⟨plan, hplan⟩ := exec_of_isOk hcheck.2
  obtain ⟨plan, -, hresumes, -⟩ := createAgentPermission_resumes 5 (by decide) hs
    (by omega) hall 13
  obtain ⟨fs, v, hresumed, hcompletes, -⟩ := hresumes ⟨_, _, hplan⟩
  exact ⟨s, _, v, plan, hs, ⟨es, hall⟩, ⟨fs, hresumed⟩, hcompletes⟩

set_option maxRecDepth 10000 in
/-- The request is made again when its controller may not list any longer. It does not expire, and
nothing but the time has changed, and still it is refused and leaves less than the whole request
would have left. -/
theorem not_createAgentPermission_resumed : ∃ s t v : Store, s.Reached ∧ s.now ≤ 20 ∧
    (∃ es, request.exec s = (.ok es, t)) ∧ readAndList.lifetime.lasts 20 = true ∧
      (∃ e, resumedAt s 20 = (.error e, v)) ∧ v.authorities 20 ≠ t.authorities 20 := by
  obtain ⟨s, hs, hnow, hcheck⟩ := exists_beforeRequest (fun s =>
    (request.exec s).1.isOk && !(resumedAt s 20).1.isOk && listsAt 20 (request.exec s).2 &&
      !listsAt 20 (resumedAt s 20).2) (by decide +kernel)
  simp only [Bool.and_eq_true, Bool.not_eq_true'] at hcheck
  obtain ⟨⟨⟨hall, hrefused⟩, hlists⟩, hnot⟩ := hcheck
  obtain ⟨es, hall⟩ := exec_of_isOk hall
  refine ⟨s, _, (resumedAt s 20).2, hs, by omega, ⟨es, hall⟩, rfl, ?_, fun hsame => ?_⟩
  · cases hexec : resumedAt s 20 with
    | mk result v =>
      rw [hexec] at hrefused
      cases result with
      | error e => exact ⟨e, rfl⟩
      | ok fs => cases hrefused
  · obtain ⟨e, he, hselected⟩ := List.any_eq_true.mp hlists
    simp only [Bool.and_eq_true, beq_iff_eq] at hselected
    obtain ⟨⟨hactive, hagent⟩, hscope⟩ := hselected
    have hmem : e.authority ∈ (request.exec s).2.authorities 20 := ⟨e, he, hactive, rfl⟩
    rw [← hsame] at hmem
    obtain ⟨f, hf, hfactive, hauthority⟩ := hmem
    have hfscope : f.scope = "list" := (congrArg Authority.scope hauthority).trans hscope
    have hfagent : f.agentIdentityId = e.agentIdentityId := by
      have hsubject : f.subject = e.subject := congrArg Authority.subject hauthority
      rw [ScopeEntitlement.agentIdentityId, hsubject]
      rfl
    have hlisted : listsAt 20 (resumedAt s 20).2 = true :=
      List.any_eq_true.mpr ⟨f, hf, by simp [hfactive, hfagent, hagent, hfscope]⟩
    rw [hlisted] at hnot
    cases hnot

end Sample

end FlareAuth
