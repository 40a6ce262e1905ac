import FlareAuth.PermissionGrants

/-!
# The grants of one request

A request grants its scopes in each of its Contexts, one after another. What its grants
leave under their keys does not depend on how many of them were made before, and a grant
that was made leaves nothing for another one to do.
-/

namespace FlareAuth

open Concurrent Procedure Access Relational

variable [Locale]

/-- What the grants of one request have in common. -/
structure DirectGrant where
  agentId : Id
  resourceId : Id
  connectionId : Option Id
  lifetime : Lifetime
  actorUserId : Id

/-- A Context and a scope. -/
abbrev GrantTarget := List AuthorizationDetail × String

namespace DirectGrant

variable (g : DirectGrant)

def key (x : GrantTarget) : ScopeEntitlement.ActiveKey :=
  ⟨.agent g.agentId, g.resourceId, g.connectionId.getD "", contextHash x.1, x.2⟩

def entitlement (id : Id) (now : ℕ) (x : GrantTarget) : ScopeEntitlement :=
  directEntitlement id g.agentId g.resourceId g.connectionId x.1 x.2 g.lifetime g.actorUserId now

/-- The body of the loop. -/
def grant (now : ℕ) (x : GrantTarget) : Access ScopeEntitlement := do
  let id ← generateId
  createScopeEntitlement (g.entitlement id now x) now

/-- The grants last when they are made, and are not for a single use. -/
structure Lasts (now : ℕ) : Prop where
  reusable : g.lifetime ≠ .once
  lasts : g.lifetime.lasts now = true

structure Granted (now : ℕ) (xs : List GrantTarget) (s t : Store) : Prop where
  elsewhere : ∃ n rows, t = { s with generated := n, entitlements := rows }
  regular : t.Regular
  other : ∀ k, (∀ x ∈ xs, g.key x ≠ k) → inForce k t.entitlements = inForce k s.entitlements
  row : ∀ x ∈ xs, ∃ id y, inForce (g.key x) t.entitlements =
    some (grantedRow (g.entitlement id now y) now (inForce (g.key x) s.entitlements))
  users : ∀ userId resourceId time, t.listActiveUserScopeEntitlements userId resourceId time =
    s.listActiveUserScopeEntitlements userId resourceId time

variable {g} {now : ℕ} {x : GrantTarget} {xs ys : List GrantTarget} {s t u : Store}

variable (now) in
theorem grantUnder (id : Id) (hsingle : x.1.length ≤ 1) :
    (g.entitlement id now x).GrantUnder (g.key x) := ⟨rfl, rfl, hsingle, fun _ _ => rfl⟩

/-- What a grant leaves under its key lasts, and is not weaker than the grant. -/
theorem le_grantedRow (id : Id) (y : GrantTarget)
    (found : Option ScopeEntitlement) :
    g.lifetime ≤ (grantedRow (g.entitlement id now y) now found).lifetime := by
  cases found with
  | none => exact le_rfl
  | some e =>
    unfold grantedRow
    dsimp only
    split
    · exact le_max_right _ _
    · exact le_rfl

omit [Locale] in
theorem unexpired_of_le (hlasts : g.Lasts now) {e : ScopeEntitlement}
    (h : g.lifetime ≤ e.lifetime) :
    e.unexpired now = true := by
  rw [unexpired_eq]
  exact Lifetime.lasts_of_le h hlasts.reusable hlasts.lasts

/-- A grant over a row that lasts and is not weaker leaves it as it is. -/
theorem grantedRow_of_le (hlasts : g.Lasts now) {e : ScopeEntitlement} (h : g.lifetime ≤ e.lifetime)
    (id : Id) (y : GrantTarget) : grantedRow (g.entitlement id now y) now (some e) = e := by
  have hmax : max e.lifetime (g.entitlement id now y).lifetime = e.lifetime := max_eq_left h
  rw [grantedRow, if_pos (unexpired_of_le hlasts h), hmax]

theorem Granted.refl (hs : s.Regular) (n : ℕ) (hn : s.generated ≤ n) :
    g.Granted now [] s { s with generated := n } where
  elsewhere := ⟨n, s.entitlements, rfl⟩
  regular := ⟨hs.keys, hs.hashes, fun e he m hm => hs.fresh e he m (hn.trans hm)⟩
  other _ _ := rfl
  row _ h := nomatch h
  users _ _ _ := rfl

theorem Granted.trans (hlasts : g.Lasts now) (h : g.Granted now xs s t)
    (h' : g.Granted now ys t u) : g.Granted now (xs ++ ys) s u where
  elsewhere := by
    obtain ⟨n, rows, rfl⟩ := h.elsewhere
    obtain ⟨m, rows', rfl⟩ := h'.elsewhere
    exact ⟨m, rows', rfl⟩
  regular := h'.regular
  other k hk := by
    rw [h'.other k fun y hy => hk y (List.mem_append_right xs hy),
      h.other k fun x hx => hk x (List.mem_append_left ys hx)]
  row x hx := by
    by_cases hlater : ∃ y ∈ ys, g.key y = g.key x
    · obtain ⟨y, hy, hkey⟩ := hlater
      obtain ⟨id, z, hrow⟩ := h'.row y hy
      rw [hkey] at hrow
      by_cases hbefore : ∃ y ∈ xs, g.key y = g.key x
      · obtain ⟨w, hw, hwkey⟩ := hbefore
        obtain ⟨id', z', hrow'⟩ := h.row w hw
        rw [hwkey] at hrow'
        refine ⟨id', z', ?_⟩
        rw [hrow, hrow', grantedRow_of_le hlasts (le_grantedRow _ _ _)]
      · have hsame := h.other (g.key x) fun w hw hwkey => hbefore ⟨w, hw, hwkey⟩
        rw [hsame] at hrow
        exact ⟨id, z, hrow⟩
    · have hbefore : x ∈ xs := by
        rcases List.mem_append.mp hx with hx | hx
        · exact hx
        · exact absurd ⟨x, hx, rfl⟩ hlater
      obtain ⟨id, z, hrow⟩ := h.row x hbefore
      refine ⟨id, z, ?_⟩
      rw [h'.other (g.key x) fun y hy hkey => hlater ⟨y, hy, hkey⟩, hrow]
  users userId resourceId time :=
    (h'.users userId resourceId time).trans (h.users userId resourceId time)

/-- No row of another account is in force under the keys of the targets. -/
def Free (g : DirectGrant) (s : Store) (xs : List GrantTarget) : Prop :=
  ∀ x ∈ xs, s.FreeFor (g.key x) g.connectionId

/-- Grants take no key from another account, and give it none. -/
theorem Granted.freeFor_iff (h : g.Granted now xs s t) (hfree : g.Free s xs)
    (k : ScopeEntitlement.ActiveKey) :
    t.FreeFor k g.connectionId ↔ s.FreeFor k g.connectionId := by
  by_cases hk : ∃ x ∈ xs, g.key x = k
  · obtain ⟨x, hx, rfl⟩ := hk
    refine iff_of_true (fun e he => ?_) (hfree x hx)
    obtain ⟨id, y, hrow⟩ := h.row x hx
    rw [hrow] at he
    obtain rfl := Option.some.inj he
    cases hfound : inForce (g.key x) s.entitlements with
    | none => rfl
    | some e =>
      unfold grantedRow
      dsimp only
      split
      · exact hfree x hx e hfound
      · rfl
  · rw [Store.FreeFor, Store.FreeFor, h.other k fun x hx hkey => hk ⟨x, hx, hkey⟩]

theorem Store.Regular.grantRows (hs : s.Regular) {key : ScopeEntitlement.ActiveKey}
    {input : ScopeEntitlement} (hinput : input.GrantUnder key) (hid : input.id = s.nextId) :
    Store.Regular { s with
      generated := s.generated + 1
      entitlements := FlareAuth.grantRows key input now s.entitlements } := by
  have hnew : ∀ e ∈ s.entitlements, e.id ≠ input.id := by
    intro e he
    rw [hid]
    exact hs.fresh e he s.generated le_rfl
  refine ⟨keysUnique_grantRows now hs.keys hinput.key hnew, fun e he => ?_, fun e he n hn => ?_⟩
  · rcases mem_grantRows he with rfl | ⟨f, hf, lifetime, ended, rfl⟩
    · exact hinput.hashed
    · exact hs.hashes f hf
  · have hn : s.generated + 1 ≤ n := hn
    rcases mem_grantRows he with rfl | ⟨f, hf, lifetime, ended, rfl⟩
    · rw [hid]
      intro hsame
      have hlater := generatedId_inj hsame
      omega
    · exact hs.fresh f hf n (by omega)

/-- The store in which the body of the loop grants. -/
theorem regular_generated (hs : s.Regular) :
    Store.Regular { s with generated := s.generated + 1 } :=
  ⟨hs.keys, hs.hashes, fun e he n hn => hs.fresh e he n (le_trans (Nat.le_succ _) hn)⟩

def after (g : DirectGrant) (now : ℕ) (x : GrantTarget) (s : Store) : Store :=
  { s with
    generated := s.generated + 1
    entitlements := grantRows (g.key x) (g.entitlement s.nextId now x) now s.entitlements }

variable (g now) in
theorem granted_after (hs : s.Regular) (hsingle : x.1.length ≤ 1) :
    g.Granted now [x] s (g.after now x s) where
  elsewhere := ⟨_, _, rfl⟩
  regular := Store.Regular.grantRows hs (grantUnder now s.nextId hsingle) rfl
  other k hk := by
    have hkey : k ≠ g.key x := fun h => hk x List.mem_cons_self h.symm
    exact (inForce_grantRows hs.keys rfl k).trans (if_neg hkey)
  row y hy := by
    obtain rfl := List.mem_singleton.mp hy
    exact ⟨s.nextId, y, (inForce_grantRows hs.keys rfl (g.key y)).trans (if_pos rfl)⟩
  users userId resourceId time := by
    refine filter_grantRows hs.keys (grantUnder now s.nextId hsingle) fun e hagent => ?_
    have hnone : e.userId = none := by
      obtain ⟨id, hsubject⟩ := agent_of_isSome hagent
      rw [ScopeEntitlement.userId, hsubject]
    simp [hnone]

variable (now) in
/-- A grant for a key that no other account holds succeeds. -/
theorem exec_grant (hs : s.Regular) (hsingle : x.1.length ≤ 1)
    (hfree : s.FreeFor (g.key x) g.connectionId) :
    ∃ e, (g.grant now x).exec s = (.ok e, g.after now x s) :=
  exec_createScopeEntitlement (s := { s with generated := s.generated + 1 }) now
    (regular_generated hs) (grantUnder now s.nextId hsingle)
    (fun e he => hs.fresh e he s.generated le_rfl) hfree

/-- A grant that succeeds has found its key free for its account. -/
theorem free_of_exec (hs : s.Regular) (hsingle : x.1.length ≤ 1) {e : ScopeEntitlement}
    (h : (g.grant now x).exec s = (.ok e, t)) :
    s.FreeFor (g.key x) g.connectionId ∧ t = g.after now x s := by
  have hfree : s.FreeFor (g.key x) g.connectionId :=
    freeFor_of_exec (regular_generated hs) (grantUnder now s.nextId hsingle) h
  obtain ⟨f, hexec⟩ := exec_grant now hs hsingle hfree
  rw [h] at hexec
  exact ⟨hfree, congrArg Prod.snd hexec⟩

/-- A grant that stops has left nothing, or all that it leaves. -/
theorem stopped_grant (hs : s.Regular) (hsingle : x.1.length ≤ 1)
    (hfree : s.FreeFor (g.key x) g.connectionId) (n : ℕ) :
    g.Granted now [] s ((g.grant now x).stopped n s) ∨
      g.Granted now [x] s ((g.grant now x).stopped n s) := by
  cases n with
  | zero =>
    rw [stopped_zero]
    exact .inl (.refl hs s.generated le_rfl)
  | succ n =>
    change g.Granted now [] s ((createScopeEntitlement (g.entitlement s.nextId now x) now).stopped n
        { s with generated := s.generated + 1 }) ∨
      g.Granted now [x] s ((createScopeEntitlement (g.entitlement s.nextId now x) now).stopped n
        { s with generated := s.generated + 1 })
    have hnew : ∀ e ∈ s.entitlements, e.id ≠ (g.entitlement s.nextId now x).id := fun e he =>
      hs.fresh e he s.generated le_rfl
    rcases stopped_createScopeEntitlement now (regular_generated hs)
      (grantUnder now s.nextId hsingle) hnew hfree n with hstopped | hstopped
    · rw [hstopped]
      exact .inl (.refl hs _ (Nat.le_succ _))
    · rw [hstopped]
      exact .inr (granted_after g now hs hsingle)

/-- A grant that is already there with a lifetime that is not weaker changes no row. -/
theorem entitlements_after (hs : s.Regular) (hlasts : g.Lasts now) {e : ScopeEntitlement}
    (he : inForce (g.key x) s.entitlements = some e) (hle : g.lifetime ≤ e.lifetime) :
    (g.after now x s).entitlements = s.entitlements := by
  have hmax : max e.lifetime (g.entitlement s.nextId now x).lifetime = e.lifetime := max_eq_left hle
  change grantRows (g.key x) (g.entitlement s.nextId now x) now s.entitlements = s.entitlements
  unfold grantRows
  rw [he]
  dsimp only
  rw [if_pos (unexpired_of_le hlasts hle), hmax]
  refine updateWhere_eq_self fun f hf hid => ?_
  rw [eq_of_key_eq hs.keys.1 hf (mem_of_under he) (beq_iff_eq.mp hid)]

section Loops

variable (hs : s.Regular) (hsingle : ∀ x ∈ xs, x.1.length ≤ 1)

include hs hsingle

/-- Grants that succeed one after another. -/
theorem granted_of_inOrder (hlasts : g.Lasts now) (h : Procedure.InOrder (g.grant now) xs s t) :
    g.Free s xs ∧ g.Granted now xs s t := by
  induction h with
  | nil s => exact ⟨fun x hx => (nomatch hx), .refl hs s.generated le_rfl⟩
  | @cons x xs s t u e hbody _ ih =>
    have hx := hsingle x List.mem_cons_self
    obtain ⟨hfree, rfl⟩ := free_of_exec hs hx hbody
    have hgranted := granted_after g now hs hx
    obtain ⟨hrest, hgranted'⟩ :=
      ih hgranted.regular fun y hy => hsingle y (List.mem_cons_of_mem x hy)
    have hone : g.Free s [x] := fun y hy => List.mem_singleton.mp hy ▸ hfree
    refine ⟨fun y hy => ?_, hgranted.trans hlasts hgranted'⟩
    rcases List.mem_cons.mp hy with rfl | hy
    · exact hfree
    · exact (hgranted.freeFor_iff hone _).mp (hrest y hy)

variable (now) in
/-- Grants for free keys all succeed. -/
theorem inOrder_of_free (hfree : g.Free s xs) :
    ∃ t, Procedure.InOrder (g.grant now) xs s t := by
  induction xs generalizing s with
  | nil => exact ⟨s, .nil s⟩
  | cons x xs ih =>
    have hx := hsingle x List.mem_cons_self
    obtain ⟨e, hexec⟩ := exec_grant now hs hx (hfree x List.mem_cons_self)
    have hgranted := granted_after g now hs hx
    have hone : g.Free s [x] := fun y hy =>
      List.mem_singleton.mp hy ▸ hfree x List.mem_cons_self
    obtain ⟨u, hrest⟩ := ih hgranted.regular (fun y hy => hsingle y (List.mem_cons_of_mem x hy))
      fun y hy => (hgranted.freeFor_iff hone _).mpr (hfree y (List.mem_cons_of_mem x hy))
    exact ⟨u, .cons hexec hrest⟩

/-- A loop that stops has made the grants for some of its first targets. -/
theorem stopped_grants (hlasts : g.Lasts now) (hfree : g.Free s xs) (n : ℕ) :
    ∃ before after, xs = before ++ after ∧
      g.Granted now before s ((collect xs (g.grant now)).stopped n s) := by
  obtain ⟨before, after, t, rfl, horder, hstopped⟩ := stopped_collect xs (g.grant now) n s
  obtain ⟨-, hgranted⟩ := granted_of_inOrder hs
    (fun x hx => hsingle x (List.mem_append_left after hx)) hlasts horder
  rcases hstopped with hstopped | ⟨x, rest, m, rfl, hstopped⟩
  · rw [hstopped]
    exact ⟨before, after, rfl, hgranted⟩
  · have hmem : x ∈ before ++ x :: rest := List.mem_append_right before List.mem_cons_self
    have hfreeBefore : g.Free s before := fun y hy => hfree y (List.mem_append_left _ hy)
    have hx : t.FreeFor (g.key x) g.connectionId :=
      (hgranted.freeFor_iff hfreeBefore _).mpr (hfree x hmem)
    have hstep := hsingle x hmem
    rw [hstopped]
    rcases stopped_grant hgranted.regular hstep hx m with hnothing | hmade
    · refine ⟨before, x :: rest, rfl, ?_⟩
      rw [← List.append_nil before]
      exact hgranted.trans hlasts hnothing
    · exact ⟨before ++ [x], rest, by rw [List.append_assoc, List.singleton_append],
        hgranted.trans hlasts hmade⟩

end Loops

end DirectGrant

section Authorities

/-- What an entitlement allows to whom, and for how long. -/
structure Authority where
  subject : Subject
  resourceServerId : Id
  connectionId : Option Id
  authorizationContextHash : Digest String
  scope : String
  lifetime : Lifetime

def ScopeEntitlement.authority (e : ScopeEntitlement) : Authority where
  subject := e.subject
  resourceServerId := e.resourceServerId
  connectionId := e.connectionId
  authorizationContextHash := e.authorizationContextHash
  scope := e.scope
  lifetime := e.lifetime

/-- What is allowed at a time. -/
def Store.authorities (s : Store) (now : ℕ) : Set Authority :=
  {a | ∃ e ∈ s.entitlements, e.active now = true ∧ e.authority = a}

def Store.atTime (s : Store) (now : ℕ) : Store := { s with now := now }

variable {s t : Store}

theorem Store.Regular.atTime (hs : s.Regular) (now : ℕ) : (s.atTime now).Regular :=
  ⟨hs.keys, hs.hashes, hs.fresh⟩

theorem authorities_subset (hs : s.Regular) (h : ∀ k, (inForce k s.entitlements).map
      ScopeEntitlement.authority = (inForce k t.entitlements).map ScopeEntitlement.authority)
    (now : ℕ) : s.authorities now ⊆ t.authorities now := by
  rintro a ⟨e, he, hactive, rfl⟩
  rw [ScopeEntitlement.active, Bool.and_eq_true, Option.isNone_iff_eq_none] at hactive
  obtain ⟨k, hk⟩ := ScopeEntitlement.activeKey_isSome hactive.1
  have hsame := h k
  rw [inForce, under_of_mem hs.keys.2 he hk, Option.map_some] at hsame
  obtain ⟨f, hf, hauthority⟩ := Option.map_eq_some_iff.mp hsame.symm
  refine ⟨f, mem_of_under hf, ?_, hauthority⟩
  have hlifetime : f.lifetime = e.lifetime := congrArg Authority.lifetime hauthority
  rw [ScopeEntitlement.active, Bool.and_eq_true, Option.isNone_iff_eq_none]
  refine ⟨ScopeEntitlement.ended_of_activeKey (index_of_under hf), ?_⟩
  rw [unexpired_eq, hlifetime, ← unexpired_eq]
  exact hactive.2

/-- Stores with the same authority in force under each key allow the same at each time. -/
theorem authorities_eq (hs : s.Regular) (ht : t.Regular) (h : ∀ k, (inForce k s.entitlements).map
      ScopeEntitlement.authority = (inForce k t.entitlements).map ScopeEntitlement.authority)
    (now : ℕ) : s.authorities now = t.authorities now :=
  (authorities_subset hs h now).antisymm (authorities_subset ht (fun k => (h k).symm) now)

end Authorities

namespace DirectGrant

variable (g : DirectGrant) {now later : ℕ} {x : GrantTarget} {xs before : List GrantTarget}
  {s t u : Store}

def authority (x : GrantTarget) (lifetime : Lifetime) : Authority where
  subject := .agent g.agentId
  resourceServerId := g.resourceId
  connectionId := g.connectionId
  authorizationContextHash := contextHash x.1
  scope := x.2
  lifetime := lifetime

/-- How long a grant lasts, by what it finds under its key. -/
def lifetimeOver (now : ℕ) : Option ScopeEntitlement → Lifetime
  | none => g.lifetime
  | some e => if e.unexpired now then max e.lifetime g.lifetime else g.lifetime

variable {g}

theorem lifetime_grantedRow (id : Id) (y : GrantTarget) (found : Option ScopeEntitlement) :
    (grantedRow (g.entitlement id now y) now found).lifetime = g.lifetimeOver now found := by
  cases found with
  | none => rfl
  | some e =>
    unfold grantedRow lifetimeOver
    dsimp only
    split <;> rfl

omit [Locale] in
/-- It does not matter when a grant is made, as long as it lasts. -/
theorem lifetimeOver_later (hle : now ≤ later) (hlasts : g.Lasts later)
    (found : Option ScopeEntitlement) : g.lifetimeOver later found = g.lifetimeOver now found := by
  cases found with
  | none => rfl
  | some e =>
    unfold lifetimeOver
    dsimp only
    by_cases hlater : e.unexpired later = true
    · have hnow : e.unexpired now = true := by
        rw [unexpired_eq] at hlater ⊢
        exact Lifetime.lasts_before hle hlater
      rw [if_pos hlater, if_pos hnow]
    · rw [if_neg hlater]
      split
      · rw [unexpired_eq, Bool.not_eq_true] at hlater
        exact (max_eq_right (Lifetime.le_of_ended hlasts.reusable hlasts.lasts hlater)).symm
      · rfl

/-- What is allowed under the keys of the targets. -/
theorem Granted.authority (h : g.Granted now xs s t) (hfree : g.Free s xs)
    (hsingle : ∀ x ∈ xs, x.1.length ≤ 1) (hx : x ∈ xs) :
    (inForce (g.key x) t.entitlements).map ScopeEntitlement.authority =
      some (g.authority x (g.lifetimeOver now (inForce (g.key x) s.entitlements))) := by
  obtain ⟨id, y, hrow⟩ := h.row x hx
  have hconnection := (h.freeFor_iff hfree (g.key x)).mpr (hfree x hx) _ hrow
  obtain ⟨hsubject, hresource, hhash, hscope⟩ :=
    (grantUnder now id (hsingle x hx)).same (index_of_under hrow)
  rw [hrow, Option.map_some, ScopeEntitlement.authority, hsubject, hresource, hconnection, hhash,
    hscope, lifetime_grantedRow]
  rfl

theorem authority_of_key {y : GrantTarget} (h : g.key y = g.key x) (lifetime : Lifetime) :
    g.authority y lifetime = g.authority x lifetime := by
  unfold key at h
  simp only [ScopeEntitlement.ActiveKey.mk.injEq] at h
  rw [authority, h.2.2.2.1, h.2.2.2.2]
  rfl

section Resumed

variable {v : Store} (hfree : g.Free s xs) (hsingle : ∀ x ∈ xs, x.1.length ≤ 1)
  (hlasts : g.Lasts later) (hle : now ≤ later) (hsub : before ⊆ xs)
  (hall : g.Granted now xs s t) (hsome : g.Granted now before s u)
  (hrest : g.Granted later xs (u.atTime later) v)

include hfree hsub hsome in
theorem free_after : g.Free (u.atTime later) xs := fun x hx =>
  (hsome.freeFor_iff (fun y hy => hfree y (hsub hy)) (g.key x)).mpr (hfree x hx)

include hlasts hsub hsome hrest

/-- What was granted before stays as it is. -/
theorem inForce_before (hx : x ∈ before) :
    inForce (g.key x) v.entitlements = inForce (g.key x) u.entitlements := by
  obtain ⟨id, y, hrow⟩ := hsome.row x hx
  obtain ⟨id', y', hrow'⟩ := hrest.row x (hsub hx)
  change inForce (g.key x) v.entitlements = some (grantedRow (g.entitlement id' later y') later
    (inForce (g.key x) u.entitlements)) at hrow'
  rw [hrow', hrow, grantedRow_of_le hlasts (le_grantedRow _ _ _)]

include hfree hsingle hle hall

/-- The rest of the grants leave what all of them would have left at once. -/
theorem authority_resumed (k : ScopeEntitlement.ActiveKey) :
    (inForce k t.entitlements).map ScopeEntitlement.authority =
      (inForce k v.entitlements).map ScopeEntitlement.authority := by
  have hbefore : g.Free s before := fun y hy => hfree y (hsub hy)
  by_cases hk : ∃ x ∈ xs, g.key x = k
  · obtain ⟨x, hx, rfl⟩ := hk
    rw [hall.authority hfree hsingle hx]
    by_cases hmade : ∃ y ∈ before, g.key y = g.key x
    · obtain ⟨y, hy, hkey⟩ := hmade
      have hsame := inForce_before hlasts hsub hsome hrest hy
      have hauthority := hsome.authority hbefore (fun z hz => hsingle z (hsub hz)) hy
      rw [authority_of_key hkey, ← hsame, hkey] at hauthority
      exact hauthority.symm
    · have hsame := hsome.other (g.key x) fun y hy hkey => hmade ⟨y, hy, hkey⟩
      rw [hrest.authority (free_after hfree hsub hsome) hsingle hx, lifetimeOver_later hle hlasts]
      change some (g.authority x (g.lifetimeOver now (inForce (g.key x) s.entitlements))) =
        some (g.authority x (g.lifetimeOver now (inForce (g.key x) u.entitlements)))
      rw [hsame]
  · have hother : ∀ x ∈ xs, g.key x ≠ k := fun x hx hkey => hk ⟨x, hx, hkey⟩
    rw [hall.other k hother, hrest.other k hother]
    exact congrArg _ (hsome.other k fun x hx => hother x (hsub hx)).symm

end Resumed

end DirectGrant

end FlareAuth
