import FlareAuth.Concurrent.Stopped
import FlareAuth.ContextHashes
import FlareAuth.LifetimeJoins
import FlareAuth.Relational.Indexed

/-!
# Direct grants that run alone

A direct grant in a Context of at most one detail concerns one row, the one under its key:
it extends that row, or replaces it once it has expired, or inserts it. Only a row of
another account under the key makes it fail.
-/

namespace FlareAuth

open Concurrent Procedure Access Relational Repository Statement

section Lifetimes

variable {l l' : Lifetime} {now later : ℕ}

def Lifetime.lasts (l : Lifetime) (now : ℕ) : Bool := l.expiresAt.all fun t => decide (now < t)

theorem unexpired_eq (e : ScopeEntitlement) (now : ℕ) : e.unexpired now = e.lifetime.lasts now := by
  unfold ScopeEntitlement.unexpired ScopeEntitlement.expiresAt Lifetime.lasts
  cases e.lifetime.expiresAt <;> rfl

theorem Lifetime.lasts_before (h : now ≤ later) (hlasts : l.lasts later = true) :
    l.lasts now = true := by
  cases l with
  | once => rfl
  | persistent => rfl
  | expiring t =>
    have hlater : later < t := of_decide_eq_true hlasts
    exact decide_eq_true (by omega)

theorem Lifetime.lasts_max (h : l.lasts now = true) (h' : l'.lasts now = true) :
    (max l l').lasts now = true := by
  rcases le_total l l' with hle | hle
  · rwa [max_eq_right hle]
  · rwa [max_eq_left hle]

/-- A stronger lifetime lasts as well, unless the weaker one is a single use. -/
theorem Lifetime.lasts_of_le (h : l ≤ l') (hne : l ≠ .once) (hlasts : l.lasts now = true) :
    l'.lasts now = true := by
  cases l' with
  | once => exact absurd (le_antisymm h (once_le l)) hne
  | persistent => rfl
  | expiring t' =>
    cases l with
    | once => exact absurd rfl hne
    | persistent => exact nomatch persistent_le.mp h
    | expiring t =>
      have hle : t ≤ t' := expiring_le_expiring.mp h
      have hlasts : now < t := of_decide_eq_true hlasts
      exact decide_eq_true (by omega)

theorem Lifetime.le_of_ended (hne : l' ≠ .once) (hlasts : l'.lasts now = true)
    (h : l.lasts now = false) : l ≤ l' := by
  rcases le_total l l' with hle | hle
  · exact hle
  · rw [lasts_of_le hle hne hlasts] at h
    cases h

end Lifetimes

section Rows

variable {key k : ScopeEntitlement.ActiveKey} {input e : ScopeEntitlement} {now : ℕ}
  {rows : List ScopeEntitlement}

abbrev inForce (key : ScopeEntitlement.ActiveKey) (rows : List ScopeEntitlement) :
    Option ScopeEntitlement := under ScopeEntitlement.activeKey key rows

def grantedRow (input : ScopeEntitlement) (now : ℕ) : Option ScopeEntitlement → ScopeEntitlement
  | none => input
  | some e =>
    if e.unexpired now then { e with lifetime := max e.lifetime input.lifetime } else input

def grantRows (key : ScopeEntitlement.ActiveKey) (input : ScopeEntitlement) (now : ℕ)
    (rows : List ScopeEntitlement) : List ScopeEntitlement :=
  match inForce key rows with
  | none => rows ++ [input]
  | some e =>
    if e.unexpired now then
      updateWhere (fun f => f.id == e.id)
        (fun f => { f with lifetime := max e.lifetime input.lifetime }) rows
    else updateWhere (fun f => f.id == e.id) (·.finish .expired now) rows ++ [input]

/-- A row after a grant is the granted one, or an old one which may have been extended or ended. -/
theorem mem_grantRows (he : e ∈ grantRows key input now rows) : e = input ∨
    ∃ f ∈ rows, ∃ lifetime ended, e = { f with lifetime := lifetime, ended := ended } := by
  unfold grantRows at he
  cases hfound : inForce key rows with
  | none =>
    rw [hfound] at he
    rcases List.mem_append.mp he with he | he
    · exact .inr ⟨e, he, e.lifetime, e.ended, rfl⟩
    · exact .inl (List.mem_singleton.mp he)
  | some f =>
    rw [hfound] at he
    dsimp only at he
    split at he
    · obtain ⟨f₀, hf₀, rfl⟩ := mem_updateWhere.mp he
      refine .inr ⟨f₀, hf₀, ?_⟩
      split
      · exact ⟨_, f₀.ended, rfl⟩
      · exact ⟨f₀.lifetime, f₀.ended, rfl⟩
    · rcases List.mem_append.mp he with he | he
      · obtain ⟨f₀, hf₀, rfl⟩ := mem_updateWhere.mp he
        refine .inr ⟨f₀, hf₀, ?_⟩
        split
        · exact ⟨f₀.lifetime, _, rfl⟩
        · exact ⟨f₀.lifetime, f₀.ended, rfl⟩
      · exact .inl (List.mem_singleton.mp he)

variable (hkeys : KeysUnique rows)

include hkeys

theorem keysUnique_insert (hinput : input.activeKey = some key) (hfree : inForce key rows = none)
    (hid : ∀ e ∈ rows, e.id ≠ input.id) : KeysUnique (rows ++ [input]) := by
  refine ⟨nodup_map_append_singleton hkeys.1 hid, nodup_index_append hkeys.2 fun k hk => ?_⟩
  obtain rfl : key = k := Option.some.inj (hinput.symm.trans hk)
  exact hfree

theorem keysUnique_lifetime (id : Id) (lifetime : Lifetime) :
    KeysUnique (updateWhere (fun f => f.id == id) (fun f => { f with lifetime := lifetime })
      rows) := by
  constructor
  · exact nodup_map_updateWhere (fun _ _ => rfl) hkeys.1
  · have hsame : (updateWhere (fun f => f.id == id) (fun f => { f with lifetime := lifetime })
        rows).filterMap ScopeEntitlement.activeKey = rows.filterMap ScopeEntitlement.activeKey :=
      filterMap_updateWhere_index fun _ _ _ => rfl
    exact hsame ▸ hkeys.2

omit hkeys in
theorem inForce_lifetime (id : Id) (lifetime : Lifetime) (k : ScopeEntitlement.ActiveKey) :
    inForce k (updateWhere (fun f => f.id == id) (fun f => { f with lifetime := lifetime }) rows) =
      (inForce k rows).map fun f => if f.id == id then { f with lifetime := lifetime } else f :=
  under_updateWhere fun _ _ _ => rfl

/-- A row under another key has another identifier. -/
theorem id_of_other (he : inForce key rows = some e) (hne : k ≠ key) {f : ScopeEntitlement}
    (hf : inForce k rows = some f) : (f.id == e.id) = false := by
  rw [beq_eq_false_iff_ne]
  intro hid
  have hsame : f = e := eq_of_key_eq hkeys.1 (mem_of_under hf) (mem_of_under he) hid
  have hkey := index_of_under hf
  rw [hsame, index_of_under he] at hkey
  exact hne (Option.some.inj hkey).symm

theorem inForce_ended (he : inForce key rows = some e) (k : ScopeEntitlement.ActiveKey) :
    inForce k (updateWhere (fun f => f.id == e.id) (·.finish .expired now) rows) =
      if k = key then none else inForce k rows := by
  rw [inForce, under_removed hkeys.2 fun f _ _ => ScopeEntitlement.activeKey_of_ended rfl]
  by_cases hk : k = key
  · rw [if_pos hk, hk, ← inForce, he, Option.filter_some, if_neg (by simp)]
  · rw [if_neg hk]
    cases hf : inForce k rows with
    | none => rw [← inForce, hf, Option.filter_none]
    | some f =>
      rw [← inForce, hf, Option.filter_some, if_pos (by simpa using id_of_other hkeys he hk hf)]

variable (hinput : input.activeKey = some key) (hid : ∀ e ∈ rows, e.id ≠ input.id)

omit hkeys in
include hid in
theorem id_of_ended {id : Id} :
    ∀ f ∈ updateWhere (fun f => f.id == id) (·.finish .expired now) rows, f.id ≠ input.id := by
  intro f hf
  obtain ⟨f₀, hf₀, rfl⟩ := mem_updateWhere.mp hf
  split <;> exact hid f₀ hf₀

include hinput hid

variable (now) in
theorem keysUnique_grantRows : KeysUnique (grantRows key input now rows) := by
  unfold grantRows
  cases he : inForce key rows with
  | none => exact keysUnique_insert hkeys hinput he hid
  | some e =>
    dsimp only
    by_cases hunexpired : e.unexpired now = true
    · rw [if_pos hunexpired]
      exact keysUnique_lifetime hkeys _ _
    · rw [if_neg hunexpired]
      refine keysUnique_insert (keysUnique_end _ _ _ hkeys) hinput ?_ (id_of_ended hid)
      rw [inForce_ended hkeys he, if_pos rfl]

omit hid in
theorem inForce_grantRows (k : ScopeEntitlement.ActiveKey) :
    inForce k (grantRows key input now rows) =
      if k = key then some (grantedRow input now (inForce key rows)) else inForce k rows := by
  have hother : k ≠ key → input.activeKey ≠ some k := by
    intro hne hk
    exact hne (Option.some.inj (hk.symm.trans hinput))
  unfold grantRows
  cases he : inForce key rows with
  | none =>
    by_cases hk : k = key
    · subst hk
      rw [if_pos rfl]
      exact under_append_self he hinput
    · rw [if_neg hk]
      exact under_append_of_ne (hother hk)
  | some e =>
    dsimp only [grantedRow]
    by_cases hunexpired : e.unexpired now = true
    · rw [if_pos hunexpired, if_pos hunexpired, inForce_lifetime]
      by_cases hk : k = key
      · rw [if_pos hk, hk, he, Option.map_some, if_pos (by simp)]
      · rw [if_neg hk]
        cases hf : inForce k rows with
        | none => rfl
        | some f => rw [Option.map_some, if_neg (by simpa using id_of_other hkeys he hk hf)]
    · rw [if_neg hunexpired, if_neg hunexpired]
      by_cases hk : k = key
      · subst hk
        rw [if_pos rfl]
        exact under_append_self ((inForce_ended hkeys he k).trans (if_pos rfl)) hinput
      · rw [if_neg hk]
        exact (under_append_of_ne (hother hk)).trans ((inForce_ended hkeys he k).trans (if_neg hk))

end Rows

section Runs

variable [Locale] {s t : Store} {key : ScopeEntitlement.ActiveKey} {input e : ScopeEntitlement}
  {now : ℕ}

/-- What the rows of a store that is reached are like. -/
structure Store.Regular (s : Store) : Prop where
  keys : KeysUnique s.entitlements
  hashes : ∀ e ∈ s.entitlements, e.Hashed
  fresh : s.FreshIds

theorem Store.Reached.regular (h : s.Reached) : s.Regular := by
  obtain ⟨⟨pool, hpool, rfl⟩, hfresh⟩ := h
  exact ⟨hpool.valid.entitlements, hashed_of_reachable hpool, hfresh⟩

/-- A grant to an Agent under a key, in a Context of at most one detail. -/
structure ScopeEntitlement.GrantUnder (key : ScopeEntitlement.ActiveKey)
    (input : ScopeEntitlement) :
    Prop where
  key : input.activeKey = some key
  agent : input.agentIdentityId.isSome = true
  single : input.authorizationDetails.length ≤ 1
  hashed : input.Hashed

omit [Locale] in
theorem agent_of_isSome (h : e.agentIdentityId.isSome = true) : ∃ id, e.subject = .agent id := by
  unfold ScopeEntitlement.agentIdentityId at h
  split at h
  · exact ⟨_, by assumption⟩
  · cases h

/-- What is in force under the key of a grant is of the same Agent, resource, Context and scope. -/
theorem ScopeEntitlement.GrantUnder.same (hinput : input.GrantUnder key)
    (hkey : e.activeKey = some key) : e.subject = input.subject ∧
      e.resourceServerId = input.resourceServerId ∧
      e.authorizationContextHash = input.authorizationContextHash ∧ e.scope = input.scope := by
  obtain ⟨agent, hsubject⟩ := agent_of_isSome hinput.agent
  have hended := ScopeEntitlement.ended_of_activeKey hinput.key
  have hended' := ScopeEntitlement.ended_of_activeKey hkey
  have hinputKey := (ScopeEntitlement.activeKey_agent hended hsubject).symm.trans hinput.key
  have hsubject' : e.subject = .agent agent := by
    have hsame := hkey.trans hinputKey.symm
    unfold ScopeEntitlement.activeKey at hsame
    rw [hended'] at hsame
    cases hs : e.subject with
    | agent id =>
      rw [hs] at hsame
      simp only [Option.isSome_none, Bool.false_eq_true, if_false, Option.some.injEq,
        ScopeEntitlement.ActiveKey.mk.injEq] at hsame
      exact hsame.1
    | user id organizationId =>
      rw [hs] at hsame
      simp at hsame
    | application id =>
      rw [hs] at hsame
      simp at hsame
  have hsame := (ScopeEntitlement.activeKey_agent hended' hsubject').symm.trans
    (hkey.trans hinputKey.symm)
  simp only [Option.some.injEq, ScopeEntitlement.ActiveKey.mk.injEq] at hsame
  exact ⟨hsubject'.trans hsubject.symm, hsame.2.1, hsame.2.2.2⟩

/-- A grant to an Agent leaves all rows of others. -/
theorem filter_grantRows {rows : List ScopeEntitlement} (hkeys : KeysUnique rows)
    (hinput : input.GrantUnder key) {q : ScopeEntitlement → Bool}
    (hq : ∀ e : ScopeEntitlement, e.agentIdentityId.isSome = true → q e = false) :
    (grantRows key input now rows).filter q = rows.filter q := by
  have hnew : [input].filter q = [] := by simp [hq input hinput.agent]
  have hupdate : ∀ e (f : ScopeEntitlement → ScopeEntitlement), inForce key rows = some e →
      (∀ r, (f r).agentIdentityId = r.agentIdentityId) →
      (updateWhere (fun r => r.id == e.id) f rows).filter q = rows.filter q := by
    intro e f he hf
    refine filter_updateWhere fun r hr hid => ?_
    obtain rfl : r = e := eq_of_key_eq hkeys.1 hr (mem_of_under he) (beq_iff_eq.mp hid)
    have hagent : r.agentIdentityId.isSome = true := by
      rw [ScopeEntitlement.agentIdentityId, (hinput.same (index_of_under he)).1]
      exact hinput.agent
    exact ⟨hq r hagent, hq (f r) (by rwa [hf r])⟩
  unfold grantRows
  cases he : inForce key rows with
  | none =>
    dsimp only
    rw [List.filter_append, hnew, List.append_nil]
  | some e =>
    dsimp only
    split
    · exact hupdate e _ he fun _ => rfl
    · rw [List.filter_append, hnew, List.append_nil]
      exact hupdate e _ he fun _ => rfl

/-- The equivalents of a grant are what is in force under its key for the same account. -/
theorem equivalent_iff (hinput : input.GrantUnder key) (he : e.Hashed) :
    activeEquivalentEntitlement input e = true ↔
      e.activeKey = some key ∧ e.connectionId = input.connectionId := by
  have hended := ScopeEntitlement.ended_of_activeKey hinput.key
  rw [activeEquivalentEntitlement]
  simp only [Bool.and_eq_true, beq_iff_eq, Bool.or_eq_true, Option.isNone_iff_eq_none]
  constructor
  · rintro ⟨⟨⟨⟨⟨hsubject, hresource⟩, hconnection⟩, hcontext⟩, hscope⟩, hended'⟩
    have hhash : e.authorizationContextHash = input.authorizationContextHash := by
      rcases hcontext with hhash | htext
      · exact hhash
      · have hdetails : e.authorizationDetails = input.authorizationDetails :=
          Json.array.inj (Json.stringify_injective htext)
        have hagent : e.agentIdentityId.isSome = true := by
          rw [ScopeEntitlement.agentIdentityId, hsubject]
          exact hinput.agent
        rw [he hagent (hdetails ▸ hinput.single),
          hinput.hashed hinput.agent hinput.single, hdetails]
    rw [ScopeEntitlement.activeKey_congr (hended'.trans hended.symm) hsubject hresource hconnection
      hhash hscope]
    exact ⟨hinput.key, hconnection⟩
  · rintro ⟨hkey, hconnection⟩
    obtain ⟨hsubject, hresource, hhash, hscope⟩ := hinput.same hkey
    exact ⟨⟨⟨⟨⟨hsubject, hresource⟩, hconnection⟩, .inl hhash⟩, hscope⟩,
      ScopeEntitlement.ended_of_activeKey hkey⟩

/-- No row of another account is in force under the key. -/
def Store.FreeFor (s : Store) (key : ScopeEntitlement.ActiveKey)
    (connectionId : Option Id) : Prop :=
  ∀ e, inForce key s.entitlements = some e → e.connectionId = connectionId

/-- What a grant finds. -/
theorem find_equivalent (hs : s.Regular) (hinput : input.GrantUnder key) :
    s.entitlements.find? (activeEquivalentEntitlement input) =
      (inForce key s.entitlements).filter fun e => e.connectionId == input.connectionId := by
  cases hfound : s.entitlements.find? (activeEquivalentEntitlement input) with
  | none =>
    symm
    rw [Option.filter_eq_none_iff]
    intro e he hconnection
    have hmem := mem_of_under he
    have hequivalent := (equivalent_iff hinput (hs.hashes e hmem)).mpr
      ⟨index_of_under he, beq_iff_eq.mp hconnection⟩
    exact List.find?_eq_none.mp hfound e hmem hequivalent
  | some e =>
    have hmem := List.mem_of_find?_eq_some hfound
    obtain ⟨hkey, hconnection⟩ :=
      (equivalent_iff hinput (hs.hashes e hmem)).mp (List.find?_some hfound)
    rw [inForce, under_of_mem hs.keys.2 hmem hkey, Option.filter_some,
      if_pos (by simp [hconnection])]

/-- A grant over the row in force under its key. -/
theorem exec_mergeScopeEntitlement (hs : s.Regular) (hinput : input.GrantUnder key)
    (hid : ∀ e ∈ s.entitlements, e.id ≠ input.id) (he : inForce key s.entitlements = some e) :
    ∃ x, (mergeScopeEntitlement e input now).exec s =
      (.ok x, { s with entitlements := grantRows key input now s.entitlements }) := by
  have hkeys := keysUnique_grantRows now hs.keys hinput.key hid
  have hmem := mem_of_under he
  have hmax := Lifetime.strongerLifetime_getD e.lifetime input.lifetime
  unfold mergeScopeEntitlement
  by_cases hunexpired : e.unexpired now = true
  · have hrows : grantRows key input now s.entitlements = updateWhere (fun f => f.id == e.id)
        (fun f => { f with lifetime := max e.lifetime input.lifetime }) s.entitlements := by
      unfold grantRows
      rw [he]
      exact if_pos hunexpired
    obtain ⟨-, -, hhash, -⟩ := hinput.same (index_of_under he)
    have hsame : ∀ f ∈ s.entitlements, (f.id == e.id) = true → f = e := fun f hf hfid =>
      eq_of_key_eq hs.keys.1 hf hmem (beq_iff_eq.mp hfid)
    rw [hunexpired, Bool.not_true, if_neg Bool.false_ne_true]
    dsimp only
    by_cases hkeeps : strongerLifetime e.lifetime input.lifetime = none
    · rw [if_pos ⟨hkeeps, hhash⟩]
      rw [hkeeps, Option.getD_none] at hmax
      have hunchanged : grantRows key input now s.entitlements = s.entitlements := by
        rw [hrows]
        refine updateWhere_eq_self fun f hf hfid => ?_
        rw [hsame f hf hfid, ← hmax]
      rw [hunchanged]
      exact ⟨e, rfl⟩
    · rw [if_neg fun h => hkeeps h.1]
      have hwritten : updateWhere (fun f => f.id == e.id) (fun f : ScopeEntitlement =>
          { f with
            lifetime := (strongerLifetime e.lifetime input.lifetime).getD f.lifetime
            authorizationContextHash := input.authorizationContextHash }) s.entitlements =
          grantRows key input now s.entitlements := by
        rw [hrows]
        refine updateWhere_congr fun f hf hfid => ?_
        rw [hsame f hf hfid, hmax, ← hhash]
      let t : Store := { s with entitlements := grantRows key input now s.entitlements }
      have hbatch : Repository.strengthenEntitlement e.id
          (strongerLifetime e.lifetime input.lifetime) input.authorizationContextHash s =
            .ok (t.findEntitlement e.id, t) := by
        refine Batch.bind_eq_ok.mpr ⟨(), t, ?_, rfl⟩
        rw [setEntitlements, hwritten]
        exact if_pos hkeys
      let row : ScopeEntitlement := { e with lifetime := max e.lifetime input.lifetime }
      have hrow : row ∈ t.entitlements := by
        change row ∈ grantRows key input now s.entitlements
        rw [hrows]
        exact mem_updateWhere.mpr ⟨e, hmem, if_pos (by simp)⟩
      have hfound : ∃ f, lookup ScopeEntitlement.id (ScopeEntitlement.id row) t.entitlements =
          some f := lookup_isSome_of_mem hrow
      obtain ⟨f, hf⟩ := hfound
      change t.findEntitlement e.id = some f at hf
      rw [hf] at hbatch
      refine ⟨f, ?_⟩
      rw [exec_bind_ok _ (exec_commit_of_ok rfl hbatch)]
      rfl
  · have hrows : grantRows key input now s.entitlements =
        updateWhere (fun f => f.id == e.id) (·.finish .expired now) s.entitlements ++ [input] := by
      unfold grantRows
      rw [he]
      exact if_neg hunexpired
    have hbatch : Repository.replaceExpiredEntitlement e.id input now s =
        .ok ((), { s with entitlements := grantRows key input now s.entitlements }) := by
      refine Batch.bind_eq_ok.mpr ⟨(), _, rfl, ?_⟩
      rw [setEntitlements, ← hrows]
      exact if_pos hkeys
    rw [Bool.not_eq_true] at hunexpired
    rw [hunexpired, Bool.not_false, if_pos rfl, exec_bind_ok _ (exec_commit_of_ok rfl hbatch)]
    exact ⟨input, rfl⟩

variable (now) in
/-- The insert under a free key goes through. -/
theorem exec_insertScopeEntitlement (hs : s.Regular) (hinput : input.GrantUnder key)
    (hid : ∀ e ∈ s.entitlements, e.id ≠ input.id) (hfree : inForce key s.entitlements = none) :
    (commit (.insertScopeEntitlement input) (Repository.insertScopeEntitlement input)).exec s =
      (.ok (some input), { s with entitlements := grantRows key input now s.entitlements }) := by
  have hrows : grantRows key input now s.entitlements = s.entitlements ++ [input] := by
    unfold grantRows
    rw [hfree]
  have hkeys := keysUnique_insert hs.keys hinput.key hfree hid
  have hbatch : Repository.insertScopeEntitlement input s =
      .ok (some input, { s with entitlements := s.entitlements ++ [input] }) := if_pos hkeys
  rw [hrows]
  exact exec_commit_of_ok rfl hbatch

variable (now) in
/-- A grant for a key that no other account holds leaves its row there. -/
theorem exec_createScopeEntitlement (hs : s.Regular) (hinput : input.GrantUnder key)
    (hid : ∀ e ∈ s.entitlements, e.id ≠ input.id) (hfree : s.FreeFor key input.connectionId) :
    ∃ x, (createScopeEntitlement input now).exec s =
      (.ok x, { s with entitlements := grantRows key input now s.entitlements }) := by
  have hfind := find_equivalent hs hinput
  unfold createScopeEntitlement findEquivalentEntitlement
  rw [exec_ask_bind, hfind]
  cases he : inForce key s.entitlements with
  | none =>
    rw [Option.filter_none]
    dsimp only
    rw [exec_bind_ok _ (exec_insertScopeEntitlement now hs hinput hid he)]
    exact ⟨input, rfl⟩
  | some e =>
    rw [Option.filter_some, if_pos (by simp [hfree e he])]
    exact exec_mergeScopeEntitlement hs hinput hid he

/-- A grant fails while another account holds its key. -/
theorem freeFor_of_exec (hs : s.Regular) (hinput : input.GrantUnder key) {x : ScopeEntitlement}
    (h : (createScopeEntitlement input now).exec s = (.ok x, t)) :
    s.FreeFor key input.connectionId := by
  intro e he
  by_contra hother
  have hfind := find_equivalent hs hinput
  rw [he, Option.filter_some, if_neg (by simpa using hother)] at hfind
  have htaken : ¬KeysUnique (s.entitlements ++ [input]) := by
    intro hkeys
    have hindex := hkeys.2
    rw [List.filterMap_append, List.nodup_append] at hindex
    exact hindex.2.2 key (List.mem_filterMap.mpr ⟨e, mem_of_under he, index_of_under he⟩) key
      (List.mem_filterMap.mpr ⟨input, List.mem_singleton_self input, hinput.key⟩) rfl
  have hinsert : Repository.insertScopeEntitlement input s = .ok (none, s) := if_neg htaken
  unfold createScopeEntitlement findEquivalentEntitlement at h
  rw [exec_ask_bind, hfind] at h
  dsimp only at h
  rw [exec_bind_ok _ (exec_commit_of_ok rfl hinsert)] at h
  dsimp only at h
  rw [exec_ask_bind, hfind] at h
  cases h

omit [Locale] in
/-- A write whose answer is only looked at has been made or not when the call stops. -/
theorem stopped_commit_bind {α β : Type} (op : Operation) (batch : StoreBatch α) {f : α → Access β}
    (hf : ∀ a, (f a).Only fun _ => False) (n : ℕ) (s : Store) :
    (commit op batch >>= f).stopped n s = s ∨
      (commit op batch >>= f).stopped n s = ((commit op batch >>= f).exec s).2 := by
  cases n with
  | zero => exact .inl (stopped_zero _ s)
  | succ n =>
    right
    have hrest : (Procedure.ofExcept (batch.outcome s) >>= f : Access β).Only fun _ => False :=
      only_bind.mpr ⟨only_ofExcept _, fun a _ => hf a⟩
    have hstopped : apply op s =
        (Procedure.ofExcept (batch.outcome s) >>= f : Access β).stopped n (apply op s) :=
      hrest.stopped (fun _ => rfl) (fun _ _ _ => Eq.trans) (fun _ _ h => h.elim) n (apply op s)
    have hexec : apply op s =
        ((Procedure.ofExcept (batch.outcome s) >>= f : Access β).exec (apply op s)).2 :=
      hrest.relates (fun _ => rfl) (fun _ _ _ => Eq.trans) (fun _ h => h.elim) (apply op s)
    exact hstopped.symm.trans hexec

omit [Locale] in
theorem stopped_mergeScopeEntitlement (e input : ScopeEntitlement) (now n : ℕ) (s : Store) :
    (mergeScopeEntitlement e input now).stopped n s = s ∨
      (mergeScopeEntitlement e input now).stopped n s =
        ((mergeScopeEntitlement e input now).exec s).2 := by
  unfold mergeScopeEntitlement
  dsimp only
  split
  · exact stopped_commit_bind _ _ (fun _ => only_done _) n s
  · split
    · exact .inl (stopped_done e n s)
    · exact stopped_commit_bind _ _ (fun a => only_orThrow a _) n s

omit [Locale] in
theorem stopped_ask_bind {α β : Type} (query : Query) (answer : Store → α) (f : α → Access β)
    (n : ℕ) (s : Store) :
    (ask query answer >>= f).stopped (n + 1) s = (f (answer s)).stopped n s := rfl

variable (now) in
/-- A grant that stops has been made or not. -/
theorem stopped_createScopeEntitlement (hs : s.Regular) (hinput : input.GrantUnder key)
    (hid : ∀ e ∈ s.entitlements, e.id ≠ input.id) (hfree : s.FreeFor key input.connectionId)
    (n : ℕ) :
    (createScopeEntitlement input now).stopped n s = s ∨
      (createScopeEntitlement input now).stopped n s =
        { s with entitlements := grantRows key input now s.entitlements } := by
  obtain ⟨x, hexec⟩ := exec_createScopeEntitlement now hs hinput hid hfree
  cases n with
  | zero => exact .inl (stopped_zero _ s)
  | succ n =>
    have hfind := find_equivalent hs hinput
    have hexec : ((createScopeEntitlement input now).exec s).2 =
        { s with entitlements := grantRows key input now s.entitlements } := by rw [hexec]
    rw [← hexec]
    unfold createScopeEntitlement findEquivalentEntitlement
    rw [exec_ask_bind, stopped_ask_bind]
    cases he : inForce key s.entitlements with
    | none =>
      rw [hfind, he, Option.filter_none]
      dsimp only
      have hinsert := exec_insertScopeEntitlement now hs hinput hid he
      rw [exec_bind_ok _ hinsert]
      rcases stopped_bind (commit (.insertScopeEntitlement input)
        (Repository.insertScopeEntitlement input)) _ n s with ⟨m, hm⟩ | ⟨y, u, m, hy, hm⟩
      · rw [hm]
        have hwrite := stopped_commit_bind (.insertScopeEntitlement input)
          (Repository.insertScopeEntitlement input) (f := done) (fun _ => only_done _) m s
        rw [bind_done, hinsert] at hwrite
        exact hwrite
      · rw [hm]
        rw [hinsert] at hy
        cases hy
        exact .inr (stopped_done input m _)
    | some e =>
      rw [hfind, he, Option.filter_some, if_pos (by simp [hfree e he])]
      exact stopped_mergeScopeEntitlement e input now n s

end Runs

end FlareAuth
