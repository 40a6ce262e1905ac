import FlareAuth.ResourceRegistries

/-!
# Updates of Resource Servers as a whole

An update writes the row of a resource in one batch and its scope registry in a second
one. Between the two the registry is that of the old URL, and what fails after a batch
leaves the batch behind. Where none of that happens, a call that throws has written
nothing, and every registry was discovered at the URL of its resource.
-/

namespace FlareAuth.ResourceRegistries

open Concurrent Procedure Relational
open ResourceServers (UpdateApiResource Discovery)
open ResourceServers.Repository (live)

section Conditions

/-- The stored registries are those of the URLs of their resources. -/
def Store.Sourced (s : Store) : Prop :=
  ∀ r ∈ s.tables.resources.rows, r.deletedAt.isNone = true → ∀ discovery,
    s.discovery r.id = some discovery → discovery.sourceUrl = r.resourceUrl

def Operation.hits : Operation → Store → Bool
  | .updateRow id patch, s =>
    match ResourceServers.Repository.updateRow id patch s.tables with
    | .ok (updated, _) => updated
    | .error _ => false
  | .updateAndConfine id patch _ _, s =>
    match ResourceServers.Repository.updateRow id patch s.tables with
    | .ok (updated, _) => updated
    | .error _ => false
  | .replaceResourceDiscovery id _ _ _, s => s.tables.resources.rows.any (live id)
  | .deleteResource id, s => s.tables.resources.rows.any (live id)
  | _, _ => false

structure Leaves (e : Event Store Operation) : Prop where
  misses : e.operation.hits e.before = false
  same : apply e.operation e.before = e.before

/-- A call that has written fails, or a batch without its row writes all the same. -/
def Trouble (earlier : Log Store Operation) (e : Event Store Operation) : Prop :=
  match e.operation with
  | .fault => ∃ d ∈ earlier, ¬Leaves d
  | .findResource id => e.before.findResource id = none ∧ ∃ d ∈ earlier, ¬Leaves d
  | .updateAndConfine _ _ _ _ => e.operation.hits e.before = false ∧ ¬Leaves e
  | _ => False

/-- An update keeps the URL of a resource with a registry, and a registry is written to the URL
where it was discovered. -/
def Operation.KeepsSource (s : Store) : Operation → Prop
  | .updateRow id patch =>
    (Operation.updateRow id patch).hits s = true → ∀ r ∈ s.tables.resources.rows, live id r = true →
      ∀ discovery, s.discovery id = some discovery →
        discovery.sourceUrl = patch.resourceUrl.getD r.resourceUrl
  | .updateAndConfine id patch ownerOrganizationId before =>
    (Operation.updateAndConfine id patch ownerOrganizationId before).hits s = true →
      ∀ r ∈ s.tables.resources.rows, live id r = true → ∀ discovery,
        s.discovery id = some discovery → discovery.sourceUrl = patch.resourceUrl.getD r.resourceUrl
  | .replaceResourceDiscovery id _ discovery _ =>
    ∀ r ∈ s.tables.resources.rows, live id r = true → ∀ found, discovery = some found →
      found.sourceUrl = r.resourceUrl
  | _ => True

def Call.IsUpdate : Call → Prop
  | .updateResource _ _ _ _ => True
  | _ => False

def Undisturbed (pool : RegistryPool) (m : Move Call) : Prop :=
  ∀ i t op, m = .resume i → pool.pending i = some (t, op) →
    op.KeepsSource pool.store ∧ (t.call.IsUpdate → ¬Trouble t.log ⟨op, pool.store⟩)

end Conditions

section Sources

variable {s : Store} {id : Id} {patch : UpdateApiResource}

/-- A patch of the row keeps what is known of registries, if it keeps the URL. -/
theorem sourced_patched {t : Store} (hs : s.Sourced)
    (hdiscovery : t.discovery = s.discovery)
    (hrows : t.tables.resources =
      (ResourceServers.Repository.patchResource id patch s.tables).resources)
    (hurl : ∀ r ∈ s.tables.resources.rows, live id r = true → ∀ discovery,
      s.discovery id = some discovery →
        discovery.sourceUrl = patch.resourceUrl.getD r.resourceUrl) :
    t.Sourced := by
  intro r' hr' hopen discovery hfound
  rw [hrows] at hr'
  rw [hdiscovery] at hfound
  obtain ⟨r, hr, heq⟩ := mem_updateWhere.mp hr'
  by_cases hlive : live id r = true
  · rw [if_pos hlive] at heq
    have hid : r.id = id := by
      rw [live, Bool.and_eq_true, beq_iff_eq] at hlive
      exact hlive.1
    rw [← heq] at hfound ⊢
    exact hurl r hr hlive discovery (hid ▸ hfound)
  · rw [if_neg hlive] at heq
    rw [heq] at hr
    exact hs r' hr hopen discovery hfound

/-- A batch on the row of a resource fails and leaves the store, or writes the tables and says
whether it has found the row. -/
def WritesRow (op : Operation) (batch : StoreBatch Bool) (id : Id) (s : Store) (tables : Tables) :
    Prop :=
  (∃ failure, batch.outcome s = .error failure ∧ op.hits s = false ∧ apply op s = s) ∨
    (batch.outcome s = .ok (s.tables.resources.rows.any (live id)) ∧
      op.hits s = s.tables.resources.rows.any (live id) ∧ apply op s = { s with tables := tables })

theorem writesRow_updateRow (s : Store) (id : Id) (patch : UpdateApiResource) :
    WritesRow (.updateRow id patch)
      (Repository.onTables (ResourceServers.Repository.updateRow id patch)) id s
      (ResourceServers.Repository.patchResource id patch s.tables) := by
  rcases Repository.updateRow_cases id patch s.tables with ⟨failure, hrun⟩ | hrun
  · have hbatch : Repository.onTables (ResourceServers.Repository.updateRow id patch) s =
        .error failure := by
      rw [Repository.onTables, hrun]
    exact .inl ⟨failure, by rw [Batch.outcome, hbatch], by rw [Operation.hits, hrun],
      Batch.settle_of_error hbatch⟩
  · have hbatch : Repository.onTables (ResourceServers.Repository.updateRow id patch) s =
        .ok (s.tables.resources.rows.any (live id),
          { s with tables := ResourceServers.Repository.patchResource id patch s.tables }) := by
      rw [Repository.onTables, hrun]
    exact .inr ⟨by rw [Batch.outcome, hbatch], by rw [Operation.hits, hrun],
      Batch.settle_of_ok hbatch⟩

theorem writesRow_updateAndConfine (s : Store) (id : Id) (patch : UpdateApiResource)
    (ownerOrganizationId : Id) (before : Tables) :
    WritesRow (.updateAndConfine id patch ownerOrganizationId before)
      (Repository.updateAndConfine id patch ownerOrganizationId before) id s
      (Repository.confine before id ownerOrganizationId
        (ResourceServers.Repository.patchResource id patch s.tables)) := by
  rcases Repository.updateRow_cases id patch s.tables with ⟨failure, hrun⟩ | hrun
  · have hbatch : Repository.updateAndConfine id patch ownerOrganizationId before s =
        .error failure := by
      rw [Repository.updateAndConfine, Repository.onTables, Batch.bind_of_error hrun]
    exact .inl ⟨failure, by rw [Batch.outcome, hbatch], by rw [Operation.hits, hrun],
      Batch.settle_of_error hbatch⟩
  · have hbatch : Repository.updateAndConfine id patch ownerOrganizationId before s =
        .ok (s.tables.resources.rows.any (live id), { s with
          tables := Repository.confine before id ownerOrganizationId
            (ResourceServers.Repository.patchResource id patch s.tables) }) := by
      rw [Repository.updateAndConfine, Repository.onTables, Batch.bind_of_ok hrun]
      rfl
    exact .inr ⟨by rw [Batch.outcome, hbatch], by rw [Operation.hits, hrun],
      Batch.settle_of_ok hbatch⟩

theorem sourced_of_writesRow {op : Operation} {batch : StoreBatch Bool} {tables : Tables}
    (hwrites : WritesRow op batch id s tables) (hs : s.Sourced)
    (hrows : tables.resources =
      (ResourceServers.Repository.patchResource id patch s.tables).resources)
    (hurl : op.hits s = true → ∀ r ∈ s.tables.resources.rows, live id r = true → ∀ discovery,
      s.discovery id = some discovery →
        discovery.sourceUrl = patch.resourceUrl.getD r.resourceUrl) :
    (apply op s).Sourced := by
  rcases hwrites with ⟨failure, -, -, happly⟩ | ⟨-, hhits, happly⟩
  · rw [happly]
    exact hs
  · rw [happly]
    refine sourced_patched hs rfl hrows fun r hr hlive => hurl ?_ r hr hlive
    rw [hhits]
    exact List.any_eq_true.mpr ⟨r, hr, hlive⟩

/-- Every operation that keeps the sources leaves the registries those of their resources. -/
theorem sourced_apply {op : Operation} (hs : s.Sourced) (hkeeps : op.KeepsSource s) :
    (apply op s).Sourced := by
  cases op with
  | updateRow id patch =>
    exact sourced_of_writesRow (writesRow_updateRow s id patch) hs rfl hkeeps
  | updateAndConfine id patch ownerOrganizationId before =>
    exact sourced_of_writesRow (writesRow_updateAndConfine s id patch ownerOrganizationId before) hs
      rfl hkeeps
  | replaceResourceDiscovery id registry discovery before =>
    intro r' hr' hopen found hfound
    change r' ∈ updateWhere _ _ s.tables.resources.rows at hr'
    obtain ⟨r, hr, heq⟩ := mem_updateWhere.mp hr'
    change (if r'.id = id ∧ s.tables.resources.rows.any (live id) = true then discovery
      else s.discovery r'.id) = some found at hfound
    by_cases hlive : live id r = true
    · have hid : r.id = id := by
        rw [live, Bool.and_eq_true, beq_iff_eq] at hlive
        exact hlive.1
      rw [if_pos hlive] at heq
      subst heq
      rw [if_pos ⟨hid, List.any_eq_true.mpr ⟨r, hr, hlive⟩⟩] at hfound
      exact hkeeps r hr hlive found hfound
    · rw [if_neg hlive] at heq
      rw [heq] at hr hlive
      have hother : ¬(r'.id = id ∧ s.tables.resources.rows.any (live id) = true) := by
        rintro ⟨hid, -⟩
        exact hlive (by rw [live, hid, hopen]; simp)
      rw [if_neg hother] at hfound
      exact hs r' hr hopen found hfound
  | deleteResource id =>
    intro r' hr' hopen found hfound
    change r' ∈ updateWhere _ _ s.tables.resources.rows at hr'
    obtain ⟨r, hr, heq⟩ := mem_updateWhere.mp hr'
    by_cases hlive : live id r = true
    · rw [if_pos hlive] at heq
      rw [← heq] at hopen
      cases hopen
    · rw [if_neg hlive] at heq
      exact hs r' (heq ▸ hr) hopen found hfound
  | _ => exact hs

end Sources

section Contract

variable {α β : Type} {log : Log Store Operation} {r : Except Failure α}

def Clean (log : Log Store Operation) : Prop := ∀ e ∈ log, Leaves e

/-- A call that has thrown has written nothing, or has met trouble. -/
def Accounted (log : Log Store Operation) (r : Except Failure α) : Prop :=
  ∀ failure, r = .error failure →
    Clean log ∨ ∃ later e earlier, log = later ++ e :: earlier ∧ Trouble earlier e

def Operation.IsRead : Operation → Prop
  | .findResource _ | .findOrganization _ | .findPlatformOrganization => True
  | .readTables _ | .fault => True
  | _ => False

theorem leaves_of_read {e : Event Store Operation} (h : e.operation.IsRead) : Leaves e := by
  obtain ⟨op, s⟩ := e
  cases op with
  | findResource | findOrganization | findPlatformOrganization | readTables | fault =>
    exact ⟨rfl, rfl⟩
  | _ => exact h.elim

theorem Clean.cons {e : Event Store Operation} (he : Leaves e) (h : Clean log) : Clean (e :: log) :=
  List.forall_mem_cons.mpr ⟨he, h⟩

theorem accounted_of_clean (h : Clean log) : Accounted log r := fun _ _ => .inl h

/-- An event that is trouble wherever something was written before. -/
theorem accounted_cons {e : Event Store Operation} (he : Leaves e)
    (htrouble : (∃ d ∈ log, ¬Leaves d) → Trouble log e) : Accounted (e :: log) r := by
  intro failure _
  by_cases hclean : Clean log
  · exact .inl (hclean.cons he)
  · refine .inr ⟨[], e, log, rfl, htrouble ?_⟩
    by_contra hnone
    exact hclean fun d hd => by_contra fun hwrites => hnone ⟨d, hd, hwrites⟩

theorem accounted_fault {s : Store} : Accounted (⟨.fault, s⟩ :: log) r :=
  accounted_cons (leaves_of_read trivial) id

theorem accounted_missing {s : Store} {id : Id} (h : s.findResource id = none) :
    Accounted (⟨.findResource id, s⟩ :: log) r :=
  accounted_cons (leaves_of_read trivial) fun hwrites => ⟨h, hwrites⟩

def Anything (_ : Log Store Operation) (_ : Store) (_ : Operation) : Prop := True

theorem obeys_attempt_bind {fault : Option Failure} {p : Governance α} {f : α → Governance β}
    (h : (p >>= f).Obeys Anything Accounted log) :
    (attempt fault p >>= f).Obeys Anything Accounted log := by
  cases fault with
  | none => exact h
  | some failure => exact fun s => ⟨trivial, accounted_fault⟩

theorem obeys_query_bind {fault : Option Failure} {op : Operation} {answer : Store → α}
    {f : α → Governance β}
    (h : ∀ s, (f (answer s)).Obeys Anything Accounted (⟨op, s⟩ :: log)) :
    (attempt fault (Procedure.query op answer) >>= f).Obeys Anything Accounted log :=
  obeys_attempt_bind fun s => ⟨trivial, h s⟩

theorem obeys_getResource_bind {fault : Option Failure} {id : Id} {f : Found → Governance β}
    (h : ∀ s found, s.findResource id = some found →
      (f found).Obeys Anything Accounted (⟨.findResource id, s⟩ :: log)) :
    (getResource fault id >>= f).Obeys Anything Accounted log := by
  rw [getResource, bind_bind]
  exact obeys_query_bind fun s => obeys_orThrow_bind (h s) accounted_missing

/-- Reads and checks keep the log clean. -/
theorem obeys_reads_bind {p : Governance α} {f : α → Governance β} (hp : p.Only Operation.IsRead)
    (hclean : Clean log) (hok : ∀ log' a, Clean log' → (f a).Obeys Anything Accounted log') :
    (p >>= f).Obeys Anything Accounted log := by
  have hgrown : ∀ log', log.Grown Operation.IsRead log' → Clean log' := by
    rintro log' ⟨new, rfl, hnew⟩ e he
    rcases List.mem_append.mp he with he | he
    · exact leaves_of_read (hnew e he)
    · exact hclean e he
  exact hp.obeys_bind (fun _ _ _ _ => trivial) (fun log' a hlog _ => hok log' a (hgrown log' hlog))
    fun log' failure hlog => accounted_of_clean (hgrown log' hlog)

theorem only_attempt {fault : Option Failure} {p : Governance α} (h : p.Only Operation.IsRead) :
    (attempt fault p).Only Operation.IsRead := by
  cases fault with
  | none => exact h
  | some failure => exact ⟨trivial, fun _ => trivial⟩

variable (faults : Faults)

theorem only_requireNewOwner (ownerOrganizationId : Option Id) :
    (requireNewOwner faults ownerOrganizationId).Only Operation.IsRead := by
  unfold requireNewOwner
  split
  · refine only_bind.mpr ⟨only_attempt (only_query.mpr trivial), fun organization _ => ?_⟩
    exact only_bind.mpr ⟨only_orThrow _ _, fun _ _ => only_require _ _⟩
  · exact trivial

theorem only_requireExternalOwner (resource : ApiResource) (ownerOrganizationId : Id) :
    (requireExternalOwner faults resource ownerOrganizationId).Only Operation.IsRead := by
  unfold requireExternalOwner
  split
  · refine only_bind.mpr ⟨?_, fun _ _ => only_require _ _⟩
    exact only_bind.mpr ⟨only_attempt (only_query.mpr trivial), fun _ _ => only_orThrow _ _⟩
  · exact trivial

/-- The write of the row fails and leaves the store, or finds the row, or finds none and leaves the
store unless there is trouble. -/
def Answers (op : Operation) (batch : StoreBatch Bool) (s : Store) : Prop :=
  (∃ failure, batch.outcome s = .error failure ∧ Leaves ⟨op, s⟩) ∨ batch.outcome s = .ok true ∨
    (batch.outcome s = .ok false ∧ (Leaves ⟨op, s⟩ ∨ ∀ earlier, Trouble earlier ⟨op, s⟩))

theorem patchResource_of_none {id : Id} {patch : UpdateApiResource} {t : Tables}
    (h : t.resources.rows.any (live id) = false) :
    ResourceServers.Repository.patchResource id patch t = t := by
  have hrows : t.resources.update (live id) (ResourceServers.Repository.patched patch)
      (ResourceServers.Repository.patched_id patch) = t.resources := by
    refine (Keyed.update_eq_self _).mpr fun r hr hlive => ?_
    rw [List.any_eq_false] at h
    exact absurd hlive (h r hr)
  rw [ResourceServers.Repository.patchResource, hrows]

theorem answers_of_writesRow {op : Operation} {batch : StoreBatch Bool} {id : Id} {s : Store}
    {tables : Tables} (hwrites : WritesRow op batch id s tables)
    (hmissing : s.tables.resources.rows.any (live id) = false → op.hits s = false →
      apply op s = { s with tables := tables } →
        Leaves ⟨op, s⟩ ∨ ∀ earlier, Trouble earlier ⟨op, s⟩) :
    Answers op batch s := by
  rcases hwrites with ⟨failure, houtcome, hmisses, hsame⟩ | ⟨houtcome, hhits, happly⟩
  · exact .inl ⟨failure, houtcome, hmisses, hsame⟩
  · cases hany : s.tables.resources.rows.any (live id) with
    | true => exact .inr (.inl (hany ▸ houtcome))
    | false => exact .inr (.inr ⟨hany ▸ houtcome, hmissing hany (hhits.trans hany) happly⟩)

theorem answers_updateRow (id : Id) (patch : UpdateApiResource) (s : Store) :
    Answers (.updateRow id patch)
      (Repository.onTables (ResourceServers.Repository.updateRow id patch)) s := by
  refine answers_of_writesRow (writesRow_updateRow s id patch) fun hany hmisses happly => .inl ?_
  exact ⟨hmisses, by rw [happly, patchResource_of_none hany]⟩

theorem answers_updateAndConfine (id : Id) (patch : UpdateApiResource) (ownerOrganizationId : Id)
    (before : Tables) (s : Store) :
    Answers (.updateAndConfine id patch ownerOrganizationId before)
      (Repository.updateAndConfine id patch ownerOrganizationId before) s := by
  refine answers_of_writesRow (writesRow_updateAndConfine s id patch ownerOrganizationId before)
    fun _ hmisses _ => ?_
  by_cases hleaves : Leaves ⟨.updateAndConfine id patch ownerOrganizationId before, s⟩
  · exact .inl hleaves
  · exact .inr fun _ => ⟨hmisses, hleaves⟩

variable {rest : Governance β} {failure : Failure}

theorem obeys_commit_bind {op : Operation} {batch : StoreBatch Bool}
    (hanswers : ∀ s, Answers op batch s) (hclean : Clean log)
    (hrest : ∀ log', rest.Obeys Anything Accounted log') :
    (commit op batch >>= fun updated => require (updated = true) failure >>= fun _ => rest).Obeys
      Anything Accounted log := by
  intro s
  refine ⟨trivial, ?_⟩
  change (Procedure.ofExcept (batch.outcome s) >>= _).Obeys Anything Accounted _
  rcases hanswers s with ⟨failure', houtcome, hleaves⟩ | houtcome | ⟨houtcome, hmissing⟩
  · rw [houtcome]
    exact accounted_of_clean (hclean.cons hleaves)
  · rw [houtcome]
    exact hrest _
  · rw [houtcome]
    rcases hmissing with hleaves | htrouble
    · exact accounted_of_clean (hclean.cons hleaves)
    · exact fun _ _ => .inr ⟨[], _, log, rfl, htrouble log⟩

theorem obeys_updateResource_bind {id : Id} {patch : UpdateApiResource} (hclean : Clean log)
    (hrest : ∀ log', rest.Obeys Anything Accounted log') :
    (Repository.updateResource faults id patch >>= fun updated =>
      require (updated = true) failure >>= fun _ => rest).Obeys Anything Accounted log := by
  unfold Repository.updateResource
  split
  · exact obeys_attempt_bind (obeys_commit_bind (answers_updateRow id patch) hclean hrest)
  · rw [bind_bind]
    refine obeys_query_bind fun s => ?_
    have hread : Clean (⟨.readTables id, s⟩ :: log) := hclean.cons (leaves_of_read trivial)
    cases s.tables.resources.find id with
    | none => exact accounted_of_clean hread
    | some resource =>
      exact obeys_attempt_bind
        (obeys_commit_bind (answers_updateAndConfine id patch _ s.tables) hread hrest)

/-- After its first batch a call fails only with trouble. -/
theorem obeys_publishUpdated_bind {id : Id} {discovery : Option RegistryDiscovery}
    {registry : Option (List ResourceScope)} (hrest : ∀ log', rest.Obeys Anything Accounted log') :
    (publishUpdated faults id discovery registry >>= fun _ => rest).Obeys Anything
      Accounted log := by
  cases registry with
  | none => exact hrest log
  | some registry =>
    rw [publishUpdated, Repository.publish, bind_bind]
    exact obeys_query_bind fun s => obeys_attempt_bind fun s' => ⟨trivial, hrest _⟩

theorem obeys_updateResource (d : Discovery) (id : Id) (input : UpdateApiResource) :
    (updateResource faults d id input).Obeys Anything Accounted [] := by
  refine obeys_getResource_bind fun s found _ => ?_
  have hfirst : Clean [⟨.findResource id, s⟩] := by
    intro e he
    rw [List.mem_singleton.mp he]
    exact leaves_of_read trivial
  refine obeys_require_bind (fun _ => ?_) fun _ => accounted_of_clean hfirst
  refine obeys_ofExcept_bind (fun _ _ => accounted_of_clean hfirst) fun _ _ => ?_
  refine obeys_reads_bind (only_requireNewOwner faults _) hfirst fun log₂ _ hsecond => ?_
  refine obeys_reads_bind (only_requireExternalOwner faults _ _) hsecond fun log₃ _ hthird => ?_
  refine obeys_ofExcept_bind (fun _ _ => accounted_of_clean hthird) fun changes _ => ?_
  refine obeys_updateResource_bind faults hthird fun log₄ => ?_
  refine obeys_publishUpdated_bind faults fun log₅ => ?_
  have hlast : (getResource (faults .findAgain) id >>= done).Obeys Anything Accounted log₅ :=
    obeys_getResource_bind fun _ _ _ _ hfailure => nomatch hfailure
  rwa [bind_done] at hlast

/-- An update that throws is accounted for. -/
theorem program_contract (c : Call) :
    c.program.Obeys Anything (fun log r => c.IsUpdate → Accounted log r) [] := by
  cases c with
  | updateResource d id input faults =>
    refine (obeys_updateResource faults d id input).bind
      (fun _ _ _ _ _ _ hfailure => nomatch hfailure)
      fun log failure h _ => ?_
    intro failure' hfailure
    obtain rfl := Except.error.inj hfailure
    exact h failure rfl
  | refreshResourceScopeRegistry d refreshDynamicConnectorMetadata id faults =>
    exact (only_true _).obeys (fun _ _ _ _ => trivial) (fun _ _ _ _ h => h.elim)
      fun _ _ _ h => h.elim
  | deleteResource id faults =>
    exact (only_true _).obeys (fun _ _ _ _ => trivial) (fun _ _ _ _ h => h.elim)
      fun _ _ _ h => h.elim

end Contract

section Runs

variable {pool : RegistryPool}

theorem sourced (h : Reachable Call.program Store.Sourced Undisturbed pool) : pool.store.Sourced :=
  h.keeps (fun _ hs => hs) fun _ i t _ _ hm hpending hsourced =>
    sourced_apply hsourced (hm i t _ rfl hpending).1

/-- In an undisturbed run every registry was discovered at the URL of its resource, and an update
that throws has left the store as it found it with each of its operations. -/
theorem updates_whole (h : Reachable Call.program Store.Sourced Undisturbed pool) :
    pool.store.Sourced ∧ ∀ t ∈ pool.threads, t.call.IsUpdate → ∀ failure, t.rest = .fail failure →
      ∀ e ∈ t.log, Leaves e := by
  refine ⟨sourced h, fun t ht hupdate failure hfail => ?_⟩
  have hresult : t.rest.result = some (.error failure) := by rw [hfail]; rfl
  rcases h.ended program_contract ht hresult hupdate failure rfl with hclean | htrouble
  · exact hclean
  · -- the step that met the trouble was ruled out
    obtain ⟨later, e, earlier, hlog, htrouble⟩ := htrouble
    obtain ⟨pool₀, i, t₀, after, -, hok, hthread, hcall, hearlier, hrest, hstore, -⟩ :=
      h.of_log ht hlog
    have hnone := (hok i t₀ _ rfl (Pool.pending_of_step hthread hrest)).2 (hcall ▸ hupdate)
    rw [hearlier, hstore] at hnone
    exact absurd htrouble hnone

end Runs

namespace Sample

open ResourceServers.Sample (nothing)

/-- The registry of the one resource was discovered at its URL. -/
def store : Store where
  tables := ResourceServers.Sample.store
  discovery id := if id = "notes" then some ⟨"https://notes", none⟩ else none

theorem store_sourced : store.Sourced := by
  intro r hr _ discovery hfound
  obtain rfl : r = ResourceServers.Sample.notes := List.mem_singleton.mp hr
  obtain rfl : (⟨"https://notes", none⟩ : RegistryDiscovery) = discovery := Option.some.inj hfound
  rfl

def reliable : Faults := fun _ => none

def failing : Faults := fun stage =>
  if stage = .replaceDiscovery then some (.error "The database is unavailable.") else none

def update (input : UpdateApiResource) (faults : Faults) : Call :=
  .updateResource ResourceServers.Sample.discovery "notes" input faults

def threw (t : Thread Call Store Operation Failure Unit) : Bool :=
  match t.rest with
  | .fail _ => true
  | _ => false

theorem threw_iff {t : Thread Call Store Operation Failure Unit} :
    threw t = true ↔ ∃ failure, t.rest = .fail failure := by
  cases hrest : t.rest <;> simp [threw, hrest]

/-- The registry cannot be written after the URL was. -/
def halfMoved : List (Move Call) :=
  .start (update { nothing with resourceUrl := some "https://new" } failing) ::
    List.replicate 4 (.resume 0)

/-- The resource is deleted after the update of its row. -/
def deletedMeanwhile : List (Move Call) :=
  [.start (update { nothing with availableToAgents := some false } reliable),
    .start (.deleteResource "notes" reliable)] ++
    List.replicate 2 (.resume 0) ++ List.replicate 3 (.resume 1) ++ [.resume 0]

def isUpdate : Call → Bool
  | .updateResource _ _ _ _ => true
  | _ => false

theorem isUpdate_iff {c : Call} : isUpdate c = true ↔ c.IsUpdate := by
  cases c <;> simp [isUpdate, Call.IsUpdate]

def writes (pool : RegistryPool) : Bool :=
  pool.threads.any fun t =>
    threw t && isUpdate t.call && t.log.any fun e => e.operation.hits e.before

theorem exists_of_writes {pool : RegistryPool} (h : writes pool = true) :
    ∃ t ∈ pool.threads, t.call.IsUpdate ∧ (∃ failure, t.rest = .fail failure) ∧
      ∃ e ∈ t.log, ¬Leaves e := by
  obtain ⟨t, ht, hcheck⟩ := List.any_eq_true.mp h
  obtain ⟨hrest, hlog⟩ := (Bool.and_eq_true _ _).mp hcheck
  obtain ⟨hthrew, hupdate⟩ := (Bool.and_eq_true _ _).mp hrest
  obtain ⟨e, he, hhits⟩ := List.any_eq_true.mp hlog
  refine ⟨t, ht, isUpdate_iff.mp hupdate, threw_iff.mp hthrew, e, he, fun hleaves => ?_⟩
  rw [hleaves.misses] at hhits
  cases hhits

/-- An update that throws has moved the resource and left the registry of the old URL; another one
throws since the resource was deleted after its write. -/
theorem updates_halved :
    (∃ pool : RegistryPool, Reachable Call.program Store.Sourced
      (Unrestricted Call Store Operation Failure Unit) pool ∧ ¬pool.store.Sourced ∧
      ∃ t ∈ pool.threads, t.call.IsUpdate ∧ (∃ failure, t.rest = .fail failure) ∧
        ∃ e ∈ t.log, ¬Leaves e) ∧
    ∃ pool : RegistryPool, Reachable Call.program Store.Sourced
      (Unrestricted Call Store Operation Failure Unit) pool ∧
      ∃ t ∈ pool.threads, t.call.IsUpdate ∧ (∃ failure, t.rest = .fail failure) ∧
        ∃ e ∈ t.log, ¬Leaves e := by
  have hrun : ((Pool.initial store).run Call.program (fun _ _ => true) halfMoved).any
      (fun pool => writes pool && pool.store.tables.resources.rows.any fun r =>
        r.deletedAt.isNone && (pool.store.discovery r.id).any fun discovery =>
          discovery.sourceUrl != r.resourceUrl) = true := by
    decide +kernel
  have hrun' : ((Pool.initial store).run Call.program (fun _ _ => true) deletedMeanwhile).any
      writes = true := by
    decide +kernel
  obtain ⟨pool, hpool, hcheck⟩ := (Option.any_eq_true _ _).mp hrun
  obtain ⟨pool', hpool', hwrites'⟩ := (Option.any_eq_true _ _).mp hrun'
  obtain ⟨hwrites, hmoved⟩ := (Bool.and_eq_true _ _).mp hcheck
  refine ⟨⟨pool, ?_, fun hsourced => ?_, exists_of_writes hwrites⟩, pool', ?_,
    exists_of_writes hwrites'⟩
  · exact .of_run (fun _ _ _ => trivial) (.initial store_sourced) hpool
  · obtain ⟨r, hr, hrow⟩ := List.any_eq_true.mp hmoved
    obtain ⟨hopen, hother⟩ := (Bool.and_eq_true _ _).mp hrow
    obtain ⟨discovery, hfound, hne⟩ := (Option.any_eq_true _ _).mp hother
    exact absurd (hsourced r hr hopen discovery hfound) (by simpa using hne)
  · exact .of_run (fun _ _ _ => trivial) (.initial store_sourced) hpool'

/-- Sufficient for a step to be undisturbed, and decided by evaluation. -/
def undisturbedCheck (pool : RegistryPool) : Move Call → Bool
  | .start _ => true
  | .resume i =>
    match pool.pending i with
    | some (_, .updateRow id patch) => pool.store.tables.resources.rows.all fun r =>
      (pool.store.discovery id).all fun discovery =>
        discovery.sourceUrl == patch.resourceUrl.getD r.resourceUrl
    | some (_, .replaceResourceDiscovery _ _ discovery _) =>
      pool.store.tables.resources.rows.all fun r =>
        discovery.all fun found => found.sourceUrl == r.resourceUrl
    | some (t, .findResource id) => t.log.isEmpty || (pool.store.findResource id).isSome
    | some (_, .updateAndConfine _ _ _ _) => false
    | some (t, .fault) => t.log.isEmpty
    | _ => true

theorem undisturbed_of_check {pool : RegistryPool} {m : Move Call}
    (h : undisturbedCheck pool m = true) : Undisturbed pool m := by
  rintro i t op rfl hpending
  simp only [undisturbedCheck, hpending] at h
  have hnone : ∀ {d : Event Store Operation}, t.log.isEmpty = true → d ∉ t.log := by
    intro d hempty hd
    rw [List.isEmpty_iff.mp hempty] at hd
    cases hd
  cases op with
  | updateRow id patch =>
    refine ⟨fun _ r hr _ discovery hfound => ?_, fun _ h => h⟩
    have hrow := List.all_eq_true.mp h r hr
    rw [hfound] at hrow
    exact eq_of_beq hrow
  | replaceResourceDiscovery id registry discovery before =>
    refine ⟨fun r hr _ found hfound => ?_, fun _ h => h⟩
    have hrow := List.all_eq_true.mp h r hr
    rw [hfound] at hrow
    exact eq_of_beq hrow
  | findResource id =>
    refine ⟨trivial, ?_⟩
    rintro - ⟨hmissing, d, hd, -⟩
    rcases (Bool.or_eq_true _ _).mp h with hempty | hfound
    · exact hnone hempty hd
    · rw [show pool.store.findResource id = none from hmissing] at hfound
      cases hfound
  | updateAndConfine => cases h
  | fault =>
    refine ⟨trivial, ?_⟩
    rintro - ⟨d, hd, -⟩
    exact hnone h hd
  | _ => exact ⟨trivial, fun _ => id⟩

/-- The grant mode of a scope is changed while another update reads the resource and does not find
its new owner, and then the registry is refreshed. -/
def inTurn : List (Move Call) :=
  [.start (update { nothing with scopeGrantModes := some [⟨"read", .automatic⟩] } reliable),
    .start (update { nothing with ownerOrganizationId := some "elsewhere" } reliable),
    .start (.refreshResourceScopeRegistry ResourceServers.Sample.discovery (fun _ => .ok ()) "notes"
      reliable)] ++
    List.replicate 3 (.resume 0) ++ List.replicate 2 (.resume 1) ++
    List.replicate 2 (.resume 0) ++ List.replicate 4 (.resume 2)

theorem updates_whole_inTurn : ∃ pool : RegistryPool, pool.store.Sourced ∧
    ((pool.store.tables.findResource "notes").bind (·.scopeRegistry)) =
      some [⟨"read", .automatic⟩] ∧
    ∃ t ∈ pool.threads, (∃ failure, t.rest = .fail failure) ∧ t.log.length = 2 ∧
      ∀ e ∈ t.log, Leaves e := by
  have hrun : ((Pool.initial store).run Call.program undisturbedCheck inTurn).any
      (fun pool => decide (((pool.store.tables.findResource "notes").bind (·.scopeRegistry)) =
        some [⟨"read", .automatic⟩]) && pool.threads.any fun t =>
          threw t && isUpdate t.call && t.log.length == 2) = true := by
    decide +kernel
  obtain ⟨pool, hpool, hcheck⟩ := (Option.any_eq_true _ _).mp hrun
  obtain ⟨hregistry, hthreads⟩ := (Bool.and_eq_true _ _).mp hcheck
  obtain ⟨t, ht, hthread⟩ := List.any_eq_true.mp hthreads
  simp only [Bool.and_eq_true, beq_iff_eq] at hthread
  obtain ⟨⟨hthrew, hupdate⟩, hlength⟩ := hthread
  obtain ⟨failure, hfail⟩ := threw_iff.mp hthrew
  have hreach := Reachable.of_run (fun _ _ => undisturbed_of_check) (.initial store_sourced) hpool
  obtain ⟨hsourced, hthrown⟩ := updates_whole hreach
  exact ⟨pool, hsourced, of_decide_eq_true hregistry, t, ht, ⟨failure, hfail⟩, hlength,
    hthrown t ht (isUpdate_iff.mp hupdate) failure hfail⟩

end Sample

end FlareAuth.ResourceRegistries
