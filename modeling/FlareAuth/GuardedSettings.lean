import FlareAuth.SettingsUpdates

/-!
# Updates under `If-Match`

The tag is compared with one read of a representation, and all routes but the
navigation's write under the revision of a later read. They replace what the tag
names if the representation is still the same at that later read.
-/

namespace FlareAuth.Settings

open Concurrent Procedure

def Call.header : Call → Option (Guarded × List EntityTag)
  | .putNavigation (some tags) _ => some (.navigation, tags)
  | .putReplacement (some tags) replacement => some (replacement.guarded, tags)
  | _ => none

section Representations

variable [Zod] {deployment : Deployment} {g : Guarded} {tags : List EntityTag} {s s' : Store}

/-- The representation that a reader gets now carries one of the tags. -/
def isCurrent (deployment : Deployment) (tags : List EntityTag) (g : Guarded) (s : Store) : Bool :=
  match representation deployment g s with
  | .ok r => matchesTag tags r
  | .error _ => false

theorem isCurrent_congr (hrow : s'.row g.key = s.row g.key)
    (horganizations : s'.organizations = s.organizations) :
    isCurrent deployment tags g s' = isCurrent deployment tags g s := by
  rw [isCurrent, isCurrent, representation, representation, Store.readAt, Store.readAt, hrow,
    horganizations]

/-- Whenever a guarded update reads the row that it writes, the representation still carries a tag
that the update was sent with. -/
def RereadsCurrent (deployment : Deployment) (pool : SettingsPool) (m : Move Call) : Prop :=
  ∀ i t key, m = .resume i → pool.pending i = some (t, .readSiteSettings key) →
    ∀ g tags, t.call.header = some (g, tags) → isCurrent deployment tags g pool.store = true

end Representations

section Runs

variable [Zod] {deployment : Deployment} {init : Store → Prop}
  {ok : SettingsPool → Move Call → Prop} {pool : SettingsPool}
  {t : Thread Call Store Operation Failure (Option Json)} {g : Guarded} {tags : List EntityTag}

theorem current_of_reread (hok : ∀ pool m, ok pool m → RereadsCurrent deployment pool m)
    (h : Reachable (Call.program deployment) init ok pool) (ht : t ∈ pool.threads)
    {e : Event Store Operation} (he : e ∈ t.log) {key : SiteSettingsKey}
    (hop : e.operation = .readSiteSettings key) (hheader : t.call.header = some (g, tags)) :
    isCurrent deployment tags g e.before = true := by
  obtain ⟨later, earlier, hlog⟩ := List.append_of_mem he
  obtain ⟨pool₀, i, t₀, after, _, hm, hi, hcall, _, hrest, hstore, _⟩ := h.of_log ht hlog
  rw [hop] at hrest
  rw [← hcall] at hheader
  rw [← hstore]
  exact hok pool₀ _ hm i t₀ key rfl (Pool.pending_of_step hi hrest) g tags hheader

/-- A guarded write that is about to succeed finds what its tag names. -/
theorem current_of_pending (hok : ∀ pool m, ok pool m → RereadsCurrent deployment pool m)
    (h : Reachable (Call.program deployment) init ok pool) {i : ℕ} {op : Operation}
    (hpending : pool.pending i = some (t, op)) (hheader : t.call.header = some (g, tags))
    (hwrites : writes ⟨op, pool.store⟩ g.key = true) :
    isCurrent deployment tags g pool.store = true := by
  obtain ⟨ht, _⟩ := h.pending_obeys (program_contract deployment) hpending
  obtain ⟨e, he, hreplaced⟩ := replaces_of_pending h hpending hwrites
  rw [isCurrent_congr hreplaced.row hreplaced.organizations]
  have hbased := hreplaced.based
  have hreread : e.operation = .readSiteSettings g.key →
      isCurrent deployment tags g e.before = true :=
    fun hop => current_of_reread hok h ht he hop hheader
  cases hcall : t.call with
  | putNavigation ifMatch input =>
    rw [hcall] at hheader hbased
    obtain ⟨tags', rfl, row, hread, hmatches⟩ := hbased
    cases hheader
    rw [isCurrent, representation]
    change (match (e.before.readAt .navigation).bind _ with
      | .ok r => matchesTag tags r
      | .error _ => false) = true
    rw [hread]
    exact hmatches
  | putReplacement ifMatch replacement =>
    rw [hcall] at hbased
    exact hreread hbased
  | updateSettings | updateBranding | updateBrandingAsset | updateAccountCenterSettings
  | updatePolicy =>
    rw [hcall] at hheader
    cases hheader

theorem current_of_writes (hok : ∀ pool m, ok pool m → RereadsCurrent deployment pool m)
    (h : Reachable (Call.program deployment) init ok pool) (ht : t ∈ pool.threads)
    {d : Event Store Operation} (hd : d ∈ t.log) (hheader : t.call.header = some (g, tags))
    (hwrites : writes d g.key = true) : isCurrent deployment tags g d.before = true := by
  obtain ⟨later, earlier, hlog⟩ := List.append_of_mem hd
  obtain ⟨pool₀, i, t₀, after, hreach, _, hi, hcall, _, hrest, hstore, _⟩ := h.of_log ht hlog
  obtain ⟨op, s⟩ := d
  dsimp only at hstore hrest
  subst hstore
  rw [← hcall] at hheader
  exact current_of_pending hok hreach (Pool.pending_of_step hi hrest) hheader hwrites

/-- A successful write after which the representation carries none of the tags. -/
def Changes (deployment : Deployment) (tags : List EntityTag) (g : Guarded)
    (d : Event Store Operation) : Prop :=
  writes d g.key = true ∧ isCurrent deployment tags g (apply d.operation d.before) = false

/-- Of the updates of one representation that were sent with its tag, one at most changes it. -/
theorem changes_once (hok : ∀ pool m, ok pool m → RereadsCurrent deployment pool m)
    (h : Reachable (Call.program deployment) init ok pool)
    (hcalls : ∀ t ∈ pool.threads, t.call.header = some (g, tags)) {i j : ℕ}
    {t u : Thread Call Store Operation Failure (Option Json)} (ht : pool.threads[i]? = some t)
    (hu : pool.threads[j]? = some u) (hchanges : ∃ d ∈ t.log, Changes deployment tags g d)
    (hchanges' : ∃ d ∈ u.log, Changes deployment tags g d) : i = j := by
  have hreach := h.of_threads (C := fun c => c.header = some (g, tags)) hcalls
  have hcurrent : ∀ pool i t op, Reachable (Call.program deployment) init
      (fun p m => ok p m ∧ ∀ c, m = .start c → c.header = some (g, tags)) pool →
      pool.pending i = some (t, op) → writes ⟨op, pool.store⟩ g.key = true →
      isCurrent deployment tags g pool.store = true := by
    intro pool i t op hpool hpending hwrites
    have hheader := hpool.started (C := fun c => c.header = some (g, tags))
      (fun _ c hm => hm.2 c rfl) t (hpool.pending_obeys (program_contract deployment) hpending).1
    exact current_of_pending (fun p m hm => hok p m hm.1) hpool hpending hheader hwrites
  refine (hreach.at_most_one (K := Changes deployment tags g)
    (D := fun s => isCurrent deployment tags g s = false) ?_ ?_).2 i j t u ht hu hchanges hchanges'
  · intro pool i t op hpool _ hpending hK
    refine ⟨?_, hK.2⟩
    rw [hcurrent pool i t op hpool hpending hK.1]
    exact Bool.noConfusion
  · intro pool i t op hpool _ hpending hD
    by_cases hwrites : writes ⟨op, pool.store⟩ g.key = true
    · rw [hcurrent pool i t op hpool hpending hwrites] at hD
      cases hD
    · have horganizations := (precedes_evolution.step op pool.store).organizations
      have hrow : (apply op pool.store).row g.key = pool.store.row g.key :=
        row_of_not_writes (d := ⟨op, pool.store⟩) (by simpa using hwrites)
      rw [isCurrent_congr hrow horganizations]
      exact hD

end Runs

/-- In every run in which guarded updates read their row while the representation still carries a
tag that they were sent with, each successful one replaces a representation with such a tag, and of
the updates sent with the tag of one representation at most one changes it. -/
theorem guarded_updates_replace_current [Zod] {deployment : Deployment} {pool : SettingsPool}
    (h : Reachable (Call.program deployment) (fun _ => True) (RereadsCurrent deployment) pool) :
    (∀ t ∈ pool.threads, ∀ g tags, t.call.header = some (g, tags) → ∀ d ∈ t.log,
      writes d g.key = true → isCurrent deployment tags g d.before = true) ∧
    ∀ g r, (∀ t ∈ pool.threads, t.call.header = some (g, [etag r])) →
      ∀ (i j : ℕ) t u, pool.threads[i]? = some t → pool.threads[j]? = some u →
        (∃ d ∈ t.log, Changes deployment [etag r] g d) →
        (∃ d ∈ u.log, Changes deployment [etag r] g d) → i = j := by
  refine ⟨fun t ht g tags hheader d hd hwrites =>
    current_of_writes (fun _ _ hm => hm) h ht hd hheader hwrites, ?_⟩
  intro g r hcalls i j t u ht hu hchanges hchanges'
  exact changes_once (fun _ _ hm => hm) h hcalls ht hu hchanges hchanges'

namespace Sample

def adminsOnly : Json := .object [("mode", .string "admins_only"), ("approvedUserIds", .array [])]

/-- An update of the organization creation policy with the tag of the policy without a row. -/
def policyUpdate (mode : String) : Call :=
  .putReplacement (some [etag adminsOnly]) (.organizationCreation ⟨mode, []⟩)

/-- Both updates pass their check, then each of them reads the row and writes it. -/
def overwriting : List (Move Call) :=
  [.start (policyUpdate "verified_users"), .start (policyUpdate "approved_users"), .resume 0,
    .resume 1, .resume 0, .resume 0, .resume 0, .resume 1, .resume 1, .resume 1]

/-- The second update reads the representation after the first one has changed it. -/
def succeeding : List (Move Call) :=
  [.start (policyUpdate "verified_users"), .start (policyUpdate "approved_users"), .resume 0,
    .resume 0, .resume 0, .resume 0, .resume 1]

def rereadsCheck (pool : SettingsPool) : Move Call → Bool
  | .start _ => true
  | .resume i =>
    match pool.pending i with
    | some (t, .readSiteSettings _) =>
      match t.call.header with
      | some (g, tags) => isCurrent deployment tags g pool.store
      | none => true
    | _ => true

def changedBy (i : ℕ) (pool : SettingsPool) : Bool :=
  pool.threads[i]?.any fun t => t.log.any fun d => writes d .developer &&
    isCurrent deployment [etag adminsOnly] .organizationCreation
      (apply d.operation d.before) == false

def sentWithTag (pool : SettingsPool) : Bool :=
  pool.threads.all fun t =>
    t.call.header == some (.organizationCreation, [etag adminsOnly])

end Sample

theorem rereadsCurrent_of_check {pool : SettingsPool} {m : Move Call}
    (h : Sample.rereadsCheck pool m = true) : RereadsCurrent Sample.deployment pool m := by
  rintro i t key rfl hpending g tags hheader
  rw [Sample.rereadsCheck, hpending] at h
  dsimp only at h
  rw [hheader] at h
  exact h

theorem exists_changes_of_check {i : ℕ} {pool : SettingsPool} (h : Sample.changedBy i pool = true) :
    ∃ t, pool.threads[i]? = some t ∧
      ∃ d ∈ t.log, Changes Sample.deployment [etag Sample.adminsOnly] .organizationCreation d := by
  obtain ⟨t, ht, hany⟩ := (Option.any_eq_true _ _).mp h
  obtain ⟨d, hd, hchanged⟩ := List.any_eq_true.mp hany
  rw [Bool.and_eq_true, beq_iff_eq] at hchanged
  exact ⟨t, ht, d, hd, hchanged⟩

/-- An update that comes after another one has changed the policy does not write. -/
theorem guarded_updates_replace_current_sample : ∃ pool : SettingsPool,
    Sample.changedBy 0 pool = true ∧ pool.threads.length = 2 ∧
      ∀ t ∈ pool.threads, ∀ g tags, t.call.header = some (g, tags) → ∀ d ∈ t.log,
        writes d g.key = true → isCurrent Sample.deployment tags g d.before = true := by
  have hrun : ((Pool.initial Sample.store).run (Call.program Sample.deployment) Sample.rereadsCheck
      Sample.succeeding).any (fun pool => Sample.changedBy 0 pool && pool.threads.length == 2) =
      true := by
    decide +kernel
  obtain ⟨pool, hpool, hcheck⟩ := (Option.any_eq_true _ _).mp hrun
  rw [Bool.and_eq_true, beq_iff_eq] at hcheck
  exact ⟨pool, hcheck.1, hcheck.2, (guarded_updates_replace_current
    (Reachable.of_run (fun _ _ => rereadsCurrent_of_check) (.initial trivial) hpool)).1⟩

/-- Two updates that were sent with the tag of one policy both change it. -/
theorem guarded_updates_overwrite : ∃ pool : SettingsPool,
    Reachable (Call.program Sample.deployment) (fun _ => True) (Unrestricted _ _ _ _ _) pool ∧
      (∀ t ∈ pool.threads,
        t.call.header = some (.organizationCreation, [etag Sample.adminsOnly])) ∧
      ¬∀ (i j : ℕ) t u, pool.threads[i]? = some t → pool.threads[j]? = some u →
        (∃ d ∈ t.log, Changes Sample.deployment [etag Sample.adminsOnly] .organizationCreation d) →
        (∃ d ∈ u.log, Changes Sample.deployment [etag Sample.adminsOnly] .organizationCreation d) →
        i = j := by
  have hrun : (Sample.run Sample.overwriting).any (fun pool => Sample.sentWithTag pool &&
      Sample.changedBy 0 pool && Sample.changedBy 1 pool) = true := by
    decide +kernel
  obtain ⟨pool, hpool, hcheck⟩ := (Option.any_eq_true _ _).mp hrun
  simp only [Bool.and_eq_true] at hcheck
  obtain ⟨⟨hsent, hfirst⟩, hsecond⟩ := hcheck
  refine ⟨pool, Reachable.of_run (fun _ _ _ => trivial) (.initial trivial) hpool, ?_, fun h => ?_⟩
  · intro t ht
    exact beq_iff_eq.mp (List.all_eq_true.mp hsent t ht)
  · obtain ⟨t, ht, hchanges⟩ := exists_changes_of_check hfirst
    obtain ⟨u, hu, hchanges'⟩ := exists_changes_of_check hsecond
    exact absurd (h 0 1 t u ht hu hchanges hchanges') (by decide)

end FlareAuth.Settings
