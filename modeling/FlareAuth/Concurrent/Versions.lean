import FlareAuth.Concurrent.Stamp

/-!
# Rows with versions

A row that gets a version it has not had before whenever it changes is told by its
version: what was read under a version is what is still there under it, and of the
operations that change the row under one version there is one.
-/

namespace Concurrent

variable {ι σ κ ε α ρ ν : Type} [Operational κ σ]

/-- An operation that changes a row gives it a version that it has not had before. -/
def NewVersion (row : σ → Option ρ) (version : ρ → ν) (pool : Pool ι σ κ ε α) (op : κ) : Prop :=
  ∀ r, row (apply op pool.store) = some r → row pool.store ≠ some r →
    ∀ s ∈ pool.history, ∀ r', row s = some r' → version r' ≠ version r

/-- An operation that replaces or removes the row of a version. -/
def Replaces (row : σ → Option ρ) (version : ρ → ν) (v : ν) (e : Event σ κ) : Prop :=
  ∃ r, row e.before = some r ∧ version r = v ∧ row (apply e.operation e.before) ≠ some r

namespace Reachable

variable {program : ι → Procedure σ κ ε α} {init : σ → Prop}
  {ok : Pool ι σ κ ε α → Move ι → Prop} {pool : Pool ι σ κ ε α} {row : σ → Option ρ}
  {version : ρ → ν} {v : ν}

/-- The row under a version is the same in all stores of a run. -/
theorem version_determines (hok : ∀ pool i t op, Reachable program init ok pool →
      ok pool (.resume i) → pool.pending i = some (t, op) → NewVersion row version pool op)
    (h : Reachable program init ok pool) : ∀ s ∈ pool.history, ∀ s' ∈ pool.history, ∀ r r',
      row s = some r → row s' = some r' → version r = version r' → r = r' := by
  induction h with
  | @initial s₀ _ =>
    intro s hs s' hs' r r' hr hr' _
    obtain rfl : s = s₀ := by simpa [Pool.history, Pool.initial] using hs
    obtain rfl : s' = s := by simpa [Pool.history, Pool.initial] using hs'
    exact Option.some.inj (hr.symm.trans hr')
  | @next pool pool' m hpool hm hnext ih =>
    cases m with
    | start c =>
      simp only [Pool.next, Option.some.injEq] at hnext
      subst hnext
      exact ih
    | resume i =>
      obtain ⟨t, op, hpending, hstore, hpast, _⟩ := Pool.thread_resumed hnext
      have hnew := hok pool i t op hpool hm hpending
      -- the row of the new store against that of an earlier one
      have hstep : ∀ s ∈ pool.history, ∀ r r', row (apply op pool.store) = some r →
          row s = some r' → version r = version r' → r = r' := by
        intro s hs r r' hr hr' hversion
        by_cases hsame : row pool.store = some r
        · exact ih pool.store List.mem_cons_self s hs r r' hsame hr' hversion
        · exact absurd hversion.symm (hnew r hr hsame s hs r' hr')
      intro s hs s' hs' r r' hr hr' hversion
      rw [Pool.history, hstore, hpast] at hs hs'
      rcases List.mem_cons.mp hs with rfl | hs <;> rcases List.mem_cons.mp hs' with rfl | hs'
      · exact Option.some.inj (hr.symm.trans hr')
      · exact hstep s' hs' r r' hr hr' hversion
      · exact (hstep s hs r' r hr' hr hversion.symm).symm
      · exact ih s hs s' hs' r r' hr hr' hversion

/-- A version that an operation has replaced is not that of the row again. -/
theorem version_gone (hok : ∀ pool i t op, Reachable program init ok pool →
      ok pool (.resume i) → pool.pending i = some (t, op) → NewVersion row version pool op)
    (h : Reachable program init ok pool) : ∀ t ∈ pool.threads, ∀ e ∈ t.log,
      Replaces row version v e → ∀ r, row pool.store = some r → version r ≠ v := by
  refine h.tracks (T := fun _ log s => ∀ e ∈ log, Replaces row version v e →
    ∀ r, row s = some r → version r ≠ v) (fun _ _ e he => nomatch he) ?_
  intro pool i t op hpool hm hpending ht
  have hnew := hok pool i t op hpool hm hpending
  have hold : ∀ u ∈ pool.threads, (∀ e ∈ u.log, Replaces row version v e →
      ∀ r, row pool.store = some r → version r ≠ v) → ∀ e ∈ u.log, Replaces row version v e →
      ∀ r, row (apply op pool.store) = some r → version r ≠ v := by
    intro u hu ih e he hreplaces r hr
    by_cases hsame : row pool.store = some r
    · exact ih e he hreplaces r hsame
    · obtain ⟨r₀, hr₀, rfl, _⟩ := hreplaces
      have hbefore : e.before ∈ pool.history :=
        List.mem_cons_of_mem _ (hpool.before_mem_past u hu e he)
      exact fun hversion => hnew r hr hsame e.before hbefore r₀ hr₀ hversion.symm
  refine ⟨hold, fun ih e he hreplaces r hr => ?_⟩
  rcases List.mem_cons.mp he with rfl | he
  · obtain ⟨r₀, hr₀, rfl, hchanged⟩ := hreplaces
    by_cases hsame : row pool.store = some r
    · obtain rfl : r = r₀ := Option.some.inj (hsame.symm.trans hr₀)
      exact absurd hr hchanged
    · exact fun hversion => hnew r hr hsame pool.store List.mem_cons_self r₀ hr₀ hversion.symm
  · exact hold t ht ih e he hreplaces r hr

/-- The row of one version is replaced by one call. -/
theorem replaced_once (hok : ∀ pool i t op, Reachable program init ok pool →
      ok pool (.resume i) → pool.pending i = some (t, op) → NewVersion row version pool op)
    (h : Reachable program init ok pool) {i j : ℕ} {t u : Thread ι σ κ ε α}
    (ht : pool.threads[i]? = some t) (hu : pool.threads[j]? = some u)
    (hreplaces : ∃ e ∈ t.log, Replaces row version v e)
    (hreplaces' : ∃ e ∈ u.log, Replaces row version v e) : i = j := by
  refine h.sole (K := fun _ => Replaces row version v) ?_ ht hu hreplaces hreplaces'
  intro pool i t op hpool _ hpending hK w hw e he hKe
  obtain ⟨r, hr, hversion, _⟩ := hK
  exact version_gone hok hpool w hw e he hKe r hr hversion

end Reachable

section Guards

variable {K : Type}

/-- What holds of the changes of rows under expected versions: of those that expect one version of
a row at most one succeeds, the others change nothing, and each was decided on the row that it
found. -/
structure Guarded (row : K → σ → Option ρ) (version : ρ → ν) (expects : κ → Option (K × ν))
    (succeeds : κ → σ → Prop) (pool : Pool ι σ κ ε α) : Prop where
  once : ∀ (i j : ℕ) (t u : Thread ι σ κ ε α), pool.threads[i]? = some t →
    pool.threads[j]? = some u →
    ∀ e ∈ t.log, ∀ d ∈ u.log, ∀ k v, expects e.operation = some (k, v) →
    expects d.operation = some (k, v) → succeeds e.operation e.before →
    succeeds d.operation d.before → i = j
  refused : ∀ t ∈ pool.threads, ∀ e ∈ t.log, ∀ k v, expects e.operation = some (k, v) →
    ¬succeeds e.operation e.before → apply e.operation e.before = e.before
  decided : ∀ t ∈ pool.threads, ∀ e earlier later, t.log = later ++ e :: earlier →
    ∀ k v, expects e.operation = some (k, v) → succeeds e.operation e.before →
    ∃ r, row k e.before = some r ∧ version r = v ∧ (∃ d ∈ earlier, row k d.before = some r) ∧
      ∀ d ∈ earlier, ∀ r', row k d.before = some r' → version r' = v → r' = r

variable {program : ι → Procedure σ κ ε α} {init : σ → Prop}
  {ok : Pool ι σ κ ε α → Move ι → Prop} {pool : Pool ι σ κ ε α} {row : K → σ → Option ρ}
  {version : ρ → ν} {expects : κ → Option (K × ν)} {succeeds : κ → σ → Prop}

/-- Rows whose versions are new are changed under the versions that were read. -/
theorem Reachable.guarded (hok : ∀ pool i t op, Reachable program init ok pool →
      ok pool (.resume i) → pool.pending i = some (t, op) →
      ∀ k, NewVersion (row k) version pool op)
    (hread : ∀ c, (program c).Obeys (fun log _ op => ∀ k v, expects op = some (k, v) →
      ∃ d ∈ log, ∃ r, row k d.before = some r ∧ version r = v) (fun _ _ => True) [])
    (hguard : ∀ pool i t op, Reachable program init ok pool → ok pool (.resume i) →
      pool.pending i = some (t, op) → ∀ k v, expects op = some (k, v) →
      (succeeds op pool.store → Replaces (row k) version v ⟨op, pool.store⟩) ∧
        (¬succeeds op pool.store → apply op pool.store = pool.store))
    (h : Reachable program init ok pool) : Guarded row version expects succeeds pool := by
  -- an operation of a log, when it was performed
  have hevent : ∀ t ∈ pool.threads, ∀ e earlier later, t.log = later ++ e :: earlier →
      ∀ k v, expects e.operation = some (k, v) →
      (succeeds e.operation e.before → Replaces (row k) version v e) ∧
      (¬succeeds e.operation e.before → apply e.operation e.before = e.before) ∧
      ∃ d ∈ earlier, ∃ r, row k d.before = some r ∧ version r = v := by
    intro t ht e earlier later hlog k v hexpects
    obtain ⟨pool₀, i, t₀, after, hpool, hm, hi, _, rfl, hrest, hstore, _⟩ := h.of_log ht hlog
    have hpending := Pool.pending_of_step hi hrest
    obtain ⟨hsucceeds, hrefused⟩ := hguard pool₀ i t₀ e.operation hpool hm hpending k v hexpects
    rw [hstore] at hsucceeds hrefused
    exact ⟨hsucceeds, hrefused,
      (hpool.pending_obeys (G := fun _ log _ op => ∀ k v, expects op = some (k, v) →
        ∃ d ∈ log, ∃ r, row k d.before = some r ∧ version r = v)
        (Q := fun _ _ _ => True) hread hpending).2 k v hexpects⟩
  have hpast : ∀ t ∈ pool.threads, ∀ e ∈ t.log, e.before ∈ pool.history := by
    intro t ht e he
    exact List.mem_cons_of_mem _ (h.before_mem_past t ht e he)
  have hnew : ∀ k pool i t op, Reachable program init ok pool → ok pool (.resume i) →
      pool.pending i = some (t, op) → NewVersion (row k) version pool op :=
    fun k pool i t op hpool hm hpending => hok pool i t op hpool hm hpending k
  constructor
  · intro i j t u ht hu e he d hd k v hexpects hexpects' hsucceeds hsucceeds'
    obtain ⟨later, earlier, hlog⟩ := List.append_of_mem he
    obtain ⟨later', earlier', hlog'⟩ := List.append_of_mem hd
    have hreplaces := hevent t (List.mem_of_getElem? ht) e earlier later hlog k v hexpects
    have hreplaces' := hevent u (List.mem_of_getElem? hu) d earlier' later' hlog' k v hexpects'
    exact h.replaced_once (hnew k) ht hu ⟨e, he, hreplaces.1 hsucceeds⟩
      ⟨d, hd, hreplaces'.1 hsucceeds'⟩
  · intro t ht e he k v hexpects hrefused
    obtain ⟨later, earlier, hlog⟩ := List.append_of_mem he
    exact (hevent t ht e earlier later hlog k v hexpects).2.1 hrefused
  · intro t ht e earlier later hlog k v hexpects hsucceeds
    obtain ⟨hreplaces, _, d, hd, r', hr', hversion'⟩ :=
      hevent t ht e earlier later hlog k v hexpects
    obtain ⟨r, hr, hversion, _⟩ := hreplaces hsucceeds
    have he : e ∈ t.log := by simp [hlog]
    have hsame : ∀ d ∈ earlier, ∀ r', row k d.before = some r' → version r' = v → r' = r := by
      intro d hd r' hr' hversion'
      have hdlog : d ∈ t.log := by simp [hlog, hd]
      exact h.version_determines (hnew k) d.before (hpast t ht d hdlog) e.before (hpast t ht e he)
        r' r hr' hr (hversion'.trans hversion.symm)
    obtain rfl := hsame d hd r' hr' hversion'
    exact ⟨r', hr, hversion, ⟨d, hd, hr'⟩, hsame⟩

end Guards

end Concurrent
