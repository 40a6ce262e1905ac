import FlareAuth.Concurrent.Pool

/-!
# Operations that use drawn stamps

A call draws a stamp by an operation that moves a clock of the store on, and
uses it in a later operation. When a call performs nothing that uses stamps
between the two, no stamp is ever used twice, in any interleaving. A clock also
tells which operations came after a store, and so what has not changed since.
-/

namespace Concurrent

variable {ι σ κ ε α : Type}

/-- Every stamp that an operation uses was drawn by its call, which has used none since. -/
def Drawn (stamp : σ → ℕ) (draws : κ → Prop) (uses : κ → ℕ → Prop) (log : Log σ κ) (op : κ) :
    Prop :=
  ∀ n, uses op n → ∃ d earlier, Log.Grown (fun op => ∀ m, ¬uses op m) (d :: earlier) log ∧
    draws d.operation ∧ stamp d.before = n

variable [Operational κ σ] {program : ι → Procedure σ κ ε α} {init : σ → Prop}
  {ok : Pool ι σ κ ε α → Move ι → Prop} {pool : Pool ι σ κ ε α}

/-- A stamp that an operation is about to use has been used by no operation. -/
theorem Reachable.unused {stamp : σ → ℕ} {draws : κ → Prop} {uses : κ → ℕ → Prop}
    {G : ι → Log σ κ → σ → κ → Prop} {Q : ι → Log σ κ → Except ε α → Prop}
    (hE : Evolution κ fun s t : σ => stamp s ≤ stamp t)
    (hdraws : ∀ op s, draws op → stamp s < stamp (apply op s))
    (hdisjoint : ∀ op n, draws op → ¬uses op n)
    (hprogram : ∀ c, (program c).Obeys (G c) (Q c) [])
    (hG : ∀ c log s op, G c log s op → Drawn stamp draws uses log op)
    (h : Reachable program init ok pool) {k : ℕ} {t : Thread ι σ κ ε α} {op : κ}
    (hpending : pool.pending k = some (t, op)) {n : ℕ} (huse : uses op n) :
    ∀ u ∈ pool.threads, ∀ e ∈ u.log, ¬uses e.operation n := by
  intro u hu e he huse'
  obtain ⟨ht, hg⟩ := h.pending_obeys hprogram hpending
  obtain ⟨d, earlier, hgrown, hd, hstamp⟩ := hG _ _ _ _ hg n huse
  obtain ⟨earlier', later', hlog', hjustified⟩ := (h.logged hprogram hu).of_mem he
  obtain ⟨d', earlier'', hgrown', hd', hstamp'⟩ := hG _ _ _ _ hjustified n huse'
  have hmem : d ∈ t.log := hgrown.subset List.mem_cons_self
  have hmem' : d' ∈ earlier' := hgrown'.subset List.mem_cons_self
  have hsame : stamp d.before = stamp d'.before := hstamp.trans hstamp'.symm
  obtain ⟨i, hi⟩ := List.mem_iff_getElem?.mp ht
  obtain ⟨j, hj⟩ := List.mem_iff_getElem?.mp hu
  by_cases hij : i = j
  · subst hij
    obtain rfl : t = u := Option.some.inj (hi.symm.trans hj)
    -- the pending operation drew its stamp after the earlier one had used its own
    obtain ⟨new, hlog, hnew⟩ := hgrown
    have hne : d ≠ e := by
      rintro rfl
      exact hdisjoint _ n hd huse'
    have hnot : e ∉ new := fun hmem => hnew e hmem n huse'
    obtain ⟨between, hbetween⟩ := Log.split (hlog.symm.trans hlog') hne hnot
    have hmemEarlier : d' ∈ earlier := by
      rw [hbetween]
      exact List.mem_append_right _ (List.mem_cons_of_mem _ hmem')
    have hmoved : stamp d'.before < stamp (apply d'.operation d'.before) := hdraws _ _ hd'
    have hlater : stamp (apply d'.operation d'.before) ≤ stamp d.before :=
      h.evolves_between hE ht hlog hmemEarlier
    omega
  · have hmemLog : d' ∈ u.log := by
      rw [hlog']
      exact List.mem_append_right _ (List.mem_cons_of_mem _ hmem')
    exact h.stamp_ne hE hdraws hij hi hj hmem hmemLog hd hd' hsame

/-- What no operation has changed since a store is what it was in that store. The operations since
then are told by a clock. -/
theorem Reachable.unchanged_since {β : Type} {g : σ → β} {stamp : σ → ℕ}
    (hE : Evolution κ fun s t : σ => stamp s ≤ stamp t) (h : Reachable program init ok pool)
    {s : σ} (hs : s ∈ pool.history)
    (hkeep : ∀ t ∈ pool.threads, ∀ e ∈ t.log, stamp s ≤ stamp e.before →
      g (apply e.operation e.before) = g e.before) : g pool.store = g s := by
  induction h generalizing s with
  | @initial s₀ _ =>
    obtain rfl : s = s₀ := by simpa [Pool.history, Pool.initial] using hs
    rfl
  | @next pool pool' m hpool _ hnext ih =>
    have hearlier : ∀ s ∈ pool.history, (∀ t ∈ pool'.threads, ∀ e ∈ t.log,
        stamp s ≤ stamp e.before → g (apply e.operation e.before) = g e.before) →
        g pool.store = g s := by
      intro s hs hkeep
      refine ih hs fun t ht e he => ?_
      obtain ⟨t', ht', _, hlog⟩ := Pool.thread_persists hnext ht
      exact hkeep t' ht' e (hlog.subset he)
    cases m with
    | start c =>
      simp only [Pool.next, Option.some.injEq] at hnext
      subst hnext
      exact hearlier s hs hkeep
    | resume i =>
      obtain ⟨t, op, _, hstore, hpast, t', ht', _, hlog⟩ := Pool.thread_resumed hnext
      rw [Pool.history, hstore, hpast] at hs
      rcases List.mem_cons.mp hs with rfl | hs
      · rw [hstore]
      · have hnow : stamp s ≤ stamp pool.store := hpool.evolves_history hE s hs
        have hmem : (⟨op, pool.store⟩ : Event σ κ) ∈ t'.log := by
          rw [hlog]
          exact List.mem_cons_self
        have hstep := hkeep t' ht' ⟨op, pool.store⟩ hmem hnow
        rw [hstore, hstep]
        exact hearlier s hs hkeep

/-- Events of a kind that no thread has in its log when one happens are those of one call. -/
theorem Reachable.sole {K : ι → Event σ κ → Prop}
    (hnone : ∀ pool i t op, Reachable program init ok pool → ok pool (.resume i) →
      pool.pending i = some (t, op) → K t.call ⟨op, pool.store⟩ →
      ∀ u ∈ pool.threads, ∀ e ∈ u.log, ¬K u.call e)
    (h : Reachable program init ok pool) {i j : ℕ} {t u : Thread ι σ κ ε α}
    (ht : pool.threads[i]? = some t) (hu : pool.threads[j]? = some u)
    (hKt : ∃ e ∈ t.log, K t.call e) (hKu : ∃ e ∈ u.log, K u.call e) : i = j := by
  induction h generalizing i j t u with
  | initial hs => simp [Pool.initial] at ht
  | @next pool pool' m hpool hm hnext ih =>
    cases m with
    | start c =>
      simp only [Pool.next, Option.some.injEq] at hnext
      subst hnext
      have hold : ∀ {k : ℕ} {v : Thread ι σ κ ε α},
          (pool.threads ++ [⟨c, program c, []⟩])[k]? = some v → (∃ e ∈ v.log, K v.call e) →
          pool.threads[k]? = some v := by
        rintro k v hv ⟨x, hx, _⟩
        rcases Nat.lt_or_ge k pool.threads.length with hk | hk
        · rwa [List.getElem?_append_left hk] at hv
        · rw [List.getElem?_append_right hk] at hv
          obtain rfl := List.mem_singleton.mp (List.mem_of_getElem? hv)
          cases hx
      exact ih (hold ht hKt) (hold hu hKu) hKt hKu
    | resume n =>
      obtain ⟨v, op, after, hv, hrest, _, _, hthreads⟩ := Pool.next_resume hnext
      have hpending := Pool.pending_of_step hv hrest
      -- the events of a thread after the step are old ones of its index, or the new one
      have hevent : ∀ {k : ℕ} {w : Thread ι σ κ ε α}, pool'.threads[k]? = some w →
          ∀ e ∈ w.log, (k = n ∧ w.call = v.call ∧ e = ⟨op, pool.store⟩) ∨
            ∃ w', pool.threads[k]? = some w' ∧ w'.call = w.call ∧ e ∈ w'.log := by
        intro k w hw e he
        rcases Pool.threads_next_resume hv hthreads hw with ⟨rfl, rfl⟩ | ⟨_, hw'⟩
        · rcases List.mem_cons.mp he with rfl | he
          · exact .inl ⟨rfl, rfl, rfl⟩
          · exact .inr ⟨v, hv, rfl, he⟩
        · exact .inr ⟨w, hw', rfl, he⟩
      obtain ⟨e, he, hKe⟩ := hKt
      obtain ⟨d, hd, hKd⟩ := hKu
      rcases hevent ht e he with ⟨rfl, hcall, rfl⟩ | ⟨w, hw, hcall, hew⟩
      · rcases hevent hu d hd with ⟨rfl, _, _⟩ | ⟨w', hw', hcall', hdw'⟩
        · rfl
        · rw [hcall] at hKe
          rw [← hcall'] at hKd
          exact absurd hKd (hnone pool i v op hpool hm hpending hKe w'
            (List.mem_of_getElem? hw') d hdw')
      · rw [← hcall] at hKe
        rcases hevent hu d hd with ⟨rfl, hcall', rfl⟩ | ⟨w', hw', hcall', hdw'⟩
        · rw [hcall'] at hKd
          exact absurd hKe (hnone pool j v op hpool hm hpending hKd w
            (List.mem_of_getElem? hw) e hew)
        · rw [← hcall'] at hKd
          exact ih hw hw' ⟨e, hew, hKe⟩ ⟨d, hdw', hKd⟩

/-- What each event of a kind brings about and every operation keeps, while some thread has one. -/
theorem Reachable.marked {K : Event σ κ → Prop} {D : σ → Prop}
    (hfirst : ∀ pool i t op, Reachable program init ok pool → ok pool (.resume i) →
      pool.pending i = some (t, op) → K ⟨op, pool.store⟩ → D (apply op pool.store))
    (hkeeps : ∀ pool i t op, Reachable program init ok pool → ok pool (.resume i) →
      pool.pending i = some (t, op) → D pool.store → D (apply op pool.store))
    (h : Reachable program init ok pool) : ∀ t ∈ pool.threads, ∀ e ∈ t.log, K e → D pool.store := by
  refine h.tracks (T := fun _ log s => ∀ e ∈ log, K e → D s) (fun _ _ e he => nomatch he) ?_
  intro pool i t op hpool hm hpending _
  constructor
  · exact fun u _ hu e he hK => hkeeps pool i t op hpool hm hpending (hu e he hK)
  · intro ht e he hK
    rcases List.mem_cons.mp he with rfl | he
    · exact hfirst pool i t op hpool hm hpending hK
    · exact hkeeps pool i t op hpool hm hpending (ht e he hK)

/-- Operations after which no further one of their kind is possible are those of one call. -/
theorem Reachable.at_most_one {K : Event σ κ → Prop} {D : σ → Prop}
    (hfirst : ∀ pool i t op, Reachable program init ok pool → ok pool (.resume i) →
      pool.pending i = some (t, op) → K ⟨op, pool.store⟩ →
      ¬D pool.store ∧ D (apply op pool.store))
    (hkeeps : ∀ pool i t op, Reachable program init ok pool → ok pool (.resume i) →
      pool.pending i = some (t, op) → D pool.store → D (apply op pool.store))
    (h : Reachable program init ok pool) :
    (∀ t ∈ pool.threads, ∀ e ∈ t.log, K e → D pool.store) ∧
    ∀ (i j : ℕ) (t u : Thread ι σ κ ε α), pool.threads[i]? = some t → pool.threads[j]? = some u →
      (∃ e ∈ t.log, K e) → (∃ e ∈ u.log, K e) → i = j := by
  have hmarked : ∀ {pool}, Reachable program init ok pool → ∀ t ∈ pool.threads, ∀ e ∈ t.log,
      K e → D pool.store :=
    Reachable.marked (fun pool i t op hpool hm hpending hK =>
      (hfirst pool i t op hpool hm hpending hK).2) hkeeps
  refine ⟨hmarked h, fun i j t u ht hu hKt hKu => ?_⟩
  refine h.sole (K := fun _ => K) (fun pool i t op hpool hm hpending hK u hu e he hKe => ?_)
    ht hu hKt hKu
  exact (hfirst pool i t op hpool hm hpending hK).1 (hmarked hpool u hu e he hKe)

end Concurrent
