import FlareAuth.Concurrent.Contract

/-!
# Pools of procedures on one store

Any number of calls of a program run on one store, and an arbitrary scheduler
starts calls and resumes started ones for one operation each. A pool keeps every
earlier store, and each call keeps the log of its own operations.
-/

namespace Concurrent

structure Thread (ι σ κ ε α : Type) where
  call : ι
  rest : Procedure σ κ ε α
  log : Log σ κ

structure Pool (ι σ κ ε α : Type) where
  store : σ
  past : List σ
  threads : List (Thread ι σ κ ε α)

inductive Move (ι : Type) where
  | start (call : ι)
  | resume (index : ℕ)
  deriving DecidableEq

/-- The moves of one call that runs alone, as thread `index`, for a number of steps. -/
def Move.alone {ι : Type} (index : ℕ) (call : ι) (steps : ℕ) : List (Move ι) :=
  .start call :: List.replicate steps (.resume index)

variable {ι σ κ ε α : Type}

namespace Pool

def initial (s : σ) : Pool ι σ κ ε α := ⟨s, [], []⟩

/-- Every store of the run so far, latest first. -/
def history (pool : Pool ι σ κ ε α) : List σ := pool.store :: pool.past

/-- The operation which the thread at an index performs next. -/
def pending (pool : Pool ι σ κ ε α) (i : ℕ) : Option (Thread ι σ κ ε α × κ) :=
  match pool.threads[i]? with
  | some t =>
    match t.rest with
    | .step op _ => some (t, op)
    | _ => none
  | none => none

theorem pending_of_step {pool : Pool ι σ κ ε α} {i : ℕ} {t : Thread ι σ κ ε α} {op : κ}
    {after : σ → Procedure σ κ ε α} (ht : pool.threads[i]? = some t)
    (hrest : t.rest = .step op after) : pool.pending i = some (t, op) := by
  simp only [pending, ht, hrest]

theorem thread_of_pending {pool : Pool ι σ κ ε α} {i : ℕ} {t : Thread ι σ κ ε α} {op : κ}
    (h : pool.pending i = some (t, op)) : pool.threads[i]? = some t := by
  unfold pending at h
  split at h
  · rename_i u hu
    split at h
    · cases h
      exact hu
    · cases h
  · cases h

/-- Every thread after a step is an old one, a new one, or the one that took the step. -/
theorem threads_next_resume {pool pool' : Pool ι σ κ ε α} {i j : ℕ}
    {t u : Thread ι σ κ ε α} (ht : pool.threads[i]? = some t)
    {t' : Thread ι σ κ ε α} (h : pool'.threads = pool.threads.set i t')
    (hu : pool'.threads[j]? = some u) :
    (i = j ∧ u = t') ∨ (i ≠ j ∧ pool.threads[j]? = some u) := by
  rw [h, List.getElem?_set] at hu
  have hi : i < pool.threads.length := (List.getElem?_eq_some_iff.mp ht).1
  by_cases hij : i = j
  · subst hij
    rw [if_pos rfl, if_pos hi, Option.some.injEq] at hu
    exact .inl ⟨rfl, hu.symm⟩
  · rw [if_neg hij] at hu
    exact .inr ⟨hij, hu⟩

variable [Operational κ σ]

def next (program : ι → Procedure σ κ ε α) (pool : Pool ι σ κ ε α) :
    Move ι → Option (Pool ι σ κ ε α)
  | .start c => some { pool with threads := pool.threads ++ [⟨c, program c, []⟩] }
  | .resume i =>
    match pool.threads[i]? with
    | none => none
    | some t =>
      match t.rest with
      | .step op after => some
          { store := apply op pool.store
            past := pool.store :: pool.past
            threads := pool.threads.set i ⟨t.call, after pool.store, ⟨op, pool.store⟩ :: t.log⟩ }
      | _ => none

def run (program : ι → Procedure σ κ ε α) (check : Pool ι σ κ ε α → Move ι → Bool) :
    Pool ι σ κ ε α → List (Move ι) → Option (Pool ι σ κ ε α)
  | pool, [] => some pool
  | pool, m :: moves =>
    if check pool m then (pool.next program m).bind fun pool => run program check pool moves
    else none

/-- What resuming a thread does, said once. -/
theorem next_resume {program : ι → Procedure σ κ ε α} {pool pool' : Pool ι σ κ ε α} {i : ℕ}
    (h : pool.next program (.resume i) = some pool') :
    ∃ t op after, pool.threads[i]? = some t ∧ t.rest = .step op after ∧
      pool'.store = apply op pool.store ∧ pool'.past = pool.store :: pool.past ∧
      pool'.threads =
        pool.threads.set i ⟨t.call, after pool.store, ⟨op, pool.store⟩ :: t.log⟩ := by
  simp only [next] at h
  cases ht : pool.threads[i]? with
  | none => simp [ht] at h
  | some t =>
    cases hr : t.rest with
    | done a => simp [ht, hr] at h
    | fail e => simp [ht, hr] at h
    | step op after =>
      simp only [ht, hr, Option.some.injEq] at h
      subst h
      exact ⟨t, op, after, rfl, hr, rfl, rfl, rfl⟩

/-- A thread stays in the pool, and its log only grows. -/
theorem thread_persists {program : ι → Procedure σ κ ε α} {pool pool' : Pool ι σ κ ε α} {m : Move ι}
    (h : pool.next program m = some pool') {t : Thread ι σ κ ε α} (ht : t ∈ pool.threads) :
    ∃ t' ∈ pool'.threads, t'.call = t.call ∧ t.log <:+ t'.log := by
  cases m with
  | start c =>
    simp only [next, Option.some.injEq] at h
    subst h
    exact ⟨t, List.mem_append_left _ ht, rfl, List.suffix_rfl⟩
  | resume i =>
    obtain ⟨u, op, after, hu, _, _, _, hthreads⟩ := next_resume h
    have hi : i < pool.threads.length := (List.getElem?_eq_some_iff.mp hu).1
    obtain ⟨j, hj⟩ := List.mem_iff_getElem?.mp ht
    rw [hthreads]
    by_cases hij : i = j
    · subst hij
      obtain rfl : u = t := Option.some.inj (hu.symm.trans hj)
      exact ⟨_, List.mem_set hi _, rfl, List.suffix_cons _ _⟩
    · refine ⟨t, List.mem_of_getElem? (i := j) ?_, rfl, List.suffix_rfl⟩
      rw [List.getElem?_set, if_neg hij]
      exact hj

/-- The thread that was resumed, after its operation. -/
theorem thread_resumed {program : ι → Procedure σ κ ε α} {pool pool' : Pool ι σ κ ε α} {i : ℕ}
    (h : pool.next program (.resume i) = some pool') :
    ∃ t op, pool.pending i = some (t, op) ∧ pool'.store = apply op pool.store ∧
      pool'.past = pool.store :: pool.past ∧
      ∃ t' ∈ pool'.threads, t'.call = t.call ∧ t'.log = ⟨op, pool.store⟩ :: t.log := by
  obtain ⟨t, op, after, ht, hrest, hstore, hpast, hthreads⟩ := next_resume h
  have hi : i < pool.threads.length := (List.getElem?_eq_some_iff.mp ht).1
  refine ⟨t, op, pending_of_step ht hrest, hstore, hpast, ⟨t.call, after pool.store,
    ⟨op, pool.store⟩ :: t.log⟩, ?_, rfl, rfl⟩
  rw [hthreads]
  exact List.mem_set hi _

/-- A thread of the pool after an operation is one from before, or has the operation in its log. -/
theorem log_of_mem_next {program : ι → Procedure σ κ ε α} {pool pool' : Pool ι σ κ ε α} {i : ℕ}
    (h : pool.next program (.resume i) = some pool') {t : Thread ι σ κ ε α} {op : κ}
    (hpending : pool.pending i = some (t, op)) {u : Thread ι σ κ ε α} (hu : u ∈ pool'.threads) :
    u ∈ pool.threads ∨ u.log = ⟨op, pool.store⟩ :: t.log := by
  obtain ⟨t', op', after, ht, hrest, _, _, hthreads⟩ := next_resume h
  obtain ⟨rfl, rfl⟩ : t' = t ∧ op' = op := by
    simpa [pending_of_step ht hrest] using hpending
  obtain ⟨j, hj⟩ := List.mem_iff_getElem?.mp hu
  rcases threads_next_resume ht hthreads hj with ⟨_, rfl⟩ | ⟨_, hold⟩
  · exact .inr rfl
  · exact .inl (List.mem_of_getElem? hold)

/-- What holds of the log of some thread holds of one after an operation that keeps it in the log of
its own thread. -/
theorem exists_log_next {program : ι → Procedure σ κ ε α} {pool pool' : Pool ι σ κ ε α} {i : ℕ}
    (h : pool.next program (.resume i) = some pool') {t : Thread ι σ κ ε α} {op : κ}
    (hpending : pool.pending i = some (t, op)) {P : Log σ κ → Prop}
    (hP : P t.log → P (⟨op, pool.store⟩ :: t.log)) (hex : ∃ u ∈ pool.threads, P u.log) :
    ∃ u ∈ pool'.threads, P u.log := by
  obtain ⟨t', op', after, ht, hrest, _, _, hthreads⟩ := next_resume h
  obtain ⟨rfl, rfl⟩ : t' = t ∧ op' = op := by
    simpa [pending_of_step ht hrest] using hpending
  obtain ⟨u, hu, hPu⟩ := hex
  have hi : i < pool.threads.length := (List.getElem?_eq_some_iff.mp ht).1
  obtain ⟨j, hj⟩ := List.mem_iff_getElem?.mp hu
  rw [hthreads]
  by_cases hij : i = j
  · subst hij
    obtain rfl : t' = u := Option.some.inj (ht.symm.trans hj)
    exact ⟨_, List.mem_set hi _, hP hPu⟩
  · refine ⟨u, List.mem_of_getElem? (i := j) ?_, hPu⟩
    rw [List.getElem?_set, if_neg hij]
    exact hj

end Pool

variable [Operational κ σ]

/-- The pools reached from an initial store by moves which meet a condition. -/
inductive Reachable (program : ι → Procedure σ κ ε α) (init : σ → Prop)
    (ok : Pool ι σ κ ε α → Move ι → Prop) : Pool ι σ κ ε α → Prop where
  | initial {s : σ} : init s → Reachable program init ok (.initial s)
  | next {pool pool' : Pool ι σ κ ε α} {m : Move ι} : Reachable program init ok pool →
      ok pool m → pool.next program m = some pool' → Reachable program init ok pool'

abbrev Unrestricted (ι σ κ ε α : Type) : Pool ι σ κ ε α → Move ι → Prop := fun _ _ => True

namespace Reachable

variable {program : ι → Procedure σ κ ε α} {init : σ → Prop}
  {ok : Pool ι σ κ ε α → Move ι → Prop} {pool pool' : Pool ι σ κ ε α}

theorem of_run {check : Pool ι σ κ ε α → Move ι → Bool} {moves : List (Move ι)}
    (hcheck : ∀ pool m, check pool m = true → ok pool m) (h : Reachable program init ok pool)
    (hrun : pool.run program check moves = some pool') : Reachable program init ok pool' := by
  induction moves generalizing pool with
  | nil =>
    obtain rfl : pool = pool' := by simpa [Pool.run] using hrun
    exact h
  | cons m moves ih =>
    by_cases hm : check pool m = true
    · rw [Pool.run, if_pos hm, Option.bind_eq_some_iff] at hrun
      obtain ⟨mid, hmid, hrest⟩ := hrun
      exact ih (.next h (hcheck _ _ hm) hmid) hrest
    · rw [Pool.run, if_neg hm] at hrun
      cases hrun

/-- The pool that a run of checked moves ends in, if the run passes a test. -/
theorem of_any {check : Pool ι σ κ ε α → Move ι → Bool} {moves : List (Move ι)}
    {test : Pool ι σ κ ε α → Bool} (hcheck : ∀ pool m, check pool m = true → ok pool m)
    (h : Reachable program init ok pool) (hrun : (pool.run program check moves).any test = true) :
    ∃ pool', Reachable program init ok pool' ∧ test pool' = true := by
  obtain ⟨pool', hpool', htest⟩ := (Option.any_eq_true _ _).mp hrun
  exact ⟨pool', .of_run hcheck h hpool', htest⟩

theorem mono {ok' : Pool ι σ κ ε α → Move ι → Prop}
    (h : Reachable program init ok pool) (hok : ∀ pool m, ok pool m → ok' pool m) :
    Reachable program init ok' pool := by
  induction h with
  | initial hs => exact .initial hs
  | next _ hm hnext ih => exact .next ih (hok _ _ hm) hnext

/-- The calls keep their contracts in every interleaving. -/
theorem obeys {G : ι → Log σ κ → σ → κ → Prop} {Q : ι → Log σ κ → Except ε α → Prop}
    (hprogram : ∀ c, (program c).Obeys (G c) (Q c) [])
    (h : Reachable program init ok pool) :
    ∀ t ∈ pool.threads, Logged (G t.call) t.log ∧ t.rest.Obeys (G t.call) (Q t.call) t.log := by
  induction h with
  | initial hs => intro t ht; simp [Pool.initial] at ht
  | @next pool pool' m _ _ hnext ih =>
    intro t ht
    cases m with
    | start c =>
      simp only [Pool.next, Option.some.injEq] at hnext
      subst hnext
      rcases List.mem_append.mp ht with ht | ht
      · exact ih t ht
      · obtain rfl := List.mem_singleton.mp ht
        exact ⟨trivial, hprogram c⟩
    | resume i =>
      obtain ⟨u, op, after, hu, hrest, _, _, hthreads⟩ := Pool.next_resume hnext
      obtain ⟨j, hj⟩ := List.mem_iff_getElem?.mp ht
      rcases Pool.threads_next_resume hu hthreads hj with ⟨_, rfl⟩ | ⟨_, hold⟩
      · obtain ⟨hlog, hleft⟩ := ih u (List.mem_of_getElem? hu)
        rw [hrest] at hleft
        exact ⟨⟨(hleft _).1, hlog⟩, (hleft _).2⟩
      · exact ih t (List.mem_of_getElem? hold)

theorem logged {G : ι → Log σ κ → σ → κ → Prop} {Q : ι → Log σ κ → Except ε α → Prop}
    (hprogram : ∀ c, (program c).Obeys (G c) (Q c) [])
    (h : Reachable program init ok pool) {t : Thread ι σ κ ε α} (ht : t ∈ pool.threads) :
    Logged (G t.call) t.log :=
  (h.obeys hprogram t ht).1

theorem ended {G : ι → Log σ κ → σ → κ → Prop} {Q : ι → Log σ κ → Except ε α → Prop}
    (hprogram : ∀ c, (program c).Obeys (G c) (Q c) [])
    (h : Reachable program init ok pool) {t : Thread ι σ κ ε α} (ht : t ∈ pool.threads)
    {r : Except ε α} (hresult : t.rest.result = some r) : Q t.call t.log r := by
  have hleft := (h.obeys hprogram t ht).2
  cases hrest : t.rest with
  | done a =>
    rw [hrest] at hleft hresult
    obtain rfl := Option.some.inj hresult
    exact hleft
  | fail e =>
    rw [hrest] at hleft hresult
    obtain rfl := Option.some.inj hresult
    exact hleft
  | step op next =>
    rw [hrest] at hresult
    cases hresult

theorem returned {G : ι → Log σ κ → σ → κ → Prop} {Q : ι → Log σ κ → Except ε α → Prop}
    (hprogram : ∀ c, (program c).Obeys (G c) (Q c) [])
    (h : Reachable program init ok pool) {t : Thread ι σ κ ε α} (ht : t ∈ pool.threads)
    {value : α} (hdone : t.rest = .done value) : Q t.call t.log (.ok value) := by
  have hleft := (h.obeys hprogram t ht).2
  rwa [hdone] at hleft

theorem invariant {I : σ → Prop} (hinit : ∀ s, init s → I s)
    (hstep : ∀ (op : κ) s, I s → I (apply op s)) (h : Reachable program init ok pool) :
    ∀ s ∈ pool.history, I s := by
  induction h with
  | @initial s hs =>
    intro u hu
    obtain rfl : u = s := by simpa [Pool.history, Pool.initial] using hu
    exact hinit u hs
  | @next pool pool' m _ _ hnext ih =>
    cases m with
    | start c =>
      simp only [Pool.next, Option.some.injEq] at hnext
      subst hnext
      exact ih
    | resume i =>
      obtain ⟨_, op, _, _, _, hstore, hpast, _⟩ := Pool.next_resume hnext
      intro u hu
      rw [Pool.history, hstore, hpast] at hu
      rcases List.mem_cons.mp hu with rfl | hu
      · exact hstep op _ (ih _ List.mem_cons_self)
      · exact ih u hu

/-- Only calls that may be started are running. -/
theorem started {C : ι → Prop} (hstart : ∀ pool c, ok pool (.start c) → C c)
    (h : Reachable program init ok pool) : ∀ t ∈ pool.threads, C t.call := by
  induction h with
  | initial hs => intro t ht; simp [Pool.initial] at ht
  | @next pool pool' m _ hm hnext ih =>
    intro t ht
    cases m with
    | start c =>
      simp only [Pool.next, Option.some.injEq] at hnext
      subst hnext
      rcases List.mem_append.mp ht with ht | ht
      · exact ih t ht
      · obtain rfl := List.mem_singleton.mp ht
        exact hstart pool c hm
    | resume i =>
      obtain ⟨u, op, after, hu, _, _, _, hthreads⟩ := Pool.next_resume hnext
      obtain ⟨j, hj⟩ := List.mem_iff_getElem?.mp ht
      rcases Pool.threads_next_resume hu hthreads hj with ⟨_, rfl⟩ | ⟨_, hold⟩
      · exact ih u (List.mem_of_getElem? hu)
      · exact ih t (List.mem_of_getElem? hold)

/-- A run that has started only calls of a kind is a run in which no others may be started. -/
theorem of_threads {C : ι → Prop} (h : Reachable program init ok pool)
    (hcalls : ∀ t ∈ pool.threads, C t.call) :
    Reachable program init (fun p m => ok p m ∧ ∀ c, m = .start c → C c) pool := by
  induction h with
  | initial hs => exact .initial hs
  | @next pool pool' m _ hm hnext ih =>
    refine .next (ih fun t ht => ?_) ⟨hm, ?_⟩ hnext
    · obtain ⟨t', ht', hcall, _⟩ := Pool.thread_persists hnext ht
      exact hcall ▸ hcalls t' ht'
    · rintro c rfl
      simp only [Pool.next, Option.some.injEq] at hnext
      subst hnext
      exact hcalls _ (List.mem_append_right _ List.mem_cons_self)

/-- What holds at first and is kept by every step of a reachable pool holds now. -/
theorem keeps {I : σ → Prop} (hinit : ∀ s, init s → I s)
    (hstep : ∀ pool i t op, Reachable program init ok pool → ok pool (.resume i) →
      pool.pending i = some (t, op) → I pool.store → I (apply op pool.store))
    (h : Reachable program init ok pool) : I pool.store := by
  induction h with
  | initial hs => exact hinit _ hs
  | @next pool pool' m hpool hm hnext ih =>
    cases m with
    | start c =>
      simp only [Pool.next, Option.some.injEq] at hnext
      subst hnext
      exact ih
    | resume i =>
      obtain ⟨t, op, after, ht, hrest, hstore, _, _⟩ := Pool.next_resume hnext
      rw [hstore]
      exact hstep pool i t op hpool hm (Pool.pending_of_step ht hrest) ih

/-- What holds of the first store, and of each store and those before it when a step is taken. -/
theorem keeps_past {I : σ → List σ → Prop} (hinit : ∀ s, init s → I s [])
    (hstep : ∀ pool i t op, Reachable program init ok pool → ok pool (.resume i) →
      pool.pending i = some (t, op) → I pool.store pool.past →
      I (apply op pool.store) (pool.store :: pool.past))
    (h : Reachable program init ok pool) : I pool.store pool.past := by
  induction h with
  | initial hs => exact hinit _ hs
  | @next pool pool' m hpool hm hnext ih =>
    cases m with
    | start c =>
      simp only [Pool.next, Option.some.injEq] at hnext
      subst hnext
      exact ih
    | resume i =>
      obtain ⟨t, op, after, ht, hrest, hstore, hpast, _⟩ := Pool.next_resume hnext
      rw [hstore, hpast]
      exact hstep pool i t op hpool hm (Pool.pending_of_step ht hrest) ih

/-- A relation between the log of each call and the store, kept by every step of every call. -/
theorem tracks {T : ι → Log σ κ → σ → Prop} (hstart : ∀ c s, T c [] s)
    (hstep : ∀ pool i t op, Reachable program init ok pool → ok pool (.resume i) →
      pool.pending i = some (t, op) → t ∈ pool.threads →
      (∀ u ∈ pool.threads, T u.call u.log pool.store → T u.call u.log (apply op pool.store)) ∧
      (T t.call t.log pool.store →
        T t.call (⟨op, pool.store⟩ :: t.log) (apply op pool.store)))
    (h : Reachable program init ok pool) : ∀ t ∈ pool.threads, T t.call t.log pool.store := by
  induction h with
  | initial hs => intro t ht; simp [Pool.initial] at ht
  | @next pool pool' m hpool hm hnext ih =>
    intro t ht
    cases m with
    | start c =>
      simp only [Pool.next, Option.some.injEq] at hnext
      subst hnext
      rcases List.mem_append.mp ht with ht | ht
      · exact ih t ht
      · obtain rfl := List.mem_singleton.mp ht
        exact hstart c _
    | resume i =>
      obtain ⟨u, op, after, hu, hrest, hstore, _, hthreads⟩ := Pool.next_resume hnext
      have humem := List.mem_of_getElem? hu
      obtain ⟨hothers, hself⟩ :=
        hstep pool i u op hpool hm (Pool.pending_of_step hu hrest) humem
      rw [hstore]
      obtain ⟨j, hj⟩ := List.mem_iff_getElem?.mp ht
      rcases Pool.threads_next_resume hu hthreads hj with ⟨_, rfl⟩ | ⟨_, hold⟩
      · exact hself (ih u humem)
      · have hmem := List.mem_of_getElem? hold
        exact hothers t hmem (ih t hmem)

/-- The contract of a call that is about to perform an operation. -/
theorem pending_obeys {G : ι → Log σ κ → σ → κ → Prop} {Q : ι → Log σ κ → Except ε α → Prop}
    (hprogram : ∀ c, (program c).Obeys (G c) (Q c) []) (h : Reachable program init ok pool)
    {i : ℕ} {t : Thread ι σ κ ε α} {op : κ} (hpending : pool.pending i = some (t, op)) :
    t ∈ pool.threads ∧ G t.call t.log pool.store op := by
  unfold Pool.pending at hpending
  cases ht : pool.threads[i]? with
  | none => simp [ht] at hpending
  | some u =>
    cases hrest : u.rest with
    | done a => simp [ht, hrest] at hpending
    | fail e => simp [ht, hrest] at hpending
    | step op' next =>
      simp only [ht, hrest, Option.some.injEq, Prod.mk.injEq] at hpending
      obtain ⟨rfl, rfl⟩ := hpending
      have hu := List.mem_of_getElem? ht
      have hleft := (h.obeys hprogram u hu).2
      rw [hrest] at hleft
      exact ⟨hu, (hleft pool.store).1⟩

/-- What held at some time and not at first was brought about by an operation of a call. -/
theorem cause_history {P : σ → Prop} (hinit : ∀ s, init s → ¬P s)
    (h : Reachable program init ok pool) {s : σ} (hs : s ∈ pool.history) (hP : P s) :
    ∃ t ∈ pool.threads, ∃ e ∈ t.log, ¬P e.before ∧ P (apply e.operation e.before) := by
  induction h generalizing s with
  | @initial s₀ hs₀ =>
    obtain rfl : s = s₀ := by simpa [Pool.history, Pool.initial] using hs
    exact absurd hP (hinit s hs₀)
  | @next pool pool' m _ _ hnext ih =>
    have hearlier : ∀ {s}, s ∈ pool.history → P s → ∃ t ∈ pool'.threads, ∃ e ∈ t.log,
        ¬P e.before ∧ P (apply e.operation e.before) := by
      intro s hs hP
      obtain ⟨t, ht, e, he, hcause⟩ := ih hs hP
      obtain ⟨t', ht', _, hlog⟩ := Pool.thread_persists hnext ht
      exact ⟨t', ht', e, hlog.subset he, hcause⟩
    cases m with
    | start c =>
      simp only [Pool.next, Option.some.injEq] at hnext
      subst hnext
      exact hearlier hs hP
    | resume i =>
      obtain ⟨t, op, _, hstore, hpast, t', ht', _, hlog⟩ := Pool.thread_resumed hnext
      rw [Pool.history, hstore, hpast] at hs
      rcases List.mem_cons.mp hs with rfl | hs
      · by_cases hbefore : P pool.store
        · exact hearlier List.mem_cons_self hbefore
        · refine ⟨t', ht', ⟨op, pool.store⟩, ?_, hbefore, hP⟩
          rw [hlog]
          exact List.mem_cons_self
      · exact hearlier hs hP

/-- What holds now and did not hold at first was brought about by an operation of a call. -/
theorem cause {P : σ → Prop} (hinit : ∀ s, init s → ¬P s)
    (h : Reachable program init ok pool) (hP : P pool.store) :
    ∃ t ∈ pool.threads, ∃ e ∈ t.log, ¬P e.before ∧ P (apply e.operation e.before) :=
  h.cause_history hinit List.mem_cons_self hP

end Reachable

/-- A preorder between stores that every operation respects. -/
structure Evolution (κ : Type) [Operational κ σ] (E : σ → σ → Prop) : Prop where
  refl : ∀ s, E s s
  trans : ∀ s t u, E s t → E t u → E s u
  step : ∀ (op : κ) s, E s (apply op s)

/-- A preorder between stores that the allowed steps of reachable pools respect. -/
structure Drift (program : ι → Procedure σ κ ε α) (init : σ → Prop)
    (ok : Pool ι σ κ ε α → Move ι → Prop) (E : σ → σ → Prop) : Prop where
  refl : ∀ s, E s s
  trans : ∀ s t u, E s t → E t u → E s u
  step : ∀ pool i t op, Reachable program init ok pool → ok pool (.resume i) →
    pool.pending i = some (t, op) → E pool.store (apply op pool.store)

theorem Evolution.drift {program : ι → Procedure σ κ ε α} {init : σ → Prop}
    {ok : Pool ι σ κ ε α → Move ι → Prop} {E : σ → σ → Prop} (hE : Evolution κ E) :
    Drift program init ok E :=
  ⟨hE.refl, hE.trans, fun pool _ _ op _ _ _ => hE.step op pool.store⟩

namespace Reachable

variable {program : ι → Procedure σ κ ε α} {init : σ → Prop}
  {ok : Pool ι σ κ ε α → Move ι → Prop} {pool pool' : Pool ι σ κ ε α} {E : σ → σ → Prop}

/-- Each store a call found drifted from what its earlier operations left, and into the present
store. -/
theorem drifts (hE : Drift program init ok E) (h : Reachable program init ok pool) :
    ∀ t ∈ pool.threads,
      t.log.Pairwise (fun e d => E (apply d.operation d.before) e.before) ∧
      ∀ e ∈ t.log, E (apply e.operation e.before) pool.store := by
  induction h with
  | initial hs => intro t ht; simp [Pool.initial] at ht
  | @next pool pool' m hpool hm hnext ih =>
    intro t ht
    cases m with
    | start c =>
      simp only [Pool.next, Option.some.injEq] at hnext
      subst hnext
      rcases List.mem_append.mp ht with ht | ht
      · exact ih t ht
      · obtain rfl := List.mem_singleton.mp ht
        exact ⟨.nil, by simp⟩
    | resume i =>
      obtain ⟨u, op, after, hu, hrest, hstore, _, hthreads⟩ := Pool.next_resume hnext
      obtain ⟨j, hj⟩ := List.mem_iff_getElem?.mp ht
      have hnow : E pool.store pool'.store := by
        rw [hstore]
        exact hE.step pool i u op hpool hm (Pool.pending_of_step hu hrest)
      rcases Pool.threads_next_resume hu hthreads hj with ⟨_, rfl⟩ | ⟨_, hold⟩
      · obtain ⟨hpairs, hlog⟩ := ih u (List.mem_of_getElem? hu)
        refine ⟨List.pairwise_cons.mpr ⟨hlog, hpairs⟩, fun e he => ?_⟩
        rcases List.mem_cons.mp he with rfl | he
        · rw [hstore]
          exact hE.refl _
        · exact hE.trans _ _ _ (hlog e he) hnow
      · obtain ⟨hpairs, hlog⟩ := ih t (List.mem_of_getElem? hold)
        exact ⟨hpairs, fun e he => hE.trans _ _ _ (hlog e he) hnow⟩

/-- Of two stores of a run, the earlier one drifted into the later one. -/
theorem drifts_history (hE : Drift program init ok E) (h : Reachable program init ok pool) :
    pool.history.Pairwise fun s t => E t s := by
  induction h with
  | initial hs => exact List.pairwise_singleton _ _
  | @next pool pool' m hpool hm hnext ih =>
    cases m with
    | start c =>
      simp only [Pool.next, Option.some.injEq] at hnext
      subst hnext
      exact ih
    | resume i =>
      obtain ⟨u, op, after, hu, hrest, hstore, hpast, _⟩ := Pool.next_resume hnext
      have hnow : E pool.store pool'.store := by
        rw [hstore]
        exact hE.step pool i u op hpool hm (Pool.pending_of_step hu hrest)
      rw [Pool.history, hpast]
      refine List.pairwise_cons.mpr ⟨fun s hs => ?_, ih⟩
      rcases List.mem_cons.mp hs with rfl | hs
      · exact hnow
      · exact hE.trans _ _ _ ((List.pairwise_cons.mp ih).1 s hs) hnow

theorem evolves (hE : Evolution κ E) (h : Reachable program init ok pool) :
    ∀ t ∈ pool.threads,
      t.log.Pairwise (fun e d => E (apply d.operation d.before) e.before) ∧
      ∀ e ∈ t.log, E (apply e.operation e.before) pool.store := h.drifts hE.drift

theorem evolves_before (hE : Evolution κ E) (h : Reachable program init ok pool)
    {t : Thread ι σ κ ε α} (ht : t ∈ pool.threads) {e : Event σ κ} (he : e ∈ t.log) :
    E e.before pool.store :=
  hE.trans _ _ _ (hE.step e.operation e.before) ((h.evolves hE t ht).2 e he)

/-- The stores of two operations of one call, in their order. -/
theorem drifts_between (hE : Drift program init ok E) (h : Reachable program init ok pool)
    {t : Thread ι σ κ ε α} (ht : t ∈ pool.threads) {e d : Event σ κ} {earlier later : Log σ κ}
    (hlog : t.log = later ++ e :: earlier) (hd : d ∈ earlier) :
    E (apply d.operation d.before) e.before := by
  have hpairs := (h.drifts hE t ht).1
  rw [hlog, List.pairwise_append] at hpairs
  exact (List.pairwise_cons.mp hpairs.2.1).1 d hd

theorem evolves_between (hE : Evolution κ E) (h : Reachable program init ok pool)
    {t : Thread ι σ κ ε α} (ht : t ∈ pool.threads) {e d : Event σ κ} {earlier later : Log σ κ}
    (hlog : t.log = later ++ e :: earlier) (hd : d ∈ earlier) :
    E (apply d.operation d.before) e.before := h.drifts_between hE.drift ht hlog hd

/-- A call's log only holds stores which the run went through. -/
theorem before_mem_past (h : Reachable program init ok pool) :
    ∀ t ∈ pool.threads, ∀ e ∈ t.log, e.before ∈ pool.past := by
  induction h with
  | initial hs => intro t ht; simp [Pool.initial] at ht
  | @next pool pool' m _ _ hnext ih =>
    intro t ht e he
    cases m with
    | start c =>
      simp only [Pool.next, Option.some.injEq] at hnext
      subst hnext
      rcases List.mem_append.mp ht with ht | ht
      · exact ih t ht e he
      · simp only [List.mem_singleton] at ht
        simp [ht] at he
    | resume i =>
      obtain ⟨u, op, after, hu, _, _, hpast, hthreads⟩ := Pool.next_resume hnext
      obtain ⟨j, hj⟩ := List.mem_iff_getElem?.mp ht
      rw [hpast]
      rcases Pool.threads_next_resume hu hthreads hj with ⟨_, rfl⟩ | ⟨_, hold⟩
      · rcases List.mem_cons.mp he with rfl | he
        · exact List.mem_cons_self
        · exact List.mem_cons_of_mem _ (ih u (List.mem_of_getElem? hu) e he)
      · exact List.mem_cons_of_mem _ (ih t (List.mem_of_getElem? hold) e he)

/-- Every store of the run evolved into the present one. -/
theorem evolves_history (hE : Evolution κ E) (h : Reachable program init ok pool) :
    ∀ s ∈ pool.history, E s pool.store := by
  intro s hs
  have hpairs := h.drifts_history hE.drift
  rcases List.mem_cons.mp hs with rfl | hs
  · exact hE.refl _
  · exact (List.pairwise_cons.mp hpairs).1 s hs

/-- The pool in which a call was about to perform an operation that its log shows. -/
theorem of_log (h : Reachable program init ok pool) {t : Thread ι σ κ ε α}
    (ht : t ∈ pool.threads) {e : Event σ κ} {earlier later : Log σ κ}
    (hlog : t.log = later ++ e :: earlier) :
    ∃ pool₀ i t₀ after, Reachable program init ok pool₀ ∧ ok pool₀ (.resume i) ∧
      pool₀.threads[i]? = some t₀ ∧ t₀.call = t.call ∧ t₀.log = earlier ∧
      t₀.rest = .step e.operation after ∧ pool₀.store = e.before ∧
      pool₀.history <:+ pool.past := by
  induction h generalizing t later with
  | initial hs => simp [Pool.initial] at ht
  | @next pool pool' m hpool hm hnext ih =>
    cases m with
    | start c =>
      simp only [Pool.next, Option.some.injEq] at hnext
      subst hnext
      rcases List.mem_append.mp ht with ht | ht
      · exact ih ht hlog
      · obtain rfl := List.mem_singleton.mp ht
        simp at hlog
    | resume i =>
      obtain ⟨u, op, after, hu, hrest, _, hpast, hthreads⟩ := Pool.next_resume hnext
      have hsuffix : pool.past <:+ pool'.past := by
        rw [hpast]
        exact List.suffix_cons _ _
      obtain ⟨j, hj⟩ := List.mem_iff_getElem?.mp ht
      rcases Pool.threads_next_resume hu hthreads hj with ⟨_, rfl⟩ | ⟨_, hold⟩
      · cases later with
        | nil =>
          obtain ⟨rfl, rfl⟩ : (⟨op, pool.store⟩ : Event σ κ) = e ∧ u.log = earlier := by
            simpa using hlog
          refine ⟨pool, i, u, after, hpool, hm, hu, rfl, rfl, hrest, rfl, ?_⟩
          rw [hpast]
          exact List.suffix_rfl
        | cons d later =>
          have hlog' : u.log = later ++ e :: earlier := (List.cons.inj hlog).2
          obtain ⟨pool₀, k, t₀, after₀, hreach, hok, hk, hcall, hrest'⟩ :=
            ih (List.mem_of_getElem? hu) hlog'
          exact ⟨pool₀, k, t₀, after₀, hreach, hok, hk, hcall, hrest'.1, hrest'.2.1,
            hrest'.2.2.1, hrest'.2.2.2.trans hsuffix⟩
      · obtain ⟨pool₀, k, t₀, after₀, hreach, hok, hk, hcall, hrest'⟩ :=
          ih (List.mem_of_getElem? hold) hlog
        exact ⟨pool₀, k, t₀, after₀, hreach, hok, hk, hcall, hrest'.1, hrest'.2.1,
          hrest'.2.2.1, hrest'.2.2.2.trans hsuffix⟩

theorem drifts_before (hE : Drift program init ok E) (h : Reachable program init ok pool)
    {t : Thread ι σ κ ε α} (ht : t ∈ pool.threads) {e : Event σ κ} (he : e ∈ t.log) :
    E e.before pool.store := by
  obtain ⟨later, earlier, hlog⟩ := List.append_of_mem he
  obtain ⟨pool₀, i, t₀, after, hreach, hok, hi, _, _, hrest, hstore, _⟩ := h.of_log ht hlog
  have hstep := hE.step pool₀ i t₀ e.operation hreach hok (Pool.pending_of_step hi hrest)
  rw [hstore] at hstep
  exact hE.trans _ _ _ hstep ((h.drifts hE t ht).2 e he)

/-- The calls of a run whose started calls are of one kind perform operations of one kind. -/
theorem pending_only {C : ι → Prop} {K : κ → Prop} (hstart : ∀ pool c, ok pool (.start c) → C c)
    (hprogram : ∀ c, C c → (program c).Only K) (h : Reachable program init ok pool) {i : ℕ}
    {t : Thread ι σ κ ε α} {op : κ} (hpending : pool.pending i = some (t, op)) : K op := by
  have hobeys : ∀ c, (program c).Obeys (fun _ _ op => C c → K op) (fun _ _ => True) [] := by
    intro c
    by_cases hc : C c
    · exact (hprogram c hc).obeys (fun _ _ _ hop _ => hop) (fun _ _ _ _ => trivial)
        fun _ _ _ => trivial
    · exact (Procedure.only_true _).obeys (fun _ _ _ _ hC => absurd hC hc)
        (fun _ _ _ _ => trivial) fun _ _ _ => trivial
  obtain ⟨ht, hop⟩ := h.pending_obeys (Q := fun _ _ _ => True) hobeys hpending
  exact hop (h.started hstart t ht)

/-- Operations which move a clock on find different times in different calls. -/
theorem stamp_ne {stamp : σ → ℕ} {K : κ → Prop}
    (hE : Evolution κ fun s t : σ => stamp s ≤ stamp t)
    (hK : ∀ op s, K op → stamp s < stamp (apply op s)) (h : Reachable program init ok pool)
    {i j : ℕ} {t u : Thread ι σ κ ε α} (hij : i ≠ j) (ht : pool.threads[i]? = some t)
    (hu : pool.threads[j]? = some u) {e d : Event σ κ} (he : e ∈ t.log) (hd : d ∈ u.log)
    (hKe : K e.operation) (hKd : K d.operation) : stamp e.before ≠ stamp d.before := by
  induction h generalizing i j t u with
  | initial hs => simp [Pool.initial] at ht
  | @next pool pool' m hpool _ hnext ih =>
    cases m with
    | start c =>
      simp only [Pool.next, Option.some.injEq] at hnext
      subst hnext
      have hold : ∀ {k : ℕ} {v : Thread ι σ κ ε α},
          (pool.threads ++ [⟨c, program c, []⟩])[k]? = some v → ∀ {x}, x ∈ v.log →
          pool.threads[k]? = some v := by
        intro k v hv x hx
        by_cases hk : k < pool.threads.length
        · rwa [List.getElem?_append_left hk] at hv
        · rw [List.getElem?_append_right (by omega), List.getElem?_singleton] at hv
          split at hv
          · cases hv
            simp at hx
          · cases hv
      exact ih hij (hold ht he) (hold hu hd) he hd
    | resume k =>
      obtain ⟨v, op, after, hv, _, _, _, hthreads⟩ := Pool.next_resume hnext
      have hnow : ∀ {w : Thread ι σ κ ε α}, w ∈ pool.threads → ∀ {x}, x ∈ w.log →
          K x.operation → stamp x.before < stamp pool.store := by
        intro w hw x hx hKx
        exact Nat.lt_of_lt_of_le (hK _ _ hKx) ((hpool.evolves hE w hw).2 x hx)
      rcases Pool.threads_next_resume hv hthreads ht with ⟨hki, rfl⟩ | ⟨hki, hold⟩ <;>
        rcases Pool.threads_next_resume hv hthreads hu with ⟨hkj, rfl⟩ | ⟨hkj, hold'⟩
      · omega
      · rcases List.mem_cons.mp he with rfl | he
        · have hlt := hnow (List.mem_of_getElem? hold') hd hKd
          exact fun heq => absurd heq (by dsimp only; omega)
        · exact ih hij (hki ▸ hv) hold' he hd
      · rcases List.mem_cons.mp hd with rfl | hd
        · have hlt := hnow (List.mem_of_getElem? hold) he hKe
          exact fun heq => absurd heq (by dsimp only; omega)
        · exact ih hij hold (hkj ▸ hv) he hd
      · exact ih hij hold hold' he hd

end Reachable

end Concurrent
