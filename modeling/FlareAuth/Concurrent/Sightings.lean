import FlareAuth.Concurrent.Trace
import FlareAuth.Concurrent.Unreliable

/-!
# What a procedure has seen

`Sees` relates the value that a procedure returns to the states that its operations have found. It
says less than a trace and so carries over to a larger store as it is: a lifted procedure has seen
the components of the states that it found. In a run these are states the run went through.
-/

namespace Concurrent

variable {ι σ τ κ κ' ε α β γ : Type}

namespace Procedure

/-- Every return has seen states that are related to its value, the latest first. -/
def Sees : Procedure σ κ ε α → (α → List σ → Prop) → Prop
  | done a, P => P a []
  | fail _, _ => True
  | step _ next, P => ∀ s, (next s).Sees fun a seen => P a (seen ++ [s])

variable {p : Procedure σ κ ε α} {f : α → Procedure σ κ ε β} {P : α → List σ → Prop}
  {Q : β → List σ → Prop}

theorem sees_done {a : α} (h : P a []) : (done a : Procedure σ κ ε α).Sees P := h

theorem sees_true (p : Procedure σ κ ε α) : p.Sees fun _ _ => True := by
  induction p with
  | done a => exact trivial
  | fail e => exact trivial
  | step op next ih => exact ih

theorem Sees.mono {P' : α → List σ → Prop} (h : p.Sees P) (hP : ∀ a seen, P a seen → P' a seen) :
    p.Sees P' := by
  induction p generalizing P P' with
  | done a => exact hP _ _ h
  | fail e => exact trivial
  | step op next ih => exact fun s => ih s (h s) fun a seen => hP a _

theorem Sees.and {P' : α → List σ → Prop} (h : p.Sees P) (h' : p.Sees P') :
    p.Sees fun a seen => P a seen ∧ P' a seen := by
  induction p generalizing P P' with
  | done a => exact ⟨h, h'⟩
  | fail e => exact trivial
  | step op next ih => exact fun s => ih s (h s) (h' s)

theorem Sees.bind (h : p.Sees P)
    (hf : ∀ a first, P a first → (f a).Sees fun b second => Q b (second ++ first)) :
    (p >>= f).Sees Q := by
  induction p generalizing P Q with
  | done a => exact (hf a [] h).mono fun b second hQ => by rwa [List.append_nil] at hQ
  | fail e => exact trivial
  | step op next ih =>
    intro s
    refine ih s (h s) fun a first hP => ?_
    refine (hf a _ hP).mono fun b second hQ => ?_
    rwa [List.append_assoc]

/-- What the second part has seen is enough, if more may be seen before. -/
theorem Sees.after (hQ : ∀ b seen earlier, Q b seen → Q b (seen ++ earlier)) (p : Procedure σ κ ε α)
    (hf : ∀ a, (f a).Sees Q) : (p >>= f).Sees Q :=
  (sees_true p).bind fun a first _ => (hf a).mono fun b second hb => hQ b second first hb

theorem Sees.map {g : α → β} (h : p.Sees fun a seen => Q (g a) seen) : (g <$> p).Sees Q :=
  Sees.bind h fun _ _ ha => ha

theorem sees_query (op : κ) (answer : σ → α) :
    (query op answer : Procedure σ κ ε α).Sees fun a seen => ∃ s, a = answer s ∧ seen = [s] :=
  fun s => ⟨s, rfl, rfl⟩

theorem sees_require (c : Prop) [Decidable c] (e : ε) :
    (require c e : Procedure σ κ ε Unit).Sees fun _ seen => c ∧ seen = [] := by
  by_cases h : c
  · rw [require_pos h]
    exact ⟨h, rfl⟩
  · rw [require_neg h]
    exact trivial

theorem sees_orThrow (o : Option α) (e : ε) :
    (orThrow o e : Procedure σ κ ε α).Sees fun a seen => o = some a ∧ seen = [] := by
  cases o with
  | none => exact trivial
  | some a => exact ⟨rfl, rfl⟩

theorem sees_ofExcept (r : Except ε α) :
    (ofExcept r : Procedure σ κ ε α).Sees fun a seen => r = .ok a ∧ seen = [] := by
  cases r with
  | ok a => exact ⟨rfl, rfl⟩
  | error e => exact trivial

theorem sees_unlessFailed {e : Option ε} (h : p.Sees P) : (unlessFailed e p).Sees P := by
  cases e with
  | none => exact h
  | some e => exact trivial

theorem sees_tryQuery (fault : σ → Option ε) (op : κ) (answer : σ → α) :
    (tryQuery fault op answer).Sees fun a seen => ∃ s, a = answer s ∧ seen = [s] :=
  fun s => sees_unlessFailed ⟨s, rfl, rfl⟩

/-- A handler goes on from whatever was seen before the failure. -/
theorem Sees.tryCatch {handle : ε → Procedure σ κ ε α} (h : p.Sees P)
    (hhandle : ∀ e earlier, (handle e).Sees fun a seen => P a (seen ++ earlier)) :
    (p.tryCatch handle).Sees P := by
  induction p generalizing P with
  | done a => exact h
  | fail e => exact (hhandle e []).mono fun a seen ha => by rwa [List.append_nil] at ha
  | step op next ih =>
    intro s
    refine ih s (h s) fun e earlier => (hhandle e (earlier ++ [s])).mono fun a seen ha => ?_
    rwa [List.append_assoc]

/-- A lifted procedure has seen the components of the states that it found. -/
theorem Sees.lift {get : τ → σ} {inject : κ → κ'} (h : p.Sees P) :
    (p.lift get inject).Sees fun a seen => P a (seen.map get) := by
  induction p generalizing P with
  | done a => exact h
  | fail e => exact trivial
  | step op next ih =>
    intro t
    refine (ih (get t) (h (get t))).mono fun a seen ha => ?_
    beta_reduce
    rwa [List.map_append]

theorem Sees.attempt {get : τ → σ} {inject : κ → κ'} {fault : τ → Option ε} (h : p.Sees P) :
    (p.attempt get inject fault).Sees fun a seen => P a (seen.map get) := by
  induction p generalizing P with
  | done a => exact h
  | fail e => exact trivial
  | step op next ih =>
    intro t
    refine sees_unlessFailed ((ih (get t) (h (get t))).mono fun a seen ha => ?_)
    beta_reduce
    rwa [List.map_append]

/-- A loop with a value from each round, if what a round has seen may be seen among others. -/
theorem Sees.collect {bs : List γ} {body : γ → Procedure σ κ ε α} {D : γ → α → List σ → Prop}
    (hD : ∀ b a seen seen', seen ⊆ seen' → D b a seen → D b a seen')
    (h : ∀ b ∈ bs, (body b).Sees fun a seen => D b a seen) :
    (collect bs body).Sees fun as seen => List.Forall₂ (fun b a => D b a seen) bs as := by
  induction bs with
  | nil => exact .nil
  | cons b bs ih =>
    refine (h b List.mem_cons_self).bind fun a first hfirst => ?_
    refine (ih fun c hc => h c (List.mem_cons_of_mem _ hc)).bind fun as second hsecond => ?_
    refine .cons ?_ (hsecond.imp fun c x hx => ?_)
    · exact hD b a first _ (by simp) hfirst
    · exact hD c x second _ (by simp) hx

/-- A loop without values, if what a round has seen may be seen among others. -/
theorem Sees.forEach {bs : List γ} {body : γ → Procedure σ κ ε Unit} {D : γ → List σ → Prop}
    (hD : ∀ b seen seen', seen ⊆ seen' → D b seen → D b seen')
    (h : ∀ b ∈ bs, (body b).Sees fun _ seen => D b seen) :
    (forEach bs body).Sees fun _ seen => ∀ b ∈ bs, D b seen := by
  induction bs with
  | nil => exact fun b hb => nomatch hb
  | cons b bs ih =>
    refine (h b List.mem_cons_self).bind fun _ first hfirst => ?_
    refine (ih fun c hc => h c (List.mem_cons_of_mem _ hc)).mono fun _ second hsecond c hc => ?_
    rcases List.mem_cons.mp hc with rfl | hc
    · exact hD c first _ (by simp) hfirst
    · exact hD c second _ (by simp) (hsecond c hc)

theorem Sees.leaves (h : p.Sees P) : p.Leaves fun a log => P a (log.map (·.before)) := by
  induction p generalizing P with
  | done a => exact h
  | fail e => exact trivial
  | step op next ih =>
    intro s
    refine (ih s (h s)).mono fun a log ha => ?_
    beta_reduce
    rwa [List.map_append]

/-- A run of a procedure alone has only seen states that its operations lead to. -/
theorem Sees.exec [Operational κ σ] {K : κ → Prop} {I : σ → Prop} (h : p.Sees P) (hK : p.Only K)
    (hI : ∀ op s, K op → I s → I (apply op s)) {s t : σ} {a : α} (hs : I s)
    (hexec : p.exec s = (.ok a, t)) : ∃ seen, P a seen ∧ ∀ s' ∈ seen, I s' := by
  induction p generalizing P s with
  | done b =>
    obtain rfl : b = a := Except.ok.inj (Prod.mk.inj hexec).1
    exact ⟨[], h, by simp⟩
  | fail e => cases hexec
  | step op next ih =>
    obtain ⟨seen, hP, hseen⟩ := ih s (h s) (hK.2 s) (hI op s hK.1 hs) hexec
    refine ⟨seen ++ [s], hP, fun s' hs' => ?_⟩
    rcases List.mem_append.mp hs' with hs' | hs'
    · exact hseen s' hs'
    · rwa [List.mem_singleton.mp hs']

/-- Operations of a kind that meets the guarantee after what was done before. -/
theorem Only.obeys_after {K : κ → Prop} {G : Log σ κ → σ → κ → Prop} (h : p.Only K)
    {log : Log σ κ} (hG : ∀ log' s op, log <:+ log' → K op → G log' s op) :
    p.Obeys G (fun _ _ => True) log := by
  induction p generalizing log with
  | done a => exact trivial
  | fail e => exact trivial
  | step op next ih =>
    refine fun s => ⟨hG log s op List.suffix_rfl h.1, ih s (h.2 s) fun log' s' op' hlog => ?_⟩
    exact hG log' s' op' ((List.suffix_cons _ _).trans hlog)

end Procedure

open Procedure

/-- Every store of a run was the present one of an earlier pool of the run. -/
theorem Reachable.of_history [Operational κ σ] {program : ι → Procedure σ κ ε α} {init : σ → Prop}
    {ok : Pool ι σ κ ε α → Move ι → Prop} {pool : Pool ι σ κ ε α}
    (h : Reachable program init ok pool) {s : σ} (hs : s ∈ pool.history) :
    ∃ pool₀, Reachable program init ok pool₀ ∧ pool₀.store = s ∧
      ∀ t₀ ∈ pool₀.threads, ∃ t ∈ pool.threads, t.call = t₀.call ∧ t₀.log <:+ t.log := by
  induction h with
  | @initial s₀ hs₀ =>
    obtain rfl : s = s₀ := by simpa [Pool.history, Pool.initial] using hs
    exact ⟨_, .initial hs₀, rfl, fun t ht => ⟨t, ht, rfl, List.suffix_rfl⟩⟩
  | @next pool pool' m hpool hm hnext ih =>
    have hnow := Reachable.next hpool hm hnext
    have hearlier : s ∈ pool.history → ∃ pool₀, Reachable program init ok pool₀ ∧
        pool₀.store = s ∧ ∀ t₀ ∈ pool₀.threads, ∃ t ∈ pool'.threads, t.call = t₀.call ∧
          t₀.log <:+ t.log := by
      intro hs
      obtain ⟨pool₀, hreach, hstore, hthreads⟩ := ih hs
      refine ⟨pool₀, hreach, hstore, fun t₀ ht₀ => ?_⟩
      obtain ⟨t, ht, hcall, hlog⟩ := hthreads t₀ ht₀
      obtain ⟨t', ht', hcall', hlog'⟩ := Pool.thread_persists hnext ht
      exact ⟨t', ht', hcall'.trans hcall, hlog.trans hlog'⟩
    rcases List.mem_cons.mp hs with rfl | hs
    · exact ⟨pool', hnow, rfl, fun t ht => ⟨t, ht, rfl, List.suffix_rfl⟩⟩
    · cases m with
      | start c =>
        simp only [Pool.next, Option.some.injEq] at hnext
        subst hnext
        exact hearlier (List.mem_cons_of_mem _ hs)
      | resume i =>
        obtain ⟨u, op, after, hu, _, _, hpast, _⟩ := Pool.next_resume hnext
        rw [hpast] at hs
        exact hearlier hs

/-- What a call that has returned has seen are states that the run went through. -/
theorem Reachable.seen [Operational κ σ] {program : ι → Procedure σ κ ε α} {init : σ → Prop}
    {ok : Pool ι σ κ ε α → Move ι → Prop} {pool : Pool ι σ κ ε α}
    (h : Reachable program init ok pool) {t : Thread ι σ κ ε α} (ht : t ∈ pool.threads) {a : α}
    (hdone : t.rest = .done a) {P : ι → α → List σ → Prop}
    (hprogram : ∀ c, (program c).Sees (P c)) : ∃ seen ⊆ pool.past, P t.call a seen := by
  refine ⟨t.log.map (·.before), fun s hs => ?_, h.left ht hdone fun c => (hprogram c).leaves⟩
  obtain ⟨e, he, rfl⟩ := List.mem_map.mp hs
  exact h.before_mem_past t ht e he

end Concurrent
