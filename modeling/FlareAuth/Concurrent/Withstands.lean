import FlareAuth.Concurrent.Pool

/-!
# Procedures that withstand others

Between two operations of a call the others move the store on. A call *withstands*
them if it ends as its contract says in whatever stores its operations find, as long
as each of these is related to the one the call left and meets the guard of the
operation; in return it guarantees something of each operation. What such a call
knows of a store has to be stable under the relation.
-/

namespace Concurrent

namespace Procedure

variable {σ κ ε α β : Type} [Operational κ σ]

def Withstands (E : σ → σ → Prop) (guard G : κ → σ → Prop)
    (Q : Log σ κ → σ → Except ε α → Prop) : Procedure σ κ ε α → Log σ κ → σ → Prop
  | done a, log, s => Q log s (.ok a)
  | fail e, log, s => Q log s (.error e)
  | step op next, log, s => ∀ t, E s t → guard op t →
      G op t ∧ (next t).Withstands E guard G Q (⟨op, t⟩ :: log) (apply op t)

variable {E : σ → σ → Prop} {guard G : κ → σ → Prop} {Q : Log σ κ → σ → Except ε α → Prop}
  {P : Log σ κ → σ → Except ε β → Prop} {log : Log σ κ} {s t : σ}

theorem withstands_query_bind {op : κ} {answer : σ → α} {f : α → Procedure σ κ ε β}
    (h : ∀ t, E s t → guard op t → G op t ∧
      (f (answer t)).Withstands E guard G P (⟨op, t⟩ :: log) (apply op t)) :
    (query op answer >>= f).Withstands E guard G P log s := h

theorem withstands_require_bind {c : Prop} [Decidable c] {e : ε} {f : Unit → Procedure σ κ ε β}
    (hpos : c → (f ()).Withstands E guard G P log s) (hneg : ¬c → P log s (.error e)) :
    (require c e >>= f).Withstands E guard G P log s := by
  by_cases h : c
  · rw [require_pos h]
    exact hpos h
  · rw [require_neg h]
    exact hneg h

theorem Withstands.mono {p : Procedure σ κ ε α} {Q' : Log σ κ → σ → Except ε α → Prop}
    (h : p.Withstands E guard G Q log s) (hQ : ∀ log s r, Q log s r → Q' log s r) :
    p.Withstands E guard G Q' log s := by
  induction p generalizing log s with
  | done a => exact hQ _ _ _ h
  | fail e => exact hQ _ _ _ h
  | step op next ih => exact fun t hE hguard => ⟨(h t hE hguard).1, ih t (h t hE hguard).2⟩

/-- Sequencing: the second part goes on from what the first one ensured. -/
theorem Withstands.bind {p : Procedure σ κ ε α} {f : α → Procedure σ κ ε β}
    (h : p.Withstands E guard G Q log s)
    (hok : ∀ log s a, Q log s (.ok a) → (f a).Withstands E guard G P log s)
    (herror : ∀ log s e, Q log s (.error e) → P log s (.error e)) :
    (p >>= f).Withstands E guard G P log s := by
  induction p generalizing log s with
  | done a => exact hok _ _ _ h
  | fail e => exact herror _ _ _ h
  | step op next ih => exact fun t hE hguard => ⟨(h t hE hguard).1, ih t (h t hE hguard).2⟩

/-- A handler goes on from what the failed part ensured. -/
theorem Withstands.tryCatch {p : Procedure σ κ ε α} {handle : ε → Procedure σ κ ε α}
    {R : Log σ κ → σ → Except ε α → Prop} (h : p.Withstands E guard G Q log s)
    (hok : ∀ log s a, Q log s (.ok a) → R log s (.ok a))
    (herror : ∀ log s e, Q log s (.error e) → (handle e).Withstands E guard G R log s) :
    (p.tryCatch handle).Withstands E guard G R log s := by
  induction p generalizing log s with
  | done a => exact hok _ _ _ h
  | fail e => exact herror _ _ _ h
  | step op next ih => exact fun t hE hguard => ⟨(h t hE hguard).1, ih t (h t hE hguard).2⟩

theorem Withstands.map {p : Procedure σ κ ε α} {f : α → β} (h : p.Withstands E guard G Q log s)
    (hok : ∀ log s a, Q log s (.ok a) → P log s (.ok (f a)))
    (herror : ∀ log s e, Q log s (.error e) → P log s (.error e)) :
    (f <$> p).Withstands E guard G P log s := by
  rw [map_eq_pure_bind]
  exact h.bind hok herror

theorem withstands_ofExcept {r : Except ε α} (h : Q log s r) :
    (ofExcept r : Procedure σ κ ε α).Withstands E guard G Q log s := by
  cases r with
  | error e => exact h
  | ok a => exact h

/-- A call ends with a longer log, in a store that has evolved from where it was. -/
theorem Withstands.later {p : Procedure σ κ ε α} {log₀ : Log σ κ} {s₀ : σ}
    (htrans : ∀ s t u, E s t → E t u → E s u) (hstep : ∀ op t, guard op t → E t (apply op t))
    (h : p.Withstands E guard G Q log s) (hlog : log₀ <:+ log) (hs : E s₀ s) :
    p.Withstands E guard G (fun log' t r => Q log' t r ∧ log₀ <:+ log' ∧ E s₀ t) log s := by
  induction p generalizing log s with
  | done a => exact ⟨h, hlog, hs⟩
  | fail e => exact ⟨h, hlog, hs⟩
  | step op next ih =>
    intro t hE hguard
    obtain ⟨hG, hnext⟩ := h t hE hguard
    have hnow : E s₀ (apply op t) := htrans _ _ _ hs (htrans _ _ _ hE (hstep op t hguard))
    exact ⟨hG, ih t hnext (hlog.trans (List.suffix_cons _ _)) hnow⟩

/-- A contract that is stable stays within reach while the others move the store on. -/
theorem Withstands.stable {p : Procedure σ κ ε α} (htrans : ∀ s t u, E s t → E t u → E s u)
    (hstable : ∀ log s t r, E s t → Q log s r → Q log t r) (h : p.Withstands E guard G Q log s)
    (hE : E s t) : p.Withstands E guard G Q log t := by
  cases p with
  | done a => exact hstable _ _ _ _ hE h
  | fail e => exact hstable _ _ _ _ hE h
  | step op next => exact fun u hu hguard => h u (htrans s t u hE hu) hguard

end Procedure

variable {ι σ κ ε α : Type} [Operational κ σ] {program : ι → Procedure σ κ ε α} {init : σ → Prop}
  {ok : Pool ι σ κ ε α → Move ι → Prop} {pool : Pool ι σ κ ε α} {E : σ → σ → Prop}
  {I : σ → Prop} {guard : ι → κ → σ → Prop} {G : κ → σ → Prop}
  {Q : ι → Log σ κ → σ → Except ε α → Prop}

/-- Calls whose programs withstand the others keep their contracts in every interleaving, and what
they guarantee keeps an invariant of the store. -/
theorem Reachable.withstands (hrefl : ∀ s, E s s) (htrans : ∀ s t u, E s t → E t u → E s u)
    (hstable : ∀ c log s t r, E s t → Q c log s r → Q c log t r) (hinit : ∀ s, init s → I s)
    (hstart : ∀ pool c, ok pool (.start c) → I pool.store →
      (program c).Withstands E (guard c) G (Q c) [] pool.store)
    (hguard : ∀ pool i t op, ok pool (.resume i) → pool.pending i = some (t, op) →
      I pool.store → guard t.call op pool.store)
    (hstep : ∀ op s, I s → G op s → I (apply op s) ∧ E s (apply op s))
    (h : Reachable program init ok pool) :
    I pool.store ∧
      ∀ t ∈ pool.threads, t.rest.Withstands E (guard t.call) G (Q t.call) t.log pool.store := by
  induction h with
  | initial hs =>
    refine ⟨hinit _ hs, fun t ht => ?_⟩
    simp [Pool.initial] at ht
  | @next pool pool' m hpool hm hnext ih =>
    obtain ⟨hI, ih⟩ := ih
    cases m with
    | start c =>
      simp only [Pool.next, Option.some.injEq] at hnext
      subst hnext
      refine ⟨hI, fun t ht => ?_⟩
      rcases List.mem_append.mp ht with ht | ht
      · exact ih t ht
      · obtain rfl := List.mem_singleton.mp ht
        exact hstart pool c hm hI
    | resume i =>
      obtain ⟨u, op, after, hu, hrest, hstore, _, hthreads⟩ := Pool.next_resume hnext
      have hleft := ih u (List.mem_of_getElem? hu)
      rw [hrest] at hleft
      obtain ⟨hG, hafter⟩ := hleft pool.store (hrefl _)
        (hguard pool i u op hm (Pool.pending_of_step hu hrest) hI)
      obtain ⟨hI', hE⟩ := hstep op pool.store hI hG
      rw [hstore]
      refine ⟨hI', fun t ht => ?_⟩
      obtain ⟨j, hj⟩ := List.mem_iff_getElem?.mp ht
      rcases Pool.threads_next_resume hu hthreads hj with ⟨_, rfl⟩ | ⟨_, hold⟩
      · exact hafter
      · exact (ih t (List.mem_of_getElem? hold)).stable htrans (hstable t.call) hE

end Concurrent
