import FlareAuth.Concurrent.Contract

/-!
# Procedures that stop, and procedures that agree

A procedure that runs alone may stop after any of its operations. A loop that
stops has run some of its bodies to their end, and perhaps a part of the next
one. A procedure agrees on related stores when it cannot tell them apart.
-/

namespace Concurrent.Procedure

variable {σ κ ε α β γ : Type}

section Stopped

variable [Operational κ σ]

/-- The store that a procedure leaves when it stops after some operations. -/
def stopped : Procedure σ κ ε α → ℕ → σ → σ
  | step op next, n + 1, s => (next s).stopped n (apply op s)
  | _, _, s => s

theorem stopped_zero (p : Procedure σ κ ε α) (s : σ) : p.stopped 0 s = s := by
  cases p <;> rfl

@[simp] theorem stopped_done (a : α) (n : ℕ) (s : σ) :
    (done a : Procedure σ κ ε α).stopped n s = s := by
  cases n <;> rfl

@[simp] theorem stopped_fail (e : ε) (n : ℕ) (s : σ) :
    (fail e : Procedure σ κ ε α).stopped n s = s := by
  cases n <;> rfl

/-- A sequence stops in its first part, or in the rest after the first part has returned. -/
theorem stopped_bind (p : Procedure σ κ ε α) (f : α → Procedure σ κ ε β) (n : ℕ) (s : σ) :
    (∃ m, (p >>= f).stopped n s = p.stopped m s) ∨
      ∃ a t m, p.exec s = (.ok a, t) ∧ (p >>= f).stopped n s = (f a).stopped m t := by
  induction p generalizing n s with
  | done a => exact .inr ⟨a, s, n, rfl, rfl⟩
  | fail e => exact .inl ⟨n, rfl⟩
  | step op next ih =>
    cases n with
    | zero => exact .inl ⟨0, rfl⟩
    | succ n =>
      rcases ih s n (apply op s) with ⟨m, hm⟩ | ⟨a, t, m, ha, hm⟩
      · exact .inl ⟨m + 1, hm⟩
      · exact .inr ⟨a, t, m, ha, hm⟩

theorem Only.stopped {K : κ → Prop} {R : σ → σ → Prop} (hrefl : ∀ s, R s s)
    (htrans : ∀ s t u, R s t → R t u → R s u) (hop : ∀ op s, K op → R s (apply op s))
    {p : Procedure σ κ ε α} (h : p.Only K) (n : ℕ) (s : σ) : R s (p.stopped n s) := by
  induction p generalizing n s with
  | done a => simpa using hrefl s
  | fail e => simpa using hrefl s
  | step op next ih =>
    cases n with
    | zero => exact hrefl s
    | succ n => exact htrans _ _ _ (hop op s h.1) (ih s (h.2 s) n (apply op s))

/-- Bodies that run alone one after another and all return. -/
inductive InOrder (body : β → Procedure σ κ ε γ) : List β → σ → σ → Prop where
  | nil (s : σ) : InOrder body [] s s
  | cons {b : β} {bs : List β} {s t u : σ} {c : γ} : (body b).exec s = (.ok c, t) →
      InOrder body bs t u → InOrder body (b :: bs) s u

variable {body : β → Procedure σ κ ε γ} {s t : σ}

theorem inOrder_of_collect {bs : List β} {cs : List γ}
    (h : (collect bs body).exec s = (.ok cs, t)) : InOrder body bs s t := by
  induction bs generalizing s cs with
  | nil =>
    cases h
    exact .nil _
  | cons b bs ih =>
    obtain ⟨c, u, hbody, h⟩ := exec_bind_inv h
    obtain ⟨cs', v, hrest, h⟩ := exec_bind_inv h
    cases h
    exact .cons hbody (ih hrest)

theorem collect_of_inOrder {bs : List β} (h : InOrder body bs s t) :
    ∃ cs, (collect bs body).exec s = (.ok cs, t) := by
  induction h with
  | nil s => exact ⟨[], rfl⟩
  | @cons b bs s t u c hbody _ ih =>
    obtain ⟨cs, hrest⟩ := ih
    refine ⟨c :: cs, ?_⟩
    rw [collect, exec_bind_ok _ hbody, exec_bind_ok _ hrest]
    rfl

/-- A loop that stops has finished some of its bodies and is in at most one more. -/
theorem stopped_collect (bs : List β) (body : β → Procedure σ κ ε γ) (n : ℕ) (s : σ) :
    ∃ before after t, bs = before ++ after ∧ InOrder body before s t ∧
      ((collect bs body).stopped n s = t ∨
        ∃ b rest m, after = b :: rest ∧ (collect bs body).stopped n s = (body b).stopped m t) := by
  induction bs generalizing n s with
  | nil => exact ⟨[], [], s, rfl, .nil s, .inl (stopped_done _ n s)⟩
  | cons b bs ih =>
    rcases stopped_bind (body b) (fun c => collect bs body >>= fun cs => done (c :: cs)) n s with
      ⟨m, hm⟩ | ⟨c, t, m, hbody, hm⟩
    · exact ⟨[], b :: bs, s, rfl, .nil s, .inr ⟨b, bs, m, rfl, hm⟩⟩
    · rcases stopped_bind (collect bs body) (fun cs => done (c :: cs)) m t with
        ⟨k, hk⟩ | ⟨cs, u, k, hrest, hk⟩
      · obtain ⟨before, after, v, hbs, hbefore, hstopped⟩ := ih k t
        refine ⟨b :: before, after, v, by rw [hbs, List.cons_append], .cons hbody hbefore, ?_⟩
        change (body b >>= _).stopped n s = v ∨ ∃ b' rest m', after = b' :: rest ∧
          (body b >>= _).stopped n s = (body b').stopped m' v
        rw [hm, hk]
        exact hstopped
      · refine ⟨b :: bs, [], u, (List.append_nil _).symm, .cons hbody (inOrder_of_collect hrest),
          .inl ?_⟩
        change (body b >>= _).stopped n s = u
        rw [hm, hk, stopped_done]

end Stopped

section Loops

theorem collect_append (as bs : List β) (body : β → Procedure σ κ ε γ) :
    collect (as ++ bs) body =
      collect as body >>= fun cs => collect bs body >>= fun ds => done (cs ++ ds) := by
  induction as with
  | nil =>
    change collect bs body = collect bs body >>= fun ds => done ds
    rw [bind_done]
  | cons a as ih =>
    rw [List.cons_append, collect, collect, ih]
    simp only [bind_bind, done_bind, List.cons_append]

theorem collect_map {δ : Type} (g : δ → β) (bs : List δ) (body : β → Procedure σ κ ε γ) :
    collect (bs.map g) body = collect bs fun b => body (g b) := by
  induction bs with
  | nil => rfl
  | cons b bs ih => rw [List.map_cons, collect, collect, ih]

/-- Two nested loops as one over the pairs. -/
theorem collect_collect {δ : Type} (as : List β) (bs : List δ) (body : β → δ → Procedure σ κ ε γ) :
    (collect as fun a => collect bs (body a)) >>= (fun css => done css.flatten) =
      collect (as.flatMap fun a => bs.map fun b => (a, b)) fun x => body x.1 x.2 := by
  induction as with
  | nil => rfl
  | cons a as ih =>
    rw [List.flatMap_cons, collect_append, collect_map, ← ih, collect]
    simp only [bind_bind, done_bind, List.flatten_cons]

end Loops

section Agrees

variable [Operational κ σ] {R : σ → σ → Prop}

/-- On related stores the procedure reads the same answers and leaves related stores. -/
def Agrees (R : σ → σ → Prop) : Procedure σ κ ε α → Prop
  | done _ => True
  | fail _ => True
  | step op next => (∀ s t, R s t → next s = next t ∧ R (apply op s) (apply op t)) ∧
      ∀ s, (next s).Agrees R

theorem Agrees.exec {p : Procedure σ κ ε α} (h : p.Agrees R) {s t : σ} (hR : R s t) :
    (p.exec s).1 = (p.exec t).1 ∧ R (p.exec s).2 (p.exec t).2 := by
  induction p generalizing s t with
  | done a => exact ⟨rfl, hR⟩
  | fail e => exact ⟨rfl, hR⟩
  | step op next ih =>
    obtain ⟨hnext, hR⟩ := h.1 s t hR
    rw [exec_step, exec_step, ← hnext]
    exact ih s (h.2 s) hR

@[simp] theorem agrees_done (a : α) : (done a : Procedure σ κ ε α).Agrees R := trivial

@[simp] theorem agrees_fail (e : ε) : (fail e : Procedure σ κ ε α).Agrees R := trivial

theorem Agrees.bind {p : Procedure σ κ ε α} (h : p.Agrees R) {f : α → Procedure σ κ ε β}
    (hf : ∀ a, (f a).Agrees R) : (p >>= f).Agrees R := by
  induction p with
  | done a => exact hf a
  | fail e => exact trivial
  | step op next ih =>
    refine ⟨fun s t hR => ?_, fun s => ih s (h.2 s)⟩
    obtain ⟨hnext, hR⟩ := h.1 s t hR
    exact ⟨congrArg (· >>= f) hnext, hR⟩

theorem Agrees.map {p : Procedure σ κ ε α} (h : p.Agrees R) (f : α → β) : (f <$> p).Agrees R :=
  h.bind fun _ => trivial

theorem agrees_query {op : κ} {answer : σ → α} (hanswer : ∀ s t, R s t → answer s = answer t)
    (hop : ∀ s t, R s t → R (apply op s) (apply op t)) :
    (query op answer : Procedure σ κ ε α).Agrees R :=
  ⟨fun s t hR => ⟨congrArg done (hanswer s t hR), hop s t hR⟩, fun _ => trivial⟩

@[simp] theorem agrees_ofExcept (r : Except ε α) :
    (ofExcept r : Procedure σ κ ε α).Agrees R := by
  cases r <;> exact trivial

@[simp] theorem agrees_orThrow (a : Option α) (e : ε) :
    (orThrow a e : Procedure σ κ ε α).Agrees R := by
  cases a <;> exact trivial

@[simp] theorem agrees_require (c : Prop) [Decidable c] (e : ε) :
    (require c e : Procedure σ κ ε Unit).Agrees R := by
  by_cases h : c
  · rw [require_pos h]
    exact trivial
  · rw [require_neg h]
    exact trivial

theorem agrees_forEach {bs : List β} {body : β → Procedure σ κ ε Unit}
    (h : ∀ b, (body b).Agrees R) : (forEach bs body).Agrees R := by
  induction bs with
  | nil => exact trivial
  | cons b bs ih => exact (h b).bind fun _ => ih

theorem agrees_collect {bs : List β} {body : β → Procedure σ κ ε γ}
    (h : ∀ b, (body b).Agrees R) : (collect bs body).Agrees R := by
  induction bs with
  | nil => exact trivial
  | cons b bs ih => exact (h b).bind fun _ => ih.bind fun _ => trivial

end Agrees

end Concurrent.Procedure
