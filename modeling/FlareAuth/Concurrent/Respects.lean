import FlareAuth.Concurrent.Contract

/-!
# Stores that a procedure does not tell apart

A procedure *respects* a relation between stores if each of its operations keeps
related stores related and gives the same answer on both. Run from related stores
it ends the same way, in related stores. A part of it that does not respect the
relation may still run *alike* from two given stores.
-/

namespace Concurrent.Procedure

variable {σ κ ε α β : Type} [Operational κ σ] {R : σ → σ → Prop} {s s' : σ}

def Respects (R : σ → σ → Prop) : Procedure σ κ ε α → Prop
  | done _ => True
  | fail _ => True
  | step op next => (∀ s s', R s s' → R (apply op s) (apply op s') ∧ next s = next s') ∧
      ∀ s, (next s).Respects R

/-- The runs from two stores end the same way, in related stores. -/
structure Alike (R : σ → σ → Prop) (p : Procedure σ κ ε α) (s s' : σ) : Prop where
  result : (p.exec s').1 = (p.exec s).1
  store : R (p.exec s).2 (p.exec s').2

theorem Respects.alike {p : Procedure σ κ ε α} (h : p.Respects R) (hR : R s s') :
    p.Alike R s s' := by
  induction p generalizing s s' with
  | done a => exact ⟨rfl, hR⟩
  | fail e => exact ⟨rfl, hR⟩
  | step op next ih =>
    obtain ⟨hop, hnext⟩ := h.1 s s' hR
    have hrun := ih s (h.2 s) hop
    constructor
    · rw [exec_step, exec_step, ← hnext]
      exact hrun.result
    · rw [exec_step, exec_step, ← hnext]
      exact hrun.store

/-- Two runs stay alike when their continuations do, from where the first part leaves them. -/
theorem Alike.bind {p : Procedure σ κ ε α} {f : α → Procedure σ κ ε β} (h : p.Alike R s s')
    (hf : ∀ a t t', p.exec s = (.ok a, t) → p.exec s' = (.ok a, t') → R t t' → (f a).Alike R t t') :
    (p >>= f).Alike R s s' := by
  obtain ⟨hresult, hstore⟩ := h
  rcases hp : p.exec s with ⟨e | a, t⟩
  · rcases hp' : p.exec s' with ⟨r, t'⟩
    rw [hp, hp'] at hresult hstore
    obtain rfl : r = .error e := hresult
    refine ⟨?_, ?_⟩
    · rw [exec_bind_error f hp, exec_bind_error f hp']
    · rw [exec_bind_error f hp, exec_bind_error f hp']
      exact hstore
  · rcases hp' : p.exec s' with ⟨r, t'⟩
    rw [hp, hp'] at hresult hstore
    obtain rfl : r = .ok a := hresult
    obtain ⟨hresult', hstore'⟩ := hf a t t' hp hp' hstore
    refine ⟨?_, ?_⟩
    · rw [exec_bind_ok f hp, exec_bind_ok f hp']
      exact hresult'
    · rw [exec_bind_ok f hp, exec_bind_ok f hp']
      exact hstore'

theorem Respects.bind {p : Procedure σ κ ε α} {f : α → Procedure σ κ ε β} (h : p.Respects R)
    (hf : ∀ a, (f a).Respects R) : (p >>= f).Respects R := by
  induction p with
  | done a => exact hf a
  | fail e => exact trivial
  | step op next ih =>
    refine ⟨fun s s' hR => ?_, fun s => ih s (h.2 s)⟩
    obtain ⟨hop, hnext⟩ := h.1 s s' hR
    exact ⟨hop, congrArg (· >>= f) hnext⟩

theorem Respects.map {p : Procedure σ κ ε α} (h : p.Respects R) (f : α → β) :
    (f <$> p).Respects R := by
  rw [map_eq_pure_bind]
  exact h.bind fun _ => trivial

@[simp] theorem respects_done (a : α) : (done a : Procedure σ κ ε α).Respects R := trivial

@[simp] theorem respects_fail (e : ε) : (fail e : Procedure σ κ ε α).Respects R := trivial

@[simp] theorem respects_ofExcept (a : Except ε α) :
    (ofExcept a : Procedure σ κ ε α).Respects R := by
  cases a <;> exact trivial

@[simp] theorem respects_orThrow (a : Option α) (e : ε) :
    (orThrow a e : Procedure σ κ ε α).Respects R := by
  cases a <;> exact trivial

@[simp] theorem respects_require (c : Prop) [Decidable c] (e : ε) :
    (require c e : Procedure σ κ ε Unit).Respects R := by
  unfold require
  split <;> exact trivial

/-- A condition that the store does not enter is the same for both runs. -/
theorem Alike.require_bind {c : Prop} [Decidable c] {e : ε} {f : Unit → Procedure σ κ ε β}
    (hR : R s s') (hf : (f ()).Alike R s s') : (require c e >>= f).Alike R s s' := by
  by_cases hc : c
  · rw [require_pos hc]
    exact hf
  · rw [require_neg hc]
    exact ⟨rfl, hR⟩

theorem respects_query {op : κ} {answer : σ → α}
    (hop : ∀ s s', R s s' → R (apply op s) (apply op s'))
    (hanswer : ∀ s s', R s s' → answer s = answer s') :
    (query op answer : Procedure σ κ ε α).Respects R :=
  ⟨fun s s' hR => ⟨hop s s' hR, congrArg done (hanswer s s' hR)⟩, fun _ => trivial⟩

omit [Operational κ σ] in
/-- A procedure on a component that related stores share. -/
theorem respects_lift {τ κ' : Type} [Operational κ' τ] {R : τ → τ → Prop} {get : τ → σ}
    {inject : κ → κ'} {K : κ → Prop} {p : Procedure σ κ ε α} (h : p.Only K)
    (hget : ∀ t t', R t t' → get t = get t')
    (hop : ∀ op, K op → ∀ t t', R t t' → R (apply (inject op) t) (apply (inject op) t')) :
    (p.lift get inject).Respects R := by
  induction p with
  | done a => exact trivial
  | fail e => exact trivial
  | step op next ih =>
    refine ⟨fun t t' hR => ⟨hop op h.1 t t' hR, ?_⟩, fun t => ih (get t) (h.2 (get t))⟩
    dsimp only
    rw [hget t t' hR]

end Concurrent.Procedure
