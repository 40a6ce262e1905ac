import FlareAuth.Concurrent.Procedure

/-!
# Atomic batches with rollback

A batch runs its statements in order on one store. An error in any of them
leaves the store as it was; a conditional statement that matches no row is no
error and undoes nothing.
-/

namespace Concurrent

def Batch (σ ε β : Type) := σ → Except ε (β × σ)

namespace Batch

variable {σ ε β γ : Type}

instance : Monad (Batch σ ε) where
  pure b := fun s => .ok (b, s)
  bind b f := fun s =>
    match b s with
    | .ok (x, t) => f x t
    | .error e => .error e

def read (f : σ → β) : Batch σ ε β := fun s => .ok (f s, s)

def modify (f : σ → σ) : Batch σ ε Unit := fun s => .ok ((), f s)

def fail (e : ε) : Batch σ ε β := fun _ => .error e

def all : List (Batch σ ε β) → Batch σ ε (List β)
  | [] => pure []
  | b :: bs => b >>= fun x => all bs >>= fun xs => pure (x :: xs)

/-- The store after the batch: the new one, or the old one if a statement failed. -/
def settle (b : Batch σ ε β) (s : σ) : σ :=
  match b s with
  | .ok (_, t) => t
  | .error _ => s

def outcome (b : Batch σ ε β) (s : σ) : Except ε β :=
  match b s with
  | .ok (x, _) => .ok x
  | .error e => .error e

theorem pure_apply (x : β) (s : σ) : (pure x : Batch σ ε β) s = .ok (x, s) := rfl

theorem bind_eq_ok {b : Batch σ ε β} {f : β → Batch σ ε γ} {s u : σ} {y : γ} :
    (b >>= f) s = .ok (y, u) ↔ ∃ x t, b s = .ok (x, t) ∧ f x t = .ok (y, u) := by
  change (match b s with
    | .ok (x, t) => f x t
    | .error e => .error e) = _ ↔ _
  rcases b s with e | ⟨x, t⟩ <;> simp

theorem bind_of_ok {b : Batch σ ε β} {f : β → Batch σ ε γ} {s t : σ} {x : β}
    (h : b s = .ok (x, t)) : (b >>= f) s = f x t := by
  change (match b s with
    | .ok (x, t) => f x t
    | .error e => .error e) = _
  rw [h]

theorem settle_of_ok {b : Batch σ ε β} {s t : σ} {x : β} (h : b s = .ok (x, t)) :
    b.settle s = t := by
  rw [settle, h]

theorem settle_of_error {b : Batch σ ε β} {s : σ} {e : ε} (h : b s = .error e) :
    b.settle s = s := by
  rw [settle, h]

theorem outcome_eq_ok {b : Batch σ ε β} {s : σ} {x : β} (h : b.outcome s = .ok x) :
    b s = .ok (x, b.settle s) := by
  unfold outcome settle at *
  rcases hb : b s with e | ⟨y, t⟩
  · rw [hb] at h
    cases h
  · rw [hb] at h
    cases h
    rfl

theorem bind_of_error {b : Batch σ ε β} {f : β → Batch σ ε γ} {s : σ} {e : ε}
    (h : b s = .error e) : (b >>= f) s = .error e := by
  change (match b s with
    | .ok (x, t) => f x t
    | .error e => .error e) = _
  rw [h]

/-- A batch whose successful runs stay within a relation between stores. -/
def Within (E : σ → σ → Prop) (b : Batch σ ε β) : Prop := ∀ s x t, b s = .ok (x, t) → E s t

section Within

variable {E : σ → σ → Prop}

theorem Within.pure (hrefl : ∀ s, E s s) (x : β) : Within E (pure x : Batch σ ε β) := by
  intro s y t h
  cases h
  exact hrefl s

theorem Within.read (hrefl : ∀ s, E s s) (f : σ → β) : Within E (read f : Batch σ ε β) := by
  intro s y t h
  cases h
  exact hrefl s

theorem Within.modify {f : σ → σ} (h : ∀ s, E s (f s)) : Within E (modify f : Batch σ ε Unit) := by
  intro s x t hs
  cases hs
  exact h s

theorem Within.bind (htrans : ∀ s t u, E s t → E t u → E s u) {b : Batch σ ε β}
    {f : β → Batch σ ε γ} (hb : Within E b) (hf : ∀ x, Within E (f x)) : Within E (b >>= f) := by
  intro s y u h
  obtain ⟨x, t, hbt, hft⟩ := bind_eq_ok.mp h
  exact htrans s t u (hb s x t hbt) (hf x t y u hft)

theorem Within.all (hrefl : ∀ s, E s s) (htrans : ∀ s t u, E s t → E t u → E s u)
    {bs : List (Batch σ ε β)} (h : ∀ b ∈ bs, Within E b) : Within E (all bs) := by
  induction bs with
  | nil => exact Within.pure hrefl _
  | cons b bs ih =>
    refine Within.bind htrans (h b List.mem_cons_self) fun x => ?_
    refine Within.bind htrans (ih fun c hc => h c (List.mem_cons_of_mem _ hc)) fun xs => ?_
    exact Within.pure hrefl _

theorem Within.mono {F : σ → σ → Prop} {b : Batch σ ε β} (h : Within E b)
    (hEF : ∀ s t, E s t → F s t) : Within F b := fun s x t hb => hEF s t (h s x t hb)

theorem Within.settle (hrefl : ∀ s, E s s) {b : Batch σ ε β} (h : Within E b) (s : σ) :
    E s (b.settle s) := by
  rcases hb : b s with e | ⟨x, t⟩
  · rw [settle_of_error hb]
    exact hrefl s
  · rw [settle_of_ok hb]
    exact h s x t hb

end Within

end Batch

end Concurrent
