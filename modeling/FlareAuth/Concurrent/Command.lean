import FlareAuth.Concurrent.Batch

/-!
# Commands that run alone

A command reads and writes one store and may fail at any point. What it wrote
before it failed stays written; only the statements of one batch go together.
-/

namespace Concurrent

def Command (σ ε α : Type) := σ → Except ε α × σ

namespace Command

variable {σ ε α β : Type}

instance : Monad (Command σ ε) where
  pure a := fun s => (.ok a, s)
  bind c f := fun s =>
    match c s with
    | (.ok a, t) => f a t
    | (.error e, t) => (.error e, t)

def read (answer : σ → α) : Command σ ε α := fun s => (.ok (answer s), s)

def modify (f : σ → σ) : Command σ ε Unit := fun s => (.ok (), f s)

def fail (e : ε) : Command σ ε α := fun s => (.error e, s)

def ofExcept (r : Except ε α) : Command σ ε α := fun s => (r, s)

def orThrow (a : Option α) (e : ε) : Command σ ε α := a.elim (fail e) pure

def require (c : Prop) [Decidable c] (e : ε) : Command σ ε Unit := if c then pure () else fail e

/-- The handler runs in the state that the failed command left. -/
def catching (c : Command σ ε α) (handler : ε → Command σ ε α) : Command σ ε α := fun s =>
  match c s with
  | (.ok a, t) => (.ok a, t)
  | (.error e, t) => handler e t

/-- The statements of a batch in one transaction. -/
def atomic (b : Batch σ ε α) : Command σ ε α := fun s => (b.outcome s, b.settle s)

variable {c : Command σ ε α} {f : α → Command σ ε β} {s t u : σ} {a : α} {b : β} {e : ε}

theorem bind_apply : (c >>= f) s =
    match c s with
    | (.ok a, t) => f a t
    | (.error e, t) => (.error e, t) := rfl

theorem bind_of_ok (h : c s = (.ok a, t)) : (c >>= f) s = f a t := by
  rw [bind_apply, h]

theorem bind_of_error (h : c s = (.error e, t)) : (c >>= f) s = (.error e, t) := by
  rw [bind_apply, h]

theorem bind_eq_ok : (c >>= f) s = (.ok b, u) ↔ ∃ a t, c s = (.ok a, t) ∧ f a t = (.ok b, u) := by
  rw [bind_apply]
  rcases c s with ⟨_ | _, _⟩ <;> simp

theorem bind_pure (c : Command σ ε α) : c >>= pure = c := by
  funext s
  rw [bind_apply]
  rcases c s with ⟨_ | _, _⟩ <;> rfl

theorem bind_assoc {γ : Type} (c : Command σ ε α) (f : α → Command σ ε β) (g : β → Command σ ε γ) :
    c >>= f >>= g = c >>= fun a => f a >>= g := by
  funext s
  rw [bind_apply, bind_apply, bind_apply]
  rcases c s with ⟨_ | _, _⟩ <;> rfl

instance : LawfulMonad (Command σ ε) := .mk' _ bind_pure (fun _ _ => rfl) bind_assoc

theorem read_bind {answer : σ → α} : (read answer >>= f) s = f (answer s) s := rfl

theorem read_eq_ok {answer : σ → α} :
    read (ε := ε) answer s = (.ok a, t) ↔ answer s = a ∧ s = t := by
  rw [read, Prod.mk.injEq, Except.ok.injEq]

theorem pure_eq_ok {a' : α} : (pure a : Command σ ε α) s = (.ok a', t) ↔ a = a' ∧ s = t := by
  change (Except.ok a, s) = _ ↔ _
  rw [Prod.mk.injEq, Except.ok.injEq]

theorem ofExcept_eq_ok {r : Except ε α} : ofExcept r s = (.ok a, t) ↔ r = .ok a ∧ s = t := by
  rw [ofExcept, Prod.mk.injEq]

theorem orThrow_eq_ok {x : Option α} : orThrow x e s = (.ok a, t) ↔ x = some a ∧ s = t := by
  cases x with
  | none => simp [orThrow, fail]
  | some a' => simp [orThrow, pure_eq_ok]

theorem require_eq_ok {p : Prop} [Decidable p] {v : Unit} :
    require p e s = (.ok v, t) ↔ p ∧ s = t := by
  by_cases h : p <;> simp [require, h, fail, pure_eq_ok]

theorem require_of {p : Prop} [Decidable p] (h : p) : require p e s = (.ok (), s) := by
  rw [require, if_pos h]
  rfl

theorem require_of_not {p : Prop} [Decidable p] (h : ¬p) : require p e s = (.error e, s) := by
  rw [require, if_neg h]
  rfl

theorem require_bind_eq_ok {p : Prop} [Decidable p] {f : Unit → Command σ ε α} :
    (require p e >>= f) s = (.ok a, t) ↔ p ∧ f () s = (.ok a, t) := by
  rw [bind_eq_ok]
  constructor
  · rintro ⟨_, _, hrequire, hf⟩
    obtain ⟨hp, rfl⟩ := require_eq_ok.mp hrequire
    exact ⟨hp, hf⟩
  · rintro ⟨hp, hf⟩
    exact ⟨(), s, require_of hp, hf⟩

theorem catching_of_ok {handler : ε → Command σ ε α} (h : c s = (.ok a, t)) :
    catching c handler s = (.ok a, t) := by
  rw [catching, h]

theorem catching_of_error {handler : ε → Command σ ε α} (h : c s = (.error e, t)) :
    catching c handler s = handler e t := by
  rw [catching, h]

theorem atomic_eq_ok {x : Batch σ ε α} (h : atomic x s = (.ok a, t)) : x s = .ok (a, t) := by
  obtain ⟨houtcome, rfl⟩ := Prod.mk.inj h
  exact Batch.outcome_eq_ok houtcome

end Command

end Concurrent
