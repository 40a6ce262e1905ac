import Mathlib.Tactic.Common

/-!
# Counted loops without a bound

A loop counts its passes and only leaves in its body. It ends if no pass from some
number on goes on, whatever the passes see.
-/

namespace Loops

variable {σ ε β : Type}

/-- What a pass of a loop comes to. -/
inductive Pass (σ β : Type) where
  | again (state : σ)
  | leave (result : β)

/-- `for (let n = first; ; n += 1)`: none if as many passes as are allowed have all gone on. -/
def count (body : ℕ → σ → Except ε (Pass σ β)) : ℕ → ℕ → σ → Option (Except ε β)
  | 0, _, _ => none
  | passes + 1, n, s =>
    match body n s with
    | .error e => some (.error e)
    | .ok (.leave result) => some (.ok result)
    | .ok (.again s') => count body passes (n + 1) s'

/-- No pass from the bound on goes on. -/
def EndsBy (body : ℕ → σ → Except ε (Pass σ β)) (bound : ℕ) : Prop :=
  ∀ n s s', body n s = .ok (.again s') → n < bound

/-- More passes than a loop needs come to the same. -/
theorem count_of_le {body : ℕ → σ → Except ε (Pass σ β)} {passes more n : ℕ} {s : σ}
    {r : Except ε β} (h : count body passes n s = some r) (hle : passes ≤ more) :
    count body more n s = some r := by
  induction passes generalizing more n s with
  | zero => cases h
  | succ passes ih =>
    obtain ⟨more, rfl⟩ : ∃ k, more = k + 1 := ⟨more - 1, by omega⟩
    rw [count] at h ⊢
    cases hbody : body n s with
    | error e =>
      rw [hbody] at h
      exact h
    | ok pass =>
      cases pass with
      | leave result =>
        rw [hbody] at h
        exact h
      | again s' =>
        rw [hbody] at h
        exact ih h (by omega)

/-- A loop whose passes do not go on from a bound on ends with that pass. -/
theorem EndsBy.count_isSome {body : ℕ → σ → Except ε (Pass σ β)} {bound : ℕ}
    (h : EndsBy body bound) {passes n : ℕ} (hn : bound < n + passes) (hpos : 0 < passes) (s : σ) :
    (count body passes n s).isSome = true := by
  induction passes generalizing n s with
  | zero => omega
  | succ passes ih =>
    rw [count]
    cases hbody : body n s with
    | error e => rfl
    | ok pass =>
      cases pass with
      | leave result => rfl
      | again s' =>
        have hlt := h n s s' hbody
        exact ih (by omega) (by omega) s'

end Loops
