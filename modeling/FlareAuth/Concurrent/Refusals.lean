import FlareAuth.Concurrent.Batch
import FlareAuth.Concurrent.Trace

/-!
# How a procedure may fail

The failures that a procedure may end with, in whatever stores it finds. A part whose failures are
of one kind lets the rest of a procedure be told by the failure that it ends with.
-/

namespace Concurrent

namespace Procedure

variable {σ κ ε α β : Type} {E : ε → Prop}

/-- Every failure of the procedure is of a kind. -/
def Refuses (E : ε → Prop) : Procedure σ κ ε α → Prop
  | done _ => True
  | fail e => E e
  | step _ next => ∀ s, (next s).Refuses E

@[simp] theorem refuses_done (a : α) : (done a : Procedure σ κ ε α).Refuses E := trivial

@[simp] theorem refuses_fail {e : ε} : (fail e : Procedure σ κ ε α).Refuses E ↔ E e := Iff.rfl

@[simp] theorem refuses_step {op : κ} {next : σ → Procedure σ κ ε α} :
    (step op next).Refuses E ↔ ∀ s, (next s).Refuses E := Iff.rfl

@[simp] theorem refuses_bind {p : Procedure σ κ ε α} {f : α → Procedure σ κ ε β} :
    (p >>= f).Refuses E ↔ p.Refuses E ∧ ∀ a, p.Returns a → (f a).Refuses E := by
  induction p with
  | done a => simp [Returns]
  | fail e => simp [Returns]
  | step op next ih =>
    simp only [step_bind, refuses_step, ih, Returns]
    constructor
    · intro h
      refine ⟨fun s => (h s).1, ?_⟩
      rintro a ⟨s, ha⟩
      exact (h s).2 a ha
    · rintro ⟨hnext, h⟩ s
      exact ⟨hnext s, fun a ha => h a ⟨s, ha⟩⟩

@[simp] theorem refuses_query (op : κ) (answer : σ → α) :
    (query op answer : Procedure σ κ ε α).Refuses E := fun _ => trivial

@[simp] theorem refuses_ofExcept {r : Except ε α} :
    (ofExcept r : Procedure σ κ ε α).Refuses E ↔ ∀ e, r = .error e → E e := by
  cases r with
  | ok a => exact iff_of_true trivial fun e he => nomatch he
  | error e =>
    constructor
    · rintro h e' he
      cases he
      exact h
    · exact fun h => h e rfl

@[simp] theorem refuses_orThrow {o : Option α} {e : ε} :
    (orThrow o e : Procedure σ κ ε α).Refuses E ↔ (o = none → E e) := by
  cases o with
  | none => simp [orThrow]
  | some a => simp [orThrow]

@[simp] theorem refuses_require {c : Prop} [Decidable c] {e : ε} :
    (require c e : Procedure σ κ ε Unit).Refuses E ↔ (¬c → E e) := by
  by_cases h : c
  · rw [require_pos h]
    simp [h]
  · rw [require_neg h]
    simp [h]

@[simp] theorem refuses_ite {c : Prop} [Decidable c] {p q : Procedure σ κ ε α} :
    (if c then p else q).Refuses E ↔ (c → p.Refuses E) ∧ (¬c → q.Refuses E) := by
  by_cases h : c <;> simp [h]

theorem refuses_lift {τ κ' : Type} {get : τ → σ} {inject : κ → κ'} {p : Procedure σ κ ε α}
    (h : p.Refuses E) : (p.lift get inject).Refuses E := by
  induction p with
  | done a => exact trivial
  | fail e => exact h
  | step op next ih => exact fun t => ih (get t) (h (get t))

/-- Sequencing after a part of which the failures and what it leaves are known. -/
theorem Refuses.obeys_bind {p : Procedure σ κ ε α} {f : α → Procedure σ κ ε β}
    {P : α → Log σ κ → Prop} {R : Log σ κ → Except ε β → Prop} (h : p.Refuses E) (hp : p.Leaves P)
    {log : Log σ κ} (hok : ∀ new a, P a new → Obeys (fun _ _ _ => True) R (f a) (new ++ log))
    (herror : ∀ log' e, E e → R log' (.error e)) :
    Obeys (fun _ _ _ => True) R (p >>= f) log := by
  induction p generalizing P log with
  | done a => exact hok [] a hp
  | fail e => exact herror log e h
  | step op next ih =>
    intro s
    refine ⟨trivial, ih s (h s) (hp s) fun new a ha => ?_⟩
    have hrest := hok (new ++ [⟨op, s⟩]) a ha
    rwa [List.append_assoc, List.singleton_append] at hrest

end Procedure

namespace Batch

variable {σ ε β γ : Type} {E : ε → Prop}

/-- Every failure of the batch is of a kind. -/
def Refuses (E : ε → Prop) (b : Batch σ ε β) : Prop := ∀ s e, b s = .error e → E e

theorem refuses_pure (x : β) : Refuses E (pure x : Batch σ ε β) := by
  intro s e he
  rw [pure_apply] at he
  cases he

theorem refuses_read (f : σ → β) : Refuses E (read f : Batch σ ε β) := fun _ _ he => nomatch he

theorem refuses_modify (f : σ → σ) : Refuses E (modify f : Batch σ ε Unit) :=
  fun _ _ he => nomatch he

theorem Refuses.bind {b : Batch σ ε β} {f : β → Batch σ ε γ} (h : Refuses E b)
    (hf : ∀ x, Refuses E (f x)) : Refuses E (b >>= f) := by
  intro s e he
  cases hb : b s with
  | error e' =>
    rw [bind_of_error hb] at he
    obtain rfl := Except.error.inj he
    exact h s e' hb
  | ok r =>
    obtain ⟨x, t⟩ := r
    rw [bind_of_ok hb] at he
    exact hf x t e he

end Batch

end Concurrent
