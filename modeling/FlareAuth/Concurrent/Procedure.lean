import Mathlib.Tactic.Common

/-!
# Procedures over a shared store

A procedure takes its operations on a store one at a time. Between two of them
other procedures may run, so each continuation receives the store which its own
operation found, and nothing is assumed about the store at the next operation.
-/

namespace Concurrent

/-- A language of atomic operations `κ` acting on a store `σ`. -/
class Operational (κ σ : Type) where
  apply : κ → σ → σ

export Operational (apply)

inductive Procedure (σ κ ε α : Type) where
  | done (value : α)
  | fail (error : ε)
  | step (operation : κ) (next : σ → Procedure σ κ ε α)

namespace Procedure

variable {σ κ ε α β γ : Type}

protected def bind : Procedure σ κ ε α → (α → Procedure σ κ ε β) → Procedure σ κ ε β
  | done a, f => f a
  | fail e, _ => fail e
  | step op next, f => step op fun s => (next s).bind f

protected def tryCatch :
    Procedure σ κ ε α → (ε → Procedure σ κ ε α) → Procedure σ κ ε α
  | done a, _ => done a
  | fail e, handle => handle e
  | step op next, handle => step op fun s => (next s).tryCatch handle

instance : Monad (Procedure σ κ ε) where
  pure := done
  bind := Procedure.bind

instance : MonadExceptOf ε (Procedure σ κ ε) where
  throw := fail
  tryCatch := Procedure.tryCatch

@[simp] theorem pure_eq (a : α) : (pure a : Procedure σ κ ε α) = done a := rfl

@[simp] theorem throw_eq (e : ε) : (throw e : Procedure σ κ ε α) = fail e := rfl

@[simp] theorem done_bind (a : α) (f : α → Procedure σ κ ε β) : done a >>= f = f a := rfl

@[simp] theorem fail_bind (e : ε) (f : α → Procedure σ κ ε β) :
    (fail e : Procedure σ κ ε α) >>= f = fail e := rfl

@[simp] theorem step_bind (op : κ) (next : σ → Procedure σ κ ε α)
    (f : α → Procedure σ κ ε β) :
    step op next >>= f = step op fun s => next s >>= f := rfl

theorem bind_done (p : Procedure σ κ ε α) : p >>= done = p := by
  induction p with
  | done a => rfl
  | fail e => rfl
  | step op next ih =>
    simp only [step_bind]
    exact congrArg (step op) (funext ih)

theorem bind_bind (p : Procedure σ κ ε α) (f : α → Procedure σ κ ε β)
    (g : β → Procedure σ κ ε γ) : p >>= f >>= g = p >>= fun a => f a >>= g := by
  induction p with
  | done a => rfl
  | fail e => rfl
  | step op next ih =>
    simp only [step_bind]
    exact congrArg (step op) (funext ih)

instance : LawfulMonad (Procedure σ κ ε) :=
  LawfulMonad.mk' _ bind_done (fun _ _ => rfl) bind_bind

/-- One operation whose answer is read off the store it found. -/
def query (op : κ) (answer : σ → α) : Procedure σ κ ε α :=
  step op fun s => done (answer s)

/-- The answer of a pure computation that may fail. -/
def ofExcept : Except ε α → Procedure σ κ ε α
  | .ok a => done a
  | .error e => fail e

def orThrow (a : Option α) (e : ε) : Procedure σ κ ε α := a.elim (fail e) done

def require (c : Prop) [Decidable c] (e : ε) : Procedure σ κ ε Unit :=
  if c then done () else fail e

/-- The body for each element in order, as a loop whose body awaits. -/
def forEach : List β → (β → Procedure σ κ ε Unit) → Procedure σ κ ε Unit
  | [], _ => done ()
  | b :: bs, body => body b >>= fun _ => forEach bs body

def collect : List β → (β → Procedure σ κ ε γ) → Procedure σ κ ε (List γ)
  | [], _ => done []
  | b :: bs, body => body b >>= fun c => collect bs body >>= fun cs => done (c :: cs)

@[simp] theorem query_bind (op : κ) (answer : σ → α) (f : α → Procedure σ κ ε β) :
    query op answer >>= f = step op fun s => f (answer s) := rfl

@[simp] theorem orThrow_none (e : ε) : (orThrow none e : Procedure σ κ ε α) = fail e := rfl

@[simp] theorem orThrow_some (a : α) (e : ε) :
    (orThrow (some a) e : Procedure σ κ ε α) = done a := rfl

theorem require_pos {c : Prop} [Decidable c] (h : c) (e : ε) :
    (require c e : Procedure σ κ ε Unit) = done () := if_pos h

theorem require_neg {c : Prop} [Decidable c] (h : ¬c) (e : ε) :
    (require c e : Procedure σ κ ε Unit) = fail e := if_neg h

section Lift

variable {τ κ' : Type} {get : τ → σ} {inject : κ → κ'}

/-- A procedure on one component of a larger store. -/
def lift (get : τ → σ) (inject : κ → κ') : Procedure σ κ ε α → Procedure τ κ' ε α
  | done a => done a
  | fail e => fail e
  | step op next => step (inject op) fun t => (next (get t)).lift get inject

@[simp] theorem lift_done (a : α) :
    (done a : Procedure σ κ ε α).lift get inject = done a := rfl

@[simp] theorem lift_fail (e : ε) :
    (fail e : Procedure σ κ ε α).lift get inject = fail e := rfl

@[simp] theorem lift_step (op : κ) (next : σ → Procedure σ κ ε α) :
    (step op next).lift get inject =
      step (inject op) fun t => (next (get t)).lift get inject := rfl

theorem lift_bind (p : Procedure σ κ ε α) (f : α → Procedure σ κ ε β) :
    (p >>= f).lift get inject = p.lift get inject >>= fun a => (f a).lift get inject := by
  induction p with
  | done a => rfl
  | fail e => rfl
  | step op next ih =>
    simp only [step_bind, lift_step]
    exact congrArg (step (inject op)) (funext fun t => ih (get t))

end Lift

section Sequential

variable [Operational κ σ]

/-- The run in which nothing else touches the store. -/
def exec : Procedure σ κ ε α → σ → Except ε α × σ
  | done a, s => (.ok a, s)
  | fail e, s => (.error e, s)
  | step op next, s => (next s).exec (apply op s)

@[simp] theorem exec_done (a : α) (s : σ) :
    exec (done a : Procedure σ κ ε α) s = (.ok a, s) := rfl

@[simp] theorem exec_fail (e : ε) (s : σ) :
    exec (fail e : Procedure σ κ ε α) s = (.error e, s) := rfl

@[simp] theorem exec_step (op : κ) (next : σ → Procedure σ κ ε α) (s : σ) :
    exec (step op next) s = exec (next s) (apply op s) := rfl

@[simp] theorem exec_query (op : κ) (answer : σ → α) (s : σ) :
    exec (query op answer : Procedure σ κ ε α) s = (.ok (answer s), apply op s) := rfl

theorem exec_query_bind (op : κ) (answer : σ → α) (f : α → Procedure σ κ ε β) (s : σ) :
    (query op answer >>= f).exec s = (f (answer s)).exec (apply op s) := rfl

theorem exec_bind_ok {p : Procedure σ κ ε α} {s t : σ} {a : α} (f : α → Procedure σ κ ε β)
    (h : p.exec s = (.ok a, t)) : (p >>= f).exec s = (f a).exec t := by
  induction p generalizing s with
  | done b =>
    obtain ⟨rfl, rfl⟩ : b = a ∧ s = t := by simpa using h
    rfl
  | fail e => simp at h
  | step op next ih => exact ih s h

theorem exec_bind_error {p : Procedure σ κ ε α} {s t : σ} {e : ε}
    (f : α → Procedure σ κ ε β) (h : p.exec s = (.error e, t)) :
    (p >>= f).exec s = (.error e, t) := by
  induction p generalizing s with
  | done b => simp at h
  | fail e => simpa using h
  | step op next ih => exact ih s h

/-- A bind which succeeds splits at the value its first part returned. -/
theorem exec_bind_inv {p : Procedure σ κ ε α} {f : α → Procedure σ κ ε β} {s u : σ} {b : β}
    (h : (p >>= f).exec s = (.ok b, u)) :
    ∃ a t, p.exec s = (.ok a, t) ∧ (f a).exec t = (.ok b, u) := by
  rcases hp : p.exec s with ⟨e | a, t⟩
  · rw [exec_bind_error f hp] at h
    simp at h
  · exact ⟨a, t, rfl, (exec_bind_ok f hp).symm.trans h⟩

theorem exec_ofExcept_bind {r : Except ε α} {f : α → Procedure σ κ ε β} {s u : σ} {b : β}
    (h : (ofExcept r >>= f).exec s = (.ok b, u)) :
    ∃ a, r = .ok a ∧ (f a).exec s = (.ok b, u) := by
  cases r with
  | error e => exact nomatch h
  | ok a => exact ⟨a, rfl, h⟩

theorem exec_orThrow_bind {a : Option α} {e : ε} {f : α → Procedure σ κ ε β} {s u : σ} {b : β}
    (h : (orThrow a e >>= f).exec s = (.ok b, u)) :
    ∃ x, a = some x ∧ (f x).exec s = (.ok b, u) := by
  cases a with
  | none => exact nomatch h
  | some x => exact ⟨x, rfl, h⟩

theorem exec_require_bind {c : Prop} [Decidable c] {e : ε} {f : Unit → Procedure σ κ ε β}
    {s u : σ} {b : β} (h : (require c e >>= f).exec s = (.ok b, u)) :
    c ∧ (f ()).exec s = (.ok b, u) := by
  by_cases hc : c
  · rw [require_pos hc] at h
    exact ⟨hc, h⟩
  · rw [require_neg hc] at h
    exact nomatch h

/-- Bodies which leave the store as it is, each failing only where `P` does. -/
theorem exec_collect_cases {bs : List β} {body : β → Procedure σ κ ε γ} {s : σ} {P : β → Prop}
    {Q : β → γ → Prop}
    (h : ∀ b ∈ bs, (∃ e, (body b).exec s = (.error e, s) ∧ ¬P b) ∨
      ∃ c, (body b).exec s = (.ok c, s) ∧ P b ∧ Q b c) :
    (∃ e, (collect bs body).exec s = (.error e, s) ∧ ¬∀ b ∈ bs, P b) ∨
      ∃ cs, (collect bs body).exec s = (.ok cs, s) ∧ (∀ b ∈ bs, P b) ∧ List.Forall₂ Q bs cs := by
  induction bs with
  | nil => exact .inr ⟨[], rfl, by simp, .nil⟩
  | cons b bs ih =>
    unfold collect
    rcases h b List.mem_cons_self with ⟨e, he, hb⟩ | ⟨c, hc, hP, hQ⟩
    · exact .inl ⟨e, exec_bind_error _ he, fun hall => hb (hall b List.mem_cons_self)⟩
    · rw [exec_bind_ok _ hc]
      rcases ih fun b' hb' => h b' (List.mem_cons_of_mem _ hb') with
        ⟨e, he, hbs⟩ | ⟨cs, hcs, hPs, hQs⟩
      · exact .inl ⟨e, exec_bind_error _ he, fun hall => hbs (List.forall_mem_cons.mp hall).2⟩
      · refine .inr ⟨c :: cs, ?_, List.forall_mem_cons.mpr ⟨hP, hPs⟩, .cons hQ hQs⟩
        rw [exec_bind_ok _ hcs]
        rfl

end Sequential

end Procedure

end Concurrent
