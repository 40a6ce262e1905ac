import FlareAuth.Concurrent.Contract

/-!
# Procedures on a store that may fail

`attempt` is `lift` onto a component whose operations may fail: an operation
that finds a fault fails with it, and the procedure with the operation.
-/

namespace Concurrent.Procedure

variable {σ τ κ κ' ε α β : Type} {get : τ → σ} {inject : κ → κ'} {fault : τ → Option ε}

def unlessFailed (e : Option ε) (p : Procedure σ κ ε α) : Procedure σ κ ε α := e.elim p fail

@[simp] theorem unlessFailed_none (p : Procedure σ κ ε α) : unlessFailed none p = p := rfl

@[simp] theorem unlessFailed_some (e : ε) (p : Procedure σ κ ε α) :
    unlessFailed (some e) p = fail e := rfl

/-- One operation whose answer is read off the store, if it does not fail there. -/
def tryQuery (fault : σ → Option ε) (op : κ) (answer : σ → α) : Procedure σ κ ε α :=
  step op fun s => unlessFailed (fault s) (done (answer s))

def attempt (get : τ → σ) (inject : κ → κ') (fault : τ → Option ε) :
    Procedure σ κ ε α → Procedure τ κ' ε α
  | done a => done a
  | fail e => fail e
  | step op next => step (inject op) fun t =>
    unlessFailed (fault t) ((next (get t)).attempt get inject fault)

@[simp] theorem attempt_step (op : κ) (next : σ → Procedure σ κ ε α) :
    (step op next).attempt get inject fault =
      step (inject op) fun t => unlessFailed (fault t)
        ((next (get t)).attempt get inject fault) := rfl

theorem only_unlessFailed {K : κ → Prop} {p : Procedure σ κ ε α} (h : p.Only K) (e : Option ε) :
    (unlessFailed e p).Only K := by
  cases e with
  | none => exact h
  | some e => exact trivial

theorem only_tryQuery {K : κ → Prop} {fault : σ → Option ε} {op : κ} {answer : σ → α} :
    (tryQuery fault op answer).Only K ↔ K op := by
  constructor
  · intro h
    exact h.1
  · intro h
    exact ⟨h, fun s => only_unlessFailed (only_done _) (fault s)⟩

/-- An attempted procedure performs the operations of the component only. -/
theorem only_attempt {K : κ → Prop} {K' : κ' → Prop} {p : Procedure σ κ ε α} (h : p.Only K)
    (hK : ∀ op, K op → K' (inject op)) : (p.attempt get inject fault).Only K' := by
  induction p with
  | done a => exact trivial
  | fail e => exact trivial
  | step op next ih =>
    exact ⟨hK op h.1, fun t => only_unlessFailed (ih (get t) (h.2 (get t))) (fault t)⟩

/-- An operation that may fail goes on from what it answered, or fails with the fault it found. -/
theorem obeys_tryQuery_bind {G : Log σ κ → σ → κ → Prop} {Q : Log σ κ → Except ε β → Prop}
    {fault : σ → Option ε} {op : κ} {answer : σ → α} {f : α → Procedure σ κ ε β} {log : Log σ κ}
    (hG : ∀ s, G log s op)
    (hok : ∀ s, fault s = none → Obeys G Q (f (answer s)) (⟨op, s⟩ :: log))
    (hfault : ∀ s e, fault s = some e → Q (⟨op, s⟩ :: log) (.error e)) :
    Obeys G Q (tryQuery fault op answer >>= f) log := by
  intro s
  refine ⟨hG s, ?_⟩
  cases hs : fault s with
  | none =>
    simp only [hs]
    exact hok s hs
  | some e =>
    simp only [hs]
    exact hfault s e hs

end Concurrent.Procedure
