import FlareAuth.Concurrent.Pool
import Mathlib.Data.List.Forall2

/-!
# Traces of procedures that return

`Leaves` speaks of the log that a procedure has written by the time it returns,
whatever stores its operations find. A loop leaves the traces of its rounds one
after the other, and a lifted procedure leaves its trace among the operations of
the larger store.
-/

theorem List.Forall₂.exists_left {α β : Type} {R : α → β → Prop} {as : List α} {bs : List β}
    (h : Forall₂ R as bs) {b : β} (hb : b ∈ bs) : ∃ a ∈ as, R a b := by
  induction h with
  | nil => cases hb
  | cons hR _ ih =>
    rcases List.mem_cons.mp hb with rfl | hb
    · exact ⟨_, List.mem_cons_self, hR⟩
    · obtain ⟨a, ha, hab⟩ := ih hb
      exact ⟨a, List.mem_cons_of_mem _ ha, hab⟩

theorem List.Forall₂.exists_zip {α β : Type} {R : α → β → Prop} {as : List α} {bs : List β}
    (h : Forall₂ R as bs) {a : α} (ha : a ∈ as) : ∃ b ∈ bs, R a b ∧ (a, b) ∈ as.zip bs := by
  induction h with
  | nil => cases ha
  | cons hR _ ih =>
    rcases List.mem_cons.mp ha with rfl | ha
    · exact ⟨_, List.mem_cons_self, hR, List.mem_cons_self⟩
    · obtain ⟨b, hb, hab, hzip⟩ := ih ha
      exact ⟨b, List.mem_cons_of_mem _ hb, hab, List.mem_cons_of_mem _ hzip⟩

namespace Concurrent

variable {ι σ κ ε α β : Type}

namespace Procedure

/-- Every return leaves a value and a log of the procedure's own operations that are related. -/
def Leaves : Procedure σ κ ε α → (α → Log σ κ → Prop) → Prop
  | done a, P => P a []
  | fail _, _ => True
  | step op next, P => ∀ s, (next s).Leaves fun a log => P a (log ++ [⟨op, s⟩])

variable {p : Procedure σ κ ε α} {f : α → Procedure σ κ ε β} {P : α → Log σ κ → Prop}
  {Q : β → Log σ κ → Prop}

theorem leaves_true (p : Procedure σ κ ε α) : p.Leaves fun _ _ => True := by
  induction p with
  | done a => exact trivial
  | fail e => exact trivial
  | step op next ih => exact ih

theorem Leaves.mono {P' : α → Log σ κ → Prop} (h : p.Leaves P) (hP : ∀ a log, P a log → P' a log) :
    p.Leaves P' := by
  induction p generalizing P P' with
  | done a => exact hP _ _ h
  | fail e => exact trivial
  | step op next ih => exact fun s => ih s (h s) fun a log => hP a _

theorem Leaves.and {P' : α → Log σ κ → Prop} (h : p.Leaves P) (h' : p.Leaves P') :
    p.Leaves fun a log => P a log ∧ P' a log := by
  induction p generalizing P P' with
  | done a => exact ⟨h, h'⟩
  | fail e => exact trivial
  | step op next ih => exact fun s => ih s (h s) (h' s)

theorem Leaves.bind (h : p.Leaves P)
    (hf : ∀ a first, P a first → (f a).Leaves fun b second => Q b (second ++ first)) :
    (p >>= f).Leaves Q := by
  induction p generalizing P Q with
  | done a => exact (hf a [] h).mono fun b second hQ => by rwa [List.append_nil] at hQ
  | fail e => exact trivial
  | step op next ih =>
    intro s
    refine ih s (h s) fun a first hP => ?_
    refine (hf a _ hP).mono fun b second hQ => ?_
    rwa [List.append_assoc]

theorem leaves_query (op : κ) (answer : σ → α) :
    (query op answer : Procedure σ κ ε α).Leaves fun a log =>
      ∃ s, a = answer s ∧ log = [⟨op, s⟩] := fun s => ⟨s, rfl, rfl⟩

theorem leaves_require (c : Prop) [Decidable c] (e : ε) :
    (require c e : Procedure σ κ ε Unit).Leaves fun _ log => c ∧ log = [] := by
  by_cases h : c
  · rw [require_pos h]
    exact ⟨h, rfl⟩
  · rw [require_neg h]
    exact trivial

theorem leaves_orThrow (o : Option α) (e : ε) :
    (orThrow o e : Procedure σ κ ε α).Leaves fun a log => o = some a ∧ log = [] := by
  cases o with
  | none => exact trivial
  | some a => exact ⟨rfl, rfl⟩

theorem leaves_ofExcept (r : Except ε α) :
    (ofExcept r : Procedure σ κ ε α).Leaves fun a log => r = .ok a ∧ log = [] := by
  cases r with
  | ok a => exact ⟨rfl, rfl⟩
  | error e => exact trivial

/-- A loop leaves what each of its rounds leaves, if that may stand anywhere in a log. -/
theorem Leaves.forEach {bs : List β} {body : β → Procedure σ κ ε Unit} {D : β → Log σ κ → Prop}
    (hD : ∀ b log later earlier, D b log → D b (later ++ (log ++ earlier)))
    (h : ∀ b ∈ bs, (body b).Leaves fun _ log => D b log) :
    (forEach bs body).Leaves fun _ log => ∀ b ∈ bs, D b log := by
  induction bs with
  | nil => exact fun b hb => nomatch hb
  | cons b bs ih =>
    refine (h b List.mem_cons_self).bind fun _ first hfirst => ?_
    refine (ih fun c hc => h c (List.mem_cons_of_mem _ hc)).mono fun _ second hsecond c hc => ?_
    rcases List.mem_cons.mp hc with rfl | hc
    · have hplaced := hD c first second [] hfirst
      rwa [List.append_nil] at hplaced
    · exact hD c second [] first (hsecond c hc)

/-- A loop with a value from each round, if what a round leaves may stand anywhere in a log. -/
theorem Leaves.collect {γ : Type} {bs : List β} {body : β → Procedure σ κ ε γ}
    {D : β → γ → Log σ κ → Prop}
    (hD : ∀ b c log later earlier, D b c log → D b c (later ++ (log ++ earlier)))
    (h : ∀ b ∈ bs, (body b).Leaves fun c log => D b c log) :
    (collect bs body).Leaves fun cs log => List.Forall₂ (fun b c => D b c log) bs cs := by
  induction bs with
  | nil => exact .nil
  | cons b bs ih =>
    refine (h b List.mem_cons_self).bind fun c first hfirst => ?_
    refine (ih fun d hd => h d (List.mem_cons_of_mem _ hd)).bind fun cs second hsecond => ?_
    refine .cons ?_ (hsecond.imp fun d x hx => ?_)
    · have hplaced := hD b c first second [] hfirst
      rwa [List.append_nil] at hplaced
    · exact hD d x second [] first hx

/-- A procedure that performs operations of one kind leaves no others. -/
theorem Only.leaves {K : κ → Prop} (h : p.Only K) :
    p.Leaves fun a log => p.Returns a ∧ ∀ e ∈ log, K e.operation := by
  induction p with
  | done a => exact ⟨rfl, fun e he => nomatch he⟩
  | fail e => exact trivial
  | step op next ih =>
    intro s
    refine (ih s (h.2 s)).mono fun a log ⟨ha, hlog⟩ => ⟨⟨s, ha⟩, fun e he => ?_⟩
    rcases List.mem_append.mp he with he | he
    · exact hlog e he
    · obtain rfl := List.mem_singleton.mp he
      exact h.1

/-- Sequencing after operations of a kind that meets the guarantee as long as only such operations
were performed: the second part starts from what the first one leaves. -/
theorem Leaves.obeys_bind_of_grown {K : κ → Prop} {G : Log σ κ → σ → κ → Prop}
    {R : Log σ κ → Except ε β → Prop} (h : p.Leaves P) (hp : p.Only K) {log : Log σ κ}
    (hG : ∀ log' s op, log.Grown K log' → K op → G log' s op)
    (hok : ∀ new a, P a new → (∀ e ∈ new, K e.operation) → Obeys G R (f a) (new ++ log))
    (herror : ∀ log' e, log.Grown K log' → R log' (.error e)) : Obeys G R (p >>= f) log := by
  induction p generalizing P log with
  | done a => exact hok [] a h fun e he => nomatch he
  | fail e => exact herror _ _ (.refl log)
  | step op next ih =>
    intro s
    have hcons : log.Grown K (⟨op, s⟩ :: log) := .cons hp.1 s log
    refine ⟨hG _ _ _ (.refl log) hp.1, ih s (h s) (hp.2 s)
      (fun log' s op hlog => hG log' s op (hcons.trans hlog)) (fun new a ha hnew => ?_)
      fun log' e hlog => herror log' e (hcons.trans hlog)⟩
    have hsplit : new ++ ⟨op, s⟩ :: log = (new ++ [⟨op, s⟩]) ++ log := by simp
    rw [hsplit]
    refine hok _ a ha fun e he => ?_
    rcases List.mem_append.mp he with he | he
    · exact hnew e he
    · obtain rfl := List.mem_singleton.mp he
      exact hp.1

/-- Sequencing after operations of a kind that always meets the guarantee. -/
theorem Leaves.obeys_bind {K : κ → Prop} {G : Log σ κ → σ → κ → Prop}
    {R : Log σ κ → Except ε β → Prop} (h : p.Leaves P) (hp : p.Only K)
    (hG : ∀ log s op, K op → G log s op) {log : Log σ κ}
    (hok : ∀ new a, P a new → (∀ e ∈ new, K e.operation) → Obeys G R (f a) (new ++ log))
    (herror : ∀ log' e, log.Grown K log' → R log' (.error e)) : Obeys G R (p >>= f) log :=
  h.obeys_bind_of_grown hp (fun log' s op _ => hG log' s op) hok herror

theorem Leaves.obeys (h : p.Leaves P) (log : Log σ κ) :
    p.Obeys (fun _ _ _ => True) (fun l r => ∀ a, r = .ok a → ∃ new, l = new ++ log ∧ P a new)
      log := by
  induction p generalizing P log with
  | done a =>
    rintro b hb
    cases hb
    exact ⟨[], rfl, h⟩
  | fail e => exact fun b hb => nomatch hb
  | step op next ih =>
    intro s
    refine ⟨trivial, (ih s (h s) (⟨op, s⟩ :: log)).mono fun l r hl a ha => ?_⟩
    obtain ⟨new, hl, hnew⟩ := hl a ha
    exact ⟨new ++ [⟨op, s⟩], by rw [hl, List.append_assoc, List.singleton_append], hnew⟩

end Procedure

open Procedure

/-- What a call that has returned has left in its log. -/
theorem Reachable.left [Operational κ σ] {program : ι → Procedure σ κ ε α} {init : σ → Prop}
    {ok : Pool ι σ κ ε α → Move ι → Prop} {pool : Pool ι σ κ ε α}
    (h : Reachable program init ok pool) {t : Thread ι σ κ ε α} (ht : t ∈ pool.threads) {a : α}
    (hdone : t.rest = .done a) {P : ι → α → Log σ κ → Prop}
    (hprogram : ∀ c, (program c).Leaves (P c)) : P t.call a t.log := by
  have hreturned := h.returned (fun c => (hprogram c).obeys []) ht hdone
  obtain ⟨new, hlog, hnew⟩ := hreturned a rfl
  rwa [hlog, List.append_nil]

section Restrict

variable {τ κ' : Type}

/-- The operations on one component in a log of a larger store. -/
def Log.restrict (get : τ → σ) (extract : κ' → Option κ) (log : Log τ κ') : Log σ κ :=
  log.filterMap fun e => (extract e.operation).map fun op => ⟨op, get e.before⟩

variable {get : τ → σ} {extract : κ' → Option κ} {log : Log τ κ'}

theorem Log.mem_restrict {e : Event σ κ} :
    e ∈ log.restrict get extract ↔
      ∃ d ∈ log, extract d.operation = some e.operation ∧ get d.before = e.before := by
  simp only [Log.restrict, List.mem_filterMap, Option.map_eq_some_iff]
  constructor
  · rintro ⟨d, hd, op, hop, rfl⟩
    exact ⟨d, hd, hop, rfl⟩
  · rintro ⟨d, hd, hop, hbefore⟩
    exact ⟨d, hd, e.operation, hop, by rw [hbefore]⟩

theorem Log.restrict_append (log' : Log τ κ') :
    Log.restrict get extract (log' ++ log) =
      log'.restrict get extract ++ log.restrict get extract := List.filterMap_append

theorem Log.restrict_cons_of_some {op : κ} {op' : κ'} (h : extract op' = some op) (t : τ) :
    Log.restrict get extract (⟨op', t⟩ :: log) = ⟨op, get t⟩ :: log.restrict get extract := by
  rw [Log.restrict, List.filterMap_cons_some]
  · rfl
  · rw [h]
    rfl

theorem Log.restrict_cons_of_none {op' : κ'} (h : extract op' = none) (t : τ) :
    Log.restrict get extract (⟨op', t⟩ :: log) = log.restrict get extract := by
  rw [Log.restrict, List.filterMap_cons_none]
  · rfl
  · rw [h]
    rfl

theorem Log.pairwise_restrict {E : Event σ κ → Event σ κ → Prop}
    {E' : Event τ κ' → Event τ κ' → Prop} (h : log.Pairwise E')
    (hE : ∀ e d op op', E' e d → extract e.operation = some op → extract d.operation = some op' →
      E ⟨op, get e.before⟩ ⟨op', get d.before⟩) : (log.restrict get extract).Pairwise E := by
  refine h.filterMap _ fun e d hed x hx y hy => ?_
  obtain ⟨op, hop, rfl⟩ := Option.map_eq_some_iff.mp hx
  obtain ⟨op', hop', rfl⟩ := Option.map_eq_some_iff.mp hy
  exact hE e d op op' hed hop hop'

/-- A lifted procedure whose operations can all be told in the larger log. -/
theorem Procedure.Leaves.lift {inject : κ → κ'} {p : Procedure σ κ ε α} {P : α → Log σ κ → Prop}
    (hextract : p.Only fun op => extract (inject op) = some op) (h : p.Leaves P) :
    (p.lift get inject).Leaves fun a log => P a (log.restrict get extract) := by
  induction p generalizing P with
  | done a => exact h
  | fail e => exact trivial
  | step op next ih =>
    intro t
    refine (ih (get t) (hextract.2 (get t)) (h (get t))).mono fun a log hP => ?_
    beta_reduce
    rw [Log.restrict_append, Log.restrict_cons_of_some hextract.1]
    exact hP

end Restrict

end Concurrent
