import FlareAuth.Concurrent.Procedure

/-!
# Contracts of procedures

`Obeys` follows a procedure whatever stores its operations find: each operation
must meet a guarantee, which may depend on what the procedure has done so far,
and each way of ending must meet a postcondition on the whole log.
-/

namespace Concurrent

variable {σ κ ε α β : Type}

structure Event (σ κ : Type) where
  operation : κ
  before : σ

/-- The operations a procedure has performed, latest first. -/
abbrev Log (σ κ : Type) := List (Event σ κ)

def Logged (G : Log σ κ → σ → κ → Prop) : Log σ κ → Prop
  | [] => True
  | e :: log => G log e.before e.operation ∧ Logged G log

theorem Logged.of_mem {G : Log σ κ → σ → κ → Prop} {log : Log σ κ} (h : Logged G log)
    {e : Event σ κ} (he : e ∈ log) :
    ∃ earlier later, log = later ++ e :: earlier ∧ G earlier e.before e.operation := by
  induction log with
  | nil => simp at he
  | cons d log ih =>
    rcases List.mem_cons.mp he with rfl | he
    · exact ⟨log, [], rfl, h.1⟩
    · obtain ⟨earlier, later, rfl, hg⟩ := ih h.2 he
      exact ⟨earlier, d :: later, rfl, hg⟩

/-- The second log is the first one after operations of a kind. -/
def Log.Grown (K : κ → Prop) (log log' : Log σ κ) : Prop :=
  ∃ new, log' = new ++ log ∧ ∀ e ∈ new, K e.operation

/-- An event below a part of a log is still below the event that ends that part. -/
theorem Log.split {log log' log₁ log₂ : Log σ κ} {e d : Event σ κ}
    (h : log₁ ++ e :: log = log₂ ++ d :: log') (hne : e ≠ d) (hnot : d ∉ log₁) :
    ∃ log₃, log = log₃ ++ d :: log' := by
  rcases List.append_eq_append_iff.mp h with ⟨as, _, hd⟩ | ⟨as, hlog₁, hd⟩
  · cases as with
    | nil => exact absurd (List.cons.inj hd).1 hne
    | cons a as => exact ⟨as, (List.cons.inj hd).2⟩
  · cases as with
    | nil => exact absurd (List.cons.inj hd).1.symm hne
    | cons a as =>
      obtain rfl : d = a := (List.cons.inj hd).1
      have hmem : d ∈ log₁ := by
        rw [hlog₁]
        exact List.mem_append_right _ List.mem_cons_self
      exact absurd hmem hnot

namespace Log.Grown

variable {K : κ → Prop} {log log' log'' : Log σ κ}

theorem refl (log : Log σ κ) : Log.Grown K log log := ⟨[], rfl, by simp⟩

theorem cons {op : κ} (h : K op) (s : σ) (log : Log σ κ) : Log.Grown K log (⟨op, s⟩ :: log) :=
  ⟨[⟨op, s⟩], rfl, by simpa using h⟩

theorem trans (h : Log.Grown K log log') (h' : Log.Grown K log' log'') :
    Log.Grown K log log'' := by
  obtain ⟨new, rfl, hnew⟩ := h
  obtain ⟨new', rfl, hnew'⟩ := h'
  refine ⟨new' ++ new, (List.append_assoc _ _ _).symm, fun e he => ?_⟩
  rcases List.mem_append.mp he with he | he
  · exact hnew' e he
  · exact hnew e he

theorem suffix (h : Log.Grown K log log') : log <:+ log' := by
  obtain ⟨new, rfl, _⟩ := h
  exact List.suffix_append new log

theorem subset (h : Log.Grown K log log') : log ⊆ log' := h.suffix.subset

end Log.Grown

/-- The log of a procedure among the operations of a larger program on the same store. -/
def Log.inject {κ' : Type} (inject : κ → κ') (log : Log σ κ) : Log σ κ' :=
  log.map fun e => ⟨inject e.operation, e.before⟩

theorem Log.mem_inject {κ' : Type} {inject : κ → κ'} {log : Log σ κ} {e : Event σ κ}
    (he : e ∈ log) : ⟨inject e.operation, e.before⟩ ∈ log.inject inject :=
  List.mem_map.mpr ⟨e, he, rfl⟩

/-- The state that the latest operation of a kind found. -/
def Log.lastBefore (kind : κ → Bool) (log : Log σ κ) : Option σ :=
  (log.find? fun e => kind e.operation).map (·.before)

namespace Log

variable {kind : κ → Bool}

theorem lastBefore_cons_of_pos {op : κ} (h : kind op = true) (s : σ) (log : Log σ κ) :
    Log.lastBefore kind (⟨op, s⟩ :: log) = some s := by
  simp [Log.lastBefore, h]

theorem lastBefore_cons_of_neg {op : κ} (h : kind op = false) (s : σ) (log : Log σ κ) :
    Log.lastBefore kind (⟨op, s⟩ :: log) = Log.lastBefore kind log := by
  simp [Log.lastBefore, h]

theorem lastBefore_append {new : Log σ κ} (h : ∀ e ∈ new, kind e.operation = false)
    (log : Log σ κ) : Log.lastBefore kind (new ++ log) = Log.lastBefore kind log := by
  have hnone : new.find? (fun e => kind e.operation) = none :=
    List.find?_eq_none.mpr fun e he => by simp [h e he]
  rw [Log.lastBefore, List.find?_append, hnone]
  rfl

theorem lastBefore_inject {κ' : Type} {inject : κ → κ'} {kind : κ' → Bool} {log : Log σ κ} :
    Log.lastBefore kind (log.inject inject) = Log.lastBefore (fun op => kind (inject op)) log := by
  rw [Log.lastBefore, Log.inject, List.find?_map, Option.map_map]
  rfl

theorem mem_of_lastBefore {log : Log σ κ} {s : σ} (h : Log.lastBefore kind log = some s) :
    ∃ e ∈ log, e.before = s := by
  obtain ⟨e, he, rfl⟩ := Option.map_eq_some_iff.mp h
  exact ⟨e, List.mem_of_find?_eq_some he, rfl⟩

end Log

namespace Procedure

/-- Every operation the procedure may perform is of a kind. -/
def Only (K : κ → Prop) : Procedure σ κ ε α → Prop
  | done _ => True
  | fail _ => True
  | step op next => K op ∧ ∀ s, (next s).Only K

def Returns : Procedure σ κ ε α → α → Prop
  | done a, b => a = b
  | fail _, _ => False
  | step _ next, b => ∃ s, (next s).Returns b

def result : Procedure σ κ ε α → Option (Except ε α)
  | done a => some (.ok a)
  | fail e => some (.error e)
  | step _ _ => none

@[simp] theorem returns_bind {p : Procedure σ κ ε α} {f : α → Procedure σ κ ε β} {b : β} :
    (p >>= f).Returns b ↔ ∃ a, p.Returns a ∧ (f a).Returns b := by
  induction p with
  | done a => simp [Returns]
  | fail e => simp [Returns]
  | step op next ih =>
    simp only [step_bind, Returns, ih]
    constructor
    · rintro ⟨s, a, ha, hb⟩
      exact ⟨a, ⟨s, ha⟩, hb⟩
    · rintro ⟨a, ⟨s, ha⟩, hb⟩
      exact ⟨s, a, ha, hb⟩

@[simp] theorem returns_done {a b : α} : (done a : Procedure σ κ ε α).Returns b ↔ a = b := Iff.rfl

@[simp] theorem returns_fail {e : ε} {b : α} : ¬(fail e : Procedure σ κ ε α).Returns b := id

@[simp] theorem returns_query {op : κ} {answer : σ → α} {a : α} :
    (query op answer : Procedure σ κ ε α).Returns a ↔ ∃ s, answer s = a := Iff.rfl

/-- A loop returns one value for each element, each of them returned by the body somewhere. -/
theorem returns_collect {bs : List β} {body : β → Procedure σ κ ε α} {as : List α}
    (h : (collect bs body).Returns as) :
    as.length = bs.length ∧ ∀ a ∈ as, ∃ b ∈ bs, (body b).Returns a := by
  induction bs generalizing as with
  | nil =>
    obtain rfl : [] = as := h
    exact ⟨rfl, by simp⟩
  | cons b bs ih =>
    simp only [collect, returns_bind, returns_done] at h
    obtain ⟨a, ha, rest, hrest, rfl⟩ := h
    obtain ⟨hlength, hall⟩ := ih hrest
    refine ⟨by simp [hlength], fun c hc => ?_⟩
    rcases List.mem_cons.mp hc with rfl | hc
    · exact ⟨b, List.mem_cons_self, ha⟩
    · obtain ⟨b', hb', hreturns⟩ := hall c hc
      exact ⟨b', List.mem_cons_of_mem _ hb', hreturns⟩

section Only

variable {K : κ → Prop}

@[simp] theorem only_done (a : α) : (done a : Procedure σ κ ε α).Only K := trivial

@[simp] theorem only_fail (e : ε) : (fail e : Procedure σ κ ε α).Only K := trivial

@[simp] theorem only_step {op : κ} {next : σ → Procedure σ κ ε α} :
    (step op next).Only K ↔ K op ∧ ∀ s, (next s).Only K := Iff.rfl

@[simp] theorem only_bind {p : Procedure σ κ ε α} {f : α → Procedure σ κ ε β} :
    (p >>= f).Only K ↔ p.Only K ∧ ∀ a, p.Returns a → (f a).Only K := by
  induction p with
  | done a => simp [Returns]
  | fail e => simp [Returns]
  | step op next ih =>
    simp only [step_bind, only_step, ih, Returns]
    constructor
    · rintro ⟨hop, h⟩
      exact ⟨⟨hop, fun s => (h s).1⟩, fun a ⟨s, ha⟩ => (h s).2 a ha⟩
    · rintro ⟨⟨hop, hnext⟩, h⟩
      exact ⟨hop, fun s => ⟨hnext s, fun a ha => h a ⟨s, ha⟩⟩⟩

@[simp] theorem only_map {p : Procedure σ κ ε α} {f : α → β} : (f <$> p).Only K ↔ p.Only K := by
  change (p >>= fun a => done (f a)).Only K ↔ _
  simp

@[simp] theorem only_query {op : κ} {answer : σ → α} :
    (query op answer : Procedure σ κ ε α).Only K ↔ K op := by simp [query]

@[simp] theorem only_ofExcept (r : Except ε α) : (ofExcept r : Procedure σ κ ε α).Only K := by
  cases r <;> exact trivial

@[simp] theorem only_orThrow (a : Option α) (e : ε) :
    (orThrow a e : Procedure σ κ ε α).Only K := by
  cases a <;> exact trivial

@[simp] theorem only_require (c : Prop) [Decidable c] (e : ε) :
    (require c e : Procedure σ κ ε Unit).Only K := by
  by_cases h : c
  · rw [require_pos h]
    exact trivial
  · rw [require_neg h]
    exact trivial

@[simp] theorem only_ite {c : Prop} [Decidable c] {p q : Procedure σ κ ε α} :
    (if c then p else q).Only K ↔ (c → p.Only K) ∧ (¬c → q.Only K) := by
  by_cases h : c <;> simp [h]

theorem only_forEach_of_mem {bs : List β} {body : β → Procedure σ κ ε Unit}
    (h : ∀ b ∈ bs, (body b).Only K) : (forEach bs body).Only K := by
  induction bs with
  | nil => exact trivial
  | cons b bs ih =>
    exact only_bind.mpr ⟨h b List.mem_cons_self,
      fun _ _ => ih fun b' hb' => h b' (List.mem_cons_of_mem b hb')⟩

@[simp] theorem only_forEach {bs : List β} {body : β → Procedure σ κ ε Unit}
    (h : ∀ b, (body b).Only K) : (forEach bs body).Only K := only_forEach_of_mem fun b _ => h b

@[simp] theorem only_collect {γ : Type} {bs : List β} {body : β → Procedure σ κ ε γ}
    (h : ∀ b, (body b).Only K) : (collect bs body).Only K := by
  induction bs with
  | nil => exact trivial
  | cons b bs ih =>
    exact only_bind.mpr ⟨h b, fun _ _ => only_bind.mpr ⟨ih, fun _ _ => trivial⟩⟩

theorem only_tryCatch {p : Procedure σ κ ε α} {handle : ε → Procedure σ κ ε α} (hp : p.Only K)
    (hhandle : ∀ e, (handle e).Only K) : (p.tryCatch handle).Only K := by
  induction p with
  | done a => exact trivial
  | fail e => exact hhandle e
  | step op next ih => exact ⟨hp.1, fun s => ih s (hp.2 s)⟩

/-- A lifted procedure performs the operations of the component only. -/
theorem only_lift {τ κ' : Type} {get : τ → σ} {inject : κ → κ'} {K' : κ' → Prop}
    {p : Procedure σ κ ε α} (h : p.Only fun op => K' (inject op)) :
    (p.lift get inject).Only K' := by
  induction p with
  | done a => exact trivial
  | fail e => exact trivial
  | step op next ih => exact ⟨h.1, fun t => ih (get t) (h.2 (get t))⟩

theorem Only.mono {K' : κ → Prop} {p : Procedure σ κ ε α} (h : p.Only K)
    (hK : ∀ op, K op → K' op) : p.Only K' := by
  induction p with
  | done a => exact trivial
  | fail e => exact trivial
  | step op next ih => exact ⟨hK op h.1, fun s => ih s (h.2 s)⟩

/-- Every procedure performs operations of some kind. -/
theorem only_true (p : Procedure σ κ ε α) : p.Only fun _ => True := by
  induction p with
  | done a => exact trivial
  | fail e => exact trivial
  | step op next ih => exact ⟨trivial, ih⟩

/-- A procedure whose operations leave the store alone leaves it alone when it runs. -/
theorem Only.exec [Operational κ σ] (hK : ∀ op, K op → ∀ s : σ, apply op s = s)
    {p : Procedure σ κ ε α} (h : p.Only K) (s : σ) : (p.exec s).2 = s := by
  induction p generalizing s with
  | done a => rfl
  | fail e => rfl
  | step op next ih =>
    rw [exec_step, ih s (h.2 s), hK op h.1]

/-- What each operation of a procedure does to the store, the procedure does when it runs. -/
theorem Only.relates [Operational κ σ] {R : σ → σ → Prop} (hrefl : ∀ s, R s s)
    (htrans : ∀ s t u, R s t → R t u → R s u) (hK : ∀ op, K op → ∀ s : σ, R s (apply op s))
    {p : Procedure σ κ ε α} (h : p.Only K) (s : σ) : R s (p.exec s).2 := by
  induction p generalizing s with
  | done a => exact hrefl s
  | fail e => exact hrefl s
  | step op next ih => exact htrans _ _ _ (hK op h.1 s) (ih s (h.2 s) _)

end Only

def Obeys (G : Log σ κ → σ → κ → Prop) (Q : Log σ κ → Except ε α → Prop) :
    Procedure σ κ ε α → Log σ κ → Prop
  | done a, log => Q log (.ok a)
  | fail e, log => Q log (.error e)
  | step op next, log => ∀ s, G log s op ∧ Obeys G Q (next s) (⟨op, s⟩ :: log)

variable {K : κ → Prop} {G : Log σ κ → σ → κ → Prop} {Q : Log σ κ → Except ε α → Prop}
  {P : Log σ κ → Except ε β → Prop}

theorem obeys_query {op : κ} {answer : σ → α} {log : Log σ κ}
    (h : ∀ s, G log s op ∧ Q (⟨op, s⟩ :: log) (.ok (answer s))) :
    Obeys G Q (query op answer : Procedure σ κ ε α) log := h

theorem obeys_orThrow_bind {o : Option α} {e : ε} {f : α → Procedure σ κ ε β} {log : Log σ κ}
    (hsome : ∀ a, o = some a → Obeys G P (f a) log) (hnone : o = none → P log (.error e)) :
    Obeys G P (orThrow o e >>= f) log := by
  cases o with
  | none => exact hnone rfl
  | some a => exact hsome a rfl

theorem obeys_require_bind {c : Prop} [Decidable c] {e : ε} {f : Unit → Procedure σ κ ε β}
    {log : Log σ κ} (hpos : c → Obeys G P (f ()) log) (hneg : ¬c → P log (.error e)) :
    Obeys G P (require c e >>= f) log := by
  by_cases h : c
  · rw [require_pos h]
    exact hpos h
  · rw [require_neg h]
    exact hneg h

theorem obeys_ofExcept_bind {r : Except ε α} {f : α → Procedure σ κ ε β} {log : Log σ κ}
    (herror : ∀ e, r = .error e → P log (.error e)) (hok : ∀ a, r = .ok a → Obeys G P (f a) log) :
    Obeys G P (ofExcept r >>= f) log := by
  cases r with
  | error e => exact herror e rfl
  | ok a => exact hok a rfl

/-- Sequencing: the second part starts from what the first one ensured, with a longer log. -/
theorem Obeys.bind {p : Procedure σ κ ε α} {f : α → Procedure σ κ ε β} {log : Log σ κ}
    (h : Obeys G Q p log)
    (hok : ∀ log' a, log <:+ log' → Q log' (.ok a) → Obeys G P (f a) log')
    (herror : ∀ log' e, Q log' (.error e) → P log' (.error e)) : Obeys G P (p >>= f) log := by
  induction p generalizing log with
  | done a => exact hok _ _ List.suffix_rfl h
  | fail e => exact herror _ _ h
  | step op next ih =>
    intro s
    refine ⟨(h s).1, ih s (h s).2 fun log' a hlog => hok log' a ?_⟩
    exact (List.suffix_cons _ _).trans hlog

/-- A handler starts from what the failed part ensured. -/
theorem Obeys.tryCatch {p : Procedure σ κ ε α} {handle : ε → Procedure σ κ ε α} {log : Log σ κ}
    {R : Log σ κ → Except ε α → Prop} (h : Obeys G Q p log)
    (hok : ∀ log' a, Q log' (.ok a) → R log' (.ok a))
    (herror : ∀ log' e, Q log' (.error e) → Obeys G R (handle e) log') :
    Obeys G R (p.tryCatch handle) log := by
  induction p generalizing log with
  | done a => exact hok _ _ h
  | fail e => exact herror _ _ h
  | step op next ih => exact fun s => ⟨(h s).1, ih s (h s).2⟩

theorem Obeys.mono {Q' : Log σ κ → Except ε α → Prop} {p : Procedure σ κ ε α} {log : Log σ κ}
    (h : Obeys G Q p log) (hQ : ∀ log r, Q log r → Q' log r) : Obeys G Q' p log := by
  induction p generalizing log with
  | done a => exact hQ _ _ h
  | fail e => exact hQ _ _ h
  | step op next ih => exact fun s => ⟨(h s).1, ih s (h s).2⟩

theorem Obeys.weaken {G' : Log σ κ → σ → κ → Prop} {p : Procedure σ κ ε α} {log : Log σ κ}
    (h : p.Obeys G Q log) (hG : ∀ l s op, G l s op → G' l s op) : p.Obeys G' Q log := by
  induction p generalizing log with
  | done a => exact h
  | fail e => exact h
  | step op next ih => exact fun s => ⟨hG log s op (h s).1, ih s (h s).2⟩

/-- Two contracts of one procedure. -/
theorem Obeys.and {G' : Log σ κ → σ → κ → Prop} {Q' : Log σ κ → Except ε α → Prop}
    {p : Procedure σ κ ε α} {log : Log σ κ} (h : p.Obeys G Q log) (h' : p.Obeys G' Q' log) :
    p.Obeys (fun l s op => G l s op ∧ G' l s op) (fun l r => Q l r ∧ Q' l r) log := by
  induction p generalizing log with
  | done a => exact ⟨h, h'⟩
  | fail e => exact ⟨h, h'⟩
  | step op next ih => exact fun s => ⟨⟨(h s).1, (h' s).1⟩, ih s (h s).2 (h' s).2⟩

/-- Operations of a kind that always meets the guarantee only make the log longer. -/
theorem Only.obeys {p : Procedure σ κ ε α} (h : p.Only K) (hG : ∀ log s op, K op → G log s op)
    {log : Log σ κ} (hok : ∀ log' a, log.Grown K log' → p.Returns a → Q log' (.ok a))
    (herror : ∀ log' e, log.Grown K log' → Q log' (.error e)) : Obeys G Q p log := by
  induction p generalizing log with
  | done a => exact hok _ _ (.refl log) rfl
  | fail e => exact herror _ _ (.refl log)
  | step op next ih =>
    intro s
    have hcons : log.Grown K (⟨op, s⟩ :: log) := .cons h.1 s log
    refine ⟨hG _ _ _ h.1, ih s (h.2 s) ?_ fun log' e hlog => herror log' e (hcons.trans hlog)⟩
    exact fun log' a hlog ha => hok log' a (hcons.trans hlog) ⟨s, ha⟩

theorem Only.obeys_bind {p : Procedure σ κ ε α} (h : p.Only K)
    (hG : ∀ log s op, K op → G log s op) {f : α → Procedure σ κ ε β} {log : Log σ κ}
    (hok : ∀ log' a, log.Grown K log' → p.Returns a → Obeys G P (f a) log')
    (herror : ∀ log' e, log.Grown K log' → P log' (.error e)) : Obeys G P (p >>= f) log := by
  have hp : Obeys G (fun log' r => log.Grown K log' ∧ ∀ a, r = .ok a → p.Returns a) p log :=
    h.obeys hG (fun _ _ hlog ha => ⟨hlog, fun _ hr => Except.ok.inj hr ▸ ha⟩)
      fun _ _ hlog => ⟨hlog, fun _ hr => nomatch hr⟩
  exact hp.bind (fun log' a _ hq => hok log' a hq.1 (hq.2 a rfl))
    fun log' e hq => herror log' e hq.1

/-- The contract of a procedure whose operations stand among those of a larger program. -/
theorem Obeys.inject {κ' : Type} {inject : κ → κ'} {G' : Log σ κ' → σ → κ' → Prop}
    {Q' : Log σ κ' → Except ε α → Prop} {p : Procedure σ κ ε α} {log : Log σ κ}
    (h : p.Obeys G Q log) (hG : ∀ l s op, G l s op → G' (Log.inject inject l) s (inject op))
    (hQ : ∀ l r, Q l r → Q' (Log.inject inject l) r) :
    (p.lift (fun s : σ => s) inject).Obeys G' Q' (Log.inject inject log) := by
  induction p generalizing log with
  | done a => exact hQ log _ h
  | fail e => exact hQ log _ h
  | step op next ih => exact fun s => ⟨hG log s op (h s).1, ih s (h s).2⟩

end Procedure

end Concurrent
