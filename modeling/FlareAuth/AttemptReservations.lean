import FlareAuth.WebhookLedger

/-!
# Reservations of delivery attempts

A key of a request is reserved by one insert, in whatever order the calls with
that key take their steps: the call that inserted the attempt sends it, and every
other call reports the row that it finds. The sequence of a new attempt is past
those of all attempts in the table at the insert.
-/

namespace FlareAuth.Webhooks

open Concurrent Relational Procedure

/-- What the columns that are never written again say of an attempt. -/
structure DeliveryAttempt.SameAs (a b : DeliveryAttempt) : Prop where
  id : a.id = b.id
  requestId : a.requestId = b.requestId
  idempotencyKey : a.idempotencyKey = b.idempotencyKey
  sequence : a.sequence = b.sequence

namespace DeliveryAttempt.SameAs

variable {a b c : DeliveryAttempt}

theorem refl (a : DeliveryAttempt) : a.SameAs a := ⟨rfl, rfl, rfl, rfl⟩

theorem symm (h : a.SameAs b) : b.SameAs a :=
  ⟨h.id.symm, h.requestId.symm, h.idempotencyKey.symm, h.sequence.symm⟩

theorem trans (h : a.SameAs b) (h' : b.SameAs c) : a.SameAs c :=
  ⟨h.id.trans h'.id, h.requestId.trans h'.requestId, h.idempotencyKey.trans h'.idempotencyKey,
    h.sequence.trans h'.sequence⟩

theorem complete (a : DeliveryAttempt) (o : Outcome) (completedAt : ℕ) :
    a.SameAs (a.complete o completedAt) := ⟨rfl, rfl, rfl, rfl⟩

end DeliveryAttempt.SameAs

/-- One attempt for each key of a request, and sequences in the order of the inserts. -/
structure Store.Tidy (s : Store) : Prop where
  keys : ∀ a ∈ s.attempts.rows, ∀ b ∈ s.attempts.rows, a.requestId = b.requestId →
    a.idempotencyKey = b.idempotencyKey → a = b
  ordered : ∀ id, (s.attemptsOf id).Pairwise fun a b => a.sequence < b.sequence

theorem Store.Fresh.tidy {s : Store} (h : s.Fresh) : s.Tidy where
  keys a ha := by
    rw [h.attempts] at ha
    cases ha
  ordered id := by
    rw [Store.attemptsOf, h.attempts]
    exact .nil

section Rows

variable {d : Event Store Operation} {a b : DeliveryAttempt} {id : Id} {s : Store}

/-- An attempt is inserted where the request has none with its key, past all its sequences. -/
theorem of_reserves (h : Reserves d a) :
    (∀ b ∈ d.before.attemptsOf a.requestId, b.idempotencyKey ≠ a.idempotencyKey) ∧
      ∀ b ∈ d.before.attemptsOf a.requestId, b.sequence < a.sequence := by
  obtain ⟨r, _, houtcome⟩ := h
  have hbatch := Batch.outcome_eq_ok houtcome
  obtain ⟨_, ha, _, _⟩ := reserveAttempt_eq_ok hbatch
  have hrequest : a.requestId = r.requestId := by
    rw [ha]
    rfl
  have hkey : a.idempotencyKey = r.idempotencyKey := by
    rw [ha]
    rfl
  rw [hrequest, hkey]
  constructor
  · intro b hb hsame
    unfold Repository.reserveAttempt at hbatch
    split at hbatch
    · cases hbatch
    · rename_i hnone
      rw [Bool.not_eq_true, Option.isSome_eq_false_iff, Option.isNone_iff_eq_none] at hnone
      exact List.find?_eq_none.mp hnone b hb (by simpa using hsame)
  · intro b hb
    have hle : b.sequence ≤ d.before.largestSequence r.requestId := sequence_le_largest hb
    have hsequence : a.sequence =
        max (d.before.largestSequence r.requestId) r.previousAttemptCount + 1 := by
      rw [ha]
      rfl
    omega

/-- The identity of an attempt is never written again. -/
theorem attempt_evolution (id : Id) : Evolution Operation fun s t : Store =>
    ∀ a, s.attempts.find id = some a → ∃ a', t.attempts.find id = some a' ∧ a.SameAs a' where
  refl _ a ha := ⟨a, ha, .refl a⟩
  trans _ _ _ h h' a ha := by
    obtain ⟨b, hb, hab⟩ := h a ha
    obtain ⟨c, hc, hbc⟩ := h' b hb
    exact ⟨c, hc, hab.trans hbc⟩
  step op s a ha := by
    refine ⟨_, find_attempt_apply op s ha, ?_⟩
    cases op with
    | updateAttempt k o completedAt =>
      dsimp only
      split
      · exact .complete a o completedAt
      · exact .refl a
    | read | fetch | generateId | elapse | createRequest | updateRequest | reserveAttempt =>
      exact .refl a

theorem tidy_of_attempts {t : Store} (h : s.Tidy) (hsame : t.attempts = s.attempts) : t.Tidy := by
  refine ⟨?_, fun id => ?_⟩
  · rw [hsame]
    exact h.keys
  · rw [Store.attemptsOf, hsame]
    exact h.ordered id

theorem attemptsOf_updateWhere (p : DeliveryAttempt → Bool) {f : DeliveryAttempt → DeliveryAttempt}
    (hf : ∀ a : DeliveryAttempt, a.SameAs (f a)) (rows : List DeliveryAttempt) :
    (updateWhere p f rows).filter (fun a => a.requestId = id) =
      updateWhere p f (rows.filter fun a => a.requestId = id) := by
  rw [updateWhere, updateWhere, List.filter_map]
  congr 1
  refine List.filter_congr fun a _ => ?_
  dsimp only [Function.comp]
  split
  · rw [(hf a).requestId]
  · rfl

/-- Every operation keeps the table of attempts tidy. -/
theorem tidy_apply (op : Operation) (s : Store) (h : s.Tidy) : (apply op s).Tidy := by
  cases op with
  | read | fetch | generateId | elapse | updateRequest => exact tidy_of_attempts h rfl
  | createRequest r =>
    change ((Repository.createRequest r).settle s).Tidy
    rcases createRequest_settle r s with hsame | ⟨requests, _, hstore⟩
    · rwa [hsame]
    · rw [hstore]
      exact tidy_of_attempts h rfl
  | updateAttempt k o completedAt =>
    have hsame : ∀ a : DeliveryAttempt, a.SameAs (a.complete o completedAt) :=
      fun a => .complete a o completedAt
    constructor
    · intro a ha b hb hrequest hkey
      obtain ⟨a', ha', rfl⟩ := mem_updateWhere.mp ha
      obtain ⟨b', hb', rfl⟩ := mem_updateWhere.mp hb
      have heq : a' = b' := by
        refine h.keys a' ha' b' hb' ?_ ?_
        · split at hrequest <;> split at hrequest <;> exact hrequest
        · split at hkey <;> split at hkey <;> exact hkey
      rw [heq]
    · intro id
      change ((updateWhere (fun a => a.id == k) (DeliveryAttempt.complete o completedAt)
        s.attempts.rows).filter fun a => a.requestId = id).Pairwise _
      rw [attemptsOf_updateWhere _ hsame, updateWhere, List.pairwise_map]
      refine (h.ordered id).imp fun {a b} hlt => ?_
      split <;> split <;> exact hlt
  | reserveAttempt r =>
    change ((Repository.reserveAttempt r).settle s).Tidy
    rcases settle_reserveAttempt r s with hsame | ⟨a, houtcome⟩
    · rwa [hsame]
    · have hreserves : Reserves ⟨.reserveAttempt r, s⟩ a := ⟨r, rfl, houtcome⟩
      obtain ⟨hfree, hpast⟩ := of_reserves hreserves
      obtain ⟨_, _, attempts, hinsert, hstore⟩ := settle_of_reserves hreserves
      change (Repository.reserveAttempt r).settle s = _ at hstore
      have hrows : attempts.rows = s.attempts.rows ++ [a] := (Keyed.insert?_eq_some hinsert).1
      rw [hstore]
      constructor
      · intro b hb c hc hrequest hkey
        dsimp only at hb hc
        rw [hrows] at hb hc
        rcases List.mem_append.mp hb with hb | hb <;> rcases List.mem_append.mp hc with hc | hc
        · exact h.keys b hb c hc hrequest hkey
        · rw [List.mem_singleton.mp hc] at hrequest hkey
          exact absurd hkey (hfree b (mem_attemptsOf.mpr ⟨hb, hrequest⟩))
        · rw [List.mem_singleton.mp hb] at hrequest hkey
          exact absurd hkey.symm (hfree c (mem_attemptsOf.mpr ⟨hc, hrequest.symm⟩))
        · rw [List.mem_singleton.mp hb, List.mem_singleton.mp hc]
      · intro id
        change (attempts.rows.filter fun b => b.requestId = id).Pairwise _
        rw [hrows, List.filter_append]
        refine List.pairwise_append.mpr ⟨h.ordered id, (List.pairwise_singleton _ _).filter _, ?_⟩
        intro b hb c hc
        obtain ⟨hc, hrequest⟩ := List.mem_filter.mp hc
        obtain rfl := List.mem_singleton.mp hc
        obtain rfl : c.requestId = id := of_decide_eq_true hrequest
        exact hpast b hb

end Rows

/-- A call with the attempt that it reports when it returns. A publication reports its requests. -/
def Call.report : Call → Deliveries (Option DeliveryAttempt)
  | .publishToEndpoint endpointId event organizationIds requestBody answer => do
    Call.program (.publishToEndpoint endpointId event organizationIds requestBody answer)
    return none
  | .deliverWebhookRequest id answer => do
    let result ← deliverWebhookRequestWithAttempt id ("initial:" ++ id) answer
    return some result.attempt
  | .createWebhookDeliveryAttempt id idempotencyKey answer => do
    let reply ← Webhooks.createWebhookDeliveryAttempt id idempotencyKey answer
    return some reply.attempt
  | .elapse milliseconds => do
    Call.program (.elapse milliseconds)
    return none

def Call.key : Call → Option (Id × String)
  | .deliverWebhookRequest id _ => some (id, "initial:" ++ id)
  | .createWebhookDeliveryAttempt id idempotencyKey _ => some (id, idempotencyKey)
  | _ => none

/-- Neither a reservation nor an HTTP request. -/
def Operation.Plain : Operation → Prop
  | .fetch => False
  | .reserveAttempt _ => False
  | _ => True

def Operation.isFetch : Operation → Bool
  | .fetch => true
  | _ => false

def OnceEach (log : DeliveryLog) (_ : Store) : Operation → Prop
  | .fetch => (∃ a, Reserved log a) ∧ ∀ d ∈ log, d.operation.isFetch = false
  | .reserveAttempt _ => ∀ d ∈ log, d.operation.Plain
  | _ => True

/-- A store of the call had an attempt of a key, which its report shows. -/
def Shows (log : DeliveryLog) (id : Id) (idempotencyKey : String) (b : DeliveryAttempt) : Prop :=
  ∃ d ∈ log, ∃ q, d.before.attempts.find b.id = some q ∧ q.SameAs b ∧
    ((q.requestId = id ∧ q.idempotencyKey = idempotencyKey) ∨
      ∃ a, Reserved log a ∧ a.id = b.id ∧ a.requestId = id ∧ a.idempotencyKey = idempotencyKey)

section Contract

variable {α β : Type} {log log' : DeliveryLog} {P : DeliveryLog → Except Failure β → Prop}
  {id : Id} {idempotencyKey : String} {a b : DeliveryAttempt}

theorem Shows.subset (h : Shows log id idempotencyKey b) (hsub : log ⊆ log') :
    Shows log' id idempotencyKey b := by
  obtain ⟨d, hd, q, hq, hsame, hkey⟩ := h
  refine ⟨d, hsub hd, q, hq, hsame, hkey.imp_right ?_⟩
  rintro ⟨a, ha, hrest⟩
  exact ⟨a, ha.subset hsub, hrest⟩

theorem shows_of_find {d : Event Store Operation} (hd : d ∈ log)
    (h : d.before.findAttemptByIdempotencyKey id idempotencyKey = some b) :
    Shows log id idempotencyKey b := by
  have hmem := List.mem_of_find?_eq_some h
  have hkey : b.idempotencyKey = idempotencyKey := by simpa using List.find?_some h
  obtain ⟨hrow, hrequest⟩ := mem_attemptsOf.mp hmem
  exact ⟨d, hd, b, Keyed.find_eq_some.mpr ⟨hrow, rfl⟩, .refl b, .inl ⟨hrequest, hkey⟩⟩

theorem onceEach_of_plain (log : DeliveryLog) (s : Store) (op : Operation) (h : op.Plain) :
    OnceEach log s op := by
  cases op <;> trivial

@[simp] theorem plain_look (answer : Store → α) : (look answer).Only Operation.Plain :=
  only_query.mpr trivial

@[simp] theorem plain_generateId : generateId.Only Operation.Plain := only_query.mpr trivial

theorem plain_commit (op : Operation) (hop : op.Plain) (batch : StoreBatch α) :
    (commit op batch).Only Operation.Plain := ⟨hop, fun _ => only_ofExcept _⟩

theorem plain_updateDelivery (id : Id) (p : RequestPatch) :
    (updateDelivery id p).Only Operation.Plain := by
  have hcommit := plain_commit (.updateRequest id p) trivial (Repository.updateRequest id p)
  simp [updateDelivery, hcommit]

theorem obeys_look_bind {answer : Store → α} {f : α → Deliveries β}
    (h : ∀ s, (f (answer s)).Obeys OnceEach P (⟨.read, s⟩ :: log)) :
    (look answer >>= f).Obeys OnceEach P log := fun s => ⟨trivial, h s⟩

theorem obeys_plain_bind {p : Deliveries α} {f : α → Deliveries β} (hp : p.Only Operation.Plain)
    (hf : ∀ log' a, log.Grown Operation.Plain log' → (f a).Obeys OnceEach P log')
    (herror : ∀ log' e, P log' (.error e)) : (p >>= f).Obeys OnceEach P log :=
  hp.obeys_bind onceEach_of_plain (fun log' a hgrown _ => hf log' a hgrown)
    fun log' e _ => herror log' e

theorem plain_of_grown (h : ∀ d ∈ log, d.operation.Plain)
    (hgrown : log.Grown Operation.Plain log') :
    ∀ d ∈ log', d.operation.Plain := by
  obtain ⟨new, rfl, hnew⟩ := hgrown
  intro d hd
  rcases List.mem_append.mp hd with hd | hd
  · exact hnew d hd
  · exact h d hd

theorem isFetch_of_plain {op : Operation} (h : op.Plain) : op.isFetch = false := by
  cases op <;> first | rfl | exact h.elim

/-- The delivery of a reserved attempt sends one request and reports that attempt. -/
theorem obeys_sendAttempt_once {d : Event Store Operation} (attemptedAt : ℕ) (answer : Answer)
    (hd : d ∈ log) (hreserves : Reserves d a) (hlog : ∀ d ∈ log, d.operation.isFetch = false) :
    (sendAttempt a attemptedAt answer).Obeys OnceEach
      (fun l r => ∀ x, r = .ok x → Shows l a.requestId a.idempotencyKey x.attempt) log := by
  refine obeys_plain_bind (plain_updateDelivery _ _) (fun log₁ _ h₁ => ?_)
    fun _ _ _ h => by cases h
  obtain ⟨new, rfl, hnew⟩ := h₁
  have hunsent : ∀ d ∈ new ++ log, d.operation.isFetch = false := by
    intro d hd
    rcases List.mem_append.mp hd with hd | hd
    · exact isFetch_of_plain (hnew d hd)
    · exact hlog d hd
  intro s
  refine ⟨⟨⟨a, d, List.mem_append_right _ hd, hreserves⟩, hunsent⟩, ?_⟩
  refine obeys_look_bind fun s' => ?_
  rw [updateDeliveryAttempt, bind_bind]
  intro s''
  refine ⟨trivial, ?_⟩
  refine obeys_orThrow_bind (fun row hrow => ?_) fun _ _ h => by cases h
  obtain ⟨q, hq, rfl⟩ := Option.map_eq_some_iff.mp hrow
  refine obeys_plain_bind (plain_updateDelivery _ _) (fun log₂ updated h₂ => ?_)
    fun _ _ _ h => by cases h
  rintro x hx
  obtain rfl := Except.ok.inj hx
  have hid : q.id = a.id := (Keyed.find_eq_some.mp hq).2
  refine ⟨_, h₂.subset List.mem_cons_self, q, ?_, .complete q _ _, .inr ⟨a, ⟨d, ?_, hreserves⟩, ?_⟩⟩
  · change s''.attempts.find q.id = some q
    rw [hid]
    exact hq
  · refine h₂.subset (List.mem_cons_of_mem _ (List.mem_cons_of_mem _ (List.mem_cons_of_mem _ ?_)))
    exact List.mem_append_right _ hd
  · exact ⟨hid.symm, rfl, rfl⟩

theorem obeys_deliver_once (id : Id) (idempotencyKey : String) (answer : Answer)
    (hlog : ∀ d ∈ log, d.operation.Plain) :
    (deliverWebhookRequestWithAttempt id idempotencyKey answer).Obeys OnceEach
      (fun l r => ∀ x, r = .ok x → Shows l id idempotencyKey x.attempt) log := by
  have herror : ∀ (l : DeliveryLog) e, ∀ x : Delivery,
      Except.error (ε := Failure) e = .ok x → Shows l id idempotencyKey x.attempt :=
    fun _ _ _ h => nomatch h
  refine obeys_plain_bind (plain_look _) (fun log₁ found h₁ => ?_) herror
  refine obeys_orThrow_bind (fun current _ => ?_) fun _ => herror _ _
  refine obeys_plain_bind (plain_look _) (fun log₂ endpoint h₂ => ?_) herror
  refine obeys_require_bind (fun _ => ?_) fun _ => herror _ _
  refine obeys_require_bind (fun _ => ?_) fun _ => herror _ _
  refine obeys_plain_bind (plain_look _) (fun log₃ attemptedAt h₃ => ?_) herror
  refine obeys_plain_bind plain_generateId (fun log₄ attemptId h₄ => ?_) herror
  have hplain := plain_of_grown (plain_of_grown (plain_of_grown (plain_of_grown hlog h₁) h₂) h₃) h₄
  intro s
  refine ⟨hplain, obeys_ofExcept_bind (fun e _ => herror _ e) fun reserved houtcome => ?_⟩
  cases reserved with
  | some attempt =>
    have hreserves : Reserves ⟨.reserveAttempt ⟨attemptId, id, idempotencyKey, current.attemptCount,
        attemptedAt⟩, s⟩ attempt := ⟨_, rfl, houtcome⟩
    obtain ⟨_, ha, _, _⟩ := reserveAttempt_eq_ok (Batch.outcome_eq_ok houtcome)
    have hrequest : attempt.requestId = id := by rw [ha]; rfl
    have hkey : attempt.idempotencyKey = idempotencyKey := by rw [ha]; rfl
    have hunsent : ∀ d ∈ (⟨.reserveAttempt ⟨attemptId, id, idempotencyKey, current.attemptCount,
        attemptedAt⟩, s⟩ : Event Store Operation) :: log₄, d.operation.isFetch = false :=
      List.forall_mem_cons.mpr ⟨rfl, fun d hd => isFetch_of_plain (hplain d hd)⟩
    have hsend := obeys_sendAttempt_once attemptedAt answer List.mem_cons_self hreserves hunsent
    rwa [hrequest, hkey] at hsend
  | none =>
    refine obeys_look_bind fun s' => ?_
    refine obeys_orThrow_bind (fun attempt hfound => ?_) fun _ => herror _ _
    rintro x hx
    obtain rfl := Except.ok.inj hx
    exact shows_of_find List.mem_cons_self hfound

def Reports (c : Call) (log : DeliveryLog) (r : Except Failure (Option DeliveryAttempt)) : Prop :=
  ∀ id idempotencyKey b, c.key = some (id, idempotencyKey) → r = .ok (some b) →
    Shows log id idempotencyKey b

theorem report_contract (c : Call) : c.report.Obeys OnceEach (Reports c) [] := by
  have hnil : ∀ d ∈ ([] : DeliveryLog), d.operation.Plain := List.forall_mem_nil _
  have herror : ∀ (l : DeliveryLog) e, Reports c l (.error e) := fun _ _ _ _ _ _ h => nomatch h
  cases c with
  | publishToEndpoint endpointId event organizationIds requestBody answer =>
    refine Obeys.bind (Q := fun _ _ => True) ?_ (fun _ _ _ _ _ _ _ h => nomatch h)
      fun _ _ _ => herror _ _
    refine obeys_plain_bind (plain_look _) (fun log₁ endpoints h₁ => ?_) fun _ _ => trivial
    split
    · refine Obeys.bind (Q := fun _ _ => True) ?_ (fun _ _ _ _ => trivial) fun _ _ _ => trivial
      refine obeys_plain_bind (plain_look _) (fun log₂ now h₂ => ?_) fun _ _ => trivial
      refine obeys_plain_bind plain_generateId (fun log₃ id h₃ => ?_) fun _ _ => trivial
      refine obeys_plain_bind (plain_commit (.createRequest _) trivial _) (fun log₄ _ h₄ => ?_)
        fun _ _ => trivial
      refine obeys_plain_bind (plain_look _) (fun log₅ found h₅ => ?_) fun _ _ => trivial
      refine obeys_require_bind (fun _ => ?_) fun _ => trivial
      have hplain := plain_of_grown (plain_of_grown (plain_of_grown (plain_of_grown
        (plain_of_grown hnil h₁) h₂) h₃) h₄) h₅
      exact (obeys_deliver_once id _ answer hplain).bind (fun _ _ _ _ => trivial)
        fun _ _ _ => trivial
    · exact trivial
  | deliverWebhookRequest id answer =>
    refine (obeys_deliver_once id _ answer hnil).bind ?_ fun _ _ _ => herror _ _
    intro log' x _ hshows id' key' b hkey hb
    obtain ⟨rfl, rfl⟩ := Prod.mk.inj (Option.some.inj hkey)
    obtain rfl := Option.some.inj (Except.ok.inj hb)
    exact hshows x rfl
  | createWebhookDeliveryAttempt id idempotencyKey answer =>
    have hcreate : (Webhooks.createWebhookDeliveryAttempt id idempotencyKey answer).Obeys OnceEach
        (fun l r => ∀ x, r = .ok x → Shows l id idempotencyKey x.attempt) [] := by
      refine obeys_plain_bind (plain_look _) (fun log₁ found h₁ => ?_) fun _ _ _ h => nomatch h
      refine obeys_orThrow_bind (fun current _ => ?_) fun _ _ h => nomatch h
      refine obeys_look_bind fun s => ?_
      cases hexisting : s.findAttemptByIdempotencyKey id idempotencyKey with
      | some attempt =>
        rintro x hx
        obtain rfl := Except.ok.inj hx
        exact shows_of_find List.mem_cons_self hexisting
      | none =>
        refine obeys_require_bind (fun _ => ?_) fun _ _ h => nomatch h
        have hplain : ∀ d ∈ (⟨.read, s⟩ : Event Store Operation) :: log₁, d.operation.Plain :=
          List.forall_mem_cons.mpr ⟨trivial, plain_of_grown hnil h₁⟩
        refine (obeys_deliver_once id idempotencyKey answer hplain).bind ?_
          fun _ _ _ _ h => nomatch h
        rintro log' x _ hshows y hy
        obtain rfl := Except.ok.inj hy
        exact hshows x rfl
    refine hcreate.bind ?_ fun _ _ _ => herror _ _
    intro log' x _ hshows id' key' b hkey hb
    obtain ⟨rfl, rfl⟩ := Prod.mk.inj (Option.some.inj hkey)
    obtain rfl := Option.some.inj (Except.ok.inj hb)
    exact hshows x rfl
  | elapse milliseconds => exact fun _ => ⟨trivial, fun _ _ _ h => nomatch h⟩

end Contract

abbrev ReportPool := Pool Call Store Operation Failure (Option DeliveryAttempt)

section Runs

variable {ok : ReportPool → Move Call → Prop} {pool : ReportPool}
  {t u : Thread Call Store Operation Failure (Option DeliveryAttempt)} {a b : DeliveryAttempt}
  {id : Id} {idempotencyKey : String}

theorem tidy_of_reachable (h : Reachable Call.report Store.Tidy ok pool) : pool.store.Tidy :=
  h.invariant (fun _ hs => hs) tidy_apply _ List.mem_cons_self

/-- The row of a reserved attempt. -/
theorem row_of_reserved (h : Reachable Call.report Store.Tidy ok pool) (ht : t ∈ pool.threads)
    (ha : Reserved t.log a) : ∃ a', pool.store.attempts.find a.id = some a' ∧ a.SameAs a' := by
  obtain ⟨d, hd, hreserves⟩ := ha
  obtain ⟨_, _, attempts, hinsert, hstore⟩ := settle_of_reserves hreserves
  refine (h.evolves (attempt_evolution a.id) t ht).2 d hd a ?_
  rw [hstore]
  exact Keyed.find_insert?_self hinsert

/-- A call reserves one attempt. -/
theorem reserved_alone {log : DeliveryLog} (h : Logged OnceEach log) (ha : Reserved log a)
    (hb : Reserved log b) : a = b := by
  refine reserved_unique_of (fun log s r hplain c hc => ?_) h ha hb
  obtain ⟨d, hd, r', hop, _⟩ := hc
  have hd' : d.operation.Plain := hplain d hd
  rw [hop] at hd'
  exact hd'

/-- A key of a request is reserved by one call. -/
theorem reserved_key_once (h : Reachable Call.report Store.Tidy ok pool) {i j : ℕ}
    (ht : pool.threads[i]? = some t) (hu : pool.threads[j]? = some u) (ha : Reserved t.log a)
    (hb : Reserved u.log b) (hrequest : a.requestId = b.requestId)
    (hkey : a.idempotencyKey = b.idempotencyKey) : i = j := by
  obtain ⟨d, hd, hreserves⟩ := ha
  obtain ⟨e, he, hreserves'⟩ := hb
  refine h.sole (K := fun _ e => ∃ c, Reserves e c ∧ c.requestId = a.requestId ∧
    c.idempotencyKey = a.idempotencyKey) ?_ ht hu ⟨d, hd, a, hreserves, rfl, rfl⟩
      ⟨e, he, b, hreserves', hrequest.symm, hkey.symm⟩
  rintro pool k v op hpool _ _ ⟨c, hc, hcrequest, hckey⟩ w hw x hx
    ⟨c', hc', hcrequest', hckey'⟩
  -- the attempt that was inserted before has a row, which stands in the way of the new one
  obtain ⟨q, hq, hsame⟩ := row_of_reserved hpool hw ⟨x, hx, hc'⟩
  have hmem : q ∈ pool.store.attemptsOf c.requestId := by
    refine mem_attemptsOf.mpr ⟨(Keyed.find_eq_some.mp hq).1, ?_⟩
    rw [← hsame.requestId, hcrequest', hcrequest]
  refine (of_reserves hc).1 q hmem ?_
  rw [← hsame.idempotencyKey, hckey', hckey]

theorem sends_once {log : DeliveryLog} (h : Logged OnceEach log) :
    log.countP (fun d => d.operation.isFetch) ≤ 1 ∧
      ((∃ d ∈ log, d.operation.isFetch = true) → ∃ a, Reserved log a) := by
  induction log with
  | nil => exact ⟨Nat.zero_le _, fun ⟨d, hd, _⟩ => nomatch hd⟩
  | cons e log ih =>
    obtain ⟨hcount, hreserved⟩ := ih h.2
    have hold : (∃ a, Reserved log a) → ∃ a, Reserved (e :: log) a := by
      rintro ⟨a, ha⟩
      exact ⟨a, ha.subset (List.subset_cons_self _ _)⟩
    by_cases hfetch : e.operation.isFetch = true
    · obtain ⟨hsource, hnone⟩ : (∃ a, Reserved log a) ∧ ∀ d ∈ log, d.operation.isFetch = false := by
        have hstep := h.1
        cases hop : e.operation with
        | fetch => rwa [hop] at hstep
        | read | generateId | elapse | createRequest | updateRequest | reserveAttempt
          | updateAttempt =>
          rw [hop] at hfetch
          cases hfetch
      refine ⟨?_, fun _ => hold hsource⟩
      rw [List.countP_cons, List.countP_eq_zero.mpr fun d hd => by simp [hnone d hd], if_pos hfetch]
    · refine ⟨?_, ?_⟩
      · rwa [List.countP_cons, if_neg hfetch]
      rintro ⟨d, hd, hd'⟩
      rcases List.mem_cons.mp hd with rfl | hd
      · exact absurd hd' hfetch
      · exact hold (hreserved ⟨d, hd, hd'⟩)

/-- An attempt that a call's log shows is the row of the key. -/
theorem row_of_shows (h : Reachable Call.report Store.Tidy ok pool) (ht : t ∈ pool.threads)
    (hshows : Shows t.log id idempotencyKey b) : ∃ a ∈ pool.store.attempts.rows,
      a.requestId = id ∧ a.idempotencyKey = idempotencyKey ∧ a.SameAs b := by
  obtain ⟨d, hd, q, hq, hsame, hkey⟩ := hshows
  obtain ⟨a, ha, hqa⟩ := h.evolves_before (attempt_evolution b.id) ht hd q hq
  have hmem := (Keyed.find_eq_some.mp ha).1
  refine ⟨a, hmem, ?_⟩
  rcases hkey with ⟨hrequest, hkey⟩ | ⟨c, hc, hid, hrequest, hkey⟩
  · exact ⟨hqa.requestId.symm.trans hrequest, hqa.idempotencyKey.symm.trans hkey,
      hqa.symm.trans hsame⟩
  · obtain ⟨c', hc', hcc'⟩ := row_of_reserved h ht hc
    rw [hid, ha] at hc'
    obtain rfl := Option.some.inj hc'
    exact ⟨hcc'.requestId.symm.trans hrequest, hcc'.idempotencyKey.symm.trans hkey,
      hqa.symm.trans hsame⟩

end Runs

/-- What is true of the attempts of a run: each key of a request has one attempt, which one call
creates and sends, once, and which every call of the key reports. -/
structure ReservesOnce (pool : ReportPool) : Prop where
  keys : ∀ a ∈ pool.store.attempts.rows, ∀ b ∈ pool.store.attempts.rows,
    a.requestId = b.requestId → a.idempotencyKey = b.idempotencyKey → a = b
  kept : ∀ t ∈ pool.threads, ∀ a, Reserved t.log a → ∃ a' ∈ pool.store.attempts.rows, a.SameAs a'
  created : ∀ (i j : ℕ) t u a b, pool.threads[i]? = some t → pool.threads[j]? = some u →
    Reserved t.log a → Reserved u.log b → a.requestId = b.requestId →
    a.idempotencyKey = b.idempotencyKey → i = j ∧ a = b
  sent : ∀ t ∈ pool.threads, t.log.countP (fun d => d.operation.isFetch) ≤ 1 ∧
    ((∃ d ∈ t.log, d.operation.isFetch = true) → ∃ a, Reserved t.log a)
  reported : ∀ t ∈ pool.threads, ∀ id idempotencyKey b, t.call.key = some (id, idempotencyKey) →
    t.rest = .done (some b) → ∃ a ∈ pool.store.attempts.rows, a.requestId = id ∧
      a.idempotencyKey = idempotencyKey ∧ a.SameAs b
  ordered : ∀ id, (pool.store.attemptsOf id).Pairwise fun a b => a.sequence < b.sequence
  increasing : ∀ t ∈ pool.threads, ∀ d ∈ t.log, ∀ a, Reserves d a →
    ∀ b ∈ d.before.attemptsOf a.requestId, b.sequence < a.sequence

/-- In every run an attempt is reserved, sent and reported once for each key of a request, and the
sequences of the attempts of a request increase in the order of their reservations. -/
theorem reserves_once {pool : ReportPool}
    (h : Reachable Call.report Store.Tidy (Unrestricted _ _ _ _ _) pool) : ReservesOnce pool where
  keys := (tidy_of_reachable h).keys
  kept t ht a ha := by
    obtain ⟨a', hfound, hsame⟩ := row_of_reserved h ht ha
    exact ⟨a', (Keyed.find_eq_some.mp hfound).1, hsame⟩
  created i j t u a b ht hu ha hb hrequest hkey := by
    obtain rfl : i = j := reserved_key_once h ht hu ha hb hrequest hkey
    obtain rfl : t = u := Option.some.inj (ht.symm.trans hu)
    exact ⟨rfl, reserved_alone (h.logged report_contract (List.mem_of_getElem? ht)) ha hb⟩
  sent t ht := sends_once (h.logged report_contract ht)
  reported t ht id idempotencyKey b hcall hdone := by
    have hshows := h.returned report_contract ht hdone id idempotencyKey b hcall rfl
    exact row_of_shows h ht hshows
  ordered := (tidy_of_reachable h).ordered
  increasing _ _ _ _ _ hreserves := (of_reserves hreserves).2

namespace Sample

/-- Two calls with one key overlap: the second one finds no attempt at first, and then the one that
the first call has reserved. -/
def competing : List (Move Call) :=
  .start publish :: List.replicate 17 (.resume 0) ++ [.start retry, .start retry] ++
    [.resume 2, .resume 2] ++ List.replicate 7 (.resume 1) ++ List.replicate 6 (.resume 2) ++
    List.replicate 7 (.resume 1)

def reported (pool : ReportPool) (i : ℕ) : Option DeliveryAttempt :=
  match pool.threads[i]? with
  | some t =>
    match t.rest with
    | .done b => b
    | _ => none
  | none => none

/-- Both calls have reported, and one of them has sent. -/
theorem reserves_once_competing : ∃ pool : ReportPool,
    (reported pool 1).map (·.sequence) = some 2 ∧ (reported pool 2).map (·.sequence) = some 2 ∧
      pool.store.attempts.rows.length = 2 ∧ ReservesOnce pool := by
  have hrun : ((Pool.initial store).run Call.report (fun _ _ => true) competing).any (fun pool =>
      (reported pool 1).map (·.sequence) == some 2 &&
        (reported pool 2).map (·.sequence) == some 2 &&
        pool.store.attempts.rows.length == 2) = true := by
    decide +kernel
  obtain ⟨pool, hpool, hcheck⟩ := (Option.any_eq_true _ _).mp hrun
  simp only [Bool.and_eq_true, beq_iff_eq] at hcheck
  have hreach : Reachable Call.report Store.Tidy (Unrestricted _ _ _ _ _) pool :=
    Reachable.of_run (fun _ _ _ => trivial) (.initial store_fresh.tidy) hpool
  exact ⟨pool, hcheck.1.1, hcheck.1.2, hcheck.2, reserves_once hreach⟩

end Sample

end FlareAuth.Webhooks
