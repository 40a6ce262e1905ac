import FlareAuth.Concurrent.Stamp
import FlareAuth.WebhookDeliveries

/-!
# Attempts and the calls that made them

Every attempt was reserved by one call, which alone writes its outcome: once, and
before it writes the same outcome to the request.
-/

namespace FlareAuth.Webhooks

open Concurrent Relational Procedure

abbrev DeliveryLog := Log Store Operation

def Reserves (d : Event Store Operation) (a : DeliveryAttempt) : Prop :=
  ∃ r, d.operation = .reserveAttempt r ∧
    (Repository.reserveAttempt r).outcome d.before = .ok (some a)

def Reserved (log : DeliveryLog) (a : DeliveryAttempt) : Prop := ∃ d ∈ log, Reserves d a

/-- The call has marked the request as pending under a sequence. -/
def Started (log : DeliveryLog) (id : Id) (n : ℕ) : Prop :=
  ∃ d ∈ log, ∃ p, d.operation = .updateRequest id p ∧ p.attemptCount = some n

/-- The call has written an outcome to an attempt. -/
def Recorded (log : DeliveryLog) (id : Id) (o : Outcome) : Prop :=
  ∃ d ∈ log, ∃ completedAt, d.operation = .updateAttempt id o completedAt

def Ended (log : DeliveryLog) (id : Id) (o : Outcome) : Prop :=
  ∃ d ∈ log, ∃ p, d.operation = .updateRequest id p ∧ p.attemptCount = none ∧ p.outcome = o

/-- The operations of a call besides those of the delivery itself. -/
def Operation.Quiet : Operation → Prop
  | .updateRequest _ _ => False
  | .reserveAttempt _ => False
  | .updateAttempt _ _ _ => False
  | .createRequest r => r.attemptCount = 0 ∧ r.outcome = Outcome.unsent
  | _ => True

section Logs

variable {log log' : DeliveryLog} {d : Event Store Operation} {op : Operation} {s : Store} {id : Id}
  {a : DeliveryAttempt} {n : ℕ} {o : Outcome}

theorem reserved_cons : Reserved (d :: log) a ↔ Reserves d a ∨ Reserved log a := by
  simp [Reserved]

theorem started_cons : Started (⟨op, s⟩ :: log) id n ↔
    (∃ p, op = .updateRequest id p ∧ p.attemptCount = some n) ∨ Started log id n := by
  simp [Started]

theorem recorded_cons : Recorded (⟨op, s⟩ :: log) id o ↔
    (∃ completedAt, op = .updateAttempt id o completedAt) ∨ Recorded log id o := by
  simp [Recorded]

theorem ended_cons : Ended (⟨op, s⟩ :: log) id o ↔
    (∃ p, op = .updateRequest id p ∧ p.attemptCount = none ∧ p.outcome = o) ∨ Ended log id o := by
  simp [Ended]

theorem Reserved.subset (h : Reserved log a) (hsub : log ⊆ log') : Reserved log' a := by
  obtain ⟨d, hd, hreserves⟩ := h
  exact ⟨d, hsub hd, hreserves⟩

theorem Started.subset (h : Started log id n) (hsub : log ⊆ log') : Started log' id n := by
  obtain ⟨d, hd, hstarted⟩ := h
  exact ⟨d, hsub hd, hstarted⟩

theorem Recorded.subset (h : Recorded log id o) (hsub : log ⊆ log') : Recorded log' id o := by
  obtain ⟨d, hd, hrecorded⟩ := h
  exact ⟨d, hsub hd, hrecorded⟩

theorem not_reserved_of_quiet (h : ∀ d ∈ log, d.operation.Quiet) : ¬Reserved log a := by
  rintro ⟨d, hd, r, hop, _⟩
  have hquiet := h d hd
  rw [hop] at hquiet
  exact hquiet

/-- A log without what a delivery writes after its reservation. -/
structure Unsent (log : DeliveryLog) : Prop where
  unstarted : ∀ id n, ¬Started log id n
  unrecorded : ∀ id o, ¬Recorded log id o
  unended : ∀ id o, ¬Ended log id o

theorem unsent_of_quiet (h : ∀ d ∈ log, d.operation.Quiet) : Unsent log := by
  refine ⟨?_, ?_, ?_⟩
  · rintro id n ⟨d, hd, p, hop, _⟩
    have hquiet := h d hd
    rw [hop] at hquiet
    exact hquiet
  · rintro id o ⟨d, hd, completedAt, hop⟩
    have hquiet := h d hd
    rw [hop] at hquiet
    exact hquiet
  · rintro id o ⟨d, hd, p, hop, _⟩
    have hquiet := h d hd
    rw [hop] at hquiet
    exact hquiet

/-- What a call has done when the endpoint is asked. -/
structure Sending (a : DeliveryAttempt) (log : DeliveryLog) : Prop where
  reserved : Reserved log a
  started : Started log a.requestId a.sequence
  unrecorded : ∀ id o, ¬Recorded log id o
  unended : ∀ id o, ¬Ended log id o

/-- What a call has done when the request gets the outcome that the attempt has. -/
structure Recording (a : DeliveryAttempt) (o : Outcome) (log : DeliveryLog) : Prop where
  reserved : Reserved log a
  started : Started log a.requestId a.sequence
  recorded : Recorded log a.id o
  unended : ∀ id o, ¬Ended log id o

theorem not_recorded_grown (h : ∀ id o, ¬Recorded log id o)
    (hgrown : log.Grown Operation.Quiet log') :
    ∀ id o, ¬Recorded log' id o := by
  obtain ⟨new, rfl, hnew⟩ := hgrown
  rintro id o ⟨d, hd, hop⟩
  rcases List.mem_append.mp hd with hd | hd
  · exact (unsent_of_quiet hnew).unrecorded id o ⟨d, hd, hop⟩
  · exact h id o ⟨d, hd, hop⟩

theorem not_ended_grown (h : ∀ id o, ¬Ended log id o) (hgrown : log.Grown Operation.Quiet log') :
    ∀ id o, ¬Ended log' id o := by
  obtain ⟨new, rfl, hnew⟩ := hgrown
  rintro id o ⟨d, hd, hop⟩
  rcases List.mem_append.mp hd with hd | hd
  · exact (unsent_of_quiet hnew).unended id o ⟨d, hd, hop⟩
  · exact h id o ⟨d, hd, hop⟩

theorem Sending.grown (h : Sending a log) (hgrown : log.Grown Operation.Quiet log') :
    Sending a log' :=
  ⟨h.reserved.subset hgrown.subset, h.started.subset hgrown.subset,
    not_recorded_grown h.unrecorded hgrown, not_ended_grown h.unended hgrown⟩

theorem Recording.grown (h : Recording a o log) (hgrown : log.Grown Operation.Quiet log') :
    Recording a o log' :=
  ⟨h.reserved.subset hgrown.subset, h.started.subset hgrown.subset,
    h.recorded.subset hgrown.subset, not_ended_grown h.unended hgrown⟩

end Logs

/-- What a call has done before each of its operations. -/
def Grounded (log : DeliveryLog) (_ : Store) : Operation → Prop
  | .updateRequest id p => ∃ a, a.requestId = id ∧
      ((Reserved log a ∧ Unsent log ∧ p.attemptCount = some a.sequence ∧
          p.outcome = Outcome.unsent) ∨
        (Recording a p.outcome log ∧ p.attemptCount = none))
  | .updateAttempt id _ _ => ∃ a, a.id = id ∧ Sending a log
  | .reserveAttempt _ => ∀ d ∈ log, d.operation.Quiet
  | op => op.Quiet

section Contract

variable {α β : Type} {log : DeliveryLog}

@[simp] theorem quiet_look (answer : Store → α) : (look answer).Only Operation.Quiet :=
  only_query.mpr trivial

@[simp] theorem quiet_generateId : generateId.Only Operation.Quiet := only_query.mpr trivial

theorem grounded_of_quiet {op : Operation} (h : op.Quiet) (log : DeliveryLog) (s : Store) :
    Grounded log s op := by
  cases op <;> first | exact h | exact h.elim

/-- A part of a call that does nothing of the delivery itself. -/
theorem obeys_quiet_bind {p : Deliveries α} {f : α → Deliveries β}
    (hp : p.Only Operation.Quiet)
    (hf : ∀ log' a, log.Grown Operation.Quiet log' →
      (f a).Obeys Grounded (fun _ _ => True) log') :
    (p >>= f).Obeys Grounded (fun _ _ => True) log :=
  hp.obeys_bind (fun log s _ hop => grounded_of_quiet hop log s)
    (fun log' a hgrown _ => hf log' a hgrown)
    fun _ _ _ => trivial

theorem obeys_commit_bind {op : Operation} {batch : StoreBatch α} {f : α → Deliveries β}
    (hop : ∀ s, Grounded log s op)
    (hf : ∀ s a, batch.outcome s = .ok a →
      (f a).Obeys Grounded (fun _ _ => True) (⟨op, s⟩ :: log)) :
    (commit op batch >>= f).Obeys Grounded (fun _ _ => True) log := by
  intro s
  refine ⟨hop s, ?_⟩
  change (Procedure.ofExcept (batch.outcome s) >>= f).Obeys Grounded _ _
  cases houtcome : batch.outcome s with
  | ok a => exact hf s a houtcome
  | error e => exact trivial

theorem quiet_grown {log' : DeliveryLog} (h : ∀ d ∈ log, d.operation.Quiet)
    (hgrown : log.Grown Operation.Quiet log') : ∀ d ∈ log', d.operation.Quiet := by
  obtain ⟨new, rfl, hnew⟩ := hgrown
  intro d hd
  rcases List.mem_append.mp hd with hd | hd
  · exact hnew d hd
  · exact h d hd

/-- A write to the request, and what its call goes on with. -/
theorem obeys_updateDelivery_bind {id : Id} {p : RequestPatch} {f : WebhookRequest → Deliveries β}
    (hop : ∀ s, Grounded log s (.updateRequest id p))
    (hf : ∀ s log' r, Log.Grown Operation.Quiet (⟨.updateRequest id p, s⟩ :: log) log' →
      (f r).Obeys Grounded (fun _ _ => True) log') :
    (updateDelivery id p >>= f).Obeys Grounded (fun _ _ => True) log := by
  rw [updateDelivery, bind_bind]
  refine obeys_commit_bind hop fun s updated _ => ?_
  have hrest : ∀ row : WebhookRequest, (do
      let endpoint ← look (·.findEndpoint row.endpointId)
      require (endpoint.isSome = true) (notFound "Webhook request not found.")
      return row : Deliveries WebhookRequest).Only Operation.Quiet := by
    intro row
    simp
  rw [bind_bind]
  refine obeys_orThrow_bind (fun row _ => ?_) fun _ => trivial
  exact obeys_quiet_bind (hrest row) fun log' r hgrown => hf s log' r hgrown

theorem obeys_sendAttempt {a : DeliveryAttempt} (attemptedAt : ℕ) (answer : Answer)
    (hreserved : Reserved log a) (hunsent : Unsent log) :
    (sendAttempt a attemptedAt answer).Obeys Grounded (fun _ _ => True) log := by
  refine obeys_updateDelivery_bind (fun s => ⟨a, rfl, .inl ⟨hreserved, hunsent, rfl, rfl⟩⟩)
    fun s log₁ _ h₁ => ?_
  have hsending : Sending a log₁ := by
    refine Sending.grown ⟨?_, ?_, ?_, ?_⟩ h₁
    · exact reserved_cons.mpr (.inr hreserved)
    · exact started_cons.mpr (.inl ⟨_, rfl, rfl⟩)
    · intro id o hrecorded
      rcases recorded_cons.mp hrecorded with ⟨_, hop⟩ | hrecorded
      · cases hop
      · exact hunsent.unrecorded id o hrecorded
    · intro id o hended
      rcases ended_cons.mp hended with ⟨p, hop, hcount, _⟩ | hended
      · cases hop
        cases hcount
      · exact hunsent.unended id o hended
  refine obeys_quiet_bind (only_query.mpr trivial) fun log₂ _ h₂ => ?_
  refine obeys_quiet_bind (quiet_look _) fun log₃ completedAt h₃ => ?_
  have hsent := (hsending.grown h₂).grown h₃
  rw [updateDeliveryAttempt, bind_bind]
  refine obeys_commit_bind (fun _ => ⟨a, rfl, hsent⟩) fun s₄ updated _ => ?_
  refine obeys_orThrow_bind (fun attempt _ => ?_) fun _ => trivial
  have hrecording : Recording a answer.outcome
      (⟨.updateAttempt a.id answer.outcome completedAt, s₄⟩ :: log₃) := by
    refine ⟨?_, ?_, ?_, ?_⟩
    · exact reserved_cons.mpr (.inr hsent.reserved)
    · exact started_cons.mpr (.inr hsent.started)
    · exact recorded_cons.mpr (.inl ⟨_, rfl⟩)
    · intro id o hended
      rcases ended_cons.mp hended with ⟨_, hop, _⟩ | hended
      · cases hop
      · exact hsent.unended id o hended
  exact obeys_updateDelivery_bind (fun s => ⟨a, rfl, .inr ⟨hrecording, rfl⟩⟩)
    fun _ _ _ _ => trivial

theorem obeys_deliver (id : Id) (idempotencyKey : String) (answer : Answer)
    (hlog : ∀ d ∈ log, d.operation.Quiet) :
    (deliverWebhookRequestWithAttempt id idempotencyKey answer).Obeys Grounded
      (fun _ _ => True) log := by
  refine obeys_quiet_bind (quiet_look _) fun log₁ found h₁ => ?_
  refine obeys_orThrow_bind (fun current _ => ?_) fun _ => trivial
  refine obeys_quiet_bind (quiet_look _) fun log₂ endpoint h₂ => ?_
  refine obeys_require_bind (fun _ => ?_) fun _ => trivial
  refine obeys_require_bind (fun _ => ?_) fun _ => trivial
  refine obeys_quiet_bind (quiet_look _) fun log₃ attemptedAt h₃ => ?_
  refine obeys_quiet_bind quiet_generateId fun log₄ attemptId h₄ => ?_
  have hquiet := quiet_grown (quiet_grown (quiet_grown (quiet_grown hlog h₁) h₂) h₃) h₄
  refine obeys_commit_bind (fun _ => hquiet) fun s reserved houtcome => ?_
  cases reserved with
  | some attempt =>
    refine obeys_sendAttempt attemptedAt answer ?_ ?_
    · exact reserved_cons.mpr (.inl ⟨_, rfl, houtcome⟩)
    · have hunsent := unsent_of_quiet hquiet
      refine ⟨?_, ?_, ?_⟩
      · intro id n hstarted
        rcases started_cons.mp hstarted with ⟨_, hop, _⟩ | hstarted
        · cases hop
        · exact hunsent.unstarted id n hstarted
      · intro id o hrecorded
        rcases recorded_cons.mp hrecorded with ⟨_, hop⟩ | hrecorded
        · cases hop
        · exact hunsent.unrecorded id o hrecorded
      · intro id o hended
        rcases ended_cons.mp hended with ⟨_, hop, _⟩ | hended
        · cases hop
        · exact hunsent.unended id o hended
  | none =>
    refine obeys_quiet_bind (quiet_look _) fun _ existing _ => ?_
    exact obeys_orThrow_bind (fun _ _ => trivial) fun _ => trivial

theorem program_contract (call : Call) :
    call.program.Obeys Grounded (fun _ _ => True) [] := by
  have hnil : ∀ d ∈ ([] : DeliveryLog), d.operation.Quiet := List.forall_mem_nil _
  cases call with
  | publishToEndpoint endpointId event organizationIds requestBody answer =>
    refine obeys_quiet_bind (quiet_look _) fun log₁ endpoints h₁ => ?_
    split
    · refine Obeys.bind (Q := fun _ _ => True) ?_ (fun _ _ _ _ => trivial) fun _ _ _ => trivial
      refine obeys_quiet_bind (quiet_look _) fun log₂ now h₂ => ?_
      refine obeys_quiet_bind quiet_generateId fun log₃ id h₃ => ?_
      have hquiet := quiet_grown (quiet_grown (quiet_grown hnil h₁) h₂) h₃
      refine obeys_commit_bind (fun _ => ⟨rfl, rfl⟩) fun s _ _ => ?_
      refine obeys_quiet_bind (quiet_look _) fun log₄ found h₄ => ?_
      refine obeys_require_bind (fun _ => ?_) fun _ => trivial
      refine Obeys.bind (Q := fun _ _ => True) (obeys_deliver id _ answer ?_)
        (fun _ _ _ _ => trivial) fun _ _ _ => trivial
      refine quiet_grown (List.forall_mem_cons.mpr ⟨?_, hquiet⟩) h₄
      exact ⟨rfl, rfl⟩
    · exact trivial
  | deliverWebhookRequest id answer =>
    exact Obeys.bind (Q := fun _ _ => True) (obeys_deliver id _ answer hnil)
      (fun _ _ _ _ => trivial) fun _ _ _ => trivial
  | createWebhookDeliveryAttempt id idempotencyKey answer =>
    refine Obeys.bind (Q := fun _ _ => True) ?_ (fun _ _ _ _ => trivial) fun _ _ _ => trivial
    refine obeys_quiet_bind (quiet_look _) fun log₁ found h₁ => ?_
    refine obeys_orThrow_bind (fun current _ => ?_) fun _ => trivial
    refine obeys_quiet_bind (quiet_look _) fun log₂ existing h₂ => ?_
    cases existing with
    | some attempt => exact trivial
    | none =>
      refine obeys_require_bind (fun _ => ?_) fun _ => trivial
      have hquiet := quiet_grown (quiet_grown hnil h₁) h₂
      exact Obeys.bind (Q := fun _ _ => True) (obeys_deliver id idempotencyKey answer hquiet)
        (fun _ _ _ _ => trivial) fun _ _ _ => trivial
  | elapse milliseconds => exact fun _ => ⟨trivial, trivial⟩

end Contract

section Rows

variable {s t : Store} {r : Reservation} {a : DeliveryAttempt} {id : Id} {op : Operation}

theorem reserveAttempt_eq_ok (h : Repository.reserveAttempt r s = .ok (some a, t)) :
    (s.requests.find r.requestId).isSome = true ∧ a = Repository.reservedAttempt s r ∧
      (∀ b ∈ s.attemptsOf r.requestId, b.sequence ≠ a.sequence) ∧
      ∃ attempts, s.attempts.insert? a = some attempts ∧ t = { s with attempts := attempts } := by
  unfold Repository.reserveAttempt at h
  split at h
  · cases h
  · split at h
    · cases h
    · rename_i hrow
      rw [Bool.or_eq_true, not_or] at hrow
      split at h
      · rename_i attempts hattempts
        cases h
        refine ⟨?_, rfl, fun b hb hsame => hrow.2 ?_, attempts, hattempts, rfl⟩
        · simpa [Option.isSome_iff_ne_none] using hrow.1
        · rw [List.any_eq_true]
          exact ⟨b, hb, beq_iff_eq.mpr hsame⟩
      · cases h

/-- What a reservation does to the store: an insert, or nothing. -/
theorem settle_reserveAttempt (r : Reservation) (s : Store) :
    (Repository.reserveAttempt r).settle s = s ∨
      ∃ a, (Repository.reserveAttempt r).outcome s = .ok (some a) := by
  rcases hbatch : Repository.reserveAttempt r s with e | ⟨reserved, t⟩
  · exact .inl (Batch.settle_of_error hbatch)
  · cases reserved with
    | some a =>
      refine .inr ⟨a, ?_⟩
      rw [Batch.outcome, hbatch]
    | none =>
      left
      rw [Batch.settle_of_ok hbatch]
      unfold Repository.reserveAttempt at hbatch
      split at hbatch
      · cases hbatch
        rfl
      · split at hbatch
        · cases hbatch
        · split at hbatch <;> cases hbatch

theorem settle_of_reserves {d : Event Store Operation} (h : Reserves d a) :
    (d.before.requests.find a.requestId).isSome = true ∧
      (∀ b ∈ d.before.attemptsOf a.requestId, b.sequence ≠ a.sequence) ∧
      ∃ attempts, d.before.attempts.insert? a = some attempts ∧
        apply d.operation d.before = { d.before with attempts := attempts } := by
  obtain ⟨r, hop, houtcome⟩ := h
  obtain ⟨hrequest, ha, hsequence, attempts, hinsert, hstore⟩ :=
    reserveAttempt_eq_ok (Batch.outcome_eq_ok houtcome)
  have hsame : a.requestId = r.requestId := by
    rw [ha]
    rfl
  rw [hsame]
  refine ⟨hrequest, hsequence, attempts, hinsert, ?_⟩
  rw [hop]
  exact hstore

theorem createRequest_settle (r : WebhookRequest) (s : Store) :
    (Repository.createRequest r).settle s = s ∨ ∃ requests, s.requests.insert? r = some requests ∧
      (Repository.createRequest r).settle s = { s with requests := requests } := by
  rcases hbatch : Repository.createRequest r s with e | ⟨u, t⟩
  · exact .inl (Batch.settle_of_error hbatch)
  · right
    rw [Batch.settle_of_ok hbatch]
    unfold Repository.createRequest at hbatch
    split at hbatch
    · cases hbatch
    · split at hbatch
      · rename_i requests hrequests
        cases hbatch
        exact ⟨requests, hrequests, rfl⟩
      · cases hbatch

/-- What an operation does to the attempt with an id. -/
theorem find_attempt_apply (op : Operation) (s : Store) {a : DeliveryAttempt}
    (h : s.attempts.find id = some a) : (apply op s).attempts.find id =
      some (match op with
        | .updateAttempt k o completedAt => if a.id == k then a.complete o completedAt else a
        | _ => a) := by
  cases op with
  | read | fetch | generateId | elapse => exact h
  | updateRequest k p => exact h
  | createRequest r =>
    change ((Repository.createRequest r).settle s).attempts.find id = some a
    rcases createRequest_settle r s with hsame | ⟨requests, _, hstore⟩
    · rwa [hsame]
    · rwa [hstore]
  | reserveAttempt r =>
    change ((Repository.reserveAttempt r).settle s).attempts.find id = some a
    rcases settle_reserveAttempt r s with hsame | ⟨b, houtcome⟩
    · rwa [hsame]
    · obtain ⟨_, _, attempts, hinsert, hstore⟩ :=
        settle_of_reserves (d := ⟨.reserveAttempt r, s⟩) ⟨r, rfl, houtcome⟩
      change (Repository.reserveAttempt r).settle s = _ at hstore
      rw [hstore]
      exact Keyed.find_insert?_of_some hinsert h
  | updateAttempt k o completedAt =>
    change (s.attempts.update _ _ (DeliveryAttempt.complete_id o completedAt)).find id = _
    rw [Keyed.find_update, h]
    rfl

/-- Requests stay. -/
theorem request_persists (op : Operation) (s : Store)
    (h : (s.requests.find id).isSome = true) : ((apply op s).requests.find id).isSome = true := by
  cases op with
  | read | fetch | generateId | elapse | updateAttempt => exact h
  | createRequest r =>
    change (((Repository.createRequest r).settle s).requests.find id).isSome = true
    rcases createRequest_settle r s with hsame | ⟨requests, hinsert, hstore⟩
    · rwa [hsame]
    · obtain ⟨q, hq⟩ := Option.isSome_iff_exists.mp h
      rw [hstore, Keyed.find_insert?_of_some hinsert hq]
      rfl
  | updateRequest k p =>
    change ((s.requests.update _ _ (WebhookRequest.patch_id p)).find id).isSome = true
    rw [Keyed.find_update, Option.isSome_map]
    exact h
  | reserveAttempt r =>
    change (((Repository.reserveAttempt r).settle s).requests.find id).isSome = true
    rcases settle_reserveAttempt r s with hsame | ⟨b, houtcome⟩
    · rwa [hsame]
    · obtain ⟨_, _, attempts, _, hstore⟩ :=
        settle_of_reserves (d := ⟨.reserveAttempt r, s⟩) ⟨r, rfl, houtcome⟩
      change (Repository.reserveAttempt r).settle s = _ at hstore
      rwa [hstore]

theorem request_evolution (id : Id) : Evolution Operation fun s t : Store =>
    (s.requests.find id).isSome = true → (t.requests.find id).isSome = true where
  refl _ h := h
  trans _ _ _ h h' hs := h' (h hs)
  step op s := request_persists op s

end Rows

/-- The attempts of one request have different sequences. -/
def Store.SequencesUnique (s : Store) : Prop :=
  ∀ a ∈ s.attempts.rows, ∀ b ∈ s.attempts.rows, a.requestId = b.requestId →
    a.sequence = b.sequence → a = b

theorem mem_attemptsOf {s : Store} {id : Id} {a : DeliveryAttempt} :
    a ∈ s.attemptsOf id ↔ a ∈ s.attempts.rows ∧ a.requestId = id := by
  simp [Store.attemptsOf]

theorem sequence_le_largest {s : Store} {id : Id} {a : DeliveryAttempt} (ha : a ∈ s.attemptsOf id) :
    a.sequence ≤ s.largestSequence id :=
  foldr_max_le.mp le_rfl a.sequence (List.mem_map_of_mem ha)

theorem sequencesUnique_apply (op : Operation) (s : Store) (h : s.SequencesUnique) :
    (apply op s).SequencesUnique := by
  cases op with
  | read | fetch | generateId | elapse | updateRequest => exact h
  | createRequest r =>
    change ((Repository.createRequest r).settle s).SequencesUnique
    rcases createRequest_settle r s with hsame | ⟨requests, _, hstore⟩
    · rwa [hsame]
    · rw [hstore]
      exact h
  | updateAttempt k o completedAt =>
    rintro a ha b hb hrequest hsequence
    obtain ⟨a', ha', rfl⟩ := mem_updateWhere.mp ha
    obtain ⟨b', hb', rfl⟩ := mem_updateWhere.mp hb
    have hsame : a' = b' := by
      refine h a' ha' b' hb' ?_ ?_
      · split at hrequest <;> split at hrequest <;> exact hrequest
      · split at hsequence <;> split at hsequence <;> exact hsequence
    rw [hsame]
  | reserveAttempt r =>
    change ((Repository.reserveAttempt r).settle s).SequencesUnique
    rcases settle_reserveAttempt r s with hsame | ⟨c, houtcome⟩
    · rwa [hsame]
    · obtain ⟨_, hfree, attempts, hinsert, hstore⟩ :=
        settle_of_reserves (d := ⟨.reserveAttempt r, s⟩) ⟨r, rfl, houtcome⟩
      change (Repository.reserveAttempt r).settle s = _ at hstore
      rw [hstore]
      intro a ha b hb hrequest hsequence
      dsimp only at ha hb
      rw [(Keyed.insert?_eq_some hinsert).1] at ha hb
      rcases List.mem_append.mp ha with ha | ha <;> rcases List.mem_append.mp hb with hb | hb
      · exact h a ha b hb hrequest hsequence
      · rw [List.mem_singleton.mp hb] at hrequest hsequence
        exact absurd hsequence (hfree a (mem_attemptsOf.mpr ⟨ha, hrequest⟩))
      · rw [List.mem_singleton.mp ha] at hrequest hsequence
        exact absurd hsequence.symm (hfree b (mem_attemptsOf.mpr ⟨hb, hrequest.symm⟩))
      · rw [List.mem_singleton.mp ha, List.mem_singleton.mp hb]

section Runs

variable {ok : WebhookPool → Move Call → Prop} {pool : WebhookPool}
  {t u : Thread Call Store Operation Failure Unit} {a b : DeliveryAttempt} {id : Id} {o : Outcome}
  {n : ℕ}

/-- A call that has reserved nothing when it reserves has reserved one attempt at most. -/
theorem reserved_unique_of {G : DeliveryLog → Store → Operation → Prop}
    (hG : ∀ log s r, G log s (.reserveAttempt r) → ∀ c, ¬Reserved log c) {log : DeliveryLog}
    (h : Logged G log) (ha : Reserved log a) (hb : Reserved log b) : a = b := by
  induction log with
  | nil =>
    obtain ⟨d, hd, _⟩ := ha
    cases hd
  | cons d log ih =>
    have hearlier : ∀ {c}, Reserves d c → ∀ {e}, ¬Reserved log e := by
      rintro c ⟨r, hop, _⟩ e
      have hstep := h.1
      rw [hop] at hstep
      exact hG _ _ r hstep e
    rcases reserved_cons.mp ha with ha | ha <;> rcases reserved_cons.mp hb with hb | hb
    · obtain ⟨r, hop, houtcome⟩ := ha
      obtain ⟨r', hop', houtcome'⟩ := hb
      obtain rfl : r = r' := Operation.reserveAttempt.inj (hop.symm.trans hop')
      rw [houtcome] at houtcome'
      simpa using houtcome'
    · exact absurd hb (hearlier ha)
    · exact absurd ha (hearlier hb)
    · exact ih h.2 ha hb

/-- A call reserves one attempt at most. -/
theorem reserved_unique {log : DeliveryLog} (h : Logged Grounded log) (ha : Reserved log a)
    (hb : Reserved log b) : a = b :=
  reserved_unique_of (fun _ _ _ hquiet _ => not_reserved_of_quiet hquiet) h ha hb

/-- What a call that has marked a request had reserved. -/
theorem reserved_of_started (h : Reachable Call.program Store.Fresh ok pool)
    (ht : t ∈ pool.threads) (hstarted : Started t.log id n) :
    ∃ a, Reserved t.log a ∧ a.requestId = id ∧ a.sequence = n := by
  obtain ⟨d, hd, p, hop, hcount⟩ := hstarted
  obtain ⟨earlier, later, hlog, hgrounded⟩ := (h.logged program_contract ht).of_mem hd
  have hsub : earlier ⊆ t.log := by
    rw [hlog]
    intro e he
    exact List.mem_append_right _ (List.mem_cons_of_mem _ he)
  rw [hop] at hgrounded
  obtain ⟨a, ha, ⟨hreserved, _, hsequence, _⟩ | ⟨_, hnone⟩⟩ := hgrounded
  · rw [hcount, Option.some.injEq] at hsequence
    exact ⟨a, hreserved.subset hsub, ha, hsequence.symm⟩
  · rw [hcount] at hnone
    cases hnone

/-- What a call that has written its outcome to a request had done before. -/
theorem recording_of_ended (h : Reachable Call.program Store.Fresh ok pool)
    (ht : t ∈ pool.threads) (hended : Ended t.log id o) :
    ∃ a, Reserved t.log a ∧ a.requestId = id ∧ Started t.log id a.sequence ∧
      Recorded t.log a.id o := by
  obtain ⟨d, hd, p, hop, hnone, houtcome⟩ := hended
  obtain ⟨earlier, later, hlog, hgrounded⟩ := (h.logged program_contract ht).of_mem hd
  have hsub : earlier ⊆ t.log := by
    rw [hlog]
    intro e he
    exact List.mem_append_right _ (List.mem_cons_of_mem _ he)
  rw [hop] at hgrounded
  obtain ⟨a, rfl, ⟨_, _, hsome, _⟩ | ⟨hrecording, _⟩⟩ := hgrounded
  · rw [hnone] at hsome
    cases hsome
  · rw [houtcome] at hrecording
    exact ⟨a, hrecording.reserved.subset hsub, rfl, hrecording.started.subset hsub,
      hrecording.recorded.subset hsub⟩

/-- The request of a reserved attempt is there. -/
theorem request_of_reserved (h : Reachable Call.program Store.Fresh ok pool)
    (ht : t ∈ pool.threads) (hreserved : Reserved t.log a) :
    (pool.store.requests.find a.requestId).isSome = true := by
  obtain ⟨d, hd, hreserves⟩ := hreserved
  exact h.evolves_before (request_evolution a.requestId) ht hd (settle_of_reserves hreserves).1

/-- Sequences start with 1. -/
theorem sequence_pos {log : DeliveryLog} (hreserved : Reserved log a) : 0 < a.sequence := by
  obtain ⟨d, _, r, _, houtcome⟩ := hreserved
  obtain ⟨_, ha, _⟩ := reserveAttempt_eq_ok (Batch.outcome_eq_ok houtcome)
  rw [ha]
  exact Nat.succ_pos _

/-- An id is reserved by one call. -/
theorem reserved_once (h : Reachable Call.program Store.Fresh ok pool) {i j : ℕ}
    (ht : pool.threads[i]? = some t) (hu : pool.threads[j]? = some u) (ha : Reserved t.log a)
    (hb : Reserved u.log b) (hid : a.id = b.id) : i = j := by
  obtain ⟨d, hd, hreserves⟩ := ha
  obtain ⟨e, he, hreserves'⟩ := hb
  refine (h.at_most_one (K := fun e => ∃ c, Reserves e c ∧ c.id = a.id)
    (D := fun s => (s.attempts.find a.id).isSome = true) ?_ ?_).2 i j t u ht hu
      ⟨d, hd, a, hreserves, rfl⟩ ⟨e, he, b, hreserves', hid.symm⟩
  · rintro pool i t op _ _ _ ⟨c, hc, hcid⟩
    obtain ⟨_, _, attempts, hinsert, hstore⟩ := settle_of_reserves hc
    rw [← hcid]
    constructor
    · intro hfound
      obtain ⟨q, hq⟩ := Option.isSome_iff_exists.mp hfound
      obtain ⟨hmem, hkey⟩ := Keyed.find_eq_some.mp hq
      exact (Keyed.insert?_eq_some hinsert).2 q hmem hkey
    · rw [hstore, Keyed.find_insert?_self hinsert]
      rfl
  · intro pool i t op _ _ _ hfound
    obtain ⟨q, hq⟩ := Option.isSome_iff_exists.mp hfound
    rw [find_attempt_apply op pool.store hq]
    rfl

/-- The row of an attempt that was reserved, with the outcome that its call has recorded. -/
def Kept (log : DeliveryLog) (s : Store) : Prop :=
  ∀ a, Reserved log a → ∃ a', s.attempts.find a.id = some a' ∧ a'.requestId = a.requestId ∧
    a'.sequence = a.sequence ∧ ∀ o, Recorded log a.id o → a'.outcome = o

theorem kept_of_reachable (h : Reachable Call.program Store.Fresh ok pool) :
    ∀ t ∈ pool.threads, Kept t.log pool.store := by
  refine h.tracks (T := fun _ log s => Kept log s) ?_ ?_
  · rintro _ _ a ⟨d, hd, _⟩
    cases hd
  · intro pool i t op hpool _ hpending ht
    obtain ⟨_, hgrounded⟩ := hpool.pending_obeys program_contract hpending
    constructor
    · intro u hu hkept a hreserved
      obtain ⟨a', hfound, hrequest, hsequence, hrecorded⟩ := hkept a hreserved
      refine ⟨_, find_attempt_apply op pool.store hfound, ?_⟩
      cases op with
      | updateAttempt k o completedAt =>
        by_cases hk : a'.id = k
        · -- the attempt of the call that is about to record it, which has recorded nothing yet
          obtain ⟨b, hb, hsending⟩ := hgrounded
          have hid : b.id = a.id := by
            rw [hb, ← hk]
            exact (Keyed.find_eq_some.mp hfound).2
          obtain ⟨j, hj⟩ := List.mem_iff_getElem?.mp hu
          have hi := Pool.thread_of_pending hpending
          obtain rfl := reserved_once hpool hi hj hsending.reserved hreserved hid
          obtain rfl : t = u := Option.some.inj (hi.symm.trans hj)
          simp only [hk, beq_self_eq_true, if_true]
          exact ⟨hrequest, hsequence, fun o ho => absurd ho (hsending.unrecorded a.id o)⟩
        · simp only [beq_iff_eq, if_neg hk]
          exact ⟨hrequest, hsequence, hrecorded⟩
      | read | fetch | generateId | elapse | createRequest | updateRequest | reserveAttempt =>
        exact ⟨hrequest, hsequence, hrecorded⟩
    · intro hkept a hreserved
      rcases reserved_cons.mp hreserved with hreserves | hearlier
      · obtain ⟨_, _, attempts, hinsert, hstore⟩ := settle_of_reserves hreserves
        obtain ⟨r, hop, _⟩ := hreserves
        dsimp only at hop hstore hinsert
        rw [hop] at hgrounded
        refine ⟨a, ?_, rfl, rfl, fun o hrecorded => ?_⟩
        · rw [hstore]
          exact Keyed.find_insert?_self hinsert
        · rcases recorded_cons.mp hrecorded with ⟨_, hop'⟩ | hrecorded
          · rw [hop] at hop'
            cases hop'
          · exact absurd hrecorded ((unsent_of_quiet hgrounded).unrecorded a.id o)
      · obtain ⟨a', hfound, hrequest, hsequence, hrecorded⟩ := hkept a hearlier
        refine ⟨_, find_attempt_apply op pool.store hfound, ?_⟩
        cases op with
        | updateAttempt k o completedAt =>
          obtain ⟨b, hb, hsending⟩ := hgrounded
          obtain rfl : b = a :=
            reserved_unique (hpool.logged program_contract ht) hsending.reserved hearlier
          have hid : a'.id = k := (Keyed.find_eq_some.mp hfound).2.trans hb
          simp only [hid, beq_self_eq_true, if_true]
          refine ⟨hrequest, hsequence, fun o' ho' => ?_⟩
          rcases recorded_cons.mp ho' with ⟨_, hop⟩ | ho'
          · cases hop
            rfl
          · exact absurd ho' (hsending.unrecorded b.id o')
        | read | fetch | generateId | elapse | createRequest | updateRequest | reserveAttempt =>
          refine ⟨hrequest, hsequence, fun o ho => ?_⟩
          rcases recorded_cons.mp ho with ⟨_, hop⟩ | ho
          · cases hop
          · exact hrecorded o ho

/-- Every attempt was reserved by a call. -/
theorem reserved_of_attempt (h : Reachable Call.program Store.Fresh ok pool)
    (ha : a ∈ pool.store.attempts.rows) :
    ∃ t ∈ pool.threads, ∃ b, Reserved t.log b ∧ b.id = a.id := by
  have hfound : pool.store.attempts.find a.id = some a := Keyed.find_eq_some.mpr ⟨ha, rfl⟩
  obtain ⟨t, ht, d, hd, hbefore, hafter⟩ :=
    h.cause (P := fun s => (s.attempts.find a.id).isSome = true) (fun s hs hsome => by
      obtain ⟨q, hq⟩ := Option.isSome_iff_exists.mp hsome
      have hmem := (Keyed.find_eq_some.mp hq).1
      rw [hs.attempts] at hmem
      cases hmem) (by rw [hfound]; rfl)
  obtain ⟨op, s⟩ := d
  dsimp only at hbefore hafter
  have hnone : s.attempts.find a.id = none := by simpa using hbefore
  refine ⟨t, ht, ?_⟩
  cases op with
  | read | fetch | generateId | elapse | updateRequest => exact absurd hafter hbefore
  | createRequest r =>
    change (((Repository.createRequest r).settle s).attempts.find a.id).isSome = true at hafter
    rcases createRequest_settle r s with hsame | ⟨requests, _, hstore⟩
    · rw [hsame] at hafter
      exact absurd hafter hbefore
    · rw [hstore] at hafter
      exact absurd hafter hbefore
  | updateAttempt k o completedAt =>
    change ((s.attempts.update _ _ (DeliveryAttempt.complete_id o completedAt)).find a.id).isSome =
      true at hafter
    rw [Keyed.find_update, hnone] at hafter
    cases hafter
  | reserveAttempt r =>
    change (((Repository.reserveAttempt r).settle s).attempts.find a.id).isSome = true at hafter
    rcases settle_reserveAttempt r s with hsame | ⟨b, houtcome⟩
    · rw [hsame] at hafter
      exact absurd hafter hbefore
    · have hreserves : Reserves ⟨.reserveAttempt r, s⟩ b := ⟨r, rfl, houtcome⟩
      obtain ⟨_, _, attempts, hinsert, hstore⟩ := settle_of_reserves hreserves
      change (Repository.reserveAttempt r).settle s = _ at hstore
      rw [hstore] at hafter
      refine ⟨b, ⟨_, hd, hreserves⟩, ?_⟩
      by_contra hne
      rw [Keyed.find_insert?_of_ne hinsert (Ne.symm hne), hnone] at hafter
      cases hafter

end Runs

end FlareAuth.Webhooks
