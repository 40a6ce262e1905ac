import FlareAuth.WebhookAttempts

/-!
# The ledger of a webhook request

The request row holds the sequence and the outcome of its newest attempt, or the
outcome of a delivered one, as long as no delivery writes over a newer one or over
a delivered request. Nothing in the writes themselves sees to that.
-/

namespace FlareAuth.Webhooks

open Concurrent Relational Procedure

/-- The call that reserved the attempt has not written its outcome to the request yet. -/
def Unfinished (pool : WebhookPool) (a : DeliveryAttempt) : Prop :=
  ∃ t ∈ pool.threads, ∃ b, Reserved t.log b ∧ b.id = a.id ∧ ∀ o, ¬Ended t.log a.requestId o

/-- The delivery which the request counted last has not written its outcome yet. -/
def NewestInFlight (pool : WebhookPool) (r : WebhookRequest) : Prop :=
  ∃ t ∈ pool.threads, Started t.log r.id r.attemptCount ∧ ∀ o, ¬Ended t.log r.id o

/-- A write to a request that does not deliver it finds it not delivered: with a smaller count when
it starts a delivery, and with the newest delivery unfinished when it ends one. -/
def WritesInOrder (pool : WebhookPool) (m : Move Call) : Prop :=
  ∀ i t id p, m = .resume i → pool.pending i = some (t, .updateRequest id p) →
    p.outcome.status ≠ .delivered → ∀ r, pool.store.requests.find id = some r →
      r.outcome.status ≠ .delivered ∧ (∀ n, p.attemptCount = some n → r.attemptCount < n) ∧
        (p.attemptCount = none → NewestInFlight pool r)

/-- The attempts of a request and what its row says of them. -/
structure Store.Agrees (s : Store) (r : WebhookRequest) : Prop where
  count : r.attemptCount = s.largestSequence r.id
  delivered : ∀ a ∈ s.attemptsOf r.id, a.outcome.status = .delivered →
    ∃ b ∈ s.attemptsOf r.id, b.outcome.status = .delivered ∧ r.outcome = b.outcome
  newest : (∀ a ∈ s.attemptsOf r.id, a.outcome.status ≠ .delivered) →
    ∀ a ∈ s.attemptsOf r.id, a.sequence = s.largestSequence r.id → r.outcome = a.outcome

/-- What a request row tells of the calls that wrote it. -/
structure Ledger (pool : WebhookPool) (r : WebhookRequest) : Prop where
  started_le : ∀ t ∈ pool.threads, ∀ n, Started t.log r.id n → n ≤ r.attemptCount
  delivered : ∀ t ∈ pool.threads, ∀ o, Ended t.log r.id o → o.status = .delivered →
    r.outcome.status = .delivered
  of_delivered : r.outcome.status = .delivered → ∃ t ∈ pool.threads, Ended t.log r.id r.outcome
  newest : r.attemptCount = 0 ∨ ∃ t ∈ pool.threads, Started t.log r.id r.attemptCount ∧
    (r.outcome.status ≠ .delivered → ∀ o, Ended t.log r.id o → r.outcome = o)

section Steps

variable {ok : WebhookPool → Move Call → Prop} {pool pool' : WebhookPool} {i : ℕ}
  {t : Thread Call Store Operation Failure Unit} {op : Operation} {r r' : WebhookRequest}

def Operation.Spares (id : Id) : Operation → Prop
  | .updateRequest id' _ => id' ≠ id
  | _ => True

theorem started_cons_of_spares {log : DeliveryLog} {s : Store} {id : Id} {n : ℕ}
    (h : op.Spares id) : Started (⟨op, s⟩ :: log) id n ↔ Started log id n := by
  rw [started_cons, or_iff_right]
  rintro ⟨p, rfl, _⟩
  exact h rfl

theorem ended_cons_of_spares {log : DeliveryLog} {s : Store} {id : Id} {o : Outcome}
    (h : op.Spares id) : Ended (⟨op, s⟩ :: log) id o ↔ Ended log id o := by
  rw [ended_cons, or_iff_right]
  rintro ⟨p, rfl, _⟩
  exact h rfl

/-- What a row tells stays true of it while others are written. -/
theorem Ledger.of_spares (h : Ledger pool r)
    (hnext : pool.next Call.program (.resume i) = some pool')
    (hpending : pool.pending i = some (t, op)) (hspares : op.Spares r.id)
    (ht : t ∈ pool.threads) : Ledger pool' r := by
  refine ⟨fun u hu n hstarted => ?_, fun u hu o hended => ?_, fun hdelivered => ?_, ?_⟩
  · rcases Pool.log_of_mem_next hnext hpending hu with hold | hlog
    · exact h.started_le u hold n hstarted
    · rw [hlog, started_cons_of_spares hspares] at hstarted
      exact h.started_le t ht n hstarted
  · rcases Pool.log_of_mem_next hnext hpending hu with hold | hlog
    · exact h.delivered u hold o hended
    · rw [hlog, ended_cons_of_spares hspares] at hended
      exact h.delivered t ht o hended
  · exact Pool.exists_log_next hnext hpending (P := fun log => Ended log r.id r.outcome)
      (ended_cons_of_spares hspares).mpr (h.of_delivered hdelivered)
  · refine h.newest.imp_right fun hnewest => ?_
    refine Pool.exists_log_next hnext hpending (P := fun log => Started log r.id r.attemptCount ∧
      (r.outcome.status ≠ .delivered → ∀ o, Ended log r.id o → r.outcome = o)) ?_ hnewest
    rintro ⟨hstarted, hended⟩
    refine ⟨(started_cons_of_spares hspares).mpr hstarted, fun hundelivered o ho => ?_⟩
    exact hended hundelivered o ((ended_cons_of_spares hspares).mp ho)

/-- A row that a publication has just inserted. -/
theorem ledger_of_new (hcount : r.attemptCount = 0) (houtcome : r.outcome = Outcome.unsent)
    (hunknown : ∀ t ∈ pool.threads, (∀ n, ¬Started t.log r.id n) ∧ ∀ o, ¬Ended t.log r.id o) :
    Ledger pool r where
  started_le t ht n hstarted := absurd hstarted ((hunknown t ht).1 n)
  delivered t ht o hended := absurd hended ((hunknown t ht).2 o)
  of_delivered hdelivered := by
    rw [houtcome] at hdelivered
    cases hdelivered
  newest := .inl hcount

structure Write (pool pool' : WebhookPool) (t : Thread Call Store Operation Failure Unit) (id : Id)
    (p : RequestPatch) : Prop where
  grounded : ∃ a, a.requestId = id ∧
    ((Reserved t.log a ∧ Unsent t.log ∧ p.attemptCount = some a.sequence ∧
        p.outcome = Outcome.unsent) ∨
      (Recording a p.outcome t.log ∧ p.attemptCount = none))
  mem : t ∈ pool.threads
  log_of_mem : ∀ u ∈ pool'.threads,
    u ∈ pool.threads ∨ u.log = ⟨.updateRequest id p, pool.store⟩ :: t.log
  exists_log : ∀ P : DeliveryLog → Prop,
    (P t.log → P (⟨.updateRequest id p, pool.store⟩ :: t.log)) →
    (∃ u ∈ pool.threads, P u.log) → ∃ u ∈ pool'.threads, P u.log
  written : ∃ u ∈ pool'.threads, u.log = ⟨.updateRequest id p, pool.store⟩ :: t.log

theorem write_of_next (h : Reachable Call.program Store.Fresh ok pool) {id : Id} {p : RequestPatch}
    (hnext : pool.next Call.program (.resume i) = some pool')
    (hpending : pool.pending i = some (t, .updateRequest id p)) : Write pool pool' t id p := by
  obtain ⟨ht, hgrounded⟩ := h.pending_obeys program_contract hpending
  obtain ⟨t', op', hpending', _, _, u, hu, _, hlog⟩ := Pool.thread_resumed hnext
  rw [hpending] at hpending'
  cases hpending'
  exact ⟨hgrounded, ht, fun _ hu => Pool.log_of_mem_next hnext hpending hu,
    fun _ hP => Pool.exists_log_next hnext hpending hP, u, hu, hlog⟩

/-- The start of a delivery is counted. -/
theorem Ledger.start (h : Ledger pool r) {p : RequestPatch} (hwrite : Write pool pool' t r.id p)
    {n : ℕ} (hcount : p.attemptCount = some n) (hundelivered : r.outcome.status ≠ .delivered)
    (hlt : r.attemptCount < n) : Ledger pool' (r.patch p) := by
  obtain ⟨a, _, ⟨_, hunsent, _, houtcome⟩ | ⟨_, hnone⟩⟩ := hwrite.grounded
  · have hnew : (r.patch p).attemptCount = n := by
      rw [WebhookRequest.patch, hcount]
      rfl
    have hended : ∀ o, ¬Ended (⟨.updateRequest r.id p, pool.store⟩ :: t.log) r.id o := by
      intro o hended
      rcases ended_cons.mp hended with ⟨q, hop, hnone, _⟩ | hended
      · cases hop
        rw [hcount] at hnone
        cases hnone
      · exact hunsent.unended r.id o hended
    refine ⟨fun u hu m hstarted => ?_, fun u hu o ho hdelivered => ?_,
      fun hdelivered => ?_, .inr ?_⟩
    · rw [hnew]
      rcases hwrite.log_of_mem u hu with hold | hlog
      · have hle := h.started_le u hold m hstarted
        omega
      · rw [hlog] at hstarted
        rcases started_cons.mp hstarted with ⟨q, hop, hm⟩ | hstarted
        · cases hop
          have hmn : n = m := Option.some.inj (hcount.symm.trans hm)
          omega
        · exact absurd hstarted (hunsent.unstarted _ m)
    · rcases hwrite.log_of_mem u hu with hold | hlog
      · exact absurd (h.delivered u hold o ho hdelivered) hundelivered
      · rw [hlog] at ho
        exact absurd ho (hended o)
    · change p.outcome.status = .delivered at hdelivered
      rw [houtcome] at hdelivered
      cases hdelivered
    · obtain ⟨u, hu, hlog⟩ := hwrite.written
      refine ⟨u, hu, ?_, fun _ o ho => ?_⟩
      · rw [hnew, hlog]
        exact started_cons.mpr (.inl ⟨p, rfl, hcount⟩)
      · rw [hlog] at ho
        exact absurd ho (hended o)
  · rw [hcount] at hnone
    cases hnone

/-- The end of a delivery that was not delivered, while the newest one is unfinished. -/
theorem Ledger.fail (h : Ledger pool r) {p : RequestPatch} (hwrite : Write pool pool' t r.id p)
    (hnone : p.attemptCount = none) (hfailed : p.outcome.status ≠ .delivered)
    (hundelivered : r.outcome.status ≠ .delivered) (hnewest : NewestInFlight pool r) :
    Ledger pool' (r.patch p) := by
  obtain ⟨a, _, ⟨_, _, hsome, _⟩ | ⟨hrecording, _⟩⟩ := hwrite.grounded
  · rw [hnone] at hsome
    cases hsome
  · have hsame : (r.patch p).attemptCount = r.attemptCount := by
      rw [WebhookRequest.patch, hnone]
      rfl
    have hended : ∀ o, Ended (⟨.updateRequest r.id p, pool.store⟩ :: t.log) r.id o →
        p.outcome = o := by
      intro o ho
      rcases ended_cons.mp ho with ⟨q, hop, _, houtcome⟩ | ho
      · cases hop
        exact houtcome
      · exact absurd ho (hrecording.unended r.id o)
    refine ⟨fun u hu m hstarted => ?_, fun u hu o ho hdelivered => ?_,
      fun hdelivered => absurd hdelivered hfailed, .inr ?_⟩
    · rw [hsame]
      rcases hwrite.log_of_mem u hu with hold | hlog
      · exact h.started_le u hold m hstarted
      · rw [hlog] at hstarted
        rcases started_cons.mp hstarted with ⟨q, hop, hm⟩ | hstarted
        · cases hop
          rw [hnone] at hm
          cases hm
        · exact h.started_le t hwrite.mem m hstarted
    · rcases hwrite.log_of_mem u hu with hold | hlog
      · exact absurd (h.delivered u hold o ho hdelivered) hundelivered
      · rw [hlog] at ho
        rw [← hended o ho] at hdelivered
        exact absurd hdelivered hfailed
    · rw [hsame]
      refine hwrite.exists_log (fun log => Started log (r.patch p).id r.attemptCount ∧
        ((r.patch p).outcome.status ≠ .delivered → ∀ o, Ended log (r.patch p).id o →
          (r.patch p).outcome = o)) ?_ ?_
      · rintro ⟨hstarted, _⟩
        exact ⟨started_cons.mpr (.inr hstarted), fun _ o ho => hended o ho⟩
      · obtain ⟨u, hu, hstarted, hunended⟩ := hnewest
        exact ⟨u, hu, hstarted, fun _ o ho => absurd ho (hunended o)⟩

/-- The end of a delivery that was delivered. -/
theorem Ledger.deliver (h : Ledger pool r) {p : RequestPatch} (hwrite : Write pool pool' t r.id p)
    (hdelivers : p.outcome.status = .delivered) : Ledger pool' (r.patch p) := by
  obtain ⟨a, _, ⟨_, _, _, hunsent⟩ | ⟨hrecording, hnone⟩⟩ := hwrite.grounded
  · rw [hunsent] at hdelivers
    cases hdelivers
  · have hsame : (r.patch p).attemptCount = r.attemptCount := by
      rw [WebhookRequest.patch, hnone]
      rfl
    refine ⟨fun u hu m hstarted => ?_, fun _ _ _ _ _ => hdelivers, fun _ => ?_, ?_⟩
    · rw [hsame]
      rcases hwrite.log_of_mem u hu with hold | hlog
      · exact h.started_le u hold m hstarted
      · rw [hlog] at hstarted
        rcases started_cons.mp hstarted with ⟨q, hop, hm⟩ | hstarted
        · cases hop
          rw [hnone] at hm
          cases hm
        · exact h.started_le t hwrite.mem m hstarted
    · obtain ⟨u, hu, hlog⟩ := hwrite.written
      refine ⟨u, hu, ?_⟩
      rw [hlog]
      exact ended_cons.mpr (.inl ⟨p, rfl, hnone, rfl⟩)
    · rw [hsame]
      refine h.newest.imp_right fun hex => ?_
      refine hwrite.exists_log (fun log => Started log (r.patch p).id r.attemptCount ∧
        ((r.patch p).outcome.status ≠ .delivered → ∀ o, Ended log (r.patch p).id o →
          (r.patch p).outcome = o)) ?_ ?_
      · rintro ⟨hstarted, _⟩
        exact ⟨started_cons.mpr (.inr hstarted), fun hfailed => absurd hdelivers hfailed⟩
      · obtain ⟨u, hu, hstarted, _⟩ := hex
        exact ⟨u, hu, hstarted, fun hfailed => absurd hdelivers hfailed⟩

end Steps

section Runs

variable {ok : WebhookPool → Move Call → Prop} {pool : WebhookPool}
  {t : Thread Call Store Operation Failure Unit} {r : WebhookRequest} {a : DeliveryAttempt}
  {id : Id} {o : Outcome} {n : ℕ}

/-- A request that is not there was written by no call. -/
theorem unknown_of_absent (h : Reachable Call.program Store.Fresh ok pool)
    (habsent : ∀ r ∈ pool.store.requests.rows, r.id ≠ id) (ht : t ∈ pool.threads) :
    (∀ n, ¬Started t.log id n) ∧ ∀ o, ¬Ended t.log id o := by
  have hunreserved : ∀ a, Reserved t.log a → a.requestId ≠ id := by
    rintro a hreserved rfl
    have hfound := request_of_reserved h ht hreserved
    rw [Keyed.find_eq_none.mpr habsent] at hfound
    cases hfound
  constructor
  · intro n hstarted
    obtain ⟨a, hreserved, hrequest, _⟩ := reserved_of_started h ht hstarted
    exact hunreserved a hreserved hrequest
  · intro o hended
    obtain ⟨a, hreserved, hrequest, _⟩ := recording_of_ended h ht hended
    exact hunreserved a hreserved hrequest

/-- In a run whose writes are in order each request row tells of the calls that wrote it. -/
theorem ledger_of_reachable (h : Reachable Call.program Store.Fresh WritesInOrder pool) :
    ∀ r ∈ pool.store.requests.rows, Ledger pool r := by
  induction h with
  | @initial s hs =>
    intro r hr
    change r ∈ s.requests.rows at hr
    rw [hs.requests] at hr
    cases hr
  | @next pool pool' m hpool hm hnext ih =>
    cases m with
    | start c =>
      simp only [Pool.next, Option.some.injEq] at hnext
      subst hnext
      intro r hr
      have hrow := ih r hr
      refine ⟨fun t ht n hstarted => ?_, fun t ht o hended => ?_, fun hdelivered => ?_, ?_⟩
      · rcases List.mem_append.mp ht with ht | ht
        · exact hrow.started_le t ht n hstarted
        · rw [List.mem_singleton.mp ht] at hstarted
          obtain ⟨d, hd, _⟩ := hstarted
          cases hd
      · rcases List.mem_append.mp ht with ht | ht
        · exact hrow.delivered t ht o hended
        · rw [List.mem_singleton.mp ht] at hended
          obtain ⟨d, hd, _⟩ := hended
          cases hd
      · obtain ⟨t, ht, hended⟩ := hrow.of_delivered hdelivered
        exact ⟨t, List.mem_append_left _ ht, hended⟩
      · refine hrow.newest.imp_right ?_
        rintro ⟨t, ht, hnewest⟩
        exact ⟨t, List.mem_append_left _ ht, hnewest⟩
    | resume i =>
      obtain ⟨t, op, hpending, hstore, _⟩ := Pool.thread_resumed hnext
      obtain ⟨ht, hgrounded⟩ := hpool.pending_obeys program_contract hpending
      have hspared : ∀ r ∈ pool.store.requests.rows, op.Spares r.id → Ledger pool' r :=
        fun r hr hspares => (ih r hr).of_spares hnext hpending hspares ht
      intro r hr
      rw [hstore] at hr
      cases op with
      | read | fetch | generateId | elapse | updateAttempt => exact hspared r hr trivial
      | reserveAttempt s =>
        change r ∈ ((Repository.reserveAttempt s).settle pool.store).requests.rows at hr
        rcases settle_reserveAttempt s pool.store with hsame | ⟨b, houtcome⟩
        · rw [hsame] at hr
          exact hspared r hr trivial
        · obtain ⟨_, _, attempts, _, hreserved⟩ :=
            settle_of_reserves (d := ⟨.reserveAttempt s, pool.store⟩) ⟨s, rfl, houtcome⟩
          change (Repository.reserveAttempt s).settle pool.store = _ at hreserved
          rw [hreserved] at hr
          exact hspared r hr trivial
      | createRequest q =>
        change r ∈ ((Repository.createRequest q).settle pool.store).requests.rows at hr
        rcases createRequest_settle q pool.store with hsame | ⟨requests, hinsert, hcreated⟩
        · rw [hsame] at hr
          exact hspared r hr trivial
        · obtain ⟨hrows, hfree⟩ := Keyed.insert?_eq_some hinsert
          rw [hcreated] at hr
          change r ∈ requests.rows at hr
          rw [hrows] at hr
          rcases List.mem_append.mp hr with hr | hr
          · exact hspared r hr trivial
          · obtain rfl := List.mem_singleton.mp hr
            refine ledger_of_new hgrounded.1 hgrounded.2 fun u hu => ?_
            rcases Pool.log_of_mem_next hnext hpending hu with hold | hlog
            · exact unknown_of_absent hpool hfree hold
            · obtain ⟨hunstarted, hunended⟩ := unknown_of_absent hpool hfree ht
              have hspares : (Operation.createRequest r).Spares r.id := trivial
              rw [hlog]
              refine ⟨fun n hstarted => hunstarted n ?_, fun o hended => hunended o ?_⟩
              · exact (started_cons_of_spares hspares).mp hstarted
              · exact (ended_cons_of_spares hspares).mp hended
      | updateRequest id p =>
        change r ∈ updateWhere _ _ pool.store.requests.rows at hr
        obtain ⟨r₀, hr₀, rfl⟩ := mem_updateWhere.mp hr
        by_cases hid : r₀.id = id
        · subst hid
          rw [if_pos (beq_self_eq_true _)]
          have hwrite := write_of_next hpool hnext hpending
          by_cases hdelivers : p.outcome.status = .delivered
          · exact (ih r₀ hr₀).deliver hwrite hdelivers
          · have hfound := Keyed.find_eq_some.mpr ⟨hr₀, rfl⟩
            obtain ⟨hundelivered, hlt, hnewest⟩ :=
              hm i t r₀.id p rfl hpending hdelivers r₀ hfound
            cases hcount : p.attemptCount with
            | some n => exact (ih r₀ hr₀).start hwrite hcount hundelivered (hlt n hcount)
            | none => exact (ih r₀ hr₀).fail hwrite hcount hdelivers hundelivered (hnewest hcount)
        · rw [if_neg (by simpa using hid)]
          exact hspared r₀ hr₀ (Ne.symm hid)

/-- A finished attempt has the outcome that its call has written to the request. -/
theorem ended_of_finished (h : Reachable Call.program Store.Fresh ok pool)
    (ha : a ∈ pool.store.attempts.rows) (hfinished : ¬Unfinished pool a) :
    ∃ t ∈ pool.threads, Started t.log a.requestId a.sequence ∧
      Ended t.log a.requestId a.outcome := by
  obtain ⟨t, ht, b, hreserved, hid⟩ := reserved_of_attempt h ha
  have hended : ∃ o, Ended t.log a.requestId o := by
    by_contra hnone
    exact hfinished ⟨t, ht, b, hreserved, hid, fun o ho => hnone ⟨o, ho⟩⟩
  obtain ⟨o, ho⟩ := hended
  obtain ⟨c, hc, _, hstarted, hrecorded⟩ := recording_of_ended h ht ho
  obtain rfl : c = b := reserved_unique (h.logged program_contract ht) hc hreserved
  obtain ⟨a', hfound, _, hsequence, houtcome⟩ := kept_of_reachable h t ht c hreserved
  have hsame : a' = a := by
    have hfound' := Keyed.find_eq_some.mpr ⟨ha, rfl⟩
    rw [← hid, hfound] at hfound'
    exact Option.some.inj hfound'
  subst hsame
  rw [houtcome o hrecorded]
  rw [← hsequence] at hstarted
  exact ⟨t, ht, hstarted, ho⟩

theorem attempt_of_started (h : Reachable Call.program Store.Fresh ok pool)
    (ht : t ∈ pool.threads) (hstarted : Started t.log id n) :
    ∃ a ∈ pool.store.attemptsOf id, a.sequence = n := by
  obtain ⟨b, hreserved, hrequest, hsequence⟩ := reserved_of_started h ht hstarted
  obtain ⟨a, hfound, hrequest', hsequence', _⟩ := kept_of_reachable h t ht b hreserved
  refine ⟨a, mem_attemptsOf.mpr ⟨(Keyed.find_eq_some.mp hfound).1, ?_⟩, ?_⟩
  · rw [hrequest', hrequest]
  · rw [hsequence', hsequence]

theorem attempt_of_ended (h : Reachable Call.program Store.Fresh ok pool)
    (ht : t ∈ pool.threads) (hended : Ended t.log id o) :
    ∃ a ∈ pool.store.attemptsOf id, a.outcome = o := by
  obtain ⟨b, hreserved, hrequest, _, hrecorded⟩ := recording_of_ended h ht hended
  obtain ⟨a, hfound, hrequest', _, houtcome⟩ := kept_of_reachable h t ht b hreserved
  refine ⟨a, mem_attemptsOf.mpr ⟨(Keyed.find_eq_some.mp hfound).1, ?_⟩, houtcome o hrecorded⟩
  rw [hrequest', hrequest]

theorem sequencesUnique_of_reachable (h : Reachable Call.program Store.Fresh ok pool) :
    pool.store.SequencesUnique := by
  refine h.invariant (I := Store.SequencesUnique) (fun s hs a ha => ?_) sequencesUnique_apply _
    List.mem_cons_self
  rw [hs.attempts] at ha
  cases ha

/-- The row of a request without unfinished attempts agrees with them. -/
theorem agrees_of_ledger (h : Reachable Call.program Store.Fresh ok pool) (hledger : Ledger pool r)
    (hfinished : ∀ a ∈ pool.store.attemptsOf r.id, ¬Unfinished pool a) : pool.store.Agrees r := by
  have hended : ∀ a ∈ pool.store.attemptsOf r.id, ∃ t ∈ pool.threads,
      Started t.log r.id a.sequence ∧ Ended t.log r.id a.outcome := by
    intro a ha
    obtain ⟨hmem, hrequest⟩ := mem_attemptsOf.mp ha
    have hfound := ended_of_finished h hmem (hfinished a ha)
    rwa [hrequest] at hfound
  have hlargest : pool.store.largestSequence r.id ≤ r.attemptCount := by
    refine foldr_max_le.mpr fun n hn => ?_
    obtain ⟨a, ha, rfl⟩ := List.mem_map.mp hn
    obtain ⟨t, ht, hstarted, _⟩ := hended a ha
    exact hledger.started_le t ht a.sequence hstarted
  have hcount : r.attemptCount = pool.store.largestSequence r.id := by
    refine Nat.le_antisymm ?_ hlargest
    rcases hledger.newest with hzero | ⟨t, ht, hstarted, _⟩
    · omega
    · obtain ⟨a, ha, hsequence⟩ := attempt_of_started h ht hstarted
      rw [← hsequence]
      exact sequence_le_largest ha
  refine ⟨hcount, fun a ha hdelivered => ?_, fun hnone a ha hsequence => ?_⟩
  · obtain ⟨t, ht, _, ho⟩ := hended a ha
    have hrow := hledger.delivered t ht a.outcome ho hdelivered
    obtain ⟨u, hu, hrowEnded⟩ := hledger.of_delivered hrow
    obtain ⟨b, hb, houtcome⟩ := attempt_of_ended h hu hrowEnded
    refine ⟨b, hb, ?_, houtcome.symm⟩
    rw [houtcome]
    exact hrow
  · have hundelivered : r.outcome.status ≠ .delivered := by
      intro hrow
      obtain ⟨u, hu, hrowEnded⟩ := hledger.of_delivered hrow
      obtain ⟨b, hb, houtcome⟩ := attempt_of_ended h hu hrowEnded
      rw [← houtcome] at hrow
      exact hnone b hb hrow
    rcases hledger.newest with hzero | ⟨t, ht, hstarted, hnewest⟩
    · -- a request that no delivery has marked has no finished attempt
      obtain ⟨t, ht, hstarted, _⟩ := hended a ha
      obtain ⟨b, hreserved, _, hsame⟩ := reserved_of_started h ht hstarted
      have hle := hledger.started_le t ht a.sequence hstarted
      have hpos := sequence_pos hreserved
      omega
    · obtain ⟨b, hreserved, hrequest, hsame⟩ := reserved_of_started h ht hstarted
      obtain ⟨a', hfound, hrequest', hsequence', houtcome⟩ := kept_of_reachable h t ht b hreserved
      obtain ⟨hmem, hid⟩ := Keyed.find_eq_some.mp hfound
      have hmem' : a' ∈ pool.store.attemptsOf r.id :=
        mem_attemptsOf.mpr ⟨hmem, hrequest'.trans hrequest⟩
      obtain rfl : a' = a := by
        refine sequencesUnique_of_reachable h a' hmem a (mem_attemptsOf.mp ha).1 ?_ ?_
        · rw [(mem_attemptsOf.mp hmem').2, (mem_attemptsOf.mp ha).2]
        · rw [hsequence', hsame, hcount, hsequence]
      have hwritten : ∃ o, Ended t.log r.id o := by
        by_contra hunended
        refine hfinished a' hmem' ⟨t, ht, b, hreserved, hid.symm, fun o ho => hunended ⟨o, ?_⟩⟩
        rwa [(mem_attemptsOf.mp hmem').2] at ho
      obtain ⟨o, ho⟩ := hwritten
      obtain ⟨c, hc, _, _, hrecorded⟩ := recording_of_ended h ht ho
      obtain rfl : c = b := reserved_unique (h.logged program_contract ht) hc hreserved
      rw [hnewest hundelivered o ho, houtcome o hrecorded]

/-- A request that is delivered stays so. -/
def KeepsDelivered (s t : Store) : Prop :=
  ∀ r ∈ s.requests.rows, r.outcome.status = .delivered →
    ∃ r' ∈ t.requests.rows, r'.id = r.id ∧ r'.outcome.status = .delivered

theorem keepsDelivered_of_requests {s t : Store} (h : t.requests = s.requests) :
    KeepsDelivered s t := by
  intro r hr hdelivered
  rw [h]
  exact ⟨r, hr, rfl, hdelivered⟩

theorem keepsDelivered_drift :
    Drift Call.program Store.Fresh WritesInOrder KeepsDelivered where
  refl s := keepsDelivered_of_requests rfl
  trans s t u h h' := by
    intro r hr hdelivered
    obtain ⟨r', hr', hid, hdelivered'⟩ := h r hr hdelivered
    obtain ⟨r'', hr'', hid', hdelivered''⟩ := h' r' hr' hdelivered'
    exact ⟨r'', hr'', hid'.trans hid, hdelivered''⟩
  step pool i t op _ hok hpending := by
    cases op with
    | read | fetch | generateId | elapse | updateAttempt => exact keepsDelivered_of_requests rfl
    | reserveAttempt q =>
      change KeepsDelivered pool.store ((Repository.reserveAttempt q).settle pool.store)
      rcases settle_reserveAttempt q pool.store with hsame | ⟨b, houtcome⟩
      · rw [hsame]
        exact keepsDelivered_of_requests rfl
      · obtain ⟨_, _, attempts, _, hreserved⟩ :=
          settle_of_reserves (d := ⟨.reserveAttempt q, pool.store⟩) ⟨q, rfl, houtcome⟩
        change (Repository.reserveAttempt q).settle pool.store = _ at hreserved
        rw [hreserved]
        exact keepsDelivered_of_requests rfl
    | createRequest q =>
      change KeepsDelivered pool.store ((Repository.createRequest q).settle pool.store)
      rcases createRequest_settle q pool.store with hsame | ⟨requests, hinsert, hcreated⟩
      · rw [hsame]
        exact keepsDelivered_of_requests rfl
      · intro r hr hdelivered
        rw [hcreated]
        refine ⟨r, ?_, rfl, hdelivered⟩
        change r ∈ requests.rows
        rw [(Keyed.insert?_eq_some hinsert).1]
        exact List.mem_append_left _ hr
    | updateRequest id p =>
      intro r hr hdelivered
      by_cases hid : r.id = id
      · refine ⟨r.patch p, mem_updateWhere_of hr (by simpa using hid), rfl, ?_⟩
        by_contra hundelivers
        have hfound := Keyed.find_eq_some.mpr ⟨hr, hid⟩
        exact (hok i t id p rfl hpending hundelivers r hfound).1 hdelivered
      · refine ⟨r, mem_updateWhere_of_not hr (by simpa using hid), rfl, hdelivered⟩

end Runs

/-- In every run whose writes to requests are in order, a delivered request stays delivered, a
request with a delivered attempt is delivered once the delivery is finished, and the row of a
request without unfinished deliveries agrees with its attempts. -/
theorem ledger_agrees {pool : WebhookPool}
    (h : Reachable Call.program Store.Fresh WritesInOrder pool) :
    (∀ s ∈ pool.history, ∀ r ∈ s.requests.rows, r.outcome.status = .delivered →
      ∃ r' ∈ pool.store.requests.rows, r'.id = r.id ∧ r'.outcome.status = .delivered) ∧
    ∀ r ∈ pool.store.requests.rows,
      (∀ a ∈ pool.store.attemptsOf r.id, a.outcome.status = .delivered → ¬Unfinished pool a →
        r.outcome.status = .delivered) ∧
      ((∀ a ∈ pool.store.attemptsOf r.id, ¬Unfinished pool a) → pool.store.Agrees r) := by
  constructor
  · intro s hs
    rcases List.mem_cons.mp hs with rfl | hs
    · exact keepsDelivered_drift.refl _
    · exact (List.pairwise_cons.mp (h.drifts_history keepsDelivered_drift)).1 s hs
  · intro r hr
    have hledger := ledger_of_reachable h r hr
    refine ⟨fun a ha hdelivered hfinished => ?_, agrees_of_ledger h hledger⟩
    obtain ⟨hmem, hrequest⟩ := mem_attemptsOf.mp ha
    obtain ⟨t, ht, _, hended⟩ := ended_of_finished h hmem hfinished
    rw [hrequest] at hended
    exact hledger.delivered t ht a.outcome hended hdelivered

namespace Sample

def store : Store where
  now := 0
  generated := 0
  endpoints := [⟨"endpoint", "https://hooks.example", ["user.created"], true, none⟩]
  requests := .empty _
  attempts := .empty _

theorem store_fresh : store.Fresh := ⟨rfl, rfl⟩

/-- A publication that the endpoint answers with an error. -/
def publish : Call := .publishToEndpoint "endpoint" "user.created" [] "event" (.response 500 none)

/-- Another attempt, which the endpoint accepts. -/
def retry : Call := .createWebhookDeliveryAttempt "id-0" "retry" (.response 200 none)

/-- The second attempt comes after the first one. -/
def consecutive : List (Move Call) :=
  .start publish :: List.replicate 17 (.resume 0) ++
    .start retry :: List.replicate 14 (.resume 1)

/-- The endpoint's answer to the first attempt arrives after the second one was delivered. -/
def overlapping : List (Move Call) :=
  .start publish :: List.replicate 12 (.resume 0) ++
    .start retry :: List.replicate 14 (.resume 1) ++ List.replicate 5 (.resume 0)

def startsAt (id : Id) (n : ℕ) (d : Event Store Operation) : Bool :=
  match d.operation with
  | .updateRequest id' p => id' == id && p.attemptCount == some n
  | _ => false

def endsAt (id : Id) (d : Event Store Operation) : Bool :=
  match d.operation with
  | .updateRequest id' p => id' == id && p.attemptCount.isNone
  | _ => false

def orderCheck (pool : WebhookPool) : Move Call → Bool
  | .start _ => true
  | .resume i =>
    match pool.pending i with
    | some (_, .updateRequest id p) =>
      p.outcome.status == .delivered ||
        match pool.store.requests.find id with
        | some r => r.outcome.status != .delivered &&
          match p.attemptCount with
          | some n => decide (r.attemptCount < n)
          | none => pool.threads.any fun t =>
            t.log.any (startsAt r.id r.attemptCount) && !t.log.any (endsAt r.id)
        | none => true
    | _ => true

/-- Every call has written its outcome to the request. -/
def finished (pool : WebhookPool) : Bool := pool.threads.all fun t => t.log.any (endsAt "id-0")

end Sample

theorem started_of_check {log : DeliveryLog} {id : Id} {n : ℕ}
    (h : log.any (Sample.startsAt id n) = true) : Started log id n := by
  obtain ⟨⟨op, s⟩, hd, hstarts⟩ := List.any_eq_true.mp h
  cases op with
  | updateRequest id' p =>
    rw [Sample.startsAt, Bool.and_eq_true, beq_iff_eq, beq_iff_eq] at hstarts
    obtain ⟨rfl, hcount⟩ := hstarts
    exact ⟨_, hd, p, rfl, hcount⟩
  | read | fetch | generateId | elapse | createRequest | reserveAttempt | updateAttempt =>
    cases hstarts

theorem ended_of_check {log : DeliveryLog} {id : Id} (h : log.any (Sample.endsAt id) = true) :
    ∃ o, Ended log id o := by
  obtain ⟨⟨op, s⟩, hd, hends⟩ := List.any_eq_true.mp h
  cases op with
  | updateRequest id' p =>
    rw [Sample.endsAt, Bool.and_eq_true, beq_iff_eq, Option.isNone_iff_eq_none] at hends
    obtain ⟨rfl, hcount⟩ := hends
    exact ⟨p.outcome, _, hd, p, rfl, hcount, rfl⟩
  | read | fetch | generateId | elapse | createRequest | reserveAttempt | updateAttempt =>
    cases hends

theorem not_ended_of_check {log : DeliveryLog} {id : Id}
    (h : (!log.any (Sample.endsAt id)) = true) (o : Outcome) : ¬Ended log id o := by
  rintro ⟨⟨op, s⟩, hd, p, hop, hcount, _⟩
  dsimp only at hop
  subst hop
  rw [Bool.not_eq_true', List.any_eq_false] at h
  exact h _ hd (by simp [Sample.endsAt, hcount])

theorem writesInOrder_of_check {pool : WebhookPool} {m : Move Call}
    (h : Sample.orderCheck pool m = true) : WritesInOrder pool m := by
  rintro i t id p rfl hpending hfailed r hfound
  rw [Sample.orderCheck, hpending] at h
  dsimp only at h
  rw [hfound, Bool.or_eq_true, beq_iff_eq, or_iff_right hfailed, Bool.and_eq_true] at h
  obtain ⟨hundelivered, horder⟩ := h
  refine ⟨by simpa using hundelivered, fun n hcount => ?_, fun hcount => ?_⟩
  · rw [hcount] at horder
    exact of_decide_eq_true horder
  · rw [hcount] at horder
    obtain ⟨u, hu, hnewest⟩ := List.any_eq_true.mp horder
    rw [Bool.and_eq_true] at hnewest
    exact ⟨u, hu, started_of_check hnewest.1, not_ended_of_check hnewest.2⟩

theorem finished_of_check {pool : WebhookPool} (h : Sample.finished pool = true) :
    ∀ a ∈ pool.store.attemptsOf "id-0", ¬Unfinished pool a := by
  rintro a ha ⟨t, ht, b, _, _, hunended⟩
  obtain ⟨o, ho⟩ := ended_of_check (List.all_eq_true.mp h t ht)
  rw [(mem_attemptsOf.mp ha).2] at hunended
  exact hunended o ho

/-- A failed attempt and a delivered one after it. -/
theorem ledger_agrees_sample : ∃ pool : WebhookPool, ∃ r ∈ pool.store.requests.rows,
    r.outcome.status = .delivered ∧ r.attemptCount = 2 ∧ pool.store.Agrees r := by
  have hrun : ((Pool.initial Sample.store).run Call.program Sample.orderCheck
      Sample.consecutive).any (fun pool => Sample.finished pool &&
        pool.store.requests.rows.any fun r => r.id == "id-0" &&
          r.outcome.status == .delivered && r.attemptCount == 2) = true := by
    decide +kernel
  obtain ⟨pool, hpool, hcheck⟩ := (Option.any_eq_true _ _).mp hrun
  rw [Bool.and_eq_true] at hcheck
  obtain ⟨hfinished, hrow⟩ := hcheck
  obtain ⟨r, hr, hfields⟩ := List.any_eq_true.mp hrow
  simp only [Bool.and_eq_true, beq_iff_eq] at hfields
  obtain ⟨⟨hid, hdelivered⟩, hcount⟩ := hfields
  have hreach := Reachable.of_run (fun _ _ => writesInOrder_of_check)
    (.initial Sample.store_fresh) hpool
  refine ⟨pool, r, hr, hdelivered, hcount, ((ledger_agrees hreach).2 r hr).2 ?_⟩
  rw [hid]
  exact finished_of_check hfinished

/-- A late failure is written over a delivered request. -/
theorem ledger_disagrees : ∃ pool : WebhookPool,
    Reachable Call.program Store.Fresh (Unrestricted _ _ _ _ _) pool ∧
      ∃ r ∈ pool.store.requests.rows, (∀ a ∈ pool.store.attemptsOf r.id, ¬Unfinished pool a) ∧
        (∃ s ∈ pool.history, ∃ q ∈ s.requests.rows, q.id = r.id ∧ q.outcome.status = .delivered) ∧
        (∃ a ∈ pool.store.attemptsOf r.id, a.outcome.status = .delivered) ∧
        r.outcome.status = .failed ∧ ¬pool.store.Agrees r := by
  have hrun : ((Pool.initial Sample.store).run Call.program (fun _ _ => true)
      Sample.overlapping).any (fun pool => Sample.finished pool &&
        (pool.history.any fun s => s.requests.rows.any fun q => q.id == "id-0" &&
          q.outcome.status == .delivered) &&
        ((pool.store.attemptsOf "id-0").any fun a => a.outcome.status == .delivered) &&
        pool.store.requests.rows.any fun r => r.id == "id-0" && r.outcome.status == .failed) =
      true := by
    decide +kernel
  obtain ⟨pool, hpool, hcheck⟩ := (Option.any_eq_true _ _).mp hrun
  simp only [Bool.and_eq_true, List.any_eq_true, beq_iff_eq] at hcheck
  obtain ⟨⟨⟨hfinished, s, hs, q, hq, hqid, hqdelivered⟩, a, ha, hdelivered⟩, r, hr, hid, hfailed⟩ :=
    hcheck
  refine ⟨pool, Reachable.of_run (fun _ _ _ => trivial) (.initial Sample.store_fresh) hpool, r, hr,
    ?_, ⟨s, hs, q, hq, hqid.trans hid.symm, hqdelivered⟩, ?_, hfailed, fun hagrees => ?_⟩
  · rw [hid]
    exact finished_of_check hfinished
  · rw [hid]
    exact ⟨a, ha, hdelivered⟩
  · rw [← hid] at ha
    obtain ⟨b, _, hb, houtcome⟩ := hagrees.delivered a ha hdelivered
    rw [houtcome, hb] at hfailed
    cases hfailed

end FlareAuth.Webhooks
