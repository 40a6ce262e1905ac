import FlareAuth.AgentReplays
import FlareAuth.Concurrent.Sightings

/-!
# Creations in any interleaving

Of all the requests under one key at most one writes, and it writes once. Everyone who gets an
answer gets the same Agent, and a request that comes after the reservation is answered from it.
-/

namespace FlareAuth.AgentCreation

open Concurrent Procedure Relational

section Keys

variable {k : Key}

def Operation.Under (k : Key) (op : Operation) : Prop := ∀ ρ, op.reservation? = some ρ → ρ.toKey = k

@[simp] theorem under_read (query : Query) : (Operation.read query).Under k := fun _ h => nomatch h

@[simp] theorem under_generateId : Operation.generateId.Under k := fun _ h => nomatch h

theorem only_findApplicationCreation (k k' : Key) :
    (findApplicationCreation k').Only (Operation.Under k) := by
  refine only_bind.mpr ⟨by simp [ask], fun reservation _ => ?_⟩
  cases reservation <;> simp [ask]

theorem only_insertOnce {op : Operation} {batch : Batch Tables Failure Unit}
    {inserted : Creations (Reservation × Identity × Bool)} (hop : op.Under k)
    (hinserted : inserted.Only (Operation.Under k)) :
    (insertOnce k op batch inserted).Only (Operation.Under k) := by
  refine only_bind.mpr ⟨only_findApplicationCreation _ _, fun existing _ => ?_⟩
  cases existing with
  | some pair => exact trivial
  | none =>
    refine only_bind.mpr ⟨only_tryCatch ?_ fun e => ?_, fun raced _ => ?_⟩
    · simpa [commit] using hop
    · simpa [findRacedCreation] using only_tryCatch (only_findApplicationCreation _ _) (by simp)
    · cases raced with
      | none => exact hinserted
      | some pair => exact trivial

variable [Locale]

theorem only_createUuidV7ApplicationAgent (call : Call) :
    (createUuidV7ApplicationAgent call).Only (Operation.Under call.key) := by
  simp only [createUuidV7ApplicationAgent, requireAvailableAgentInstallation,
    requireAvailableAgentUsername, generateId, ask, only_bind, only_query, only_require, under_read,
    under_generateId, true_and, implies_true]
  intro _ _ _ _ _ _ _ _ _ _ _ _ _ _
  refine only_insertOnce (fun ρ hρ => ?_) (by simp [ask])
  cases hρ
  rfl

variable [HexDigest]

theorem only_replayLegacyApplicationAgent (call : Call) :
    (replayLegacyApplicationAgent call).Only (Operation.Under call.key) := by
  refine only_bind.mpr ⟨by simp [ask], fun identity _ => ?_⟩
  cases identity with
  | none => exact trivial
  | some identity =>
    simp only [generateId, ask, only_bind, only_query, only_require, only_map, replyWith_eq,
      only_ofExcept, under_read, under_generateId, true_and, implies_true, and_true]
    intro _ _ _ _ _ _ _ _ _ _ _ _
    refine only_insertOnce (fun ρ hρ => ?_) (by simp [only_findApplicationCreation])
    cases hρ
    rfl

/-- A request reserves its own key only. -/
theorem only_under (call : Call) :
    (createAgentWithInstallation call).Only (Operation.Under call.key) := by
  refine only_bind.mpr ⟨only_require _ _, fun _ _ => ?_⟩
  refine only_bind.mpr ⟨only_require _ _, fun _ _ => ?_⟩
  refine only_bind.mpr ⟨only_findApplicationCreation _ _, fun existing _ => ?_⟩
  cases existing with
  | some pair => simp [replyWith_eq]
  | none =>
    refine only_bind.mpr ⟨only_replayLegacyApplicationAgent call, fun replay _ => ?_⟩
    cases replay with
    | some reply => exact trivial
    | none =>
      refine only_bind.mpr ⟨only_tryCatch ?_ fun e => ?_, fun created _ => ?_⟩
      · simpa using only_createUuidV7ApplicationAgent call
      · refine only_bind.mpr ⟨only_tryCatch (only_replayLegacyApplicationAgent call) fun e' => ?_,
          fun recovered _ => by simp⟩
        split <;> exact trivial
      · cases created with
        | inr reply => exact trivial
        | inl created => simp [replyWith_eq]

/-- Until a request has looked its key up it reads, and if the key is reserved, so it does after. -/
theorem obeys_found (call : Call) : (createAgentWithInstallation call).Obeys
    (fun log _ op => log = [] ∨ (call.found log).isSome = true → ∃ query, op = .read query)
    (fun _ _ => True) [] := by
  refine obeys_require_bind (fun _ => ?_) fun _ => trivial
  refine obeys_require_bind (fun _ => ?_) fun _ => trivial
  intro s
  refine ⟨fun _ => ⟨_, rfl⟩, ?_⟩
  have hfound : ∀ log : Log Store Operation, [⟨.read .reservation, s⟩] <:+ log →
      call.found log = s.tables.findReservation call.key := fun log hlog => found_of_suffix hlog
  beta_reduce
  cases hreservation : s.tables.findReservation call.context.toKey with
  | none =>
    refine (only_true _).obeys_after fun log' s' op hlog _ hreads => ?_
    rcases hreads with hnil | hsome
    · rw [hnil] at hlog
      exact absurd (List.suffix_nil.mp hlog) (by simp)
    · rw [hfound log' hlog, Call.key, hreservation] at hsome
      cases hsome
  | some ρ =>
    intro s'
    refine ⟨fun _ => ⟨_, rfl⟩, ?_⟩
    beta_reduce
    cases s'.tables.identity? ρ.agentIdentityId with
    | none => exact trivial
    | some agent =>
      change (replyWith call ρ agent true).Obeys _ _ _
      rw [replyWith_eq]
      cases call.answer ρ agent true <;> exact trivial

end Keys

section Runs

variable [Locale] [HexDigest] {pool : CreationPool}
  {t u : Thread Call Store Operation Failure Reply}

abbrev CreationReachable (pool : CreationPool) : Prop :=
  Reachable createAgentWithInstallation Sound (Unrestricted _ _ _ _ _) pool

omit [HexDigest] in
theorem Settled.grows {call : Call} {log : Log Store Operation} {s s' : Store}
    {r : Except Failure Reply} (h : Settled call log s r) (hE : Grows s s') :
    Settled call log s' r := by
  cases r with
  | error e => exact h
  | ok reply =>
    obtain ⟨ρ, hheld, hrest⟩ := h
    exact ⟨ρ, hheld.grows hE, hrest⟩

omit [HexDigest] in
theorem Answered.grows {call : Call} {log : Log Store Operation} {s s' : Store}
    {r : Except Failure Reply} (h : Answered call log s r) (hE : Grows s s') :
    Answered call log s' r := by
  intro ρ hρ
  obtain ⟨agent, hheld, hr⟩ := h ρ hρ
  exact ⟨agent, hheld.grows hE, hr⟩

/-- Whatever the others do, a request that has ended has ended as its contract says. -/
theorem settled_of_reachable (h : CreationReachable pool) : Sound pool.store ∧
    ∀ t ∈ pool.threads, ∀ r, t.rest.result = some r →
      Settled t.call t.log pool.store r ∧ Answered t.call t.log pool.store r := by
  obtain ⟨hsound, hthreads⟩ := h.withstands Grows.refl
    (fun _ _ _ => Grows.trans)
    (Q := fun c log s r => Settled c log s r ∧ Answered c log s r)
    (fun _ _ _ _ _ hE hQ => ⟨hQ.1.grows hE, hQ.2.grows hE⟩) (fun _ hs => hs)
    (fun pool c _ _ => withstands_createAgentWithInstallation c pool.store)
    (fun _ _ _ _ _ _ hI => hI) fun op s hs _ => ⟨sound_apply op hs, grows_apply op s⟩
  refine ⟨hsound, fun t ht r hr => ?_⟩
  have hrest := hthreads t ht
  cases hdone : t.rest with
  | done a =>
    rw [hdone] at hrest hr
    cases hr
    exact hrest
  | fail e =>
    rw [hdone] at hrest hr
    cases hr
    exact hrest
  | step op next =>
    rw [hdone] at hr
    cases hr

def WritesUnder (k : Key) (e : Event Store Operation) : Prop :=
  Writes e ∧ ∃ ρ, e.operation.reservation? = some ρ ∧ ρ.toKey = k

omit [Locale] [HexDigest] in
theorem reserved_of_writes {k : Key} {op : Operation} {s : Store} (h : WritesUnder k ⟨op, s⟩) :
    s.tables.findReservation k = none ∧
      ∃ ρ, (apply op s).tables.findReservation k = some ρ := by
  obtain ⟨hwrites, ρ, hρ, rfl⟩ := h
  rcases apply_cases op s with hsame | ⟨ρ', hρ', hreserves⟩
  · exact absurd hsame hwrites
  · obtain rfl : ρ = ρ' := Option.some.inj (hρ.symm.trans hρ')
    exact ⟨hreserves.free, ρ, hreserves.found⟩

/-- What a request writes is under its key. -/
theorem writesUnder_of_mem (h : CreationReachable pool) (ht : t ∈ pool.threads)
    {e : Event Store Operation} (he : e ∈ t.log) (hwrites : Writes e) :
    WritesUnder t.call.key e := by
  have hlogged := h.logged (G := fun c _ _ op => op.Under c.key) (Q := fun _ _ _ => True)
    (fun c => (only_under c).obeys (fun _ _ _ hop => hop) (fun _ _ _ _ => trivial)
      fun _ _ _ => trivial) ht
  obtain ⟨_, _, _, hunder⟩ := hlogged.of_mem he
  rcases apply_cases e.operation e.before with hsame | ⟨ρ, hρ, _⟩
  · exact absurd hsame hwrites
  · exact ⟨hwrites, ρ, hρ, hunder ρ hρ⟩

/-- All the writes under one key are those of one request. -/
theorem writer_unique (h : CreationReachable pool) {i j : ℕ} (ht : pool.threads[i]? = some t)
    (hu : pool.threads[j]? = some u) (hkey : t.call.key = u.call.key)
    (htw : ∃ e ∈ t.log, Writes e) (huw : ∃ e ∈ u.log, Writes e) : i = j := by
  obtain ⟨e, he, hwrites⟩ := htw
  obtain ⟨d, hd, hwrites'⟩ := huw
  have hte := writesUnder_of_mem h (List.mem_of_getElem? ht) he hwrites
  have hud := writesUnder_of_mem h (List.mem_of_getElem? hu) hd hwrites'
  refine (h.at_most_one (K := WritesUnder t.call.key)
    (D := fun s => ∃ ρ, s.tables.findReservation t.call.key = some ρ) ?_ ?_).2 i j t u ht hu
    ⟨e, he, hte⟩ ⟨d, hd, hkey ▸ hud⟩
  · intro pool i t op _ _ _ hK
    obtain ⟨hnone, hsome⟩ := reserved_of_writes hK
    refine ⟨?_, hsome⟩
    rintro ⟨ρ, hρ⟩
    rw [hnone] at hρ
    cases hρ
  · rintro pool i t op _ _ _ ⟨ρ, hρ⟩
    exact ⟨ρ, (grows_apply op pool.store).reservation hρ⟩

omit [Locale] [HexDigest] in
theorem grows_evolution : Evolution Operation Grows where
  refl := Grows.refl
  trans _ _ _ := Grows.trans
  step := grows_apply

/-- A request writes once. -/
theorem writes_once (h : CreationReachable pool) (ht : t ∈ pool.threads) :
    t.log.Pairwise fun e d => ¬(Writes e ∧ Writes d) := by
  refine ((h.evolves grows_evolution t ht).1.imp_of_mem ?_)
  rintro e d he hd hgrows ⟨hwrites, hwrites'⟩
  obtain ⟨hnone, _⟩ := reserved_of_writes (writesUnder_of_mem h ht he hwrites)
  obtain ⟨_, ρ, hρ⟩ := reserved_of_writes (writesUnder_of_mem h ht hd hwrites')
  rw [hgrows.reservation hρ] at hnone
  cases hnone

theorem quiet_of_found (h : CreationReachable pool) (ht : t ∈ pool.threads) {ρ : Reservation}
    (hfound : t.call.found t.log = some ρ) : Quiet t.log := by
  intro e he hwrites
  obtain ⟨earlier, later, hlog, hreads⟩ := (h.logged obeys_found ht).of_mem he
  have hread : ∃ query, e.operation = .read query := by
    refine hreads ?_
    rcases List.eq_nil_or_concat earlier with hnil | ⟨_, _, hconcat⟩
    · exact .inl hnil
    · refine .inr ?_
      have hlast : t.call.found earlier = t.call.found t.log := by
        unfold Call.found
        rw [hlog, hconcat, List.concat_eq_append, ← List.cons_append, ← List.append_assoc,
          List.getLast?_append, List.getLast?_append]
        rfl
      rw [hlast, hfound]
      rfl
  obtain ⟨query, hquery⟩ := hread
  refine hwrites ?_
  rw [hquery]
  rfl

end Runs

/-- What is true of all the requests of a run. -/
structure Idempotent [Locale] (pool : CreationPool) : Prop where
  writer : ∀ (i j : ℕ) t u, pool.threads[i]? = some t → pool.threads[j]? = some u →
    t.call.key = u.call.key → (∃ e ∈ t.log, Writes e) → (∃ e ∈ u.log, Writes e) → i = j
  once : ∀ t ∈ pool.threads, t.log.Pairwise fun e d => ¬(Writes e ∧ Writes d)
  created : ∀ t ∈ pool.threads, ∀ r, t.rest = .done r → r.replayed = false →
    (∃ e ∈ t.log, Writes e) ∧ t.call.Asked r.agent
  same : ∀ t ∈ pool.threads, ∀ u ∈ pool.threads, t.call.key = u.call.key →
    ∀ r r', t.rest = .done r → u.rest = .done r' →
      r.agent = r'.agent ∧ t.call.fingerprint = u.call.fingerprint
  failed : ∀ t ∈ pool.threads, ∀ e, t.rest = .fail e → Quiet t.log
  found : ∀ t ∈ pool.threads, ∀ ρ, t.call.found t.log = some ρ → Quiet t.log ∧
    ∀ r, t.rest.result = some r → ∃ agent, Held t.call.key ρ agent pool.store ∧
      r = t.call.answer ρ agent true

/-- Requests under one key create at most one Agent and get no other, in every interleaving; a
request that fails has changed nothing, and one whose key is reserved only reads. -/
theorem creation_idempotent [Locale] [HexDigest] {pool : CreationPool}
    (h : CreationReachable pool) : Idempotent pool where
  writer _ _ _ _ ht hu hkey := writer_unique h ht hu hkey
  once _ ht := writes_once h ht
  created t ht r hdone hreplayed := by
    have hresult : t.rest.result = some (.ok r) := by rw [hdone]; rfl
    obtain ⟨⟨_, _, _, hcreated⟩, _⟩ := (settled_of_reachable h).2 t ht _ hresult
    exact hcreated hreplayed
  same t ht u hu hkey r r' hdone hdone' := by
    have hresult : t.rest.result = some (.ok r) := by rw [hdone]; rfl
    have hresult' : u.rest.result = some (.ok r') := by rw [hdone']; rfl
    obtain ⟨⟨ρ, hheld, hmatch, _⟩, _⟩ := (settled_of_reachable h).2 t ht _ hresult
    obtain ⟨⟨ρ', hheld', hmatch', _⟩, _⟩ := (settled_of_reachable h).2 u hu _ hresult'
    obtain ⟨rfl, hagent⟩ := hheld.agent_eq (hkey ▸ hheld')
    exact ⟨hagent, hmatch.symm.trans hmatch'⟩
  failed t ht e hfail := by
    have hresult : t.rest.result = some (.error e) := by rw [hfail]; rfl
    exact ((settled_of_reachable h).2 t ht _ hresult).1
  found t ht ρ hρ := ⟨quiet_of_found h ht hρ,
    fun r hr => ((settled_of_reachable h).2 t ht r hr).2 ρ hρ⟩

namespace Sample

instance : HexDigest := ⟨fun _ => "00"⟩

def request : Call where
  input := ⟨"scout", "Scout", "node", ⟨"agent-1", "host-1", "laptop", "key-1",
    .object [("kid", .string "key-1")]⟩⟩
  context := ⟨⟨"application-1", "user-1", "once"⟩, "https://auth.example"⟩
  importable := true

def store : Store where
  generated := 0
  tables := ⟨["user-1"], [], [], [], [], [], []⟩

theorem store_sound : Sound store := ⟨List.nodup_nil, fun _ _ h => nomatch h⟩

def outcome (pool : CreationPool) (i : ℕ) : Option (Option (Id × Bool)) :=
  pool.threads[i]?.bind fun t =>
    match t.rest with
    | .done reply => some (some (reply.agent.id, reply.replayed))
    | .fail _ => some none
    | .step _ _ => none

/-- Two requests overlap, and a third one comes when they have ended. -/
def overlapping : List (Move Call) :=
  [.start request, .start request, .resume 0, .resume 1] ++ List.replicate 12 (.resume 0) ++
    List.replicate 4 (.resume 1) ++ [.start request, .resume 2, .resume 2]

/-- The first one creates the Agent, the second one fails on its check, and the third one gets the
Agent of the first. -/
theorem creation_idempotent_overlapping : ∃ pool : CreationPool,
    outcome pool 0 = some (some ("id-0", false)) ∧ outcome pool 1 = some none ∧
      outcome pool 2 = some (some ("id-0", true)) ∧ Idempotent pool := by
  have hrun : ((Pool.initial store).run createAgentWithInstallation (fun _ _ => true)
      overlapping).any (fun pool => outcome pool 0 == some (some ("id-0", false)) &&
        outcome pool 1 == some none && outcome pool 2 == some (some ("id-0", true))) = true := by
    decide +kernel
  obtain ⟨pool, hpool, hcheck⟩ := (Option.any_eq_true _ _).mp hrun
  simp only [Bool.and_eq_true, beq_iff_eq] at hcheck
  have hreach : CreationReachable pool :=
    Reachable.of_run (fun _ _ _ => trivial) (.initial store_sound) hpool
  exact ⟨pool, hcheck.1.1, hcheck.1.2, hcheck.2, creation_idempotent hreach⟩

end Sample

end FlareAuth.AgentCreation
