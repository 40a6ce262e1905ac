import FlareAuth.AgentCreation
import FlareAuth.Concurrent.Stamp
import FlareAuth.Concurrent.Withstands

/-!
# Idempotent creation of Agents

Requests under one key run in any interleaving. The key is reserved in the batch that inserts the
Agent, and a reserved key leads to the same Agent for good: whoever returns, returns that one, and
whoever comes after the reservation only reads.
-/

namespace FlareAuth.AgentCreation

open Concurrent Procedure Relational

section Batches

variable {T T' : Tables} {rows : Rows} {reservation : Reservation}

theorem insert_eq_ok {referenced free : Tables → Bool} {add : Tables → Tables} {x : Unit}
    (h : Repository.insert referenced free add T = .ok (x, T')) :
    referenced T = true ∧ free T = true ∧ T' = add T := by
  unfold Repository.insert at h
  split at h
  · split at h
    · exact ⟨‹_›, ‹_›, by simpa using h.symm⟩
    · cases h
  · cases h

theorem insertReservation_eq_ok {x : Unit}
    (h : Repository.insertReservation reservation T = .ok (x, T')) :
    T.identities.any (·.id == reservation.agentIdentityId) = true ∧
      T.findReservation reservation.toKey = none ∧
      T' = { T with creations := T.creations ++ [reservation] } := by
  obtain ⟨hreferenced, hfree, rfl⟩ := insert_eq_ok h
  rw [Bool.and_eq_true] at hreferenced
  refine ⟨hreferenced.2, List.find?_eq_none.mpr fun r hr => ?_, rfl⟩
  have hkeys := List.all_eq_true.mp hfree r hr
  simp only [Bool.and_eq_true, bne_iff_ne] at hkeys
  simpa using hkeys.1.2

/-- A creation inserts one identity, under an identifier that was free, and reserves a free key. -/
theorem createAgentWithInstallation_eq_ok {x : Unit}
    (h : Repository.createAgentWithInstallation rows reservation T = .ok (x, T')) :
    T.identity? rows.identity.id = none ∧ T.findReservation reservation.toKey = none ∧
      T'.identities = T.identities ++ [rows.identity] ∧
      T'.creations = T.creations ++ [reservation] ∧
      T'.identities.any (·.id == reservation.agentIdentityId) = true := by
  unfold Repository.createAgentWithInstallation at h
  obtain ⟨_, T₁, hhost, h⟩ := Batch.bind_eq_ok.mp h
  obtain ⟨_, T₂, hagent, h⟩ := Batch.bind_eq_ok.mp h
  obtain ⟨_, T₃, hidentity, h⟩ := Batch.bind_eq_ok.mp h
  obtain ⟨_, T₄, hbinding, h⟩ := Batch.bind_eq_ok.mp h
  obtain ⟨_, T₅, haudit, h⟩ := Batch.bind_eq_ok.mp h
  obtain ⟨-, -, rfl⟩ := insert_eq_ok hhost
  obtain ⟨-, -, rfl⟩ := insert_eq_ok hagent
  obtain ⟨-, hfree, rfl⟩ := insert_eq_ok hidentity
  obtain ⟨-, -, rfl⟩ := insert_eq_ok hbinding
  obtain ⟨-, -, rfl⟩ := insert_eq_ok haudit
  obtain ⟨hreferenced, hkey, rfl⟩ := insertReservation_eq_ok h
  refine ⟨List.find?_eq_none.mpr fun i hi => ?_, hkey, rfl, rfl, hreferenced⟩
  have hids := List.all_eq_true.mp hfree i hi
  simp only [Bool.and_eq_true, bne_iff_ne] at hids
  simpa using hids.1.1

end Batches

section Growth

/-- Reservations and identities are there for good. -/
structure Grows (s t : Store) : Prop where
  reservation : ∀ {k ρ}, s.tables.findReservation k = some ρ → t.tables.findReservation k = some ρ
  identity : ∀ {id i}, s.tables.identity? id = some i → t.tables.identity? id = some i

theorem Grows.refl (s : Store) : Grows s s := ⟨id, id⟩

theorem Grows.trans {s t u : Store} (h : Grows s t) (h' : Grows t u) : Grows s u :=
  ⟨fun hs => h'.reservation (h.reservation hs), fun hs => h'.identity (h.identity hs)⟩

theorem grows_of_append {s t : Store} {identities : List Identity} {creations : List Reservation}
    (hidentities : t.tables.identities = s.tables.identities ++ identities)
    (hcreations : t.tables.creations = s.tables.creations ++ creations) : Grows s t where
  reservation {k ρ} h := by
    unfold Tables.findReservation at h ⊢
    rw [hcreations, List.find?_append, h]
    rfl
  identity {id i} h := by
    unfold Tables.identity? at h ⊢
    rw [hidentities, List.find?_append, h]
    rfl

/-- What the schema ensures: identifiers are unique, and every reservation leads to an identity. -/
structure Sound (s : Store) : Prop where
  ids : (s.tables.identities.map (·.id)).Nodup
  reserved : ∀ k ρ, s.tables.findReservation k = some ρ →
    ∃ i, s.tables.identity? ρ.agentIdentityId = some i

def Operation.reservation? : Operation → Option Reservation
  | .createAgentWithInstallation _ reservation | .insertReservation reservation => some reservation
  | .read _ | .generateId => none

structure Reserves (ρ : Reservation) (T T' : Tables) : Prop where
  free : T.findReservation ρ.toKey = none
  creations : T'.creations = T.creations ++ [ρ]
  identities : T'.identities = T.identities ∨
    ∃ i, T.identity? i.id = none ∧ T'.identities = T.identities ++ [i]
  identity : T'.identities.any (·.id == ρ.agentIdentityId) = true

/-- What an operation does: nothing to the tables, or it reserves a free key. -/
theorem apply_cases (op : Operation) (s : Store) : (apply op s).tables = s.tables ∨
    ∃ ρ, op.reservation? = some ρ ∧ Reserves ρ s.tables (apply op s).tables := by
  cases op with
  | read query => exact .inl rfl
  | generateId => exact .inl rfl
  | createAgentWithInstallation rows reservation =>
    rcases h : Repository.createAgentWithInstallation rows reservation s.tables with e | ⟨_, T⟩
    · exact .inl (Batch.settle_of_error h)
    · have htables : (apply (.createAgentWithInstallation rows reservation : Operation) s).tables =
          T := Batch.settle_of_ok h
      obtain ⟨hid, hkey, hidentities, hcreations, hreferenced⟩ :=
        createAgentWithInstallation_eq_ok h
      rw [htables]
      exact .inr ⟨reservation, rfl, hkey, hcreations, .inr ⟨_, hid, hidentities⟩, hreferenced⟩
  | insertReservation reservation =>
    rcases h : Repository.insertReservation reservation s.tables with e | ⟨_, T⟩
    · exact .inl (Batch.settle_of_error h)
    · have htables : (apply (.insertReservation reservation : Operation) s).tables = T :=
        Batch.settle_of_ok h
      obtain ⟨hreferenced, hkey, rfl⟩ := insertReservation_eq_ok h
      rw [htables]
      exact .inr ⟨reservation, rfl, hkey, rfl, .inl rfl, hreferenced⟩

theorem Reserves.found {ρ : Reservation} {T T' : Tables} (h : Reserves ρ T T') :
    T'.findReservation ρ.toKey = some ρ := by
  have hfree := h.free
  unfold Tables.findReservation at hfree ⊢
  rw [h.creations, List.find?_append, hfree]
  simp

theorem Reserves.grows {ρ : Reservation} {s t : Store} (h : Reserves ρ s.tables t.tables) :
    Grows s t := by
  rcases h.identities with hsame | ⟨i, _, hidentities⟩
  · exact grows_of_append (hsame.trans (List.append_nil _).symm) h.creations
  · exact grows_of_append hidentities h.creations

theorem Reserves.ids {ρ : Reservation} {T T' : Tables} (h : Reserves ρ T T')
    (hids : (T.identities.map (·.id)).Nodup) : (T'.identities.map (·.id)).Nodup := by
  rcases h.identities with hsame | ⟨i, hfree, hidentities⟩
  · rwa [hsame]
  · rw [hidentities]
    refine nodup_map_append_singleton hids fun j hj hsame => ?_
    have hnot := List.find?_eq_none.mp hfree j hj
    exact hnot (by simpa using hsame)

theorem grows_apply (op : Operation) (s : Store) : Grows s (apply op s) := by
  rcases apply_cases op s with hsame | ⟨ρ, _, hreserves⟩
  · refine ⟨fun h => ?_, fun h => ?_⟩ <;> rwa [hsame]
  · exact hreserves.grows

theorem sound_apply (op : Operation) {s : Store} (h : Sound s) : Sound (apply op s) := by
  rcases apply_cases op s with hsame | ⟨ρ, _, hreserves⟩
  · exact ⟨hsame ▸ h.ids, hsame ▸ h.reserved⟩
  · refine ⟨hreserves.ids h.ids, fun k σ hσ => ?_⟩
    by_cases hk : ρ.toKey = k
    · -- the new reservation
      subst hk
      obtain rfl : ρ = σ := Option.some.inj (hreserves.found.symm.trans hσ)
      obtain ⟨i, hi, hid⟩ := List.any_eq_true.mp hreserves.identity
      refine Option.isSome_iff_exists.mp (List.find?_isSome.mpr ⟨i, hi, ?_⟩)
      simpa using hid
    · have hold : s.tables.findReservation k = some σ := by
        unfold Tables.findReservation at hσ ⊢
        rw [hreserves.creations, List.find?_append, List.find?_singleton] at hσ
        simpa [hk] using hσ
      obtain ⟨i, hi⟩ := h.reserved k σ hold
      exact ⟨i, hreserves.grows.identity hi⟩

end Growth

section Held

variable {k : Key} {ρ : Reservation} {agent : Identity} {s t : Store}

def Writes (e : Event Store Operation) : Prop :=
  (apply e.operation e.before).tables ≠ e.before.tables

/-- Nothing has been written. -/
def Quiet (log : Log Store Operation) : Prop := ∀ e ∈ log, ¬Writes e

theorem Quiet.read {log : Log Store Operation} (h : Quiet log) (query : Query) (s : Store) :
    Quiet (⟨.read query, s⟩ :: log) := by
  intro e he
  rcases List.mem_cons.mp he with rfl | he
  · exact fun hwrites => hwrites rfl
  · exact h e he

theorem Quiet.generateId {log : Log Store Operation} (h : Quiet log) (s : Store) :
    Quiet (⟨.generateId, s⟩ :: log) := by
  intro e he
  rcases List.mem_cons.mp he with rfl | he
  · exact fun hwrites => hwrites rfl
  · exact h e he

theorem Quiet.cons {log : Log Store Operation} (h : Quiet log) {e : Event Store Operation}
    (he : (apply e.operation e.before).tables = e.before.tables) : Quiet (e :: log) := by
  intro d hd
  rcases List.mem_cons.mp hd with rfl | hd
  · exact fun hwrites => hwrites he
  · exact h d hd

structure Held (k : Key) (ρ : Reservation) (agent : Identity) (s : Store) : Prop where
  reservation : s.tables.findReservation k = some ρ
  identity : s.tables.identity? ρ.agentIdentityId = some agent

theorem Held.grows (h : Held k ρ agent s) (hE : Grows s t) : Held k ρ agent t :=
  ⟨hE.reservation h.reservation, hE.identity h.identity⟩

theorem Held.agent_eq {ρ' : Reservation} {agent' : Identity} (h : Held k ρ agent s)
    (h' : Held k ρ' agent' s) : ρ = ρ' ∧ agent = agent' := by
  obtain rfl : ρ = ρ' := Option.some.inj (h.reservation.symm.trans h'.reservation)
  exact ⟨rfl, Option.some.inj (h.identity.symm.trans h'.identity)⟩

/-- An identity that is not deleted is the one under its identifier. -/
theorem identity?_of_findIdentity {id : Id} (h : Sound s)
    (hfind : s.tables.findIdentity id = some agent) :
    s.tables.identity? id = some agent ∧ agent.deletedAt = none := by
  have hmem : agent ∈ s.tables.identities := List.mem_of_find?_eq_some hfind
  have hlive : agent.id = id ∧ agent.deletedAt = none := by
    simpa using List.find?_some hfind
  obtain ⟨i, hi⟩ : ∃ i, s.tables.identity? id = some i := by
    refine Option.isSome_iff_exists.mp (List.find?_isSome.mpr ⟨agent, hmem, ?_⟩)
    simpa using hlive.1
  have hid : i.id = id := by simpa using List.find?_some hi
  have hsame : i = agent :=
    eq_of_key_eq h.ids (List.mem_of_find?_eq_some hi) hmem (hid.trans hlive.1.symm)
  exact ⟨hsame ▸ hi, hlive.2⟩

theorem findIdentity_of_identity? {id : Id} (h : Sound s)
    (hi : s.tables.identity? id = some agent) (hlive : agent.deletedAt = none) :
    s.tables.findIdentity id = some agent := by
  have hid : agent.id = id := by simpa using List.find?_some hi
  obtain ⟨j, hj⟩ : ∃ j, s.tables.findIdentity id = some j := by
    refine Option.isSome_iff_exists.mp (List.find?_isSome.mpr
      ⟨agent, List.mem_of_find?_eq_some hi, ?_⟩)
    simpa using ⟨hid, hlive⟩
  have hsame := (identity?_of_findIdentity h hj).1
  rw [hj, Option.some.inj (hsame.symm.trans hi)]

end Held

section Lookups

variable {α : Type} {k : Key} {log log' : Log Store Operation} {s₀ s : Store}

/-- Creations among others, which only add rows. -/
abbrev Withstanding (p : Creations α) (Q : Log Store Operation → Store → Except Failure α → Prop)
    (log : Log Store Operation) (s : Store) : Prop :=
  p.Withstands Grows (fun _ => Sound) (fun _ _ => True) Q log s

/-- How a lookup of the key ends: it never fails, since every reservation has its identity. -/
def LookedUp (k : Key) (log : Log Store Operation) (s₀ : Store) (log' : Log Store Operation)
    (s : Store) (r : Except Failure (Option (Reservation × Identity))) : Prop :=
  (∃ t, log' = ⟨.read .reservation, t⟩ :: log ∧ Grows s₀ t ∧
    t.tables.findReservation k = none ∧ r = .ok none) ∨
  ∃ t u ρ agent, log' = ⟨.read .reservedIdentity, u⟩ :: ⟨.read .reservation, t⟩ :: log ∧
    Grows s₀ t ∧ t.tables.findReservation k = some ρ ∧ Held k ρ agent s ∧
      r = .ok (some (ρ, agent))

theorem LookedUp.quiet {r : Except Failure (Option (Reservation × Identity))}
    (h : LookedUp k log s₀ log' s r) (hquiet : Quiet log) : Quiet log' := by
  rcases h with ⟨t, rfl, _⟩ | ⟨t, u, _, _, rfl, _⟩
  · exact hquiet.read _ _
  · exact (hquiet.read _ _).read _ _

theorem LookedUp.held {ρ : Reservation} {agent : Identity}
    (h : LookedUp k log s₀ log' s (.ok (some (ρ, agent)))) : Held k ρ agent s := by
  rcases h with ⟨_, _, _, _, hr⟩ | ⟨_, _, ρ', agent', _, _, _, hheld, hr⟩
  · cases hr
  · cases hr
    exact hheld

theorem LookedUp.not_error {e : Failure} (h : LookedUp k log s₀ log' s (.error e)) : False := by
  rcases h with ⟨_, _, _, _, hr⟩ | ⟨_, _, _, _, _, _, _, _, hr⟩ <;> cases hr

/-- A key that was reserved before is looked up with success. -/
theorem LookedUp.of_reserved {r : Except Failure (Option (Reservation × Identity))}
    {ρ : Reservation} (h : LookedUp k log s₀ log' s r)
    (hρ : s₀.tables.findReservation k = some ρ) :
    ∃ agent, Held k ρ agent s ∧ r = .ok (some (ρ, agent)) ∧ log <:+ log' := by
  rcases h with ⟨t, _, hE, hnone, _⟩ | ⟨t, u, ρ', agent, rfl, hE, hfound, hheld, hr⟩
  · rw [hE.reservation hρ] at hnone
    cases hnone
  · obtain rfl : ρ = ρ' := Option.some.inj ((hE.reservation hρ).symm.trans hfound)
    exact ⟨agent, hheld, hr, (List.suffix_cons _ _).trans (List.suffix_cons _ _)⟩

theorem withstands_findApplicationCreation (k : Key) (log : Log Store Operation) (s : Store) :
    Withstanding (findApplicationCreation k) (LookedUp k log s) log s := by
  refine withstands_query_bind fun t hE _ => ⟨trivial, ?_⟩
  beta_reduce
  cases hfound : t.tables.findReservation k with
  | none => exact Or.inl ⟨t, rfl, hE, hfound, rfl⟩
  | some ρ =>
    refine withstands_query_bind fun u hE' hsound => ⟨trivial, ?_⟩
    have hstill : u.tables.findReservation k = some ρ := hE'.reservation hfound
    obtain ⟨agent, hagent⟩ := hsound.reserved k ρ hstill
    beta_reduce
    rw [hagent]
    exact Or.inr ⟨t, u, ρ, agent, rfl, hE, hfound, ⟨hstill, hagent⟩, rfl⟩

end Lookups

section Inserts

variable {k : Key} {log : Log Store Operation} {s : Store}

/-- How an insert under the key ends: with what was there, having written nothing, or with rows of
its own. -/
def Inserted (k : Key) (own : Reservation → Identity → Prop) (log : Log Store Operation)
    (s : Store) :
    Except Failure (Reservation × Identity × Bool) → Prop
  | .ok (ρ, agent, true) => Held k ρ agent s ∧ (∃ e ∈ log, Writes e) ∧ own ρ agent
  | .ok (ρ, agent, false) => Held k ρ agent s ∧ Quiet log
  | .error _ => Quiet log

theorem withstands_findRacedCreation (k : Key) (error : Failure) (hquiet : Quiet log) :
    Withstanding (findRacedCreation k error) (fun log s r => Quiet log ∧
      ∀ ρ agent, r = .ok (ρ, agent) → Held k ρ agent s) log s := by
  have hlookup : Withstanding ((findApplicationCreation k).tryCatch fun _ => fail error)
      (fun log s r => Quiet log ∧ ∀ ρ agent, r = .ok (some (ρ, agent)) → Held k ρ agent s)
      log s := by
    refine (withstands_findApplicationCreation k log s).tryCatch ?_ ?_
    · rintro log' s' a ha
      refine ⟨ha.quiet hquiet, fun ρ agent hr => ?_⟩
      cases hr
      exact ha.held
    · exact fun log' s' e he => he.not_error.elim
  refine hlookup.bind (fun log' s' a ha => ?_) fun log' s' e he => ⟨he.1, fun _ _ hr => nomatch hr⟩
  cases a with
  | none => exact ⟨ha.1, fun _ _ hr => nomatch hr⟩
  | some pair =>
    refine ⟨ha.1, fun ρ agent hr => ha.2 ρ agent ?_⟩
    cases hr
    rfl

/-- An insert that fails has written nothing, and one that succeeds goes on from its own rows. -/
theorem withstands_insertOnce {op : Operation} {batch : Batch Tables Failure Unit}
    {inserted : Creations (Reservation × Identity × Bool)} {own : Reservation → Identity → Prop}
    (hsettle : ∀ t : Store, (apply op t).tables = batch.settle t.tables)
    (hinserted : ∀ (log : Log Store Operation) (t : Store), Sound t →
      batch.outcome t.tables = .ok () →
      Withstanding inserted (Inserted k own) (⟨op, t⟩ :: log) (apply op t))
    (hquiet : Quiet log) :
    Withstanding (insertOnce k op batch inserted) (Inserted k own) log s := by
  refine (withstands_findApplicationCreation k log s).bind (fun log₁ s₁ existing h₁ => ?_)
    fun _ _ e he => he.not_error.elim
  have hquiet₁ := h₁.quiet hquiet
  cases existing with
  | some pair => exact ⟨h₁.held, hquiet₁⟩
  | none =>
    have hraced : Withstanding (((fun _ => none) <$> commit op batch).tryCatch fun error =>
        some <$> findRacedCreation k error)
        (fun log' s' r => (r = .ok none ∧ ∃ log₀ t, log' = ⟨op, t⟩ :: log₀ ∧ s' = apply op t ∧
            Sound t ∧ batch.outcome t.tables = .ok ()) ∨
          (Quiet log' ∧ r ≠ .ok none ∧
            ∀ ρ agent, r = .ok (some (ρ, agent)) → Held k ρ agent s')) log₁ s₁ := by
      intro t _ hsound
      refine ⟨trivial, ?_⟩
      change Withstanding
        (((fun _ => none) <$> Procedure.ofExcept (batch.outcome t.tables)).tryCatch
        fun error => some <$> findRacedCreation k error) _ _ _
      cases houtcome : batch.outcome t.tables with
      | ok x => exact Or.inl ⟨rfl, log₁, t, rfl, rfl, hsound, houtcome⟩
      | error e =>
        have hsame : (apply op t).tables = t.tables := by
          rw [hsettle]
          unfold Batch.outcome at houtcome
          unfold Batch.settle
          split at houtcome
          · cases houtcome
          · rfl
        have hquiet₂ : Quiet (⟨op, t⟩ :: log₁) := hquiet₁.cons hsame
        refine Withstands.map (withstands_findRacedCreation k e hquiet₂) ?_ ?_
        · rintro log' s' ⟨ρ, agent⟩ ⟨hq, hheld⟩
          refine .inr ⟨hq, by simp, fun ρ' agent' hr => ?_⟩
          cases hr
          exact hheld ρ agent rfl
        · rintro log' s' e' ⟨hq, _⟩
          exact .inr ⟨hq, by simp, by simp⟩
    refine hraced.bind (fun log' s' a ha => ?_) fun log' s' e he => ?_
    · rcases ha with ⟨hnone, log₀, t, rfl, rfl, hsound, houtcome⟩ | ⟨hq, hne, hheld⟩
      · cases hnone
        exact hinserted log₀ t hsound houtcome
      · cases a with
        | none => exact absurd rfl hne
        | some pair => exact ⟨hheld _ _ rfl, hq⟩
    · rcases he with ⟨hr, _⟩ | ⟨hq, _, _⟩
      · cases hr
      · exact hq

/-- The rows of a creation that has succeeded. -/
theorem held_of_created {rows : Rows} {reservation : Reservation} {t : Store}
    (hagent : reservation.agentIdentityId = rows.identity.id)
    (h : (Repository.createAgentWithInstallation rows reservation).outcome t.tables = .ok ()) :
    Held reservation.toKey reservation rows.identity
        (apply (.createAgentWithInstallation rows reservation : Operation) t) ∧
      Writes ⟨.createAgentWithInstallation rows reservation, t⟩ := by
  have hbatch := Batch.outcome_eq_ok h
  obtain ⟨hid, hkey, hidentities, hcreations, _⟩ := createAgentWithInstallation_eq_ok hbatch
  set T := (Repository.createAgentWithInstallation rows reservation).settle t.tables with hT
  have htables : (apply (.createAgentWithInstallation rows reservation : Operation) t).tables = T :=
    rfl
  refine ⟨⟨?_, ?_⟩, fun hsame => ?_⟩
  · unfold Tables.findReservation at hkey ⊢
    rw [htables, hcreations, List.find?_append, hkey]
    simp
  · unfold Tables.identity? at hid ⊢
    rw [htables, hidentities, List.find?_append, hagent, hid]
    simp
  · have hlength := congrArg (fun T => T.creations.length) (htables.symm.trans hsame)
    simp [hcreations] at hlength

theorem held_of_reserved {reservation : Reservation} {t : Store}
    (h : (Repository.insertReservation reservation).outcome t.tables = .ok ()) :
    (apply (.insertReservation reservation : Operation) t).tables.findReservation
        reservation.toKey = some reservation ∧ Writes ⟨.insertReservation reservation, t⟩ := by
  have hbatch := Batch.outcome_eq_ok h
  obtain ⟨_, hkey, hcreations⟩ := insertReservation_eq_ok hbatch
  set T := (Repository.insertReservation reservation).settle t.tables with hT
  have htables : (apply (.insertReservation reservation : Operation) t).tables = T := rfl
  refine ⟨?_, fun hsame => ?_⟩
  · unfold Tables.findReservation at hkey ⊢
    rw [htables, hcreations]
    change (t.tables.creations ++ [reservation]).find? _ = _
    rw [List.find?_append, hkey]
    simp
  · have hlength := congrArg (fun T => T.creations.length) (htables.symm.trans hsame)
    simp [hcreations] at hlength

theorem withstands_insertAgentWithInstallation {rows : Rows} {reservation : Reservation}
    (hk : reservation.toKey = k) (hagent : reservation.agentIdentityId = rows.identity.id)
    (hlive : rows.identity.deletedAt = none) (hquiet : Quiet log) :
    Withstanding (insertAgentWithInstallation k rows reservation)
      (Inserted k fun ρ agent => ρ = reservation ∧ agent = rows.identity) log s := by
  subst hk
  refine withstands_insertOnce (fun _ => rfl) (fun log t _ houtcome => ?_) hquiet
  obtain ⟨hheld, hwrites⟩ := held_of_created hagent houtcome
  refine withstands_query_bind fun u hE hsound => ⟨trivial, ?_⟩
  have hidentity : u.tables.identity? rows.identity.id = some rows.identity := by
    rw [← hagent]
    exact hE.identity hheld.identity
  beta_reduce
  rw [findIdentity_of_identity? hsound hidentity hlive]
  refine ⟨hheld.grows hE, ⟨_, ?_, hwrites⟩, rfl, rfl⟩
  exact List.mem_cons_of_mem _ List.mem_cons_self

theorem withstands_reserveApplicationCreation {reservation : Reservation}
    (hk : reservation.toKey = k) (hquiet : Quiet log) :
    Withstanding (reserveApplicationCreation k reservation)
      (Inserted k fun ρ _ => ρ = reservation) log s := by
  subst hk
  refine withstands_insertOnce (fun _ => rfl) (fun log t _ houtcome => ?_) hquiet
  obtain ⟨hreserved, hwrites⟩ := held_of_reserved houtcome
  refine (withstands_findApplicationCreation _ _ _).bind (fun log' s' persisted h => ?_)
    fun _ _ e he => he.not_error.elim
  obtain ⟨agent, hheld, hr, hlog⟩ := h.of_reserved hreserved
  cases hr
  exact ⟨hheld, ⟨_, hlog.subset List.mem_cons_self, hwrites⟩, rfl⟩

theorem withstands_requireAvailableAgentInstallation (input : CreateAgent) (hquiet : Quiet log) :
    Withstanding (requireAvailableAgentInstallation input) (fun log _ _ => Quiet log) log s := by
  refine withstands_query_bind fun t _ _ => ⟨trivial, ?_⟩
  refine withstands_query_bind fun u _ _ => ⟨trivial, ?_⟩
  have hquiet' := (hquiet.read .availableProtocolAgent t).read .availableHost u
  unfold require
  split
  · exact hquiet'
  · exact hquiet'

theorem withstands_requireAvailableAgentUsername (username : String) (hquiet : Quiet log) :
    Withstanding (requireAvailableAgentUsername username) (fun log _ _ => Quiet log) log s := by
  refine withstands_query_bind fun t _ _ => ⟨trivial, ?_⟩
  have hquiet' := hquiet.read .availableUsername t
  unfold require
  split
  · exact hquiet'
  · exact hquiet'

end Inserts

section Requests

variable [Locale] {call : Call} {log : Log Store Operation} {s : Store}

def Call.key (call : Call) : Key := call.context.toKey

def Call.answer (call : Call) (ρ : Reservation) (agent : Identity) (replayed : Bool) :
    Except Failure Reply :=
  if ρ.requestFingerprint = call.fingerprint then
    if agent.deletedAt = none then .ok ⟨agent, replayed⟩
    else .error
      (conflict "The Agent identity remains reserved after deletion and cannot be recreated.")
  else .error (conflict "Idempotency-Key was already used for a different Agent.")

theorem replyWith_eq (call : Call) (ρ : Reservation) (agent : Identity) (replayed : Bool) :
    replyWith call ρ agent replayed = Procedure.ofExcept (call.answer ρ agent replayed) := by
  unfold replyWith requireMatchingApplicationAgentCreation requireLiveApplicationAgent Call.answer
  by_cases hmatch : ρ.requestFingerprint = call.fingerprint
  · by_cases hlive : agent.deletedAt = none
    · rw [require_pos hmatch, require_pos hlive, if_pos hmatch, if_pos hlive]
      rfl
    · rw [require_pos hmatch, require_neg hlive, if_pos hmatch, if_neg hlive]
      rfl
  · rw [require_neg hmatch, if_neg hmatch]
    rfl

theorem answer_of_live {ρ : Reservation} {agent : Identity} (replayed : Bool)
    (hmatch : ρ.requestFingerprint = call.fingerprint) (hlive : agent.deletedAt = none) :
    call.answer ρ agent replayed = .ok ⟨agent, replayed⟩ := by
  unfold Call.answer
  rw [if_pos hmatch, if_pos hlive]

theorem answer_eq_ok {ρ : Reservation} {agent : Identity} {replayed : Bool} {reply : Reply}
    (h : call.answer ρ agent replayed = .ok reply) :
    ρ.requestFingerprint = call.fingerprint ∧ reply = ⟨agent, replayed⟩ := by
  unfold Call.answer at h
  split_ifs at h with hmatch hlive
  exact ⟨hmatch, (Except.ok.inj h).symm⟩

def Call.Asked (call : Call) (agent : Identity) : Prop :=
  ∃ ids, agent = (agentRows call.input call.context ids).identity

/-- How a request ends: with the Agent for which its key is reserved, or without a trace. -/
def Settled (call : Call) (log : Log Store Operation) (s : Store) : Except Failure Reply → Prop
  | .ok reply => ∃ ρ, Held call.key ρ reply.agent s ∧ ρ.requestFingerprint = call.fingerprint ∧
      (reply.replayed = false → (∃ e ∈ log, Writes e) ∧ call.Asked reply.agent)
  | .error _ => Quiet log

theorem settled_of_answer {ρ : Reservation} {agent : Identity} (hheld : Held call.key ρ agent s)
    (hquiet : Quiet log) : Settled call log s (call.answer ρ agent true) := by
  cases hanswer : call.answer ρ agent true with
  | error e => exact hquiet
  | ok reply =>
    obtain ⟨hmatch, rfl⟩ := answer_eq_ok hanswer
    exact ⟨ρ, hheld, hmatch, fun h => by cases h⟩

theorem withstands_createUuidV7ApplicationAgent (hquiet : Quiet log) :
    Withstanding (createUuidV7ApplicationAgent call) (Inserted call.key fun ρ agent =>
      ρ.requestFingerprint = call.fingerprint ∧ agent.deletedAt = none ∧ call.Asked agent)
      log s := by
  refine (withstands_requireAvailableAgentInstallation _ hquiet).bind (fun log₁ s₁ _ hquiet => ?_)
    fun _ _ _ h => h
  refine (withstands_requireAvailableAgentUsername _ hquiet).bind (fun log₂ s₂ _ hquiet => ?_)
    fun _ _ _ h => h
  refine withstands_query_bind fun t₁ _ _ => ⟨trivial, ?_⟩
  refine withstands_query_bind fun t₂ _ _ => ⟨trivial, ?_⟩
  refine withstands_query_bind fun t₃ _ _ => ⟨trivial, ?_⟩
  refine withstands_query_bind fun t₄ _ _ => ⟨trivial, ?_⟩
  refine withstands_query_bind fun t₅ _ _ => ⟨trivial, ?_⟩
  have hquiet' :=
    ((((hquiet.generateId t₁).generateId t₂).generateId t₃).generateId t₄).generateId t₅
  refine Withstands.mono (withstands_insertAgentWithInstallation rfl rfl rfl hquiet') ?_
  intro log' s' r hr
  rcases r with e | ⟨ρ, agent, created⟩
  · exact hr
  · cases created with
    | false => exact hr
    | true =>
      obtain ⟨hheld, hwrites, rfl, rfl⟩ := hr
      exact ⟨hheld, hwrites, rfl, rfl, _, rfl⟩

/-- The reservation that a request has found when it looked its key up first. -/
def Call.found (call : Call) (log : Log Store Operation) : Option Reservation :=
  log.getLast?.bind fun e => e.before.tables.findReservation call.key

omit [Locale] in
theorem found_of_suffix {log' : Log Store Operation} {e : Event Store Operation}
    (h : [e] <:+ log') : call.found log' = e.before.tables.findReservation call.key := by
  obtain ⟨later, rfl⟩ := h
  unfold Call.found
  rw [List.getLast?_append]
  rfl

/-- A request that has found its key reserved is answered from the reservation. -/
def Answered (call : Call) (log : Log Store Operation) (s : Store) (r : Except Failure Reply) :
    Prop :=
  ∀ ρ, call.found log = some ρ → ∃ agent, Held call.key ρ agent s ∧ r = call.answer ρ agent true

theorem answered_of_suffix {log' : Log Store Operation} {e : Event Store Operation}
    {r : Except Failure Reply} (h : [e] <:+ log')
    (hnone : e.before.tables.findReservation call.key = none) : Answered call log' s r := by
  intro ρ hρ
  rw [found_of_suffix h, hnone] at hρ
  cases hρ

/-- How a creation or its recovery ends. -/
def Created (call : Call) (log : Log Store Operation) (s : Store) :
    Except Failure ((Reservation × Identity × Bool) ⊕ Reply) → Prop
  | .ok (.inl created) => Inserted call.key (fun ρ agent =>
      ρ.requestFingerprint = call.fingerprint ∧ agent.deletedAt = none ∧ call.Asked agent)
      log s (.ok created)
  | .ok (.inr reply) => Settled call log s (.ok reply)
  | .error _ => Quiet log

theorem settled_of_created {created : Reservation × Identity × Bool}
    (h : Created call log s (.ok (.inl created))) :
    Withstanding (replyWith call created.1 created.2.1 (!created.2.2)) (Settled call) log s := by
  obtain ⟨ρ, agent, created⟩ := created
  rw [replyWith_eq]
  cases created with
  | false =>
    obtain ⟨hheld, hquiet⟩ := h
    exact withstands_ofExcept (settled_of_answer hheld hquiet)
  | true =>
    obtain ⟨hheld, hwrites, hmatch, hlive, hasked⟩ := h
    change Withstanding (Procedure.ofExcept (call.answer ρ agent false)) _ _ _
    rw [answer_of_live false hmatch hlive]
    exact ⟨ρ, hheld, hmatch, fun _ => ⟨hwrites, hasked⟩⟩

variable [HexDigest]

/-- How the attempt to replay an Agent without a reservation ends. -/
def Replayed (call : Call) (log : Log Store Operation) (s : Store) :
    Except Failure (Option Reply) → Prop
  | .ok (some reply) => Settled call log s (.ok reply)
  | .ok none | .error _ => Quiet log

theorem withstands_replayLegacyApplicationAgent (hquiet : Quiet log) :
    Withstanding (replayLegacyApplicationAgent call) (Replayed call) log s := by
  refine withstands_query_bind fun t _ hsound => ⟨trivial, ?_⟩
  have hquiet₁ := hquiet.read .legacyIdentity t
  beta_reduce
  cases hfind : t.tables.findIdentity
      (legacyApplicationAgentLookupIds call.context.toKey).identityId with
  | none => exact hquiet₁
  | some identity =>
    obtain ⟨hidentity, hlive⟩ := identity?_of_findIdentity hsound hfind
    have hid : identity.id = (legacyApplicationAgentLookupIds call.context.toKey).identityId := by
      simpa using List.find?_some hidentity
    rw [← hid] at hidentity
    refine withstands_query_bind fun t₁ hE₁ _ => ⟨trivial, ?_⟩
    refine withstands_query_bind fun t₂ hE₂ _ => ⟨trivial, ?_⟩
    refine withstands_query_bind fun t₃ hE₃ _ => ⟨trivial, ?_⟩
    refine withstands_query_bind fun t₄ hE₄ _ => ⟨trivial, ?_⟩
    have hquiet₂ := (((hquiet₁.read .legacyRows t₁).read .legacyRows t₂).read .legacyRows t₃).read
      .legacyRows t₄
    refine withstands_require_bind (fun _ => ?_) fun _ => hquiet₂
    refine withstands_query_bind fun t₅ hE₅ _ => ⟨trivial, ?_⟩
    have hE : Grows t (apply (.generateId : Operation) t₅) :=
      ((((hE₁.trans hE₂).trans hE₃).trans hE₄).trans hE₅).trans (grows_apply _ _)
    have hquiet₃ := hquiet₂.generateId t₅
    refine Withstands.bind (Withstands.later (fun _ _ _ => Grows.trans)
      (fun op t _ => grows_apply op t) (withstands_reserveApplicationCreation rfl hquiet₃)
      List.suffix_rfl hE) (fun log' s' a ha => ?_) fun _ _ _ he => he.1
    obtain ⟨ρ, agent, created⟩ := a
    obtain ⟨hinserted, _, hE'⟩ := ha
    change Withstanding (some <$> replyWith call ρ agent true) _ _ _
    rw [replyWith_eq]
    cases created with
    | false =>
      obtain ⟨hheld, hquiet₄⟩ := hinserted
      exact (withstands_ofExcept (settled_of_answer hheld hquiet₄)).map (fun _ _ _ h => h)
        fun _ _ _ h => h
    | true =>
      -- the reservation is for the identity that was found, which is not deleted
      obtain ⟨hheld, _, rfl⟩ := hinserted
      have hsame : agent = identity :=
        Option.some.inj (hheld.identity.symm.trans (hE'.identity hidentity))
      subst hsame
      rw [answer_of_live true rfl hlive]
      exact ⟨_, hheld, rfl, fun h => by cases h⟩

theorem withstands_recoverLegacyApplicationAgentAfterFailure (error : Failure)
    (hquiet : Quiet log) : Withstanding (recoverLegacyApplicationAgentAfterFailure call error)
      (Replayed call) log s := by
  refine (withstands_replayLegacyApplicationAgent hquiet).tryCatch (fun _ _ _ h => h) ?_
  intro log' s' e hquiet'
  split
  · exact hquiet'
  · exact hquiet'

theorem withstands_createOrRecover (hquiet : Quiet log) :
    Withstanding (createOrRecover call) (Created call) log s := by
  have hcreated : Withstanding (Sum.inl <$> createUuidV7ApplicationAgent call) (Created call)
      log s :=
    (withstands_createUuidV7ApplicationAgent hquiet).map (fun _ _ _ h => h) fun _ _ _ h => h
  refine hcreated.tryCatch (fun _ _ _ h => h) fun log' s' e hquiet' => ?_
  refine (withstands_recoverLegacyApplicationAgentAfterFailure e hquiet').bind
    (fun log₁ s₁ recovered h => ?_) fun _ _ _ h => h
  cases recovered with
  | none => exact h
  | some reply => exact h

/-- `createAgentWithInstallation` from where no reservation is found. -/
def replayOrCreate (call : Call) : Creations Reply := do
  let legacyReplay ← replayLegacyApplicationAgent call
  match legacyReplay with
  | some reply => return reply
  | none =>
    let created ← createOrRecover call
    match created with
    | .inr reply => return reply
    | .inl (reservation, identity, created) => replyWith call reservation identity (!created)

theorem withstands_replayOrCreate {call : Call} {log : Log Store Operation} {s : Store}
    (hquiet : Quiet log) : Withstanding (replayOrCreate call) (Settled call) log s := by
  refine (withstands_replayLegacyApplicationAgent hquiet).bind (fun log₁ s₁ replay h => ?_)
    fun _ _ _ h => h
  cases replay with
  | some reply => exact h
  | none =>
    refine (withstands_createOrRecover h).bind (fun log₂ s₂ created h => ?_) fun _ _ _ h => h
    cases created with
    | inr reply => exact h
    | inl created => exact settled_of_created h

theorem withstands_createAgentWithInstallation (call : Call) (s : Store) :
    Withstanding (createAgentWithInstallation call)
      (fun log s r => Settled call log s r ∧ Answered call log s r) [] s := by
  have hnothing : Quiet [] := fun e he => nomatch he
  have hunanswered : ∀ r, Answered call [] s r := fun r ρ hρ => nomatch hρ
  refine withstands_require_bind (fun _ => ?_) fun _ => ⟨hnothing, hunanswered _⟩
  refine withstands_require_bind (fun _ => ?_) fun _ => ⟨hnothing, hunanswered _⟩
  refine (withstands_findApplicationCreation _ _ _).bind (fun log₁ s₁ existing h => ?_)
    fun _ _ e he => he.not_error.elim
  have hquiet := h.quiet hnothing
  rcases h with ⟨t, rfl, _, hnone, hr⟩ | ⟨t, u, ρ, agent, rfl, _, hfound, hheld, hr⟩
  · cases hr
    have hlater : ∀ {log' : Log Store Operation} {s' : Store} {r : Except Failure Reply},
        [⟨.read .reservation, t⟩] <:+ log' → Settled call log' s' r →
        Settled call log' s' r ∧ Answered call log' s' r :=
      fun hlog hsettled => ⟨hsettled, answered_of_suffix hlog hnone⟩
    have hrest : Withstanding (replayOrCreate call) (Settled call) [⟨.read .reservation, t⟩] s₁ :=
      withstands_replayOrCreate hquiet
    exact Withstands.mono (Withstands.later (fun _ _ _ => Grows.trans)
      (fun op t _ => grows_apply op t) hrest List.suffix_rfl (Grows.refl _))
      fun log' s' r hr => hlater hr.2.1 hr.1
  · cases hr
    change Withstanding (replyWith call ρ agent true) _ _ _
    rw [replyWith_eq]
    have hlast : call.found [⟨.read .reservedIdentity, u⟩, ⟨.read .reservation, t⟩] =
        some ρ := hfound
    refine withstands_ofExcept ⟨settled_of_answer hheld hquiet, fun ρ' hρ' => ?_⟩
    obtain rfl : ρ = ρ' := Option.some.inj (hlast.symm.trans hρ')
    exact ⟨agent, hheld, rfl⟩

end Requests

end FlareAuth.AgentCreation
