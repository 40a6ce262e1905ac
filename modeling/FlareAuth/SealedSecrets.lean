import FlareAuth.Concurrent.Stamp
import FlareAuth.WebhookSecrets

/-!
# Rotations and sealings of one secret

A rotation's write sets secret and prefix together. A sealing writes back the
secret that its delivery read, so it changes nothing but the form of the secret as
long as that is still the secret of the endpoint.
-/

namespace FlareAuth.Webhooks.Secrets

open Concurrent Relational Procedure SecretEnvelopes

abbrev SecretLog := Log Store Operation

/-- Operations that leave the endpoints alone, and do not read them. -/
def Operation.Aside : Operation → Prop
  | .onSite _ => True
  | .draw => True
  | _ => False

structure Read (log : SecretLog) (row : EndpointRow) : Prop where
  read : ∃ d ∈ log, d.operation = .findEndpoint row.id
  found : ∀ d ∈ log, ∀ id, d.operation = .findEndpoint id →
    d.before.endpoints.find id = some row

section Cipher

variable [AesGcm]

structure Reads (log : SecretLog) (id : Id) (secret : String) : Prop where
  read : ∃ d ∈ log, d.operation = .findEndpoint id
  found : ∀ d ∈ log, d.operation = .findEndpoint id → d.before.secretOf id = some secret

def EndpointPatch.Seals (p : EndpointPatch) (id : Id) (secret : String) : Prop :=
  isSealed p.signingSecret = true ∧
    openText p.signingSecret (webhookSecretContext id) = .ok secret

/-- What a call knows before it writes or signs. -/
def Grounded (log : SecretLog) (_ : Store) : Operation → Prop
  | .updateEndpoint id p (some secret) => p.Seals id secret ∧
      p.secretPrefix = some (secretPrefix secret)
  | .updateEndpoint id p none => p.secretPrefix = none ∧ ∃ secret,
      (Unmarked secret → p.Seals id secret) ∧ Reads log id secret
  | .post id secret => Reads log id secret
  | _ => True

/-- A rotation that returns has written the secret that it returns. -/
def Settles : Call → SecretLog → Except Failure (Option String) → Prop
  | .rotateWebhookSecret id, log, r => ∀ secret, r = .ok (some secret) → ∃ d ∈ log, ∃ p,
      d.operation = .updateEndpoint id p (some secret) ∧
        (d.before.endpoints.find id).isSome = true
  | _, _, _ => True

section Contract

variable {α β : Type} {log log' : SecretLog} {row : EndpointRow} {id : Id} {secret : String}
  {P : SecretLog → Except Failure β → Prop}

theorem Read.reads (h : Read log row) (hsecret : row.opened = some secret) :
    Reads log row.id secret where
  read := h.read
  found d hd hop := by
    rw [Store.secretOf, h.found d hd row.id hop]
    exact hsecret

theorem Reads.cons (h : Reads log id secret) {op : Operation} (hop : ∀ k, op ≠ .findEndpoint k)
    (s : Store) : Reads (⟨op, s⟩ :: log) id secret := by
  obtain ⟨d, hd, hread⟩ := h.read
  refine ⟨⟨d, List.mem_cons_of_mem _ hd, hread⟩, ?_⟩
  intro e he hfind
  rcases List.mem_cons.mp he with rfl | he
  · exact absurd hfind (hop id)
  · exact h.found e he hfind

omit [AesGcm] in
theorem Operation.Aside.ne {op : Operation} (h : op.Aside) (k : Id) : op ≠ .findEndpoint k := by
  rintro rfl
  exact h

omit [AesGcm] in
theorem Read.grown (h : Read log row) (hgrown : log.Grown Operation.Aside log') :
    Read log' row := by
  obtain ⟨new, rfl, hnew⟩ := hgrown
  obtain ⟨d, hd, hread⟩ := h.read
  refine ⟨⟨d, List.mem_append_right _ hd, hread⟩, ?_⟩
  intro e he id hfind
  rcases List.mem_append.mp he with he | he
  · exact absurd hfind ((hnew e he).ne id)
  · exact h.found e he id hfind

theorem grounded_of_aside (log : SecretLog) (s : Store) (op : Operation) (h : op.Aside) :
    Grounded log s op := by
  cases op <;> trivial

omit [AesGcm] in
theorem aside_onSite (p : Deliveries α) : (onSite p).Only Operation.Aside := by
  have h : p.Only fun op => Operation.Aside (.onSite op) := only_true p
  exact only_lift h

omit [AesGcm] in
theorem aside_clock : clock.Only Operation.Aside := aside_onSite _

theorem obeys_aside_bind {p : Signing α} {f : α → Signing β} (hp : p.Only Operation.Aside)
    (hf : ∀ log' a, log.Grown Operation.Aside log' → (f a).Obeys Grounded P log')
    (herror : ∀ log' e, P log' (.error e)) : (p >>= f).Obeys Grounded P log :=
  hp.obeys_bind grounded_of_aside (fun log' a hgrown _ => hf log' a hgrown)
    fun log' e _ => herror log' e

omit [AesGcm] in
theorem unmarked_signingSecret (bytes : String) : Unmarked ("whsec_" ++ bytes) := by
  have hlist : ("whsec_" ++ bytes).toList = 'w' :: ("hsec_".toList ++ bytes.toList) := by simp
  rw [Unmarked, hlist, List.head?_cons]
  decide

theorem seals_seal {secret : String} (h : Unmarked secret) (iv : Vector UInt8 12) (id : Id)
    (q : Option String) (now : ℕ) :
    EndpointPatch.Seals ⟨sealText iv secret (webhookSecretContext id), q, now⟩ id secret :=
  ⟨isSealed_seal _ _ _, openText_sealText h iv _⟩

variable [Entropy]

omit [AesGcm] in
theorem aside_getRandomValues (n : ℕ) : (getRandomValues n).Only Operation.Aside :=
  only_query.mpr trivial

theorem obeys_createSigningSecret_bind {f : String → Signing β}
    (hf : ∀ (s : Store) bytes, (f ("whsec_" ++ bytes)).Obeys Grounded P (⟨.draw, s⟩ :: log)) :
    (createSigningSecret >>= f).Obeys Grounded P log := fun s => ⟨trivial, hf s _⟩

theorem obeys_rotateWebhookSecret (id : Id) : (rotateWebhookSecret id).Obeys Grounded
    (fun l r => ∀ secret, r = .ok secret → ∃ d ∈ l, ∃ p,
      d.operation = .updateEndpoint id p (some secret) ∧
        (d.before.endpoints.find id).isSome = true) log := by
  intro s
  refine ⟨trivial, ?_⟩
  refine obeys_orThrow_bind (fun current _ => ?_) fun _ _ h => nomatch h
  refine obeys_createSigningSecret_bind fun _ bytes => ?_
  refine obeys_aside_bind (aside_getRandomValues 12) (fun _ iv _ => ?_) fun _ _ _ h => nomatch h
  refine obeys_aside_bind aside_clock (fun log₁ now _ => ?_) fun _ _ _ h => nomatch h
  intro s'
  refine ⟨⟨seals_seal (unmarked_signingSecret bytes) iv id _ now, rfl⟩, ?_⟩
  refine obeys_orThrow_bind (fun updated hupdated => ?_) fun _ _ h => nomatch h
  rintro secret hsecret
  obtain rfl := Except.ok.inj hsecret
  refine ⟨_, List.mem_cons_self, _, rfl, ?_⟩
  obtain ⟨row, hrow, _⟩ := Option.map_eq_some_iff.mp hupdated
  exact Option.isSome_iff_exists.mpr ⟨row, hrow⟩

theorem obeys_readSigningSecret (h : Read log row) : (readSigningSecret row).Obeys Grounded
    (fun l r => ∀ secret, r = .ok secret → Reads l row.id secret) log := by
  unfold readSigningSecret
  split
  · rename_i hsealed
    cases hopen : openText row.signingSecret (webhookSecretContext row.id) with
    | error e => exact fun _ h => nomatch h
    | ok plaintext =>
      rintro secret hsecret
      obtain rfl := Except.ok.inj hsecret
      refine h.reads ?_
      rw [EndpointRow.opened, if_pos hsealed, hopen]
      rfl
  · rename_i hplain
    have hopened : row.opened = some row.signingSecret := by
      rw [EndpointRow.opened, if_neg hplain]
    refine obeys_aside_bind (aside_getRandomValues 12) (fun log₁ iv hdrawn => ?_)
      fun _ _ _ h => nomatch h
    refine obeys_aside_bind aside_clock (fun log₂ now hgrown => ?_) fun _ _ _ h => nomatch h
    have hreads := ((h.grown hdrawn).grown hgrown).reads hopened
    intro s'
    refine ⟨⟨rfl, row.signingSecret, fun hplain => seals_seal hplain iv row.id _ now, hreads⟩, ?_⟩
    refine obeys_orThrow_bind (fun updated _ => ?_) fun _ _ h => nomatch h
    rintro secret hsecret
    obtain rfl := Except.ok.inj hsecret
    exact hreads.cons (fun k => by simp) s'

theorem obeys_deliver (id : Id) (idempotencyKey : String) (answer : Answer)
    (hlog : ∀ d ∈ log, d.operation.Aside) :
    (deliverWebhookRequestWithAttempt id idempotencyKey answer).Obeys Grounded
      (fun _ _ => True) log := by
  refine obeys_aside_bind (aside_onSite _) (fun log₁ found h₁ => ?_) fun _ _ => trivial
  refine obeys_orThrow_bind (fun current _ => ?_) fun _ => trivial
  intro s
  refine ⟨trivial, ?_⟩
  refine obeys_orThrow_bind (fun endpoint hendpoint => ?_) fun _ => trivial
  have hread : Read (⟨.findEndpoint current.endpointId, s⟩ :: log₁) endpoint := by
    obtain ⟨new, rfl, hnew⟩ := h₁
    have hid : endpoint.id = current.endpointId := (Keyed.find_eq_some.mp hendpoint).2
    refine ⟨⟨_, List.mem_cons_self, by rw [hid]⟩, ?_⟩
    intro d hd k hop
    rcases List.mem_cons.mp hd with rfl | hd
    · obtain rfl := Operation.findEndpoint.inj hop
      exact hendpoint
    · rcases List.mem_append.mp hd with hd | hd
      · exact absurd hop ((hnew d hd).ne k)
      · exact absurd hop ((hlog d hd).ne k)
  refine obeys_require_bind (fun _ => ?_) fun _ => trivial
  refine obeys_aside_bind aside_clock (fun log₂ attemptedAt h₂ => ?_) fun _ _ => trivial
  refine obeys_aside_bind (aside_onSite _) (fun log₃ attemptId h₃ => ?_) fun _ _ => trivial
  refine obeys_aside_bind (aside_onSite _) (fun log₄ reserved h₄ => ?_) fun _ _ => trivial
  cases reserved with
  | some attempt =>
    refine obeys_aside_bind (aside_onSite _) (fun log₅ _ h₅ => ?_) fun _ _ => trivial
    have hread' := ((((hread.grown h₂).grown h₃).grown h₄).grown h₅)
    have hsend : (sendSigned endpoint answer).Obeys Grounded (fun _ _ => True) log₅ := by
      refine Obeys.tryCatch (Q := fun _ _ => True) ?_ (fun _ _ _ => trivial) fun _ _ _ => trivial
      refine (obeys_readSigningSecret hread').bind (fun log₆ secret _ hreads => ?_)
        fun _ _ _ => trivial
      exact fun s' => ⟨hreads secret rfl, trivial⟩
    refine hsend.bind (fun log₆ outcome _ _ => ?_) fun _ _ _ => trivial
    refine obeys_aside_bind aside_clock (fun _ completedAt _ => ?_) fun _ _ => trivial
    refine obeys_aside_bind (aside_onSite _) (fun _ updatedAttempt _ => ?_) fun _ _ => trivial
    exact obeys_aside_bind (aside_onSite _) (fun _ _ _ => trivial) fun _ _ => trivial
  | none =>
    refine obeys_aside_bind (aside_onSite _) (fun _ existing _ => ?_) fun _ _ => trivial
    exact obeys_orThrow_bind (fun _ _ => trivial) fun _ => trivial

theorem program_contract (c : Call) : c.program.Obeys Grounded (Settles c) [] := by
  have hgrown : ∀ {l : SecretLog}, Log.Grown Operation.Aside [] l →
      ∀ d ∈ l, d.operation.Aside := by
    rintro l ⟨new, rfl, hnew⟩
    simpa using hnew
  cases c with
  | rotateWebhookSecret id =>
    refine (obeys_rotateWebhookSecret id).bind (fun l secret _ hsettles => ?_)
      fun _ _ _ _ h => nomatch h
    rintro secret' hsecret
    obtain rfl := Option.some.inj (Except.ok.inj hsecret)
    exact hsettles secret rfl
  | publishToEndpoint endpointId event organizationIds requestBody answer =>
    refine obeys_aside_bind (aside_onSite _) (fun l₁ endpoints h₁ => ?_) fun _ _ => trivial
    split
    · refine obeys_aside_bind (aside_onSite _) (fun l₂ id h₂ => ?_) fun _ _ => trivial
      exact (obeys_deliver id _ answer (hgrown (h₁.trans h₂))).bind (fun _ _ _ _ => trivial)
        fun _ _ _ => trivial
    · exact trivial
  | deliverWebhookRequest id answer =>
    exact (obeys_deliver id _ answer (List.forall_mem_nil _)).bind (fun _ _ _ _ => trivial)
      fun _ _ _ => trivial
  | createWebhookDeliveryAttempt id idempotencyKey answer =>
    refine obeys_aside_bind (aside_onSite _) (fun l₁ existing h₁ => ?_) fun _ _ => trivial
    cases existing with
    | some attempt => exact trivial
    | none =>
      exact (obeys_deliver id _ answer (hgrown h₁)).bind (fun _ _ _ _ => trivial)
        fun _ _ _ => trivial
  | elapse milliseconds =>
    exact obeys_aside_bind (aside_onSite _) (fun _ _ _ => trivial) fun _ _ => trivial

end Contract

section Updates

variable {s : Store} {id k : Id} {p : EndpointPatch} {rotated : Option String} {row : EndpointRow}
  {secret : String}

omit [AesGcm] in
theorem find_updateEndpoint (s : Store) (id k : Id) (p : EndpointPatch) (rotated : Option String) :
    (s.updateEndpoint id p rotated).endpoints.find k =
      (s.endpoints.find k).map fun row => if row.id == id then row.patch p else row :=
  Keyed.find_update (EndpointRow.patch_id p)

omit [AesGcm] in
theorem find_updateEndpoint_of_ne (h : k ≠ id) :
    (s.updateEndpoint id p rotated).endpoints.find k = s.endpoints.find k := by
  rw [find_updateEndpoint]
  cases hfound : s.endpoints.find k with
  | none => rfl
  | some row =>
    have hid : row.id = k := (Keyed.find_eq_some.mp hfound).2
    rw [Option.map_some, if_neg (by simpa [hid] using h)]

omit [AesGcm] in
theorem find_updateEndpoint_self (h : s.endpoints.find id = some row) :
    (s.updateEndpoint id p rotated).endpoints.find id = some (row.patch p) := by
  have hid : row.id = id := (Keyed.find_eq_some.mp h).2
  rw [find_updateEndpoint, h, Option.map_some, if_pos (by simpa using hid)]

theorem opened_patch (hid : row.id = id) (hseals : p.Seals id secret) :
    (row.patch p).opened = some secret := by
  obtain ⟨hsealed, hopen⟩ := hseals
  have hsecret : (row.patch p).signingSecret = p.signingSecret := rfl
  rw [EndpointRow.opened, hsecret, if_pos hsealed, EndpointRow.patch_id, hid, hopen]
  rfl

theorem secretOf_congr {t : Store} (h : t.endpoints.find id = s.endpoints.find id) :
    t.secretOf id = s.secretOf id ∧ t.prefixOf id = s.prefixOf id := by
  rw [Store.secretOf, Store.prefixOf, h]
  exact ⟨rfl, rfl⟩

/-- A patch that seals a secret makes it the secret of the endpoint. -/
theorem secretOf_updateEndpoint (h : s.endpoints.find id = some row) (hseals : p.Seals id secret) :
    (s.updateEndpoint id p rotated).secretOf id = some secret := by
  rw [Store.secretOf, find_updateEndpoint_self h]
  exact opened_patch (Keyed.find_eq_some.mp h).2 hseals

omit [AesGcm] in
theorem prefixOf_updateEndpoint (h : s.endpoints.find id = some row) :
    (s.updateEndpoint id p rotated).prefixOf id = some (p.secretPrefix.getD row.secretPrefix) := by
  rw [Store.prefixOf, find_updateEndpoint_self h]
  rfl

omit [AesGcm] in
theorem lastRotation_updateEndpoint_of_ne (h : k ≠ id) :
    (s.updateEndpoint id p rotated).lastRotation k = s.lastRotation k := by
  unfold Store.lastRotation Store.updateEndpoint
  dsimp only
  split
  · rw [List.lookup_cons, beq_false_of_ne h]
  · rfl

end Updates

/-- When a delivery writes back the secret that it has sealed, the endpoint still has it, and it
does not begin with a byte order mark. -/
def SealsCurrent (pool : SecretPool) (m : Move Call) : Prop :=
  ∀ i t id p, m = .resume i → pool.pending i = some (t, .updateEndpoint id p none) →
    ∀ d ∈ t.log, d.operation = .findEndpoint id → pool.store.secretOf id = d.before.secretOf id ∧
      ∀ secret ∈ d.before.secretOf id, Unmarked secret

/-- The endpoint has the secret of its last rotation, with the prefix of that secret. -/
def Store.Rotated (s : Store) : Prop :=
  ∀ id secret, s.lastRotation id = some secret →
    s.secretOf id = some secret ∧ s.prefixOf id = some (secretPrefix secret)

/-- An endpoint that was never rotated has kept its secret and its prefix. -/
def Store.Keeps (s t : Store) : Prop :=
  ∀ id, t.lastRotation id = none → s.lastRotation id = none ∧ t.secretOf id = s.secretOf id ∧
    t.prefixOf id = s.prefixOf id

def Store.Unrotated (s : Store) : Prop := s.rotations = []

section Runs

variable [Entropy] {pool : SecretPool} {t : Thread Call Store Operation Failure (Option String)}

/-- What one operation does to an endpoint: it rotates the secret, or leaves it what it was. -/
theorem step_cases {init : Store → Prop} {ok : SecretPool → Move Call → Prop}
    (h : Reachable Call.program init ok pool) {i : ℕ}
    (hok : SealsCurrent pool (.resume i)) {op : Operation}
    (hpending : pool.pending i = some (t, op))
    (id : Id) :
    (∃ secret, (apply op pool.store).lastRotation id = some secret ∧
      (apply op pool.store).secretOf id = some secret ∧
      (apply op pool.store).prefixOf id = some (secretPrefix secret)) ∨
    ((apply op pool.store).lastRotation id = pool.store.lastRotation id ∧
      (apply op pool.store).secretOf id = pool.store.secretOf id ∧
      (apply op pool.store).prefixOf id = pool.store.prefixOf id) := by
  have hgrounded := (h.pending_obeys program_contract hpending).2
  cases op with
  | onSite op => exact .inr ⟨rfl, rfl, rfl⟩
  | draw => exact .inr ⟨rfl, rfl, rfl⟩
  | findEndpoint k => exact .inr ⟨rfl, rfl, rfl⟩
  | post k secret => exact .inr ⟨rfl, rfl, rfl⟩
  | updateEndpoint k p rotated =>
    change (∃ secret, (pool.store.updateEndpoint k p rotated).lastRotation id = some secret ∧
        (pool.store.updateEndpoint k p rotated).secretOf id = some secret ∧
        (pool.store.updateEndpoint k p rotated).prefixOf id = some (secretPrefix secret)) ∨
      ((pool.store.updateEndpoint k p rotated).lastRotation id = pool.store.lastRotation id ∧
        (pool.store.updateEndpoint k p rotated).secretOf id = pool.store.secretOf id ∧
        (pool.store.updateEndpoint k p rotated).prefixOf id = pool.store.prefixOf id)
    by_cases hid : id = k
    · subst hid
      cases hfound : pool.store.endpoints.find id with
      | none =>
        have hsame : (pool.store.updateEndpoint id p rotated).endpoints.find id =
            pool.store.endpoints.find id := by
          rw [find_updateEndpoint, hfound]
          rfl
        refine .inr ⟨?_, secretOf_congr hsame⟩
        simp [Store.lastRotation, Store.updateEndpoint, hfound]
      | some row =>
        cases rotated with
        | some secret =>
          obtain ⟨hseals, hstart⟩ := hgrounded
          refine .inl ⟨secret, ?_, secretOf_updateEndpoint hfound hseals, ?_⟩
          · simp [Store.lastRotation, Store.updateEndpoint, hfound]
          · rw [prefixOf_updateEndpoint hfound, hstart]
            rfl
        | none =>
          obtain ⟨hstart, secret, hseals, hreads⟩ := hgrounded
          -- the secret that the delivery read is still that of the endpoint
          obtain ⟨d, hd, hread⟩ := hreads.read
          obtain ⟨hsame, hunmarked⟩ := hok i t id p rfl hpending d hd hread
          have hsecret : d.before.secretOf id = some secret := hreads.found d hd hread
          have hcurrent : pool.store.secretOf id = some secret := hsame.trans hsecret
          refine .inr ⟨?_, ?_, ?_⟩
          · simp [Store.lastRotation, Store.updateEndpoint, hfound]
          · rw [secretOf_updateEndpoint hfound (hseals (hunmarked secret hsecret)), hcurrent]
          · rw [prefixOf_updateEndpoint hfound, hstart, Store.prefixOf, hfound]
            rfl
    · exact .inr ⟨lastRotation_updateEndpoint_of_ne hid,
        secretOf_congr (find_updateEndpoint_of_ne hid)⟩

theorem rotated_of_reachable (h : Reachable Call.program Store.Unrotated SealsCurrent pool) :
    pool.store.Rotated := by
  refine h.keeps (I := Store.Rotated) (fun s hs id secret hlast => ?_) ?_
  · rw [Store.lastRotation, hs] at hlast
    cases hlast
  · intro pool i t op hpool hok hpending hrotated id secret hlast
    rcases step_cases hpool hok hpending id with ⟨secret', hlast', hsecret, hstart⟩ |
      ⟨hlast', hsecret, hstart⟩
    · rw [hlast] at hlast'
      obtain rfl := Option.some.inj hlast'
      exact ⟨hsecret, hstart⟩
    · rw [hlast'] at hlast
      rw [hsecret, hstart]
      exact hrotated id secret hlast

theorem keeps_drift : Drift Call.program Store.Unrotated SealsCurrent Store.Keeps where
  refl _ _ h := ⟨h, rfl, rfl⟩
  trans s t u h h' id hnone := by
    obtain ⟨hnone', hsecret', hstart'⟩ := h' id hnone
    obtain ⟨hnone'', hsecret, hstart⟩ := h id hnone'
    exact ⟨hnone'', hsecret'.trans hsecret, hstart'.trans hstart⟩
  step pool i t op hpool hok hpending id hnone := by
    rcases step_cases hpool hok hpending id with ⟨secret, hlast, _⟩ | ⟨hlast, hsecret, hstart⟩
    · rw [hnone] at hlast
      cases hlast
    · exact ⟨hlast.symm.trans hnone, hsecret, hstart⟩

omit [AesGcm] [Entropy] in
theorem rotations_evolution : Evolution Operation fun s t : Store => s.rotations ⊆ t.rotations where
  refl _ := List.Subset.refl _
  trans _ _ _ h h' := List.Subset.trans h h'
  step op s := by
    cases op with
    | onSite | draw | findEndpoint | post => exact List.Subset.refl _
    | updateEndpoint id p rotated =>
      change s.rotations ⊆ (s.updateEndpoint id p rotated).rotations
      unfold Store.updateEndpoint
      dsimp only
      split
      · exact List.subset_cons_self _ _
      · exact List.Subset.refl _

/-- A rotation that has returned has been written. -/
theorem rotation_of_returned (h : Reachable Call.program Store.Unrotated SealsCurrent pool)
    (ht : t ∈ pool.threads) {id : Id} (hcall : t.call = .rotateWebhookSecret id) {secret : String}
    (hdone : t.rest = .done (some secret)) : (id, secret) ∈ pool.store.rotations := by
  have hsettles := h.returned program_contract ht hdone
  rw [hcall] at hsettles
  obtain ⟨d, hd, p, hop, hfound⟩ := hsettles secret rfl
  obtain ⟨row, hrow⟩ := Option.isSome_iff_exists.mp hfound
  refine (h.evolves rotations_evolution t ht).2 d hd ?_
  rw [hop]
  change (id, secret) ∈ (d.before.updateEndpoint id p (some secret)).rotations
  simp [Store.updateEndpoint, hrow]

/-- A delivery signs with the secret that it read, which is that of the last rotation before. -/
theorem signed_of_posted (h : Reachable Call.program Store.Unrotated SealsCurrent pool)
    (ht : t ∈ pool.threads) {earlier later : SecretLog} {s : Store} {id : Id} {secret : String}
    (hlog : t.log = later ++ ⟨.post id secret, s⟩ :: earlier) :
    (∃ d ∈ earlier, d.operation = .findEndpoint id) ∧
      ∀ d ∈ earlier, d.operation = .findEndpoint id → d.before.secretOf id = some secret ∧
        ∀ last, d.before.lastRotation id = some last → secret = last := by
  obtain ⟨pool₀, i, u, after, hpool, _, hu, _, hearlier, hrest, _, _⟩ := h.of_log ht hlog
  have hreads : Reads u.log id secret :=
    (hpool.pending_obeys program_contract (Pool.pending_of_step hu hrest)).2
  rw [hearlier] at hreads
  refine ⟨hreads.read, fun d hd hop => ?_⟩
  have hsecret : d.before.secretOf id = some secret := hreads.found d hd hop
  refine ⟨hsecret, fun last hlast => ?_⟩
  have hmem : d ∈ t.log := by
    rw [hlog]
    exact List.mem_append_right _ (List.mem_cons_of_mem _ hd)
  obtain ⟨before, after', hsplit⟩ := List.append_of_mem hmem
  obtain ⟨pool₁, _, _, _, hpool₁, _, _, _, _, _, hstore, _⟩ := h.of_log ht hsplit
  have hrotated : d.before.Rotated := by
    rw [← hstore]
    exact rotated_of_reachable hpool₁
  have hlastSecret : d.before.secretOf id = some last := (hrotated id last hlast).1
  exact Option.some.inj (hsecret.symm.trans hlastSecret)

end Runs

/-- The secrets of the endpoints of a run: the last rotation stands, nothing else changes a secret,
and deliveries sign with the secret that they have read. -/
structure NeverReverted (pool : SecretPool) : Prop where
  rotated : pool.store.Rotated
  kept : ∀ s ∈ pool.history, s.Keeps pool.store
  returned : ∀ t ∈ pool.threads, ∀ id secret, t.call = .rotateWebhookSecret id →
    t.rest = .done (some secret) → (id, secret) ∈ pool.store.rotations
  signed : ∀ t ∈ pool.threads, ∀ (earlier later : SecretLog) s id secret,
    t.log = later ++ ⟨.post id secret, s⟩ :: earlier →
    (∃ d ∈ earlier, d.operation = .findEndpoint id) ∧
      ∀ d ∈ earlier, d.operation = .findEndpoint id → d.before.secretOf id = some secret ∧
        ∀ last, d.before.lastRotation id = some last → secret = last

/-- In every run in which a sealed secret is written back while the endpoint still has it, no
rotation is reverted. -/
theorem never_reverted [Entropy] {pool : SecretPool}
    (h : Reachable Call.program Store.Unrotated SealsCurrent pool) : NeverReverted pool where
  rotated := rotated_of_reachable h
  kept s hs := by
    rcases List.mem_cons.mp hs with rfl | hs
    · exact keeps_drift.refl _
    · exact (List.pairwise_cons.mp (h.drifts_history keeps_drift)).1 s hs
  returned _ ht _ _ hcall hdone := rotation_of_returned h ht hcall hdone
  signed _ ht _ _ _ _ _ hlog := signed_of_posted h ht hlog

end Cipher

namespace Sample

local instance : AesGcm := SecretEnvelopes.Sample.ideal

local instance : Entropy := ⟨fun drawn n => Vector.replicate n (UInt8.ofNat drawn)⟩

/-- An endpoint with a plaintext secret, and a request that waits for its delivery. -/
def store : Store where
  site := {
    now := 0
    generated := 0
    endpoints := [⟨"endpoint", "https://hooks.example", ["user.created"], true, none⟩]
    requests := ⟨[⟨"request", "endpoint", "user.created", 0, Outcome.unsent, some "event", none, 0,
      0⟩], by simp⟩
    attempts := .empty _ }
  endpoints :=
    ⟨[⟨"endpoint", "https://hooks.example", "legacy-secret", "legacy-secret", 0⟩], by simp⟩
  drawn := 0
  rotations := []

theorem store_unrotated : store.Unrotated := rfl

def deliver : Call := .deliverWebhookRequest "request" (.response 200 none)

def rotate : Call := .rotateWebhookSecret "endpoint"

def rotatedSecret : String := "whsec_" ++ Text.base64Url (List.replicate 32 1)

/-- The secret is sealed before it is rotated. -/
def consecutive : List (Move Call) :=
  .start deliver :: List.replicate 15 (.resume 0) ++ .start rotate :: List.replicate 5 (.resume 1)

/-- The rotation comes between the delivery's read and its writing back. -/
def overlapping : List (Move Call) :=
  .start deliver :: List.replicate 9 (.resume 0) ++ .start rotate :: List.replicate 5 (.resume 1) ++
    List.replicate 6 (.resume 0)

def sealsCheck (pool : SecretPool) : Move Call → Bool
  | .start _ => true
  | .resume i =>
    match pool.pending i with
    | some (t, .updateEndpoint id _ none) =>
      t.log.all fun d => decide (pool.store.secretOf id = d.before.secretOf id) &&
        (d.before.secretOf id).all fun secret => decide (Unmarked secret)
    | _ => true

theorem sealsCurrent_of_check {pool : SecretPool} {m : Move Call} (h : sealsCheck pool m = true) :
    SealsCurrent pool m := by
  rintro i t id p rfl hpending d hd _
  rw [sealsCheck, hpending] at h
  obtain ⟨hsame, hunmarked⟩ := Bool.and_eq_true_iff.mp (List.all_eq_true.mp h d hd)
  refine ⟨of_decide_eq_true hsame, fun secret hsecret => ?_⟩
  rw [Option.mem_def.mp hsecret] at hunmarked
  exact of_decide_eq_true hunmarked

/-- A plaintext secret is sealed by a delivery and rotated afterwards. -/
theorem never_reverted_consecutive : ∃ pool : SecretPool,
    pool.store.lastRotation "endpoint" = some rotatedSecret ∧
      pool.store.secretOf "endpoint" = some rotatedSecret ∧ NeverReverted pool := by
  have hrun : ((Pool.initial store).run Call.program sealsCheck consecutive).any (fun pool =>
      pool.store.lastRotation "endpoint" == some rotatedSecret &&
        pool.store.secretOf "endpoint" == some rotatedSecret) = true := by
    decide +kernel
  obtain ⟨pool, hpool, hcheck⟩ := (Option.any_eq_true _ _).mp hrun
  rw [Bool.and_eq_true, beq_iff_eq, beq_iff_eq] at hcheck
  have hreach : Reachable Call.program Store.Unrotated SealsCurrent pool :=
    Reachable.of_run (fun _ _ => sealsCurrent_of_check) (.initial store_unrotated) hpool
  exact ⟨pool, hcheck.1, hcheck.2, never_reverted hreach⟩

/-- The old secret is back, with the prefix of the rotated one. -/
theorem rotation_reverted : ∃ pool : SecretPool,
    Reachable Call.program (· = store) (Unrestricted _ _ _ _ _) pool ∧
      pool.store.lastRotation "endpoint" = some rotatedSecret ∧
      pool.store.prefixOf "endpoint" = some (secretPrefix rotatedSecret) ∧
      pool.store.secretOf "endpoint" = some "legacy-secret" ∧ ¬NeverReverted pool := by
  have hrun : ((Pool.initial store).run Call.program (fun _ _ => true) overlapping).any (fun pool =>
      pool.store.lastRotation "endpoint" == some rotatedSecret &&
        pool.store.prefixOf "endpoint" == some (secretPrefix rotatedSecret) &&
        pool.store.secretOf "endpoint" == some "legacy-secret") = true := by
    decide +kernel
  obtain ⟨pool, hpool, hcheck⟩ := (Option.any_eq_true _ _).mp hrun
  simp only [Bool.and_eq_true, beq_iff_eq] at hcheck
  obtain ⟨⟨hlast, hstart⟩, hsecret⟩ := hcheck
  refine ⟨pool, Reachable.of_run (fun _ _ _ => trivial) (.initial rfl) hpool, hlast,
    hstart, hsecret,
    fun hall => ?_⟩
  have hrotated : pool.store.secretOf "endpoint" = some rotatedSecret :=
    (hall.rotated "endpoint" _ hlast).1
  rw [hsecret] at hrotated
  exact absurd hrotated (by decide)

end Sample

end FlareAuth.Webhooks.Secrets
