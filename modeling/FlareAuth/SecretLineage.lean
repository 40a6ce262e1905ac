import FlareAuth.Concurrent.Trace
import FlareAuth.SecretRotation

/-!
# Every run of creations and rotations

What the calls know when they write, and from it that secrets stay linear, that a
rotation which returns has added the next version, and that one which fails has
changed no row.
-/

namespace FlareAuth.ClientSecrets

open Concurrent Relational Procedure

abbrev SecretLog := Log Store Operation

/-- The operations that change no row. -/
def Operation.Silent : Operation → Prop
  | .read => True
  | .generateId => True
  | _ => False

structure Rotates (id : Id) (log : SecretLog) (r : Rotation) : Prop where
  silent : ∀ d ∈ log, d.operation.Silent
  own : r.secret.applicationId = id
  status : r.secret.status = .active
  confidential : ∃ d ∈ log, ∃ a c, d.before.findById id = some (a, c) ∧ c.isPublic = false
  application : ∃ d ∈ log, ∃ a, d.before.applications.find id = some a ∧
    r.oauthClientId = a.oauthClientId
  version : ∃ d ∈ log, r.secret.version = d.before.latestVersion id + 1

def Grounded (call : Call) (log : SecretLog) (_ : Store) : Operation → Prop
  | .createApplication client application secret =>
    FirstSecret client application secret ∧ ∀ d ∈ log, d.operation.Silent
  | .rotateSecret r => ∃ id actorUserId, call = .rotateApplicationSecret id actorUserId ∧
      Rotates id log r
  | _ => ∀ d ∈ log, ∀ r, d.operation ≠ .rotateSecret r

/-- The last operation of a call was a rotation, with an outcome. -/
def Rotated (log : SecretLog) (outcome : Except Failure Unit) : Prop :=
  ∃ d earlier r, log = d :: earlier ∧ d.operation = .rotateSecret r ∧
    (Repository.rotateSecret r).outcome d.before = outcome

/-- An Application that the call had found was gone later. -/
def Vanished (id : Id) (log : SecretLog) : Prop :=
  ∃ later d earlier, log = later ++ d :: earlier ∧ d.before.applications.find id = none ∧
    ∃ e ∈ earlier, ∃ a, e.before.applications.find id = some a

def Ended (call : Call) (log : SecretLog) : Except Failure Reply → Prop
  | .ok _ => ∀ id actorUserId, call = .rotateApplicationSecret id actorUserId →
      Rotated log (.ok ()) ∨ Vanished id log
  | .error e => ∀ id actorUserId, call = .rotateApplicationSecret id actorUserId →
      (∀ d ∈ log, d.operation.Silent) ∨ Rotated log (.error e)

section Contract

variable {α β : Type}

@[simp] theorem silent_ask (answer : Store → α) : (ask answer).Only Operation.Silent := by
  simp [ask, Operation.Silent]

@[simp] theorem silent_generateId : generateId.Only Operation.Silent := by
  simp [generateId, Operation.Silent]

@[simp] theorem silent_createClientSecret : createClientSecret.Only Operation.Silent := by
  simp [createClientSecret]

theorem leaves_ask (answer : Store → α) :
    (ask answer).Leaves fun a log => ∃ d ∈ log, a = answer d.before :=
  fun _ => ⟨_, List.mem_cons_self, rfl⟩

theorem grounded_of_silent {call : Call} {log : SecretLog} (hlog : ∀ d ∈ log, d.operation.Silent)
    {s : Store} {op : Operation} (h : op.Silent) : Grounded call log s op := by
  have halone : ∀ d ∈ log, ∀ r, d.operation ≠ .rotateSecret r := by
    intro d hd r heq
    have hsilent := hlog d hd
    rw [heq] at hsilent
    exact hsilent
  cases op <;> first | exact halone | exact h.elim

theorem silent_grown {log log' : SecretLog} (hlog : ∀ d ∈ log, d.operation.Silent)
    (h : log.Grown Operation.Silent log') : ∀ d ∈ log', d.operation.Silent := by
  obtain ⟨new, rfl, hnew⟩ := h
  exact fun d hd => (List.mem_append.mp hd).elim (hnew d) (hlog d)

/-- Sequencing while nothing was written. -/
theorem silent_then {call : Call} {p : Registry α} {f : α → Registry β} {P : α → SecretLog → Prop}
    {Q : SecretLog → Except Failure β → Prop} {log : SecretLog} (hp : p.Only Operation.Silent)
    (h : p.Leaves P) (hlog : ∀ d ∈ log, d.operation.Silent)
    (hf : ∀ new a, P a new → (∀ d ∈ new ++ log, d.operation.Silent) →
      (f a).Obeys (Grounded call) Q (new ++ log))
    (herror : ∀ log' e, (∀ d ∈ log', d.operation.Silent) → Q log' (.error e)) :
    (p >>= f).Obeys (Grounded call) Q log := by
  refine h.obeys_bind_of_grown hp (fun log' s op hgrown => grounded_of_silent
    (silent_grown hlog hgrown)) (fun new a ha hnew => hf new a ha ?_) fun log' e hgrown =>
      herror log' e (silent_grown hlog hgrown)
  exact fun d hd => (List.mem_append.mp hd).elim (hnew d) (hlog d)

theorem obeys_commit_bind {G : SecretLog → Store → Operation → Prop}
    {Q : SecretLog → Except Failure β → Prop} {log : SecretLog} {op : Operation}
    {batch : StoreBatch α} {f : α → Registry β} (hG : ∀ s, G log s op)
    (hok : ∀ s a, batch.outcome s = .ok a → (f a).Obeys G Q (⟨op, s⟩ :: log))
    (herror : ∀ s e, batch.outcome s = .error e → Q (⟨op, s⟩ :: log) (.error e)) :
    (commit op batch >>= f).Obeys G Q log := by
  intro s
  refine ⟨hG s, ?_⟩
  change (Procedure.ofExcept (batch.outcome s) >>= f).Obeys G Q _
  cases houtcome : batch.outcome s with
  | ok a => exact hok s a houtcome
  | error e => exact herror s e houtcome

def RotationEnds (id : Id) (log : SecretLog) : Except Failure α → Prop
  | .ok _ => Rotated log (.ok ()) ∨ Vanished id log
  | .error e => (∀ d ∈ log, d.operation.Silent) ∨ Rotated log (.error e)

/-- The application of a client that was found. -/
theorem Store.find_of_findById {s : Store} {id : Id} {a : Application} {c : OAuthClient}
    (h : s.findById id = some (a, c)) :
    s.applications.find id = some a ∧ s.clients.find a.oauthClientId = some c := by
  simp only [Store.findById, Option.bind_eq_bind, Option.bind_eq_some_iff] at h
  obtain ⟨a', ha, c', hc, hpair⟩ := h
  cases hpair
  exact ⟨ha, hc⟩

theorem rotation_rotateSecret {id : Id} {actorUserId : Option Id} (secretId : Id)
    (clientSecret : String) {log : SecretLog} (hlog : ∀ d ∈ log, d.operation.Silent)
    (hfound : ∃ d ∈ log, ∃ a c, d.before.findById id = some (a, c) ∧ c.isPublic = false) :
    (rotateSecret id secretId clientSecret actorUserId).Obeys
      (Grounded (.rotateApplicationSecret id actorUserId)) (RotationEnds id) log := by
  have herror : ∀ (log : SecretLog) (e : Failure), (∀ d ∈ log, d.operation.Silent) →
      RotationEnds id log (.error e : Except Failure RotatedSecret) := fun _ _ h => .inl h
  refine silent_then (by simp) (leaves_true _) hlog (fun log₁ now _ h₁ => ?_) herror
  refine silent_then (by simp) (leaves_ask _) h₁ (fun log₂ latest hlatest h₂ => ?_) herror
  refine silent_then (by simp) (leaves_query _ _) h₂ (fun log₃ application hread h₃ => ?_) herror
  obtain ⟨s, rfl, rfl⟩ := hread
  obtain ⟨e, he, rfl⟩ := hlatest
  obtain ⟨d, hd, a, c, hclient, hconfidential⟩ := hfound
  cases happlication : s.applications.find id with
  | none =>
    refine .inr ⟨[], ⟨.read, s⟩, _, rfl, happlication, d, by simp [hd], a, ?_⟩
    exact (Store.find_of_findById hclient).1
  | some a' =>
    refine obeys_commit_bind (fun _ => ⟨id, actorUserId, rfl, h₃, rfl, rfl,
      ⟨d, by simp [hd], a, c, hclient, hconfidential⟩, ⟨⟨.read, s⟩, by simp, a', happlication, rfl⟩,
      e, by simp [he], rfl⟩) (fun t _ houtcome => ?_) fun t e houtcome => ?_
    · exact .inl ⟨_, _, _, rfl, rfl, houtcome⟩
    · exact .inr ⟨_, _, _, rfl, rfl, houtcome⟩

theorem rotation_rotateApplicationSecret (id : Id) (actorUserId : Option Id) :
    (rotateApplicationSecret id actorUserId).Obeys
      (Grounded (.rotateApplicationSecret id actorUserId)) (RotationEnds id) [] := by
  have herror : ∀ (log : SecretLog) (e : Failure), (∀ d ∈ log, d.operation.Silent) →
      RotationEnds id log (.error e : Except Failure RotatedSecret) := fun _ _ h => .inl h
  refine silent_then (by simp) (leaves_ask _) (by simp) (fun log₁ found hfound h₁ => ?_) herror
  refine silent_then (by simp) (leaves_orThrow _ _) h₁ (fun _ client hclient h₂ => ?_) herror
  obtain ⟨hclient, rfl⟩ := hclient
  refine silent_then (by simp) (leaves_require _ _) h₂ (fun _ _ hrequire h₃ => ?_) herror
  obtain ⟨hconfidential, rfl⟩ := hrequire
  refine silent_then (by simp) (leaves_true _) h₃ (fun log₂ clientSecret _ h₄ => ?_) herror
  refine silent_then (by simp) (leaves_true _) h₄ (fun log₃ secretId _ h₅ => ?_) herror
  obtain ⟨d, hd, rfl⟩ := hfound
  obtain ⟨a, c⟩ := client
  exact rotation_rotateSecret secretId clientSecret h₅
    ⟨d, by simp [hd], a, c, hclient, by simpa using hconfidential⟩

/-- A created Application gets its first secret if its client is confidential. -/
theorem grounded_createApplication (rules : Applications.UriRules) (input : CreateApplication)
    (checks : Except Failure Unit) (actorUserId : Option Id) :
    (createApplication rules input checks actorUserId).Obeys
      (Grounded (.createApplication rules input checks actorUserId)) (fun _ _ => True) [] := by
  have herror : ∀ (log : SecretLog) (e : Failure), (∀ d ∈ log, d.operation.Silent) → True :=
    fun _ _ _ => trivial
  have hinitial : ∀ isPublic, (initialSecret isPublic).Only Operation.Silent := by
    intro isPublic
    unfold initialSecret
    split <;> simp
  have hsecret : ∀ isPublic, (initialSecret isPublic).Leaves fun secret _ =>
      (secret = none ∧ isPublic = true) ∨ ∃ value, secret = some value := by
    intro isPublic
    unfold initialSecret
    split
    · rename_i hpublic
      exact .inl ⟨rfl, hpublic⟩
    · exact (leaves_true _).bind fun value _ _ => .inr ⟨value, rfl⟩
  refine silent_then (by simp) (leaves_true _) (by simp) (fun _ settings _ h₁ => ?_) herror
  refine silent_then (hinitial _) (hsecret _) h₁ (fun _ clientSecret hclient h₂ => ?_) herror
  refine silent_then (by simp) (leaves_true _) h₂ (fun _ _ _ h₃ => ?_) herror
  refine silent_then (by simp) (leaves_true _) h₃ (fun _ id _ h₄ => ?_) herror
  refine silent_then (by simp) (leaves_true _) h₄ (fun _ clientId _ h₅ => ?_) herror
  refine silent_then (by cases clientSecret <;> simp) (leaves_true _) h₅
    (fun _ secretId _ h₆ => ?_) herror
  refine silent_then (by simp) (leaves_true _) h₆ (fun _ now _ h₇ => ?_) herror
  refine obeys_commit_bind (fun _ => ⟨⟨rfl, ?_⟩, h₇⟩) (fun _ _ _ => trivial) fun _ _ _ => trivial
  rcases hclient with ⟨rfl, hpublic⟩ | ⟨value, rfl⟩
  · exact .inl ⟨rfl, hpublic⟩
  · exact .inr ⟨_, rfl, rfl, rfl, rfl, rfl⟩

theorem program_contract (call : Call) : call.program.Obeys (Grounded call) (Ended call) [] := by
  cases call with
  | createApplication rules input checks actorUserId =>
    refine Obeys.bind (grounded_createApplication rules input checks actorUserId)
      (fun _ _ _ _ => ?_) fun _ _ _ => ?_
    · exact fun _ _ hcall => nomatch hcall
    · exact fun _ _ hcall => nomatch hcall
  | rotateApplicationSecret id actorUserId =>
    refine Obeys.bind (rotation_rotateApplicationSecret id actorUserId)
      (fun log _ _ hends => ?_) fun log e hends => ?_
    · rintro _ _ ⟨⟩
      exact hends
    · rintro _ _ ⟨⟩
      exact hends
  | elapse milliseconds =>
    refine fun s => ⟨fun d hd => ?_, fun _ _ hcall => ?_⟩
    · cases hd
    · cases hcall

end Contract

section Runs

variable {pool : SecretPool} {t : Thread Call Store Operation Failure Reply} {i : ℕ}

theorem Store.Fresh.valid {s : Store} (h : s.Fresh) : s.Valid := by
  refine ⟨?_, ?_, ?_, ?_⟩ <;> simp [h.applications, h.secrets]

/-- A pending rotation has its Application and at most the next version. -/
theorem follows_of_pending (h : SecretReachable pool) {r : Rotation}
    (hpending : pool.pending i = some (t, .rotateSecret r)) : Follows pool.store r := by
  obtain ⟨ht, id, actorUserId, _, hrotates⟩ := h.pending_obeys program_contract hpending
  obtain rfl := hrotates.own
  obtain ⟨d, hd, a, ha, hclientId⟩ := hrotates.application
  obtain ⟨e, he, hversion⟩ := hrotates.version
  have hfound := (h.evolves_before precedes_evolution ht hd).applications _ a ha
  have hlatest := (h.evolves_before precedes_evolution ht he).latest r.secret.applicationId
  exact ⟨⟨a, hfound, hclientId⟩, by omega, by omega, hrotates.status⟩

theorem valid_of_reachable (h : SecretReachable pool) : pool.store.Valid := by
  refine h.keeps (fun _ => Store.Fresh.valid) fun pool i t op hpool _ hpending ih => ?_
  cases op with
  | read => exact ih
  | generateId => exact ⟨ih.clients, ih.ownClients, ih.secrets, fun a ha c hc hconfidential =>
      (ih.linear a ha c hc hconfidential).of_secretsOf rfl⟩
  | elapse milliseconds => exact ⟨ih.clients, ih.ownClients, ih.secrets,
      fun a ha c hc hconfidential => (ih.linear a ha c hc hconfidential).of_secretsOf rfl⟩
  | createApplication client application secret =>
    obtain ⟨_, hfirst, _⟩ := hpool.pending_obeys program_contract hpending
    change ((Repository.create client application secret).settle pool.store).Valid
    rcases hbatch : Repository.create client application secret pool.store with e | ⟨u, s⟩
    · rwa [Batch.settle_of_error hbatch]
    · rw [Batch.settle_of_ok hbatch]
      exact valid_create ih hfirst hbatch
  | rotateSecret r =>
    have hfollows := follows_of_pending hpool hpending
    change ((Repository.rotateSecret r).settle pool.store).Valid
    rcases hbatch : Repository.rotateSecret r pool.store with e | ⟨u, s⟩
    · rwa [Batch.settle_of_error hbatch]
    · rw [Batch.settle_of_ok hbatch]
      exact valid_rotate ih hfollows hbatch

/-- The Application of a pending rotation has linear secrets. -/
theorem linear_of_pending (h : SecretReachable pool) {r : Rotation}
    (hpending : pool.pending i = some (t, .rotateSecret r)) :
    ∃ a c, a.id = r.secret.applicationId ∧ pool.store.Linear a c := by
  obtain ⟨ht, id, actorUserId, _, hrotates⟩ := h.pending_obeys program_contract hpending
  obtain rfl := hrotates.own
  obtain ⟨d, hd, a, c, hfound, hconfidential⟩ := hrotates.confidential
  obtain ⟨ha, hc⟩ := Store.find_of_findById hfound
  have hprecedes := h.evolves_before precedes_evolution ht hd
  obtain ⟨hmem, hid⟩ := Keyed.find_eq_some.mp (hprecedes.applications _ a ha)
  obtain ⟨c', hc', hpublic⟩ := hprecedes.clients _ c hc
  exact ⟨a, c', hid, (valid_of_reachable h).linear a hmem c' hc' (hpublic.trans hconfidential)⟩

structure Store.OneCurrent (s : Store) (a : Application) (c : OAuthClient) : Prop where
  current : ∃ x ∈ s.secretsOf a.id, x.status = .active ∧ c.clientSecret = some x.secretHash ∧
    (∀ y ∈ s.secretsOf a.id, y.status = .active → y = x) ∧
    ∀ y ∈ s.secretsOf a.id, y.version ≤ x.version
  versions : ((s.secretsOf a.id).map (·.version)).Nodup

theorem Store.Linear.oneCurrent {s : Store} {a : Application} {c : OAuthClient}
    (h : s.Linear a c) : s.OneCurrent a c := by
  obtain ⟨earlier, last, hsecrets, hrevoked, hactive, hpublished⟩ := h.current
  refine ⟨⟨last, by simp [hsecrets], hactive, hpublished, fun y hy hstatus => ?_,
    fun y hy => ?_⟩, ?_⟩
  · rw [hsecrets] at hy
    rcases List.mem_append.mp hy with hy | hy
    · rw [hrevoked y hy] at hstatus
      cases hstatus
    · exact List.mem_singleton.mp hy
  · have hlength : (s.secretsOf a.id).length = earlier.length + 1 := by simp [hsecrets]
    have hlast : last.version = earlier.length + 1 := by
      have hversions := h.versions
      rw [hlength, hsecrets, List.map_append, List.range'_concat, List.map_singleton] at hversions
      have hends := (List.append_inj' hversions rfl).2
      simp only [List.cons.injEq] at hends
      omega
    have hle := version_le_latest hy
    rw [h.latestVersion, hlength] at hle
    omega
  · rw [h.versions]
    exact List.nodup_range'

structure Store.SameRows (s t : Store) : Prop where
  clients : t.clients = s.clients
  applications : t.applications = s.applications
  secrets : t.secrets = s.secrets

theorem sameRows_of_silent {op : Operation} (h : op.Silent) (s : Store) :
    s.SameRows (apply op s) := by
  cases op <;> first | exact ⟨rfl, rfl, rfl⟩ | exact h.elim

theorem apply_of_rotated {log : SecretLog} {e : Failure} (h : Rotated log (.error e)) :
    ∃ d earlier, log = d :: earlier ∧ apply d.operation d.before = d.before := by
  obtain ⟨d, earlier, r, hlog, hop, houtcome⟩ := h
  refine ⟨d, earlier, hlog, ?_⟩
  rw [hop]
  change (Repository.rotateSecret r).settle d.before = d.before
  unfold Batch.outcome at houtcome
  rcases hbatch : Repository.rotateSecret r d.before with e | ⟨u, s⟩
  · exact Batch.settle_of_error hbatch
  · rw [hbatch] at houtcome
    cases houtcome

/-- Nothing is performed after a rotation. -/
theorem not_grounded_after {call : Call} {log : SecretLog} {s : Store} {op : Operation}
    {d : Event Store Operation} {r : Rotation} (hd : d ∈ log)
    (hop : d.operation = .rotateSecret r) : ¬Grounded call log s op := by
  intro hgrounded
  have hnot : ¬d.operation.Silent := by
    rw [hop]
    exact id
  cases op with
  | createApplication client application secret => exact hnot (hgrounded.2 d hd)
  | rotateSecret r' =>
    obtain ⟨_, _, _, hrotates⟩ := hgrounded
    exact hnot (hrotates.silent d hd)
  | _ => exact hgrounded d hd r hop

/-- A rotation is the last operation of its call, and all before it were silent. -/
theorem log_of_rotation (h : SecretReachable pool) (ht : t ∈ pool.threads)
    {d : Event Store Operation} (hd : d ∈ t.log) {r : Rotation}
    (hop : d.operation = .rotateSecret r) :
    ∃ earlier, t.log = d :: earlier ∧ ∀ e ∈ earlier, e.operation.Silent := by
  have hlogged := h.logged program_contract ht
  obtain ⟨earlier, later, hlog, hgrounded⟩ := hlogged.of_mem hd
  rw [hop] at hgrounded
  obtain ⟨_, _, _, hrotates⟩ := hgrounded
  cases later with
  | nil => exact ⟨earlier, hlog, hrotates.silent⟩
  | cons e later =>
    rw [hlog] at hlogged
    exact absurd hlogged.1 (not_grounded_after (by simp) hop)

theorem ended_of_rotation (h : SecretReachable pool) (ht : t ∈ pool.threads)
    {d : Event Store Operation} (hd : d ∈ t.log) {r : Rotation}
    (hop : d.operation = .rotateSecret r) :
    (∃ reply, t.rest = .done reply) ∨ ∃ e, t.rest = .fail e := by
  have hleft := (h.obeys program_contract t ht).2
  cases hrest : t.rest with
  | done reply => exact .inl ⟨reply, rfl⟩
  | fail e => exact .inr ⟨e, rfl⟩
  | step op next =>
    rw [hrest] at hleft
    exact absurd (hleft pool.store).1 (not_grounded_after hd hop)

/-- A rotation that throws has changed no row. -/
theorem sameRows_of_failed (h : SecretReachable pool) (ht : t ∈ pool.threads) {id : Id}
    {actorUserId : Option Id} (hcall : t.call = .rotateApplicationSecret id actorUserId)
    {e : Failure} (hfail : t.rest = .fail e) :
    ∀ d ∈ t.log, d.before.SameRows (apply d.operation d.before) := by
  have hended : t.rest.result = some (.error e) := by
    rw [hfail]
    rfl
  rcases h.ended program_contract ht hended id actorUserId hcall with hsilent | hrotated
  · exact fun d hd => sameRows_of_silent (hsilent d hd) d.before
  · obtain ⟨d', earlier', hlog', hsame⟩ := apply_of_rotated hrotated
    obtain ⟨d, earlier, r, hlog, hop, _⟩ := hrotated
    obtain ⟨rfl, rfl⟩ := List.cons.inj (hlog.symm.trans hlog')
    obtain ⟨_, hlog'', hsilent⟩ := log_of_rotation h ht (hlog ▸ List.mem_cons_self) hop
    obtain ⟨-, rfl⟩ := List.cons.inj (hlog.symm.trans hlog'')
    intro d' hd'
    rcases List.mem_cons.mp (hlog ▸ hd') with rfl | hd'
    · rw [hsame]
      exact ⟨rfl, rfl, rfl⟩
    · exact sameRows_of_silent (hsilent d' hd') d'.before

structure AddsNext (id : Id) (d : Event Store Operation) (r : Rotation) : Prop where
  operation : d.operation = .rotateSecret r
  own : r.secret.applicationId = id
  version : r.secret.version = d.before.latestVersion id + 1
  latest : (apply d.operation d.before).latestVersion id = d.before.latestVersion id + 1

theorem addsNext_of_rotated (h : SecretReachable pool) (ht : t ∈ pool.threads) {id : Id}
    {actorUserId : Option Id} (hcall : t.call = .rotateApplicationSecret id actorUserId)
    (hrotated : Rotated t.log (.ok ())) :
    ∃ d earlier r, t.log = d :: earlier ∧ AddsNext id d r := by
  obtain ⟨d, earlier, r, hlog, hop, houtcome⟩ := hrotated
  obtain ⟨pool₀, i, t₀, after, hpool₀, _, hi, hcall₀, rfl, hrest, hstore, _⟩ :=
    h.of_log ht (show t.log = [] ++ d :: earlier from hlog)
  rw [hop] at hrest
  have hpending := Pool.pending_of_step hi hrest
  obtain ⟨_, id', actorUserId', hcall', hrotates⟩ :=
    hpool₀.pending_obeys program_contract hpending
  obtain rfl : id' = id := by
    rw [hcall₀, hcall] at hcall'
    cases hcall'
    rfl
  obtain ⟨a, c, hid, hlinear⟩ := linear_of_pending hpool₀ hpending
  have hfollows := follows_of_pending hpool₀ hpending
  have hbatch := Batch.outcome_eq_ok houtcome
  rw [hstore] at hlinear hfollows
  have hafter := linear_rotated hfollows hlinear hid hbatch
  have hversion := version_of_rotated hfollows hlinear hid hbatch
  rw [hrotates.own] at hid hversion
  refine ⟨d, t₀.log, r, hlog, hop, hrotates.own, hversion, ?_⟩
  rw [hop]
  change ((Repository.rotateSecret r).settle d.before).latestVersion id' = _
  rw [← hid, hafter.latestVersion, hlinear.latestVersion, secretsOf_rotated hbatch,
    List.length_append, List.length_map, if_pos (hrotates.own.trans hid.symm),
    List.length_singleton]

/-- No Application vanishes. -/
theorem not_vanished (h : SecretReachable pool) (ht : t ∈ pool.threads) {id : Id} :
    ¬Vanished id t.log := by
  rintro ⟨later, d, earlier, hlog, hnone, e, he, a, hfound⟩
  have hprecedes : (apply e.operation e.before).Precedes d.before :=
    h.evolves_between precedes_evolution ht hlog he
  have hstill := hprecedes.applications id a
    ((precedes_perform e.operation e.before).applications id a hfound)
  rw [hnone] at hstill
  cases hstill

/-- In every run the secrets of each confidential Application stay linear, a rotation that returns
has stored the next version, one that throws has changed no row, and one that finds its version
taken throws. -/
theorem rotation_linear (h : SecretReachable pool) :
    (∀ a ∈ pool.store.applications.rows, ∃ c, pool.store.clients.find a.oauthClientId = some c ∧
      (c.isPublic = false → pool.store.OneCurrent a c)) ∧
    ∀ t ∈ pool.threads, ∀ id actorUserId, t.call = .rotateApplicationSecret id actorUserId →
      (∀ reply, t.rest = .done reply →
        ∃ d earlier r, t.log = d :: earlier ∧ AddsNext id d r) ∧
      (∀ e, t.rest = .fail e → ∀ d ∈ t.log, d.before.SameRows (apply d.operation d.before)) ∧
      ∀ d ∈ t.log, ∀ r, d.operation = .rotateSecret r →
        r.secret.version ≤ d.before.latestVersion id → ∃ e, t.rest = .fail e := by
  refine ⟨fun a ha => ?_, fun t ht id actorUserId hcall => ?_⟩
  · have hvalid := valid_of_reachable h
    obtain ⟨c, hc⟩ := hvalid.clients a ha
    exact ⟨c, hc, fun hconfidential => (hvalid.linear a ha c hc hconfidential).oneCurrent⟩
  have hreturned : ∀ reply, t.rest = .done reply →
      ∃ d earlier r, t.log = d :: earlier ∧ AddsNext id d r := by
    intro reply hdone
    rcases h.returned program_contract ht hdone id actorUserId hcall with hrotated | hvanished
    · exact addsNext_of_rotated h ht hcall hrotated
    · exact absurd hvanished (not_vanished h ht)
  refine ⟨hreturned, fun e hfail => sameRows_of_failed h ht hcall hfail,
    fun d hd r hop htaken => ?_⟩
  rcases ended_of_rotation h ht hd hop with ⟨reply, hdone⟩ | hfail
  · obtain ⟨d', earlier, r', hlog, hnext⟩ := hreturned reply hdone
    obtain ⟨_, hlog', _⟩ := log_of_rotation h ht hd hop
    obtain ⟨rfl, -⟩ := List.cons.inj (hlog.symm.trans hlog')
    have hsame := hnext.operation.symm.trans hop
    obtain rfl : r' = r := by
      cases hsame
      rfl
    have hversion := hnext.version
    omega
  · exact hfail

end Runs

section Samples

def emptyStore : Store := ⟨0, 0, .empty _, .empty _, .empty _⟩

theorem emptyStore_fresh : emptyStore.Fresh := ⟨rfl, rfl, rfl⟩

/-- A machine Application is created, and two rotations read its latest version before either of
them writes. -/
def racingRotations : List (Move Call) :=
  .start (.createApplication ⟨fun _ _ _ => .ok (), fun _ => .ok ()⟩
      ⟨"robot", .machine, [], false, false⟩ (.ok ()) none) :: List.replicate 6 (.resume 0) ++
    [.start (.rotateApplicationSecret "id-1" none),
      .start (.rotateApplicationSecret "id-1" none)] ++
    List.replicate 6 (.resume 1) ++ List.replicate 7 (.resume 2) ++ [.resume 1]

def racingPool : Option SecretPool :=
  (Pool.initial emptyStore).run Call.program (fun _ _ => true) racingRotations

/-- A rotation that threw, and a confidential Application. -/
def raceLost (pool : SecretPool) : Bool :=
  pool.threads.any (fun t => match t.call, t.rest with
    | .rotateApplicationSecret _ _, .fail _ => true
    | _, _ => false) &&
  pool.store.clients.rows.any fun c => !c.isPublic

/-- The rotation that wrote second lost the race. -/
theorem rotation_linear_sample : ∃ pool : SecretPool, raceLost pool = true ∧
    (∀ a ∈ pool.store.applications.rows, ∃ c, pool.store.clients.find a.oauthClientId = some c ∧
      (c.isPublic = false → pool.store.OneCurrent a c)) ∧
    ∀ t ∈ pool.threads, ∀ id actorUserId, t.call = .rotateApplicationSecret id actorUserId →
      (∀ reply, t.rest = .done reply →
        ∃ d earlier r, t.log = d :: earlier ∧ AddsNext id d r) ∧
      (∀ e, t.rest = .fail e → ∀ d ∈ t.log, d.before.SameRows (apply d.operation d.before)) ∧
      ∀ d ∈ t.log, ∀ r, d.operation = .rotateSecret r →
        r.secret.version ≤ d.before.latestVersion id → ∃ e, t.rest = .fail e := by
  have hrun : racingPool.any raceLost = true := by decide +kernel
  obtain ⟨pool, hpool, hcheck⟩ := (Option.any_eq_true _ _).mp hrun
  have hreach : SecretReachable pool :=
    Reachable.of_run (fun _ _ _ => trivial) (.initial emptyStore_fresh) hpool
  exact ⟨pool, hcheck, rotation_linear hreach⟩

end Samples

end FlareAuth.ClientSecrets
