import FlareAuth.ClientSecrets

/-!
# Client secret rotation is linear

The secrets of a confidential Application are numbered from 1 on, the last one is
active and published with its client, and the others are revoked. A rotation
that computed its version from an earlier latest secret finds the version taken,
and its batch fails as a whole.
-/

namespace FlareAuth.ClientSecrets

open Concurrent Relational Procedure
open FlareAuth.ClientSecrets.Repository

section Versions

theorem foldr_max_range' (n : ℕ) : (List.range' 1 n).foldr max 0 = n := by
  refine Nat.le_antisymm (foldr_max_le.mpr fun x hx => ?_) ?_
  · rw [List.mem_range'_1] at hx
    omega
  · cases n with
    | zero => exact Nat.zero_le _
    | succ n =>
      refine foldr_max_le.mp le_rfl (n + 1) ?_
      rw [List.mem_range'_1]
      omega

variable {s t : Store} {id : Id}

theorem latestVersion_le {m : ℕ} :
    s.latestVersion id ≤ m ↔ ∀ x ∈ s.secretsOf id, x.version ≤ m := by
  rw [Store.latestVersion, foldr_max_le]
  simp

theorem version_le_latest {x : ClientSecret} (h : x ∈ s.secretsOf id) :
    x.version ≤ s.latestVersion id := latestVersion_le.mp le_rfl x h

theorem mem_secretsOf {x : ClientSecret} :
    x ∈ s.secretsOf id ↔ x ∈ s.secrets.rows ∧ x.applicationId = id := by
  simp [Store.secretsOf]

end Versions

/-- The secrets of an Application as they follow one another: the last one is current. -/
structure Store.Linear (s : Store) (a : Application) (c : OAuthClient) : Prop where
  versions : (s.secretsOf a.id).map (·.version) = List.range' 1 (s.secretsOf a.id).length
  current : ∃ earlier last, s.secretsOf a.id = earlier ++ [last] ∧
    (∀ x ∈ earlier, x.status = .revoked) ∧ last.status = .active ∧
    c.clientSecret = some last.secretHash

theorem Store.Linear.latestVersion {s : Store} {a : Application} {c : OAuthClient}
    (h : s.Linear a c) : s.latestVersion a.id = (s.secretsOf a.id).length := by
  rw [Store.latestVersion, h.versions, foldr_max_range']

/-- Any version up to the latest one is taken. -/
theorem Store.Linear.taken {s : Store} {a : Application} {c : OAuthClient} (h : s.Linear a c)
    {version : ℕ} (hpos : 0 < version) (hle : version ≤ s.latestVersion a.id) :
    ∃ x ∈ s.secretsOf a.id, x.version = version := by
  have hmem : version ∈ (s.secretsOf a.id).map (·.version) := by
    rw [h.versions, List.mem_range'_1]
    rw [h.latestVersion] at hle
    omega
  exact List.mem_map.mp hmem

section Statements

variable {s t : Store} {u : Unit}

theorem insertSecret_eq_ok {x : ClientSecret} (h : insertSecret x s = .ok (u, t)) :
    ∃ secrets, s.secrets.insert? x = some secrets ∧ t = { s with secrets := secrets } ∧
      (∃ a, s.applications.find x.applicationId = some a) ∧
      ∀ y ∈ s.secretsOf x.applicationId, y.version ≠ x.version := by
  unfold insertSecret at h
  split at h
  · cases h
  rename_i happlication
  split at h
  · cases h
  rename_i hversion
  split at h
  · rename_i secrets hsecrets
    cases h
    refine ⟨secrets, hsecrets, rfl, ?_, fun y hy heq => hversion ?_⟩
    · exact Option.isSome_iff_exists.mp (by simpa [Option.isSome_iff_ne_none] using happlication)
    · obtain ⟨hy, happ⟩ := mem_secretsOf.mp hy
      exact List.any_eq_true.mpr ⟨y, hy, by simp [happ, heq]⟩
  · cases h

theorem insertApplication_eq_ok {client : OAuthClient} {application : Application}
    (h : insertApplication client application s = .ok (u, t)) :
    ∃ clients applications, s.clients.insert? client = some clients ∧
      s.applications.insert? application = some applications ∧
      t = { s with clients := clients, applications := applications } ∧
      ∀ a ∈ s.applications.rows, a.oauthClientId ≠ application.oauthClientId := by
  unfold insertApplication at h
  split at h
  · cases h
  rename_i hnew
  split at h
  · rename_i clients applications hclients happlications
    cases h
    refine ⟨clients, applications, hclients, happlications, rfl, fun a ha heq => hnew ?_⟩
    exact List.any_eq_true.mpr ⟨a, ha, by simp [heq]⟩
  · cases h

def Store.revoked (s : Store) (applicationId : Id) (now : ℕ) : Store :=
  { s with
    secrets := s.secrets.update (fun x => x.applicationId == applicationId && x.status == .active)
      (ClientSecret.revoke now) (ClientSecret.revoke_id now) }

def Store.published (s : Store) (oauthClientId : String) (secretHash : Digest String) : Store :=
  { s with
    clients := s.clients.update (fun c => c.clientId == oauthClientId)
      (OAuthClient.publish secretHash) (OAuthClient.publish_clientId secretHash) }

/-- A rotation that takes effect is its three statements. -/
theorem rotateSecret_eq_ok {r : Rotation} (h : Repository.rotateSecret r s = .ok (u, t)) :
    ∃ secrets, (s.revoked r.secret.applicationId r.now).secrets.insert? r.secret = some secrets ∧
      t = ({ s with secrets := secrets }).published r.oauthClientId r.secret.secretHash ∧
      (∃ a, s.applications.find r.secret.applicationId = some a) ∧
      ∀ y ∈ (s.revoked r.secret.applicationId r.now).secretsOf r.secret.applicationId,
        y.version ≠ r.secret.version := by
  obtain ⟨_, mid, hrevoke, hrest⟩ := Batch.bind_eq_ok.mp h
  obtain rfl : s.revoked r.secret.applicationId r.now = mid := by cases hrevoke; rfl
  obtain ⟨_, mid', hinsert, hpublish⟩ := Batch.bind_eq_ok.mp hrest
  obtain ⟨secrets, hsecrets, rfl, happlication, hversions⟩ := insertSecret_eq_ok hinsert
  refine ⟨secrets, hsecrets, ?_, happlication, hversions⟩
  cases hpublish
  rfl

end Statements

section Secrets

variable {s : Store} {id : Id}

def ClientSecret.revokedBy (applicationId : Id) (now : ℕ) (x : ClientSecret) : ClientSecret :=
  if x.applicationId == applicationId && x.status == .active then x.revoke now else x

@[simp] theorem ClientSecret.revokedBy_applicationId (applicationId : Id) (now : ℕ)
    (x : ClientSecret) : (x.revokedBy applicationId now).applicationId = x.applicationId := by
  unfold ClientSecret.revokedBy
  split <;> rfl

@[simp] theorem ClientSecret.revokedBy_version (applicationId : Id) (now : ℕ) (x : ClientSecret) :
    (x.revokedBy applicationId now).version = x.version := by
  unfold ClientSecret.revokedBy
  split <;> rfl

theorem ClientSecret.revokedBy_of_ne {applicationId : Id} {now : ℕ} {x : ClientSecret}
    (h : x.applicationId ≠ applicationId) : x.revokedBy applicationId now = x := by
  simp [ClientSecret.revokedBy, h]

theorem ClientSecret.status_revokedBy {applicationId : Id} {now : ℕ} {x : ClientSecret}
    (h : x.applicationId = applicationId) : (x.revokedBy applicationId now).status = .revoked := by
  unfold ClientSecret.revokedBy
  split
  · rfl
  · rename_i hnot
    cases hstatus : x.status with
    | active => exact absurd (by simp [h, hstatus]) hnot
    | revoked => rfl

theorem secretsOf_revoked (applicationId : Id) (now : ℕ) :
    (s.revoked applicationId now).secretsOf id =
      (s.secretsOf id).map (ClientSecret.revokedBy applicationId now) := by
  change ((s.secrets.rows.map (ClientSecret.revokedBy applicationId now)).filter _) = _
  rw [List.filter_map]
  simp only [Function.comp_def, ClientSecret.revokedBy_applicationId]
  rfl

theorem secretsOf_revoked_of_ne {applicationId : Id} (now : ℕ) (h : id ≠ applicationId) :
    (s.revoked applicationId now).secretsOf id = s.secretsOf id := by
  rw [secretsOf_revoked]
  refine (List.map_congr_left fun x hx => ?_).trans (List.map_id _)
  exact ClientSecret.revokedBy_of_ne ((mem_secretsOf.mp hx).2 ▸ h)

theorem secretsOf_insert {x : ClientSecret} {secrets : Keyed ClientSecret.id}
    (h : s.secrets.insert? x = some secrets) :
    ({ s with secrets := secrets }).secretsOf id =
      s.secretsOf id ++ if x.applicationId = id then [x] else [] := by
  rw [Store.secretsOf, (Keyed.insert?_eq_some h).1, List.filter_append]
  congr 1
  by_cases hid : x.applicationId = id <;> simp [hid]

theorem secretsOf_published (oauthClientId : String) (secretHash : Digest String) :
    (s.published oauthClientId secretHash).secretsOf id = s.secretsOf id := rfl

theorem secretsOf_rotated {r : Rotation} {t : Store} {u : Unit}
    (h : Repository.rotateSecret r s = .ok (u, t)) :
    t.secretsOf id = (s.secretsOf id).map (ClientSecret.revokedBy r.secret.applicationId r.now) ++
      if r.secret.applicationId = id then [r.secret] else [] := by
  obtain ⟨secrets, hsecrets, rfl, _, _⟩ := rotateSecret_eq_ok h
  rw [secretsOf_published, ← secretsOf_revoked]
  exact secretsOf_insert hsecrets

end Secrets

theorem find_published (s : Store) (oauthClientId : String) (secretHash : Digest String)
    (clientId : String) :
    (s.published oauthClientId secretHash).clients.find clientId =
      (s.clients.find clientId).map fun c =>
        if c.clientId == oauthClientId then c.publish secretHash else c :=
  Keyed.find_update (OAuthClient.publish_clientId secretHash)

section Evolution

/-- Applications and their clients stay, and versions only grow. -/
structure Store.Precedes (s t : Store) : Prop where
  applications : ∀ id a, s.applications.find id = some a → t.applications.find id = some a
  clients : ∀ clientId c, s.clients.find clientId = some c →
    ∃ c', t.clients.find clientId = some c' ∧ c'.isPublic = c.isPublic
  latest : ∀ id, s.latestVersion id ≤ t.latestVersion id

theorem Store.Precedes.refl (s : Store) : s.Precedes s :=
  ⟨fun _ _ h => h, fun _ c h => ⟨c, h, rfl⟩, fun _ => le_rfl⟩

theorem Store.Precedes.trans {s t u : Store} (h : s.Precedes t) (h' : t.Precedes u) :
    s.Precedes u := by
  refine ⟨fun id a ha => h'.applications id a (h.applications id a ha), fun clientId c hc => ?_,
    fun id => (h.latest id).trans (h'.latest id)⟩
  obtain ⟨c', hc', hpublic⟩ := h.clients clientId c hc
  obtain ⟨c'', hc'', hpublic'⟩ := h'.clients clientId c' hc'
  exact ⟨c'', hc'', hpublic'.trans hpublic⟩

theorem precedes_insertSecret (x : ClientSecret) :
    Batch.Within Store.Precedes (insertSecret x) := by
  intro s u t h
  obtain ⟨secrets, hsecrets, rfl, _, _⟩ := insertSecret_eq_ok h
  refine ⟨fun _ _ ha => ha, fun _ c hc => ⟨c, hc, rfl⟩, fun id =>
    latestVersion_le.mpr fun y hy => ?_⟩
  refine version_le_latest ?_
  rw [secretsOf_insert hsecrets]
  exact List.mem_append_left _ hy

theorem precedes_insertApplication (client : OAuthClient) (application : Application) :
    Batch.Within Store.Precedes (insertApplication client application) := by
  intro s u t h
  obtain ⟨clients, applications, hclients, happlications, rfl, _⟩ := insertApplication_eq_ok h
  exact ⟨fun _ _ ha => Keyed.find_insert?_of_some happlications ha,
    fun _ c hc => ⟨c, Keyed.find_insert?_of_some hclients hc, rfl⟩, fun _ => le_rfl⟩

theorem precedes_create (client : OAuthClient) (application : Application)
    (secret : Option ClientSecret) :
    Batch.Within Store.Precedes (create client application secret) := by
  refine .bind (fun _ _ _ => .trans) (precedes_insertApplication client application) fun _ => ?_
  cases secret with
  | none => exact .pure .refl _
  | some x => exact precedes_insertSecret x

theorem precedes_rotateSecret (r : Rotation) :
    Batch.Within Store.Precedes (Repository.rotateSecret r) := by
  intro s u t h
  obtain ⟨secrets, _, rfl, _, _⟩ := rotateSecret_eq_ok h
  refine ⟨fun _ _ ha => ha, fun clientId c hc => ?_, fun id => latestVersion_le.mpr fun x hx => ?_⟩
  · refine ⟨_, by rw [find_published, hc, Option.map_some], ?_⟩
    split <;> rfl
  · have hmem : x.revokedBy r.secret.applicationId r.now ∈
        (({ s with secrets := secrets }).published r.oauthClientId r.secret.secretHash).secretsOf
          id := by
      rw [secretsOf_rotated h]
      exact List.mem_append_left _ (List.mem_map_of_mem hx)
    have hle := version_le_latest hmem
    rwa [ClientSecret.revokedBy_version] at hle

theorem precedes_perform (op : Operation) (s : Store) : s.Precedes (op.perform s) := by
  cases op with
  | createApplication client application secret =>
    exact (precedes_create client application secret).settle .refl s
  | rotateSecret r => exact (precedes_rotateSecret r).settle .refl s
  | read => exact .refl s
  | generateId => exact ⟨fun _ _ h => h, fun _ c h => ⟨c, h, rfl⟩, fun _ => le_rfl⟩
  | elapse milliseconds => exact ⟨fun _ _ h => h, fun _ c h => ⟨c, h, rfl⟩, fun _ => le_rfl⟩

theorem precedes_evolution : Evolution Operation Store.Precedes :=
  ⟨.refl, fun _ _ _ => .trans, precedes_perform⟩

end Evolution

section Invariant

/-- Each Application has a client of its own and, if that is confidential, linear secrets. -/
structure Store.Valid (s : Store) : Prop where
  clients : ∀ a ∈ s.applications.rows, ∃ c, s.clients.find a.oauthClientId = some c
  ownClients : (s.applications.rows.map (·.oauthClientId)).Nodup
  secrets : ∀ x ∈ s.secrets.rows, ∃ a, s.applications.find x.applicationId = some a
  linear : ∀ a ∈ s.applications.rows, ∀ c, s.clients.find a.oauthClientId = some c →
    c.isPublic = false → s.Linear a c

structure FirstSecret (client : OAuthClient) (application : Application)
    (secret : Option ClientSecret) : Prop where
  clientId : client.clientId = application.oauthClientId
  secret : (secret = none ∧ client.isPublic = true) ∨ ∃ x, secret = some x ∧
    x.applicationId = application.id ∧ x.version = 1 ∧ x.status = .active ∧
    client.clientSecret = some x.secretHash

theorem Store.Linear.of_secretsOf {s t : Store} {a : Application} {c : OAuthClient}
    (h : s.Linear a c) (hsame : t.secretsOf a.id = s.secretsOf a.id) : t.Linear a c := by
  refine ⟨by rw [hsame]; exact h.versions, ?_⟩
  rw [hsame]
  exact h.current

theorem linear_first {t : Store} {a : Application} {c : OAuthClient} {x : ClientSecret}
    (hsecrets : t.secretsOf a.id = [x]) (hversion : x.version = 1) (hstatus : x.status = .active)
    (hclient : c.clientSecret = some x.secretHash) : t.Linear a c := by
  refine ⟨by simp [hsecrets, hversion], [], x, hsecrets, by simp, hstatus, hclient⟩

/-- No secret is there before its Application. -/
theorem Store.Valid.secretsOf_eq_nil {s : Store} (h : s.Valid) {id : Id}
    (hnew : s.applications.find id = none) : s.secretsOf id = [] := by
  refine List.eq_nil_iff_forall_not_mem.mpr fun x hx => ?_
  obtain ⟨hx, hid⟩ := mem_secretsOf.mp hx
  obtain ⟨a, ha⟩ := h.secrets x hx
  rw [hid, hnew] at ha
  cases ha

/-- All is valid, but for the secret of an Application that has just been inserted. -/
structure Store.Begun (s : Store) (application : Application) (client : OAuthClient) : Prop where
  clients : ∀ a ∈ s.applications.rows, ∃ c, s.clients.find a.oauthClientId = some c
  ownClients : (s.applications.rows.map (·.oauthClientId)).Nodup
  secrets : ∀ x ∈ s.secrets.rows, ∃ a, s.applications.find x.applicationId = some a
  linear : ∀ a ∈ s.applications.rows, a ≠ application → ∀ c,
    s.clients.find a.oauthClientId = some c → c.isPublic = false → s.Linear a c
  secretsOf : s.secretsOf application.id = []
  client : s.clients.find application.oauthClientId = some client
  application : s.applications.find application.id = some application

theorem begun_insertApplication {s t : Store} {u : Unit} (hs : s.Valid) {client : OAuthClient}
    {application : Application} (hclient : client.clientId = application.oauthClientId)
    (h : insertApplication client application s = .ok (u, t)) : t.Begun application client := by
  have hprecedes := precedes_insertApplication client application s u t h
  obtain ⟨clients, applications, hclients, happlications, rfl, hown⟩ := insertApplication_eq_ok h
  have hrows : applications.rows = s.applications.rows ++ [application] :=
    (Keyed.insert?_eq_some happlications).1
  have hfound : clients.find application.oauthClientId = some client :=
    hclient ▸ Keyed.find_insert?_self hclients
  have hnone : s.applications.find application.id = none :=
    Keyed.find_eq_none.mpr (Keyed.insert?_eq_some happlications).2
  refine ⟨fun a ha => ?_, ?_, fun x hx => ?_, fun a ha hne c hc hconfidential => ?_,
    hs.secretsOf_eq_nil hnone, hfound, Keyed.find_insert?_self happlications⟩
  · rcases List.mem_append.mp (hrows ▸ ha) with ha | ha
    · obtain ⟨c, hc⟩ := hs.clients a ha
      exact ⟨c, Keyed.find_insert?_of_some hclients hc⟩
    · obtain rfl := List.mem_singleton.mp ha
      exact ⟨client, hfound⟩
  · change (applications.rows.map (·.oauthClientId)).Nodup
    rw [hrows]
    exact nodup_map_append_singleton hs.ownClients hown
  · obtain ⟨a, ha⟩ := hs.secrets x hx
    exact ⟨a, hprecedes.applications _ a ha⟩
  · rcases List.mem_append.mp (hrows ▸ ha) with ha | ha
    · obtain ⟨c₀, hc₀⟩ := hs.clients a ha
      obtain rfl : c₀ = c :=
        Option.some.inj ((Keyed.find_insert?_of_some hclients hc₀).symm.trans hc)
      exact (hs.linear a ha c₀ hc₀ hconfidential).of_secretsOf rfl
    · exact absurd (List.mem_singleton.mp ha) hne

/-- The first secret completes what the insert of its Application has begun. -/
theorem valid_insertSecret {s t : Store} {u : Unit} {application : Application}
    {client : OAuthClient} (hs : s.Begun application client) {x : ClientSecret}
    (hown : x.applicationId = application.id) (hversion : x.version = 1)
    (hstatus : x.status = .active) (hhash : client.clientSecret = some x.secretHash)
    (h : insertSecret x s = .ok (u, t)) : t.Valid := by
  obtain ⟨secrets, hsecrets, rfl, happlication, _⟩ := insertSecret_eq_ok h
  have hrows : secrets.rows = s.secrets.rows ++ [x] := (Keyed.insert?_eq_some hsecrets).1
  refine ⟨hs.clients, hs.ownClients, fun y hy => ?_, fun a ha c hc hconfidential => ?_⟩
  · rcases List.mem_append.mp (hrows ▸ hy) with hy | hy
    · exact hs.secrets y hy
    · obtain rfl := List.mem_singleton.mp hy
      exact happlication
  · by_cases hid : a = application
    · subst hid
      obtain rfl : client = c := Option.some.inj (hs.client.symm.trans hc)
      refine linear_first ?_ hversion hstatus hhash
      rw [secretsOf_insert hsecrets, hs.secretsOf, if_pos hown, List.nil_append]
    · refine (hs.linear a ha hid c hc hconfidential).of_secretsOf ?_
      have hne : x.applicationId ≠ a.id := by
        intro heq
        have hfound := Keyed.find_eq_some.mpr ⟨ha, heq.symm.trans hown⟩
        exact hid (Option.some.inj (hfound.symm.trans hs.application))
      rw [secretsOf_insert hsecrets, if_neg hne, List.append_nil]

theorem valid_create {s t : Store} {u : Unit} (hs : s.Valid) {client : OAuthClient}
    {application : Application} {secret : Option ClientSecret}
    (hfirst : FirstSecret client application secret)
    (h : create client application secret s = .ok (u, t)) : t.Valid := by
  obtain ⟨_, mid, hinsert, hrest⟩ := Batch.bind_eq_ok.mp h
  have hbegun := begun_insertApplication hs hfirst.clientId hinsert
  rcases hfirst.secret with ⟨rfl, hpublic⟩ | ⟨x, rfl, hown, hversion, hstatus, hhash⟩
  · cases hrest
    refine ⟨hbegun.clients, hbegun.ownClients, hbegun.secrets, fun a ha c hc hconfidential => ?_⟩
    by_cases hid : a = application
    · subst hid
      obtain rfl : client = c := Option.some.inj (hbegun.client.symm.trans hc)
      rw [hpublic] at hconfidential
      cases hconfidential
    · exact hbegun.linear a ha hid c hc hconfidential
  · exact valid_insertSecret hbegun hown hversion hstatus hhash hrest

/-- The rotation of a valid store: its Application, the next version and the client's identifier. -/
structure Follows (s : Store) (r : Rotation) : Prop where
  application : ∃ a, s.applications.find r.secret.applicationId = some a ∧
    r.oauthClientId = a.oauthClientId
  positive : 0 < r.secret.version
  version : r.secret.version ≤ s.latestVersion r.secret.applicationId + 1
  status : r.secret.status = .active

/-- A rotation that takes effect has the version after the latest one. -/
theorem version_of_rotated {s t : Store} {u : Unit} {r : Rotation} {a : Application}
    {c : OAuthClient} (hfollows : Follows s r) (hlinear : s.Linear a c)
    (hid : a.id = r.secret.applicationId) (h : Repository.rotateSecret r s = .ok (u, t)) :
    r.secret.version = s.latestVersion r.secret.applicationId + 1 := by
  obtain ⟨_, _, _, _, hfree⟩ := rotateSecret_eq_ok h
  have hle := hfollows.version
  by_contra hne
  have hold : r.secret.version ≤ s.latestVersion a.id := by
    rw [hid]
    omega
  obtain ⟨x, hx, hversion⟩ := hlinear.taken hfollows.positive hold
  refine hfree (x.revokedBy r.secret.applicationId r.now) ?_ ?_
  · rw [secretsOf_revoked, ← hid]
    exact List.mem_map_of_mem hx
  · rw [ClientSecret.revokedBy_version, hversion]

theorem linear_rotated {s t : Store} {u : Unit} {r : Rotation} {a : Application} {c : OAuthClient}
    (hfollows : Follows s r) (hlinear : s.Linear a c) (hid : a.id = r.secret.applicationId)
    (h : Repository.rotateSecret r s = .ok (u, t)) :
    t.Linear a (c.publish r.secret.secretHash) := by
  have hversion := version_of_rotated hfollows hlinear hid h
  have hsecrets : t.secretsOf a.id =
      (s.secretsOf a.id).map (ClientSecret.revokedBy a.id r.now) ++ [r.secret] := by
    rw [secretsOf_rotated h, ← hid, if_pos rfl]
  constructor
  · rw [hsecrets, List.map_append, List.map_map, List.length_append, List.length_map,
      List.length_singleton, List.range'_concat]
    have hmap : (s.secretsOf a.id).map ((·.version) ∘ ClientSecret.revokedBy a.id r.now) =
        (s.secretsOf a.id).map (·.version) :=
      List.map_congr_left fun x _ => ClientSecret.revokedBy_version _ _ _
    rw [hmap, hlinear.versions, List.map_singleton, hversion, ← hid, hlinear.latestVersion]
    congr 2
    omega
  · refine ⟨_, r.secret, hsecrets, fun x hx => ?_, hfollows.status, rfl⟩
    obtain ⟨y, hy, rfl⟩ := List.mem_map.mp hx
    exact ClientSecret.status_revokedBy (mem_secretsOf.mp hy).2

theorem valid_rotate {s t : Store} {u : Unit} (hs : s.Valid) {r : Rotation}
    (hfollows : Follows s r) (h : Repository.rotateSecret r s = .ok (u, t)) : t.Valid := by
  have hprecedes := precedes_rotateSecret r s u t h
  have hlinear := @linear_rotated s t u r
  have hsecretsOf : ∀ id, t.secretsOf id = _ := fun id => secretsOf_rotated h
  obtain ⟨a₀, ha₀, hclientId⟩ := hfollows.application
  obtain ⟨hmem₀, hid₀⟩ := Keyed.find_eq_some.mp ha₀
  obtain ⟨secrets, hsecrets, rfl, happlication, _⟩ := rotateSecret_eq_ok h
  have hrows : secrets.rows =
      (s.revoked r.secret.applicationId r.now).secrets.rows ++ [r.secret] :=
    (Keyed.insert?_eq_some hsecrets).1
  refine ⟨fun a ha => ?_, hs.ownClients, fun x hx => ?_, fun a ha c hc hconfidential => ?_⟩
  · obtain ⟨c, hc⟩ := hs.clients a ha
    obtain ⟨c', hc', _⟩ := hprecedes.clients _ c hc
    exact ⟨c', hc'⟩
  · rcases List.mem_append.mp (hrows ▸ hx) with hx | hx
    · obtain ⟨y, hy, rfl⟩ := List.mem_map.mp hx
      have hsame : (y.revokedBy r.secret.applicationId r.now).applicationId = y.applicationId :=
        ClientSecret.revokedBy_applicationId _ _ _
      obtain ⟨a, ha⟩ := hs.secrets y hy
      exact ⟨a, hsame ▸ ha⟩
    · obtain rfl := List.mem_singleton.mp hx
      exact happlication
  · obtain ⟨c₀, hc₀⟩ := hs.clients a ha
    rw [find_published] at hc
    change (s.clients.find a.oauthClientId).map _ = some c at hc
    rw [hc₀, Option.map_some, Option.some.injEq] at hc
    have hkey : c₀.clientId = a.oauthClientId := (Keyed.find_eq_some.mp hc₀).2
    by_cases hid : a = a₀
    · subst hid
      have hmine : (c₀.clientId == r.oauthClientId) = true := by simp [hkey, hclientId]
      rw [if_pos hmine] at hc
      subst hc
      exact hlinear hfollows (hs.linear a ha c₀ hc₀ hconfidential) hid₀ h
    · have hother : ¬(c₀.clientId == r.oauthClientId) = true := by
        rw [hkey, hclientId, beq_iff_eq]
        exact fun heq => hid (eq_of_key_eq hs.ownClients ha hmem₀ heq)
      rw [if_neg hother] at hc
      subst hc
      have hne : a.id ≠ r.secret.applicationId := fun heq =>
        hid (eq_of_key_eq s.applications.nodup ha hmem₀ (heq.trans hid₀.symm))
      refine (hs.linear a ha c₀ hc₀ hconfidential).of_secretsOf ?_
      rw [hsecretsOf, ← secretsOf_revoked, secretsOf_revoked_of_ne _ hne, if_neg (Ne.symm hne),
        List.append_nil]

end Invariant

end FlareAuth.ClientSecrets
