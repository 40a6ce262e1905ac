import FlareAuth.ConsentLedger

/-!
# The active rows of consents

There is at most one active row for a user, an Application and a Resource Server. A
consent or a policy authorization replaces it, or adds it, and leaves the active rows
of others as they are; a revocation only takes rows away.
-/

namespace FlareAuth.Consents

open Concurrent Procedure Relational
open AccessTokens (ApplicationConsent AuthorizationSource)

variable {key : ConsentKey} {scope : String}

namespace Store

variable (s : Store) (key : ConsentKey)

/-- The scopes that `findConsent` finds. -/
def found : List String := ((s.findConsent key).map (·.scopes)).getD []

def activeScopes : List String := ((s.findActive key).map (·.scopes)).getD []

/-- The active row is a consent of the user. -/
def byUser : Prop := (s.findActive key).any (·.authorizationSource == .userConsent) = true

/-- The primary key or the unique index refuses a new row. -/
def taken : Target → Bool
  | .existing _ => false
  | .new id => s.consents.any fun c => c.id == id || keyOf c == key && active c

/-- The primary key or the unique index refuses a new row of the provider. -/
def oauthTaken (clientId : String) : Target → Bool
  | .existing _ => false
  | .new id => s.oauthConsents.any fun c => c.id == id ||
      c.clientId == clientId && c.userId == key.userId && c.referenceId == key.resourceServerId

/-- The row that is updated is active. -/
def present : Target → Prop
  | .existing id => ∃ c ∈ s.consents, c.id = id ∧ active c = true
  | .new _ => True

end Store

/-- The primary key and the unique indexes of active rows. -/
structure Store.Sound (s : Store) : Prop where
  ids : (s.consents.map (·.id)).Nodup
  keys : ∀ c ∈ s.consents, ∀ d ∈ s.consents, active c = true → active d = true →
    keyOf c = keyOf d → c = d

structure Store.Active (s : Store) (key : ConsentKey) (c : ApplicationConsent) : Prop where
  mem : c ∈ s.consents
  key : keyOf c = key
  active : active c = true

section Rows

variable {s t : Store} {c d : ApplicationConsent}

theorem Store.Active.unique (hs : s.Sound) (hc : s.Active key c) (hd : s.Active key d) : c = d :=
  hs.keys c hc.mem d hd.mem hc.active hd.active (hc.key.trans hd.key.symm)

theorem findActive_eq_some (hs : s.Sound) : s.findActive key = some c ↔ s.Active key c := by
  have hsound : ∀ {d}, s.findActive key = some d → s.Active key d := by
    intro d hd
    have hp := List.find?_some hd
    rw [Bool.and_eq_true, beq_iff_eq] at hp
    exact ⟨List.mem_of_find?_eq_some hd, hp.1, hp.2⟩
  refine ⟨hsound, fun hc => ?_⟩
  have hsome : (s.findActive key).isSome = true := by
    rw [Store.findActive, List.find?_isSome]
    exact ⟨c, hc.mem, by simp [hc.key, hc.active]⟩
  obtain ⟨d, hd⟩ := Option.isSome_iff_exists.mp hsome
  rw [hd, (hsound hd).unique hs hc]

theorem findConsent_eq_some (hs : s.Sound) :
    s.findConsent key = some c ↔ s.Active key c ∧ c.authorizationSource = .userConsent := by
  have hmem : ∀ {d}, d ∈ (s.consents.filter fun c => keyOf c == key &&
      c.authorizationSource == .userConsent && Consents.active c).insertionSort
        (fun c d => d.grantedAt ≤ c.grantedAt) ↔
      s.Active key d ∧ d.authorizationSource = .userConsent := by
    intro d
    rw [List.mem_insertionSort, List.mem_filter]
    simp only [Bool.and_eq_true, beq_iff_eq]
    constructor
    · rintro ⟨hd, ⟨hkey, hsource⟩, hactive⟩
      exact ⟨⟨hd, hkey, hactive⟩, hsource⟩
    · rintro ⟨⟨hd, hkey, hactive⟩, hsource⟩
      exact ⟨hd, ⟨hkey, hsource⟩, hactive⟩
  rw [Store.findConsent]
  constructor
  · intro h
    exact hmem.mp (List.mem_of_head? h)
  · intro h
    obtain ⟨d, hd⟩ : ∃ d, ((s.consents.filter fun c => keyOf c == key &&
        c.authorizationSource == .userConsent && Consents.active c).insertionSort
          (fun c d => d.grantedAt ≤ c.grantedAt)).head? = some d := by
      rw [← Option.isSome_iff_exists, List.isSome_head?]
      exact List.ne_nil_of_mem (hmem.mpr h)
    rw [hd, (hmem.mp (List.mem_of_head? hd)).1.unique hs h.1]

theorem mem_activeScopes (hs : s.Sound) :
    scope ∈ s.activeScopes key ↔ ∃ c, s.Active key c ∧ scope ∈ c.scopes := by
  rw [Store.activeScopes]
  constructor
  · intro h
    cases hfound : s.findActive key with
    | none => simp [hfound] at h
    | some c => exact ⟨c, (findActive_eq_some hs).mp hfound, by simpa [hfound] using h⟩
  · rintro ⟨c, hc, hscope⟩
    rw [(findActive_eq_some hs).mpr hc]
    exact hscope

theorem mem_found (hs : s.Sound) : scope ∈ s.found key ↔
    ∃ c, s.Active key c ∧ c.authorizationSource = .userConsent ∧ scope ∈ c.scopes := by
  rw [Store.found]
  constructor
  · intro h
    cases hfound : s.findConsent key with
    | none => simp [hfound] at h
    | some c =>
      obtain ⟨hc, hsource⟩ := (findConsent_eq_some hs).mp hfound
      exact ⟨c, hc, hsource, by simpa [hfound] using h⟩
  · rintro ⟨c, hc, hsource, hscope⟩
    rw [(findConsent_eq_some hs).mpr ⟨hc, hsource⟩]
    exact hscope

theorem byUser_iff (hs : s.Sound) :
    s.byUser key ↔ ∃ c, s.Active key c ∧ c.authorizationSource = .userConsent := by
  rw [Store.byUser, Option.any_eq_true]
  constructor
  · rintro ⟨c, hfound, hsource⟩
    exact ⟨c, (findActive_eq_some hs).mp hfound, by simpa using hsource⟩
  · rintro ⟨c, hc, hsource⟩
    exact ⟨c, (findActive_eq_some hs).mpr hc, by simpa using hsource⟩

end Rows

/-- The active row of a key is another one, and the active rows of other keys are the same. -/
structure Replaces (s t : Store) (key : ConsentKey) (c : ApplicationConsent) : Prop where
  here : t.Active key c
  elsewhere : ∀ k d, k ≠ key → (t.Active k d ↔ s.Active k d)

section Writes

variable {s t : Store}

/-- A change that keeps the keys of a row and makes none active. -/
structure KeepsKeys (f : ApplicationConsent → ApplicationConsent) : Prop where
  id : ∀ c, (f c).id = c.id
  key : ∀ c, keyOf (f c) = keyOf c
  active : ∀ c, active (f c) = true → active c = true

/-- An active row after an update, and the row that it was. -/
theorem active_updateWhere {p : ApplicationConsent → Bool}
    {f : ApplicationConsent → ApplicationConsent} (hf : KeepsKeys f)
    (ht : t.consents = updateWhere p f s.consents) {d : ApplicationConsent} :
    t.Active key d ↔ ∃ c, s.Active key c ∧ (if p c = true then f c else c) = d ∧
      active d = true := by
  have hkeys : ∀ c, keyOf (if p c = true then f c else c) = keyOf c := by
    intro c
    split
    · exact hf.key c
    · rfl
  have hactives : ∀ c, active (if p c = true then f c else c) = true → active c = true := by
    intro c h
    split at h
    · exact hf.active c h
    · exact h
  constructor
  · rintro ⟨hd, hkey, hactive⟩
    rw [ht] at hd
    obtain ⟨c, hc, rfl⟩ := mem_updateWhere.mp hd
    exact ⟨c, ⟨hc, (hkeys c).symm.trans hkey, hactives c hactive⟩, rfl, hactive⟩
  · rintro ⟨c, hc, rfl, hactive⟩
    refine ⟨?_, (hkeys c).trans hc.key, hactive⟩
    rw [ht]
    exact mem_updateWhere.mpr ⟨c, hc.mem, rfl⟩

theorem active_append {c d : ApplicationConsent} (ht : t.consents = s.consents ++ [c])
    (hc : active c = true) : t.Active key d ↔ s.Active key d ∨ keyOf c = key ∧ d = c := by
  constructor
  · rintro ⟨hd, hkey, hactive⟩
    rw [ht] at hd
    rcases List.mem_append.mp hd with hd | hd
    · exact .inl ⟨hd, hkey, hactive⟩
    · obtain rfl := List.mem_singleton.mp hd
      exact .inr ⟨hkey, rfl⟩
  · rintro (hd | ⟨hkey, rfl⟩)
    · exact ⟨ht ▸ List.mem_append_left _ hd.mem, hd.key, hd.active⟩
    · exact ⟨ht ▸ List.mem_append_right _ (List.mem_singleton.mpr rfl), hkey, hc⟩

theorem sound_of_active (hids : (t.consents.map (·.id)).Nodup)
    (h : ∀ key c d, t.Active key c → t.Active key d → c = d) : t.Sound :=
  ⟨hids, fun c hc d hd hactive hactive' hkey =>
    h (keyOf d) c d ⟨hc, hkey, hactive⟩ ⟨hd, rfl, hactive'⟩⟩

theorem sound_updateWhere {p : ApplicationConsent → Bool}
    {f : ApplicationConsent → ApplicationConsent} (hf : KeepsKeys f) (hs : s.Sound)
    (ht : t.consents = updateWhere p f s.consents) : t.Sound := by
  refine sound_of_active ?_ fun key c d hc hd => ?_
  · rw [ht]
    exact nodup_map_updateWhere (fun c _ => hf.id c) hs.ids
  · obtain ⟨c₀, hc₀, rfl, _⟩ := (active_updateWhere hf ht).mp hc
    obtain ⟨d₀, hd₀, rfl, _⟩ := (active_updateWhere hf ht).mp hd
    rw [hc₀.unique hs hd₀]

theorem untaken {id : Id} (hfree : s.taken key (.new id) = false) :
    (∀ d ∈ s.consents, d.id ≠ id) ∧ ∀ d, ¬s.Active key d := by
  have hnew : ∀ d ∈ s.consents, d.id ≠ id ∧ (keyOf d = key → active d = false) := by
    simpa [Store.taken] using hfree
  refine ⟨fun d hd => (hnew d hd).1, fun d hd => ?_⟩
  have hinactive := (hnew d hd.mem).2 hd.key
  rw [hd.active] at hinactive
  cases hinactive

theorem sound_append {c : ApplicationConsent} (hs : s.Sound) (hc : active c = true)
    (hfree : s.taken (keyOf c) (.new c.id) = false) (ht : t.consents = s.consents ++ [c]) :
    t.Sound := by
  obtain ⟨hid, hno⟩ := untaken hfree
  refine sound_of_active ?_ fun key d e hd he => ?_
  · rw [ht]
    exact nodup_map_append_singleton hs.ids hid
  · rcases (active_append ht hc).mp hd with hd | ⟨rfl, rfl⟩ <;>
      rcases (active_append ht hc).mp he with he | ⟨he, rfl⟩
    · exact hd.unique hs he
    · exact absurd (he ▸ hd) (hno d)
    · exact absurd he (hno e)
    · rfl

/-- An update of the active row of a key. -/
theorem replaces_updateWhere {c : ApplicationConsent}
    {f : ApplicationConsent → ApplicationConsent} (hf : KeepsKeys f) (hs : s.Sound)
    (hc : s.Active key c) (hactive : active (f c) = true)
    (ht : t.consents = updateWhere (fun d => d.id == c.id) f s.consents) :
    Replaces s t key (f c) := by
  have hother : ∀ {k d}, k ≠ key → s.Active k d → (d.id == c.id) = false := by
    intro k d hk hd
    rw [beq_eq_false_iff_ne]
    intro hid
    obtain rfl := eq_of_key_eq hs.ids hd.mem hc.mem hid
    exact hk (hd.key.symm.trans hc.key)
  constructor
  · exact (active_updateWhere hf ht).mpr ⟨c, hc, by simp, hactive⟩
  · intro k d hk
    rw [active_updateWhere hf ht]
    constructor
    · rintro ⟨e, he, rfl, _⟩
      rw [hother hk he]
      exact he
    · intro hd
      refine ⟨d, hd, ?_, hd.active⟩
      rw [hother hk hd]
      rfl

theorem replaces_append {c : ApplicationConsent} (hc : active c = true)
    (ht : t.consents = s.consents ++ [c]) : Replaces s t (keyOf c) c := by
  constructor
  · exact (active_append ht hc).mpr (.inr ⟨rfl, rfl⟩)
  · intro k d hk
    rw [active_append ht hc]
    constructor
    · rintro (hd | ⟨rfl, _⟩)
      · exact hd
      · exact absurd rfl hk
    · exact .inl

theorem scopes_of_replaces {c : ApplicationConsent} (hs : s.Sound) (ht : t.Sound)
    (h : Replaces s t key c) :
    (∀ scope, scope ∈ t.activeScopes key ↔ scope ∈ c.scopes) ∧
      (∀ scope, scope ∈ t.found key ↔
        c.authorizationSource = .userConsent ∧ scope ∈ c.scopes) ∧
      ∀ k, k ≠ key → ∀ scope, (scope ∈ t.activeScopes k ↔ scope ∈ s.activeScopes k) ∧
        (scope ∈ t.found k ↔ scope ∈ s.found k) := by
  have hhere : ∀ {d}, t.Active key d ↔ d = c := by
    intro d
    constructor
    · intro hd
      exact hd.unique ht h.here
    · rintro rfl
      exact h.here
  refine ⟨fun scope => ?_, fun scope => ?_, fun k hk scope => ⟨?_, ?_⟩⟩
  · rw [mem_activeScopes ht]
    simp only [hhere, exists_eq_left]
  · rw [mem_found ht]
    simp only [hhere, exists_eq_left]
  · rw [mem_activeScopes ht, mem_activeScopes hs]
    simp only [h.elsewhere k _ hk]
  · rw [mem_found ht, mem_found hs]
    simp only [h.elsewhere k _ hk]

end Writes

section Batches

variable {s t : Store} {u : Unit}

/-- The rows after a write. -/
def written (s : Store) (target : Target) (f : ApplicationConsent → ApplicationConsent)
    (new : Id → ApplicationConsent) : List ApplicationConsent :=
  match target with
  | .existing id => updateWhere (fun c => c.id == id) f s.consents
  | .new id => s.consents ++ [new id]

/-- What a write makes: a change that leaves the row active, and active rows of the key. -/
structure Writes (key : ConsentKey) (f : ApplicationConsent → ApplicationConsent)
    (new : Id → ApplicationConsent) : Prop where
  keeps : KeepsKeys f
  active : ∀ c, active (f c) = active c
  id : ∀ id, (new id).id = id
  key : ∀ id, keyOf (new id) = key
  new : ∀ id, Consents.active (new id) = true

theorem ConsentWrite.writes (w : ConsentWrite) : Writes w.key w.update w.insert :=
  ⟨⟨fun _ => rfl, fun _ => rfl, fun _ h => h⟩, fun _ => rfl, fun _ => rfl, fun _ => rfl,
    fun _ => rfl⟩

theorem PolicyWrite.writes (w : PolicyWrite) : Writes w.key w.update w.insert :=
  ⟨⟨fun _ => rfl, fun _ => rfl, fun _ h => h⟩, fun _ => rfl, fun _ => rfl, fun _ => rfl,
    fun _ => rfl⟩

variable {f : ApplicationConsent → ApplicationConsent} {new : Id → ApplicationConsent}
  {target : Target}

theorem write_eq_ok (hw : Writes key f new) (h : Repository.write target f new s = .ok (u, t)) :
    s.taken key target = false ∧ t = { s with consents := written s target f new } := by
  cases target with
  | existing id =>
    cases h
    exact ⟨rfl, rfl⟩
  | new id =>
    change Repository.insertConsent (new id) s = .ok (u, t) at h
    unfold Repository.insertConsent at h
    split at h
    · cases h
    · rename_i hfree
      cases h
      rw [hw.id, hw.key] at hfree
      exact ⟨Bool.not_eq_true _ ▸ hfree, rfl⟩

theorem writeOAuth_eq_ok {w : ConsentWrite} (h : Repository.writeOAuth w s = .ok (u, t)) :
    s.oauthTaken w.key w.clientId w.oauthTarget = false ∧ t.consents = s.consents ∧
      t.ledger = s.ledger := by
  unfold Repository.writeOAuth at h
  cases htarget : w.oauthTarget with
  | existing id =>
    rw [htarget] at h
    cases h
    exact ⟨rfl, rfl, rfl⟩
  | new id =>
    rw [htarget] at h
    change Repository.insertOAuthConsent _ s = .ok (u, t) at h
    unfold Repository.insertOAuthConsent at h
    split at h
    · cases h
    · rename_i hfree
      cases h
      exact ⟨Bool.not_eq_true _ ▸ hfree, rfl, rfl⟩

theorem createConsent_eq_ok {w : ConsentWrite} (h : Repository.createConsent w s = .ok (u, t)) :
    s.taken w.key w.target = false ∧
      s.oauthTaken w.key w.clientId w.oauthTarget = false ∧
      t.consents = written s w.target w.update w.insert ∧
      t.ledger = .consented w.key w.requested :: s.ledger := by
  obtain ⟨_, s₁, h₁, h⟩ := Batch.bind_eq_ok.mp h
  obtain ⟨_, s₂, h₂, h⟩ := Batch.bind_eq_ok.mp h
  cases h
  obtain ⟨htaken, rfl⟩ := write_eq_ok w.writes h₁
  obtain ⟨hoauth, hconsents, hledger⟩ := writeOAuth_eq_ok h₂
  exact ⟨htaken, hoauth, hconsents, congrArg (_ :: ·) hledger⟩

theorem recordPolicyAuthorization_eq_ok {w : PolicyWrite}
    (h : Repository.recordPolicyAuthorization w s = .ok (u, t)) :
    s.taken w.key w.target = false ∧ t.consents = written s w.target w.update w.insert ∧
      t.ledger = .authorized w.key w.requested :: s.ledger := by
  obtain ⟨_, s₁, h₁, h⟩ := Batch.bind_eq_ok.mp h
  cases h
  obtain ⟨htaken, rfl⟩ := write_eq_ok w.writes h₁
  exact ⟨htaken, rfl, rfl⟩

theorem sound_written (hw : Writes key f new) (hs : s.Sound) (htaken : s.taken key target = false)
    (ht : t.consents = written s target f new) : t.Sound := by
  cases target with
  | existing id => exact sound_updateWhere hw.keeps hs ht
  | new id =>
    have hfree : s.taken (keyOf (new id)) (.new (new id).id) = false := by rwa [hw.key, hw.id]
    exact sound_append hs (hw.new id) hfree ht

/-- A write of a row that is there and of the key, or of a new one. -/
theorem replaces_written (hw : Writes key f new) (hs : s.Sound)
    (htaken : s.taken key target = false)
    (htarget : ∀ id, target = .existing id → ∃ c, s.Active key c ∧ c.id = id)
    (ht : t.consents = written s target f new) :
    ∃ c, Replaces s t key c ∧
      ((∃ c₀, s.Active key c₀ ∧ c = f c₀) ∨ (∀ c₀, ¬s.Active key c₀) ∧ ∃ id, c = new id) := by
  cases target with
  | existing id =>
    obtain ⟨c, hc, rfl⟩ := htarget id rfl
    have hactive : active (f c) = true := (hw.active c).trans hc.active
    exact ⟨f c, replaces_updateWhere hw.keeps hs hc hactive ht, .inl ⟨c, hc, rfl⟩⟩
  | new id =>
    have hreplaces := replaces_append (hw.new id) ht
    rw [hw.key] at hreplaces
    exact ⟨new id, hreplaces, .inr ⟨(untaken htaken).2, id, rfl⟩⟩

theorem keepsKeys_revoke (now : ℕ) :
    KeepsKeys fun c : ApplicationConsent => { c with revokedAt := some now } :=
  ⟨fun _ => rfl, fun _ => rfl, fun _ h => nomatch h⟩

theorem active_revokeAuthorizationGrant {applicationId : Id} {clientId : String} {userId : Id}
    {now : ℕ}
    (ht : t = (Repository.revokeAuthorizationGrant applicationId clientId userId now).settle s)
    {c : ApplicationConsent} : t.Active key c ↔
      s.Active key c ∧ ¬(key.applicationId = applicationId ∧ key.userId = userId) := by
  subst ht
  rw [active_updateWhere (keepsKeys_revoke now) rfl]
  have hselected : ∀ {d : ApplicationConsent}, s.Active key d →
      ((d.applicationId == applicationId && d.userId == userId && active d) = true ↔
        key.applicationId = applicationId ∧ key.userId = userId) := by
    intro d hd
    rw [Bool.and_eq_true, Bool.and_eq_true, beq_iff_eq, beq_iff_eq, ← hd.key]
    simp [hd.active, keyOf]
  constructor
  · rintro ⟨d, hd, rfl, hactive⟩
    split at hactive
    · cases hactive
    · rename_i hp
      rw [if_neg hp]
      exact ⟨hd, mt (hselected hd).mpr hp⟩
  · rintro ⟨hc, hno⟩
    exact ⟨c, hc, if_neg (mt (hselected hc).mp hno), hc.active⟩

theorem sound_apply (op : Operation) (hs : s.Sound) : (apply op s).Sound := by
  cases op with
  | createConsent w =>
    change ((Repository.createConsent w).settle s).Sound
    rcases h : Repository.createConsent w s with e | ⟨u, t⟩
    · rwa [Batch.settle_of_error h]
    · rw [Batch.settle_of_ok h]
      obtain ⟨htaken, _, hconsents, _⟩ := createConsent_eq_ok h
      exact sound_written w.writes hs htaken hconsents
  | recordPolicyAuthorization w =>
    change ((Repository.recordPolicyAuthorization w).settle s).Sound
    rcases h : Repository.recordPolicyAuthorization w s with e | ⟨u, t⟩
    · rwa [Batch.settle_of_error h]
    · rw [Batch.settle_of_ok h]
      obtain ⟨htaken, hconsents, _⟩ := recordPolicyAuthorization_eq_ok h
      exact sound_written w.writes hs htaken hconsents
  | revokeAuthorizationGrant applicationId clientId userId now =>
    exact sound_updateWhere (keepsKeys_revoke now) hs rfl
  | generateId | setClock => exact ⟨hs.ids, hs.keys⟩
  | _ => exact hs

/-- A row keeps its identifier and its key. -/
abbrev RowsKept (s t : Store) : Prop :=
  Evolves (fun c d => d.id = c.id ∧ keyOf d = keyOf c) s.consents t.consents

theorem rowsKept_written (hw : Writes key f new) (ht : t.consents = written s target f new) :
    RowsKept s t := by
  unfold RowsKept
  rw [ht]
  cases target with
  | existing id =>
    exact .updateWhere (fun _ => ⟨rfl, rfl⟩) fun c _ _ => ⟨hw.keeps.id c, hw.keeps.key c⟩
  | new id => exact .append (fun _ => ⟨rfl, rfl⟩) _ _

theorem rowsKept_apply (op : Operation) (s : Store) : RowsKept s (apply op s) := by
  have hrefl : RowsKept s s := .refl (fun _ => ⟨rfl, rfl⟩) _
  cases op with
  | createConsent w =>
    change RowsKept s ((Repository.createConsent w).settle s)
    rcases h : Repository.createConsent w s with e | ⟨u, t⟩
    · rwa [Batch.settle_of_error h]
    · rw [Batch.settle_of_ok h]
      exact rowsKept_written w.writes (createConsent_eq_ok h).2.2.1
  | recordPolicyAuthorization w =>
    change RowsKept s ((Repository.recordPolicyAuthorization w).settle s)
    rcases h : Repository.recordPolicyAuthorization w s with e | ⟨u, t⟩
    · rwa [Batch.settle_of_error h]
    · rw [Batch.settle_of_ok h]
      exact rowsKept_written w.writes (recordPolicyAuthorization_eq_ok h).2.1
  | revokeAuthorizationGrant applicationId clientId userId now =>
    exact .updateWhere (fun _ => ⟨rfl, rfl⟩) fun _ _ _ => ⟨rfl, rfl⟩
  | _ => exact hrefl

theorem rows_evolve : Evolution Operation RowsKept :=
  ⟨fun _ => .refl (fun _ => ⟨rfl, rfl⟩) _,
    fun _ _ _ h h' => h.trans (fun _ _ _ h h' => ⟨h'.1.trans h.1, h'.2.trans h.2⟩) h',
    rowsKept_apply⟩

end Batches

end FlareAuth.Consents
