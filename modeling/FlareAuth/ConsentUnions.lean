import FlareAuth.ConsentRows

/-!
# What the ledger of consents keeps

The scopes that are found as consented by a user are those of the user's consents
since the last revocation, and no write loses a scope that was recorded, if every
write still finds the scopes that its call has read, no policy authorization adds to
a consent and no consent takes over scopes of a policy authorization only.
-/

namespace FlareAuth.Consents

open Concurrent Procedure Relational
open AccessTokens (ApplicationConsent AuthorizationSource)

variable {key : ConsentKey} {scope : String}

def Entry.revokes (key : ConsentKey) : Entry → Bool
  | .revoked applicationId userId => applicationId == key.applicationId && userId == key.userId
  | _ => false

def Entry.consentedOn (key : ConsentKey) : Entry → List String
  | .consented k scopes => if k = key then scopes else []
  | _ => []

def Entry.recordedOn (key : ConsentKey) : Entry → List String
  | .consented k scopes => if k = key then scopes else []
  | .authorized k scopes => if k = key then scopes else []
  | .revoked _ _ => []

namespace Store

variable (s : Store) (key : ConsentKey)

def sinceRevocation : List Entry := s.ledger.takeWhile fun e => !e.revokes key

/-- The scopes that the user has consented to since the last revocation. -/
def consented : List String := (s.sinceRevocation key).flatMap (Entry.consentedOn key)

/-- The scopes that consents and policy authorizations have recorded since the last revocation. -/
def recorded : List String := (s.sinceRevocation key).flatMap (Entry.recordedOn key)

/-- What is found as consented is what was consented, and nothing that was recorded is lost. -/
structure KeepsLedger : Prop where
  consented : ∀ scope, scope ∈ s.found key ↔ scope ∈ s.consented key
  recorded : ∀ scope ∈ s.recorded key, scope ∈ s.activeScopes key

end Store

def ConsentWrite.free (w : ConsentWrite) (s : Store) : Prop :=
  s.taken w.key w.target = false ∧ s.oauthTaken w.key w.clientId w.oauthTarget = false

/-- The row that a consent's call has found is active. The scopes that it has read are found now,
or requested, and the scopes of the active row are among them. -/
def ConsentWrite.Current (w : ConsentWrite) (log : Log Store Operation) (s : Store) : Prop :=
  s.present w.target ∧ ∀ d ∈ log, d.operation = .findConsent w.key →
    (∀ scope ∈ d.before.found w.key, scope ∈ s.found w.key ∨ scope ∈ w.requested) ∧
    ∀ scope ∈ s.activeScopes w.key, scope ∈ d.before.found w.key ∨ scope ∈ w.requested

/-- The row that a policy authorization's call has found is active. The scopes of the active row
are among those that it has read, or requested; if the row is a consent of the user, these are
no others. -/
def PolicyWrite.Current (w : PolicyWrite) (log : Log Store Operation) (s : Store) : Prop :=
  s.present w.target ∧ ∀ d ∈ log, d.operation = .findActive w.key →
    (∀ scope ∈ s.activeScopes w.key, scope ∈ d.before.activeScopes w.key ∨ scope ∈ w.requested) ∧
    (s.byUser w.key → ∀ scope, scope ∈ d.before.activeScopes w.key ∨ scope ∈ w.requested →
      scope ∈ s.activeScopes w.key)

def WritesCurrent (pool : ConsentPool) (m : Move Call) : Prop :=
  ∀ i t, m = .resume i →
    (∀ w, pool.pending i = some (t, .createConsent w) → w.free pool.store →
      w.Current t.log pool.store) ∧
    ∀ w, pool.pending i = some (t, .recordPolicyAuthorization w) →
      pool.store.taken w.key w.target = false → w.Current t.log pool.store

structure Store.Fresh (s : Store) : Prop where
  consents : s.consents = []
  ledger : s.ledger = []

section Steps

variable {s t : Store} {e : Entry}

theorem sinceRevocation_cons (ht : t.ledger = e :: s.ledger) (he : e.revokes key = false) :
    t.sinceRevocation key = e :: s.sinceRevocation key := by
  rw [Store.sinceRevocation, ht, List.takeWhile_cons, he]
  rfl

theorem sinceRevocation_revoked (ht : t.ledger = e :: s.ledger) (he : e.revokes key = true) :
    t.sinceRevocation key = [] := by
  rw [Store.sinceRevocation, ht, List.takeWhile_cons, he]
  rfl

theorem mem_consented_cons (ht : t.ledger = e :: s.ledger) (he : e.revokes key = false) :
    scope ∈ t.consented key ↔ scope ∈ e.consentedOn key ∨ scope ∈ s.consented key := by
  rw [Store.consented, sinceRevocation_cons ht he, List.flatMap_cons, List.mem_append]
  rfl

theorem mem_recorded_cons (ht : t.ledger = e :: s.ledger) (he : e.revokes key = false) :
    scope ∈ t.recorded key ↔ scope ∈ e.recordedOn key ∨ scope ∈ s.recorded key := by
  rw [Store.recorded, sinceRevocation_cons ht he, List.flatMap_cons, List.mem_append]
  rfl

/-- An entry on another key adds nothing to what the ledger keeps of a key. -/
theorem keepsLedger_elsewhere (ht : t.ledger = e :: s.ledger) (he : e.revokes key = false)
    (hconsented : e.consentedOn key = []) (hrecorded : e.recordedOn key = [])
    (hsame : ∀ scope, (scope ∈ t.activeScopes key ↔ scope ∈ s.activeScopes key) ∧
      (scope ∈ t.found key ↔ scope ∈ s.found key))
    (h : s.KeepsLedger key) : t.KeepsLedger key := by
  constructor
  · intro scope
    rw [mem_consented_cons ht he, hconsented, (hsame scope).2, h.consented]
    simp
  · intro scope hscope
    rw [mem_recorded_cons ht he, hrecorded] at hscope
    rw [(hsame scope).1]
    exact h.recorded scope (by simpa using hscope)

theorem found_subset_activeScopes (hs : s.Sound) (h : scope ∈ s.found key) :
    scope ∈ s.activeScopes key := by
  obtain ⟨c, hc, _, hscope⟩ := (mem_found hs).mp h
  exact (mem_activeScopes hs).mpr ⟨c, hc, hscope⟩

/-- What the write of a consent makes of the active row. -/
theorem keepsLedger_consent {w : ConsentWrite} {before : Store} {c : ApplicationConsent}
    (hs : s.Sound) (ht : t.Sound) (hledger : t.ledger = .consented w.key w.requested :: s.ledger)
    (hreplaces : Replaces s t w.key c) (hsource : c.authorizationSource = .userConsent)
    (hscopes : c.scopes = w.scopes)
    (hmerged : ∀ scope, scope ∈ w.scopes ↔ scope ∈ before.found w.key ∨ scope ∈ w.requested)
    (hread : ∀ scope ∈ before.found w.key, scope ∈ s.found w.key ∨ scope ∈ w.requested)
    (hkept : ∀ scope ∈ s.activeScopes w.key, scope ∈ before.found w.key ∨ scope ∈ w.requested)
    (h : ∀ key, s.KeepsLedger key) (key : ConsentKey) : t.KeepsLedger key := by
  obtain ⟨hactive, hfound, hother⟩ := scopes_of_replaces hs ht hreplaces
  by_cases hkey : key = w.key
  · subst hkey
    have hconsented : (Entry.consented w.key w.requested).consentedOn w.key =
        w.requested := if_pos rfl
    have hrecorded : (Entry.consented w.key w.requested).recordedOn w.key =
        w.requested := if_pos rfl
    constructor
    · intro scope
      rw [hfound, mem_consented_cons hledger rfl, hconsented, hscopes, hmerged,
        ← (h w.key).consented]
      constructor
      · rintro ⟨_, hscope | hscope⟩
        · exact (hread scope hscope).symm
        · exact .inl hscope
      · rintro (hscope | hscope)
        · exact ⟨hsource, .inr hscope⟩
        · exact ⟨hsource, hkept scope (found_subset_activeScopes hs hscope)⟩
    · intro scope hscope
      rw [hactive, hscopes, hmerged]
      rw [mem_recorded_cons hledger rfl, hrecorded] at hscope
      rcases hscope with hscope | hscope
      · exact .inr hscope
      · exact hkept scope ((h w.key).recorded scope hscope)
  · have hne : w.key ≠ key := fun heq => hkey heq.symm
    exact keepsLedger_elsewhere hledger rfl (if_neg hne) (if_neg hne) (hother key hkey) (h key)

/-- What the write of a policy authorization makes of the active row. -/
theorem keepsLedger_policy {w : PolicyWrite} {before : Store} {c : ApplicationConsent}
    (hs : s.Sound) (ht : t.Sound) (hledger : t.ledger = .authorized w.key w.requested :: s.ledger)
    (hreplaces : Replaces s t w.key c)
    (hsource : c.authorizationSource = .userConsent ↔ s.byUser w.key)
    (hscopes : c.scopes = w.scopes)
    (hmerged : ∀ scope, scope ∈ w.scopes ↔ scope ∈ before.activeScopes w.key ∨ scope ∈ w.requested)
    (hkept : ∀ scope ∈ s.activeScopes w.key,
      scope ∈ before.activeScopes w.key ∨ scope ∈ w.requested)
    (hadds : s.byUser w.key → ∀ scope, scope ∈ before.activeScopes w.key ∨ scope ∈ w.requested →
      scope ∈ s.activeScopes w.key)
    (h : ∀ key, s.KeepsLedger key) (key : ConsentKey) : t.KeepsLedger key := by
  obtain ⟨hactive, hfound, hother⟩ := scopes_of_replaces hs ht hreplaces
  by_cases hkey : key = w.key
  · subst hkey
    have hconsented : (Entry.authorized w.key w.requested).consentedOn w.key = [] := rfl
    have hrecorded : (Entry.authorized w.key w.requested).recordedOn w.key =
        w.requested := if_pos rfl
    constructor
    · intro scope
      rw [hfound, mem_consented_cons hledger rfl, hconsented, hscopes, hmerged, hsource,
        ← (h w.key).consented]
      constructor
      · rintro ⟨huser, hscope⟩
        have hactive' := (mem_activeScopes hs).mp (hadds huser scope hscope)
        obtain ⟨d, hd, hd'⟩ := (byUser_iff hs).mp huser
        obtain ⟨d', hrow, hscope⟩ := hactive'
        obtain rfl := hrow.unique hs hd
        exact .inr ((mem_found hs).mpr ⟨d', hd, hd', hscope⟩)
      · rintro (hscope | hscope)
        · cases hscope
        · obtain ⟨d, hd, hd', _⟩ := (mem_found hs).mp hscope
          exact ⟨(byUser_iff hs).mpr ⟨d, hd, hd'⟩,
            hkept scope (found_subset_activeScopes hs hscope)⟩
    · intro scope hscope
      rw [hactive, hscopes, hmerged]
      rw [mem_recorded_cons hledger rfl, hrecorded] at hscope
      rcases hscope with hscope | hscope
      · exact .inr hscope
      · exact hkept scope ((h w.key).recorded scope hscope)
  · have hne : w.key ≠ key := fun heq => hkey heq.symm
    exact keepsLedger_elsewhere hledger rfl rfl (if_neg hne) (hother key hkey) (h key)

theorem keepsLedger_revoke {applicationId : Id} {clientId : String} {userId : Id} {now : ℕ}
    (hs : s.Sound) (h : ∀ key, s.KeepsLedger key) (key : ConsentKey) :
    (apply (Operation.revokeAuthorizationGrant applicationId clientId userId now) s).KeepsLedger
      key := by
  have ht := sound_apply (.revokeAuthorizationGrant applicationId clientId userId now) hs
  set t := apply (Operation.revokeAuthorizationGrant applicationId clientId userId now) s with htdef
  have hledger : t.ledger = .revoked applicationId userId :: s.ledger := rfl
  have hactive : ∀ {c}, t.Active key c ↔
      s.Active key c ∧ ¬(key.applicationId = applicationId ∧ key.userId = userId) :=
    active_revokeAuthorizationGrant htdef
  by_cases hkey : key.applicationId = applicationId ∧ key.userId = userId
  · have hno : ∀ c, ¬t.Active key c := fun c hc => (hactive.mp hc).2 hkey
    have hnone := sinceRevocation_revoked hledger
      (show (Entry.revoked applicationId userId).revokes key = true by simp [Entry.revokes, hkey])
    constructor
    · intro scope
      rw [mem_found ht, Store.consented, hnone]
      constructor
      · rintro ⟨c, hc, _⟩
        exact absurd hc (hno c)
      · intro hscope
        cases hscope
    · intro scope hscope
      rw [Store.recorded, hnone] at hscope
      cases hscope
  · have he : (Entry.revoked applicationId userId).revokes key = false := by
      rw [← Bool.not_eq_true]
      intro he
      simp only [Entry.revokes, Bool.and_eq_true, beq_iff_eq] at he
      exact hkey ⟨he.1.symm, he.2.symm⟩
    refine keepsLedger_elsewhere hledger he rfl rfl (fun scope => ?_) (h key)
    rw [mem_activeScopes ht, mem_activeScopes hs, mem_found ht, mem_found hs]
    simp only [hactive, hkey, not_false_eq_true, and_true]

end Steps

section Contract

variable {α β : Type}

/-- The row that is written was found by the call as the active one of the key, or is new. -/
def Finds (log : Log Store Operation) (key : ConsentKey) : Target → Prop
  | .existing id => ∃ d ∈ log, ∃ c, d.before.findActive key = some c ∧ c.id = id
  | .new _ => True

/-- The scopes that are written are those that the call has read together with the requested
ones. -/
def Informed (log : Log Store Operation) (_ : Store) : Operation → Prop
  | .createConsent w => Finds log w.key w.target ∧ ∃ d ∈ log, d.operation = .findConsent w.key ∧
      ∀ scope, scope ∈ w.scopes ↔ scope ∈ d.before.found w.key ∨ scope ∈ w.requested
  | .recordPolicyAuthorization w => Finds log w.key w.target ∧
      ∃ d ∈ log, d.operation = .findActive w.key ∧
        ∀ scope, scope ∈ w.scopes ↔ scope ∈ d.before.activeScopes w.key ∨ scope ∈ w.requested
  | _ => True

abbrev Done : Log Store Operation → Except Failure α → Prop := fun _ _ => True

theorem mem_merged {earlier scopes : List String} :
    scope ∈ merged earlier scopes ↔ scope ∈ earlier ∨ scope ∈ scopes := by
  rw [merged, Text.mem_sort, Text.mem_unique, List.mem_append]

theorem Finds.mono {log log' : Log Store Operation} {target : Target} (hgrown : log ⊆ log')
    (h : Finds log key target) : Finds log' key target := by
  cases target with
  | existing id =>
    obtain ⟨d, hd, hfound⟩ := h
    exact ⟨d, hgrown hd, hfound⟩
  | new id => trivial

def Operation.Plain : Operation → Prop
  | .createConsent _ | .recordPolicyAuthorization _ => False
  | _ => True

theorem informed_of_plain (log : Log Store Operation) (s : Store) (op : Operation)
    (h : op.Plain) : Informed log s op := by
  cases op <;> trivial

theorem obeys_plain {p : Consenting α} {log : Log Store Operation} (h : p.Only Operation.Plain) :
    p.Obeys Informed Done log :=
  h.obeys informed_of_plain (fun _ _ _ _ => trivial) fun _ _ _ => trivial

theorem obeys_plain_bind {p : Consenting α} {f : α → Consenting β} {log : Log Store Operation}
    (h : p.Only Operation.Plain) (hf : ∀ log' a, log ⊆ log' → (f a).Obeys Informed Done log') :
    (p >>= f).Obeys Informed Done log :=
  h.obeys_bind informed_of_plain (fun log' a hgrown _ => hf log' a hgrown.subset)
    fun _ _ _ => trivial

@[simp] theorem plain_clock : clock.Only Operation.Plain := only_query.mpr trivial

@[simp] theorem plain_generateId : generateId.Only Operation.Plain := only_query.mpr trivial

@[simp] theorem plain_findActive (key : ConsentKey) : (findActive key).Only Operation.Plain :=
  only_query.mpr trivial

@[simp] theorem plain_findOAuthConsent (clientId : String) (key : ConsentKey) :
    (findOAuthConsent clientId key).Only Operation.Plain := only_query.mpr trivial

@[simp] theorem plain_targetOf (existing : Option Id) :
    (targetOf existing).Only Operation.Plain := by
  cases existing <;> simp [targetOf]

/-- The select of the active row is in the log of what goes on from it. -/
theorem obeys_findActive_bind {f : Option ApplicationConsent → Consenting β}
    {log : Log Store Operation}
    (hf : ∀ s, (f (s.findActive key)).Obeys Informed Done (⟨.findActive key, s⟩ :: log)) :
    (findActive key >>= f).Obeys Informed Done log :=
  fun s => ⟨trivial, hf s⟩

/-- The row of a target was found, if the row of its read was. -/
theorem obeys_targetOf_bind {existing : Option ApplicationConsent} {f : Target → Consenting β}
    {log : Log Store Operation}
    (hread : ∀ c, existing = some c → ∃ d ∈ log, d.before.findActive key = some c)
    (hf : ∀ log' target, log ⊆ log' → Finds log' key target →
      (f target).Obeys Informed Done log') :
    (targetOf (existing.map (·.id)) >>= f).Obeys Informed Done log := by
  cases existing with
  | none =>
    intro s
    refine ⟨trivial, ?_⟩
    exact hf _ (.new _) (List.subset_cons_self _ _) trivial
  | some c =>
    obtain ⟨d, hd, hfound⟩ := hread c rfl
    exact hf log (.existing c.id) (List.Subset.refl log) ⟨d, hd, c, hfound, rfl⟩

/-- The select of the active row has run, in one order of the two or the other. -/
theorem obeys_findBoth_bind {clientId : String} {oauthFirst : Bool}
    {f : Option ApplicationConsent × Option OAuthConsent → Consenting β}
    {log : Log Store Operation}
    (hf : ∀ log' existing oauth, log ⊆ log' →
      (∀ c, existing = some c → ∃ d ∈ log', d.before.findActive key = some c) →
      (f (existing, oauth)).Obeys Informed Done log') :
    (findBoth clientId key oauthFirst >>= f).Obeys Informed Done log := by
  unfold findBoth
  by_cases hfirst : oauthFirst = true
  · rw [if_pos hfirst, bind_assoc]
    refine obeys_plain_bind (plain_findOAuthConsent clientId key) fun log₁ oauth h₁ => ?_
    rw [bind_assoc]
    refine obeys_findActive_bind fun s => ?_
    exact hf _ _ oauth (List.Subset.trans h₁ (List.subset_cons_self _ _))
      fun c hc => ⟨_, List.mem_cons_self, hc⟩
  · rw [if_neg hfirst, bind_assoc]
    refine obeys_findActive_bind fun s => ?_
    rw [bind_assoc]
    refine obeys_plain_bind (plain_findOAuthConsent clientId key) fun log₁ oauth h₁ => ?_
    exact hf _ _ oauth (List.Subset.trans (List.subset_cons_self _ _) h₁)
      fun c hc => ⟨_, h₁ List.mem_cons_self, hc⟩

theorem obeys_createConsentOf {clientId : String} {scopes requested : List String}
    {oauthFirst : Bool} {log : Log Store Operation}
    (hread : ∃ d ∈ log, d.operation = .findConsent key ∧
      ∀ scope, scope ∈ scopes ↔ scope ∈ d.before.found key ∨ scope ∈ requested) :
    (Repository.createConsentOf key clientId scopes requested oauthFirst).Obeys Informed Done
      log := by
  unfold Repository.createConsentOf
  refine obeys_plain_bind plain_clock fun log₁ now h₁ => ?_
  refine obeys_findBoth_bind fun log₂ existing oauth h₁₂ hfound => ?_
  have h₂ := List.Subset.trans h₁ h₁₂
  refine obeys_targetOf_bind hfound fun log₃ target h₃ htarget => ?_
  refine obeys_plain_bind (plain_targetOf _) fun log₄ oauthTarget h₄ => ?_
  intro s
  constructor
  · obtain ⟨d, hd, hop, hscopes⟩ := hread
    exact ⟨htarget.mono h₄, d, h₄ (h₃ (h₂ hd)), hop, hscopes⟩
  · refine obeys_ofExcept_bind (fun _ _ => trivial) fun _ _ => obeys_plain ?_
    simp

theorem program_contract (c : Call) : c.program.Obeys Informed Done [] := by
  cases c with
  | createConsent input userId application visible oauthFirst =>
    refine Obeys.bind (Q := Done) ?_ (fun _ _ _ _ => trivial) fun _ _ _ => trivial
    unfold createConsent
    refine obeys_orThrow_bind (fun application _ => ?_) fun _ => trivial
    refine obeys_ofExcept_bind (fun _ _ => trivial) fun _ _ => ?_
    refine obeys_ofExcept_bind (fun _ _ => trivial) fun requestedScopes _ => ?_
    intro s
    refine ⟨trivial, obeys_createConsentOf ⟨_, List.mem_cons_self, rfl, fun scope => mem_merged⟩⟩
  | recordPolicyAuthorization key scopes =>
    refine Obeys.bind (Q := Done) ?_ (fun _ _ _ _ => trivial) fun _ _ _ => trivial
    unfold recordPolicyAuthorization
    refine obeys_plain_bind plain_clock fun log now h => ?_
    refine obeys_findActive_bind fun s => ?_
    refine obeys_targetOf_bind (fun c hc => ⟨_, List.mem_cons_self, hc⟩)
      fun log' target h' htarget => ?_
    intro s'
    constructor
    · exact ⟨htarget, _, h' List.mem_cons_self, rfl, fun scope => mem_merged⟩
    · refine obeys_ofExcept_bind (fun _ _ => trivial) fun _ _ => obeys_plain ?_
      simp
  | revokeConsent consentId userId =>
    refine obeys_plain ?_
    simp [Call.program, revokeAuthorization, commit, Operation.Plain]
  | revokeAuthorization authorizationId =>
    refine obeys_plain ?_
    simp [Call.program, revokeAuthorization, commit, Operation.Plain]
  | setClock now => exact obeys_plain (only_query.mpr trivial)

end Contract

section Runs

variable {pool : ConsentPool}

theorem sound_of_reachable (h : Reachable Call.program Store.Fresh WritesCurrent pool) :
    ∀ s ∈ pool.history, s.Sound := by
  refine h.invariant (fun s hs => ?_) fun op s hs => sound_apply op hs
  refine ⟨?_, fun c hc => ?_⟩
  · rw [hs.consents]
    exact List.nodup_nil
  · rw [hs.consents] at hc
    cases hc

/-- A row that a call has found, and that is active still, is the active row of the key. -/
theorem active_target {target : Target}
    (h : Reachable Call.program Store.Fresh WritesCurrent pool)
    {t : Thread Call Store Operation Failure Unit} (ht : t ∈ pool.threads)
    (hfinds : Finds t.log key target) (hpresent : pool.store.present target) :
    ∀ id, target = .existing id → ∃ c, pool.store.Active key c ∧ c.id = id := by
  rintro id rfl
  obtain ⟨c, hc, rfl, hactive⟩ := hpresent
  obtain ⟨d, hd, c₀, hfound, hid⟩ := hfinds
  have hbefore : d.before.Sound :=
    sound_of_reachable h _ (List.mem_cons_of_mem _ (h.before_mem_past t ht d hd))
  have hnow : pool.store.Sound := sound_of_reachable h _ List.mem_cons_self
  have hrow := (findActive_eq_some hbefore).mp hfound
  have hkept := (h.evolves_before rows_evolve ht hd).of_mem_of_key_eq
    (fun _ _ hkept => hkept.1) hnow.ids hrow.mem hc hid.symm
  exact ⟨c, ⟨hc, hkept.2.trans hrow.key, hactive⟩, rfl⟩

/-- What is found as consented by a user is what the user has consented to since the last
revocation, and what was recorded is not lost, in runs whose writes are current. -/
theorem ledger_kept (h : Reachable Call.program Store.Fresh WritesCurrent pool)
    (key : ConsentKey) : pool.store.KeepsLedger key := by
  revert key
  refine h.keeps (I := fun s => ∀ key, s.KeepsLedger key) ?_ ?_
  · intro s hs key
    have hfresh : s.found key = [] ∧ s.recorded key = [] ∧ s.consented key = [] := by
      simp [Store.found, Store.findConsent, Store.recorded, Store.consented,
        Store.sinceRevocation, hs.consents, hs.ledger]
    obtain ⟨hfound, hrecorded, hconsented⟩ := hfresh
    constructor
    · intro scope
      rw [hfound, hconsented]
    · intro scope hscope
      rw [hrecorded] at hscope
      cases hscope
  · intro pool i t op hpool hok hpending hkept
    have hsound : pool.store.Sound := sound_of_reachable hpool _ List.mem_cons_self
    have hsound' := sound_apply op hsound
    obtain ⟨ht, hinformed⟩ := hpool.pending_obeys program_contract hpending
    obtain ⟨hconsents, hpolicies⟩ := hok i t rfl
    cases op with
    | createConsent w =>
      obtain ⟨hfinds, d, hd, hop, hmerged⟩ := hinformed
      change ∀ key, ((Repository.createConsent w).settle pool.store).KeepsLedger key
      rcases hbatch : Repository.createConsent w pool.store with e | ⟨u, after⟩
      · rwa [Batch.settle_of_error hbatch]
      · have happly : apply (Operation.createConsent w) pool.store = after :=
          Batch.settle_of_ok hbatch
        rw [happly] at hsound'
        rw [Batch.settle_of_ok hbatch]
        obtain ⟨htaken, hoauth, hrows, hledger⟩ := createConsent_eq_ok hbatch
        obtain ⟨hpresent, hread⟩ := hconsents w hpending ⟨htaken, hoauth⟩
        obtain ⟨hfound, hactive⟩ := hread d hd hop
        obtain ⟨c, hreplaces, hc⟩ := replaces_written w.writes hsound htaken
          (active_target hpool ht hfinds hpresent) hrows
        have hwritten : c.authorizationSource = .userConsent ∧ c.scopes = w.scopes := by
          rcases hc with ⟨c₀, _, rfl⟩ | ⟨_, id, rfl⟩
          · exact ⟨rfl, rfl⟩
          · exact ⟨rfl, rfl⟩
        exact keepsLedger_consent hsound hsound' hledger hreplaces hwritten.1 hwritten.2 hmerged
          hfound hactive hkept
    | recordPolicyAuthorization w =>
      obtain ⟨hfinds, d, hd, hop, hmerged⟩ := hinformed
      change ∀ key, ((Repository.recordPolicyAuthorization w).settle pool.store).KeepsLedger key
      rcases hbatch : Repository.recordPolicyAuthorization w pool.store with e | ⟨u, after⟩
      · rwa [Batch.settle_of_error hbatch]
      · have happly : apply (Operation.recordPolicyAuthorization w) pool.store = after :=
          Batch.settle_of_ok hbatch
        rw [happly] at hsound'
        rw [Batch.settle_of_ok hbatch]
        obtain ⟨htaken, hrows, hledger⟩ := recordPolicyAuthorization_eq_ok hbatch
        obtain ⟨hpresent, hread⟩ := hpolicies w hpending htaken
        obtain ⟨hactive, hadds⟩ := hread d hd hop
        obtain ⟨c, hreplaces, hc⟩ := replaces_written w.writes hsound htaken
          (active_target hpool ht hfinds hpresent) hrows
        have hscopes : c.scopes = w.scopes := by
          rcases hc with ⟨c₀, _, rfl⟩ | ⟨_, id, rfl⟩
          · rfl
          · rfl
        -- The row keeps its source, and a new row is not a consent.
        have hsource : c.authorizationSource = .userConsent ↔ pool.store.byUser w.key := by
          rw [byUser_iff hsound]
          rcases hc with ⟨c₀, hc₀, rfl⟩ | ⟨hno, id, rfl⟩
          · constructor
            · intro hsource
              exact ⟨c₀, hc₀, hsource⟩
            · rintro ⟨c', hc', hsource⟩
              obtain rfl := hc'.unique hsound hc₀
              exact hsource
          · constructor
            · intro hsource
              cases hsource
            · rintro ⟨c', hc', _⟩
              exact absurd hc' (hno c')
        exact keepsLedger_policy hsound hsound' hledger hreplaces hsource hscopes hmerged hactive
          hadds hkept
    | revokeAuthorizationGrant applicationId clientId userId now =>
      exact keepsLedger_revoke hsound hkept
    | generateId | setClock => exact fun key => ⟨(hkept key).consented, (hkept key).recorded⟩
    | _ => exact hkept

end Runs

namespace Sample

def portal : Applications.Application :=
  ⟨"portal", "client", "acme", .publicResource, false, true, ["openid", "profile", "email"], [],
    [], []⟩

def store : Store := ⟨0, 0, [("portal", "client")], [], [], []⟩

def account (userId : Id) : ConsentKey := ⟨"portal", userId, none⟩

def consent (userId : Id) (scopes : List String) : Call :=
  .createConsent ⟨"client", none, scopes⟩ userId (some portal) (.ok ()) false

def authorize (userId : Id) (scopes : List String) : Call :=
  .recordPolicyAuthorization (account userId) scopes

def consentThenPolicy : List (Move Call) :=
  [.start (consent "u" ["openid"]), .start (authorize "u" ["profile"])] ++
    List.replicate 8 (.resume 0) ++ List.replicate 4 (.resume 1)

def policyThenConsent : List (Move Call) :=
  [.start (authorize "u" ["profile"]), .start (consent "u" ["openid"])] ++
    List.replicate 5 (.resume 0) ++ List.replicate 7 (.resume 1)

/-- The policy adds to the scopes of the consent, and the consent loses those of the policy. -/
theorem ledger_lost :
    (∃ pool : ConsentPool, Reachable Call.program Store.Fresh
      (Unrestricted Call Store Operation Failure Unit) pool ∧
      "profile" ∈ pool.store.found (account "u") ∧
      "profile" ∉ pool.store.consented (account "u") ∧
      ¬pool.store.KeepsLedger (account "u")) ∧
    ∃ pool : ConsentPool, Reachable Call.program Store.Fresh
      (Unrestricted Call Store Operation Failure Unit) pool ∧
      "profile" ∈ pool.store.recorded (account "u") ∧
      "profile" ∉ pool.store.activeScopes (account "u") ∧
      ¬pool.store.KeepsLedger (account "u") := by
  have hrun : ((Pool.initial store).run Call.program (fun _ _ => true) consentThenPolicy).any
      (fun pool => decide ("profile" ∈ pool.store.found (account "u") ∧
        "profile" ∉ pool.store.consented (account "u"))) = true := by
    decide +kernel
  have hrun' : ((Pool.initial store).run Call.program (fun _ _ => true) policyThenConsent).any
      (fun pool => decide ("profile" ∈ pool.store.recorded (account "u") ∧
        "profile" ∉ pool.store.activeScopes (account "u"))) = true := by
    decide +kernel
  obtain ⟨pool, hpool, hcheck⟩ := (Option.any_eq_true _ _).mp hrun
  obtain ⟨pool', hpool', hcheck'⟩ := (Option.any_eq_true _ _).mp hrun'
  obtain ⟨hfound, hconsented⟩ := of_decide_eq_true hcheck
  obtain ⟨hrecorded, hactive⟩ := of_decide_eq_true hcheck'
  have hfresh : store.Fresh := ⟨rfl, rfl⟩
  refine ⟨⟨pool, .of_run (fun _ _ _ => trivial) (.initial hfresh) hpool, hfound, hconsented,
    fun h => hconsented ((h.consented _).mp hfound)⟩, ⟨pool', ?_, hrecorded, hactive,
    fun h => hactive (h.recorded _ hrecorded)⟩⟩
  exact .of_run (fun _ _ _ => trivial) (.initial hfresh) hpool'

def presentCheck (s : Store) : Target → Bool
  | .existing id => s.consents.any fun c => decide (c.id = id ∧ active c = true)
  | .new _ => true

def among (scopes earlier requested : List String) : Bool :=
  scopes.all fun scope => decide (scope ∈ earlier ∨ scope ∈ requested)

def currentCheck (pool : ConsentPool) : Move Call → Bool
  | .start _ => true
  | .resume i =>
    match pool.pending i with
    | some (t, .createConsent w) => presentCheck pool.store w.target && t.log.all fun d =>
        among (d.before.found w.key) (pool.store.found w.key) w.requested &&
          among (pool.store.activeScopes w.key) (d.before.found w.key) w.requested
    | some (t, .recordPolicyAuthorization w) => presentCheck pool.store w.target &&
        t.log.all fun d =>
          among (pool.store.activeScopes w.key) (d.before.activeScopes w.key) w.requested &&
            (!(pool.store.findActive w.key).any (·.authorizationSource == .userConsent) ||
              (d.before.activeScopes w.key ++ w.requested).all fun scope =>
                decide (scope ∈ pool.store.activeScopes w.key))
    | _ => true

theorem present_of_check {s : Store} {target : Target} (h : presentCheck s target = true) :
    s.present target := by
  cases target with
  | existing id =>
    obtain ⟨c, hc, hcheck⟩ := List.any_eq_true.mp h
    exact ⟨c, hc, of_decide_eq_true hcheck⟩
  | new id => trivial

theorem among_iff {scopes earlier requested : List String} :
    among scopes earlier requested = true ↔
      ∀ scope ∈ scopes, scope ∈ earlier ∨ scope ∈ requested := by
  simp [among]

theorem writesCurrent_of_check {pool : ConsentPool} {m : Move Call}
    (h : currentCheck pool m = true) : WritesCurrent pool m := by
  rintro i t rfl
  constructor
  · intro w hpending _
    rw [currentCheck, hpending] at h
    obtain ⟨hpresent, hlog⟩ := (Bool.and_eq_true _ _).mp h
    refine ⟨present_of_check hpresent, fun d hd _ => ?_⟩
    have hscopes := List.all_eq_true.mp hlog d hd
    rw [Bool.and_eq_true, among_iff, among_iff] at hscopes
    exact hscopes
  · intro w hpending _
    rw [currentCheck, hpending] at h
    obtain ⟨hpresent, hlog⟩ := (Bool.and_eq_true _ _).mp h
    refine ⟨present_of_check hpresent, fun d hd _ => ?_⟩
    have hscopes := List.all_eq_true.mp hlog d hd
    rw [Bool.and_eq_true, among_iff, Bool.or_eq_true] at hscopes
    refine ⟨hscopes.1, fun huser scope hscope => ?_⟩
    rcases hscopes.2 with hno | hall
    · rw [huser] at hno
      cases hno
    · exact of_decide_eq_true (List.all_eq_true.mp hall scope (List.mem_append.mpr hscope))

/-- A user consents, the policy authorizes what was consented to, another user is authorized by
the policy, and the first one revokes the consent and consents again. -/
def orderly : List (Move Call) :=
  [.start (consent "u" ["openid"]), .start (authorize "u" ["openid"]),
    .start (authorize "v" ["email"]), .start (.revokeConsent "id-0" "u"),
    .start (consent "u" ["profile"])] ++
    List.replicate 8 (.resume 0) ++ List.replicate 4 (.resume 1) ++ List.replicate 5 (.resume 2) ++
    List.replicate 3 (.resume 3) ++ List.replicate 8 (.resume 4)

theorem ledger_kept_orderly : ∃ pool : ConsentPool, pool.store.KeepsLedger (account "u") ∧
    pool.store.KeepsLedger (account "v") ∧ pool.store.found (account "u") = ["profile"] ∧
    pool.store.activeScopes (account "v") = ["email"] ∧
    pool.threads.all (fun t => t.rest.result.isSome) = true := by
  have hrun : ((Pool.initial store).run Call.program currentCheck orderly).any
      (fun pool => decide (pool.store.found (account "u") = ["profile"] ∧
        pool.store.activeScopes (account "v") = ["email"] ∧
        pool.threads.all (fun t => t.rest.result.isSome) = true)) = true := by
    decide +kernel
  obtain ⟨pool, hpool, hcheck⟩ := (Option.any_eq_true _ _).mp hrun
  have hfresh : store.Fresh := ⟨rfl, rfl⟩
  have hreach := Reachable.of_run (fun _ _ => writesCurrent_of_check) (.initial hfresh) hpool
  obtain ⟨hfound, hactive, hended⟩ := of_decide_eq_true hcheck
  exact ⟨pool, ledger_kept hreach _, ledger_kept hreach _, hfound, hactive, hended⟩

end Sample

end FlareAuth.Consents
