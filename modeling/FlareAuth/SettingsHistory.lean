import FlareAuth.Concurrent.Stamp
import FlareAuth.Concurrent.Trace
import FlareAuth.SettingsMerges

/-!
# Every run of settings writers

A revision names one value, so a write that succeeds under a revision merged its
input into the very value that it replaces.
-/

namespace FlareAuth.Settings

open Concurrent Relational Procedure

abbrev SettingsLog := Log Store Operation

/-- The operation is a write of a key that succeeds. -/
def writes (d : Event Store Operation) (key : SiteSettingsKey) : Bool :=
  match d.operation with
  | .writeSiteSettings k value revision =>
    k = key && (d.before.write? key value revision).isSome
  | _ => false

section Rows

variable {s s' : Store} {key : SiteSettingsKey} {value : Fields} {revision : Option ℕ}

theorem row_update {r : ℕ} {settings : Keyed SiteSettings.key} (value : Fields)
    (k : SiteSettingsKey)
    (hsome : (settings.find key).any (fun x => x.revision == r) = true) :
    (settings.update (fun x => x.key == key && x.revision == r)
      (fun x => ⟨x.key, value, r + 1, Nat.succ_pos r⟩) fun _ => rfl).find k =
      if k = key then some ⟨key, value, r + 1, Nat.succ_pos r⟩ else settings.find k := by
  rw [Keyed.find_update]
  obtain ⟨x, hx, hr⟩ := (Option.any_eq_true _ _).mp hsome
  by_cases hk : k = key
  · subst hk
    have hkey := (Keyed.find_eq_some.mp hx).2
    rw [hx, Option.map_some, if_pos rfl, if_pos (by simpa [hkey] using hr)]
    simp only [hkey]
  · rw [if_neg hk]
    cases hfound : settings.find k with
    | none => rfl
    | some y =>
      have hy : y.key ≠ key := (Keyed.find_eq_some.mp hfound).2 ▸ hk
      rw [Option.map_some, if_neg (by simp [hy])]

/-- What a successful write has found and what it leaves. -/
structure Written (key : SiteSettingsKey) (value : Fields) (revision : Option ℕ) (s s' : Store) :
    Prop where
  found : (s.row key).map (·.revision) = revision
  left : ∃ row, s'.row key = some row ∧ row.value = value ∧ row.revision = s.revision key + 1
  others : ∀ k, k ≠ key → s'.row k = s.row k
  organizations : s'.organizations = s.organizations

theorem written_of_write? (h : s.write? key value revision = some s') :
    Written key value revision s s' := by
  cases revision with
  | none =>
    obtain ⟨settings, hinsert, rfl⟩ := Option.map_eq_some_iff.mp h
    have hnone : s.row key = none := Keyed.find_eq_none.mpr (Keyed.insert?_eq_some hinsert).2
    have hself : settings.find key = some ⟨key, value, 1, Nat.one_pos⟩ :=
      Keyed.find_insert?_self hinsert
    refine ⟨by rw [hnone]; rfl, ⟨_, hself, rfl, ?_⟩, fun k hk => ?_, rfl⟩
    · rw [Store.revision, hnone]
      rfl
    · exact Keyed.find_insert?_of_ne hinsert hk
  | some r =>
    unfold Store.write? at h
    dsimp only at h
    split at h
    · rename_i hsome
      obtain rfl := Option.some.inj h
      obtain ⟨x, hx, hr⟩ := (Option.any_eq_true _ _).mp hsome
      have hrow := fun k => row_update value k hsome
      refine ⟨?_, ⟨⟨key, value, r + 1, Nat.succ_pos r⟩, ?_, rfl, ?_⟩, fun k hk => ?_, rfl⟩
      · rw [hx, Option.map_some, beq_iff_eq.mp hr]
      · exact (hrow key).trans (if_pos rfl)
      · rw [Store.revision, hx, Option.map_some, Option.getD_some, beq_iff_eq.mp hr]
      · exact (hrow k).trans (if_neg hk)
    · cases h

/-- A write fails or is a `Written` step. -/
theorem perform_write (key : SiteSettingsKey) (value : Fields) (revision : Option ℕ) (s : Store) :
    (s.write? key value revision = none ∧
      apply (Operation.writeSiteSettings key value revision) s = s) ∨
    ∃ s', s.write? key value revision = some s' ∧
      apply (Operation.writeSiteSettings key value revision) s = s' := by
  change _ ∧ (s.write? key value revision).getD s = s ∨ ∃ s', _ ∧
    (s.write? key value revision).getD s = s'
  cases h : s.write? key value revision with
  | none => exact .inl ⟨rfl, rfl⟩
  | some s' => exact .inr ⟨s', rfl, rfl⟩

/-- An operation that is no successful write of a key leaves its row. -/
theorem row_of_not_writes {d : Event Store Operation} (h : writes d key = false) :
    (apply d.operation d.before).row key = d.before.row key := by
  obtain ⟨op, s⟩ := d
  cases op with
  | get k | readSiteSettings k | lookUp => rfl
  | writeSiteSettings k value revision =>
    rcases perform_write k value revision s with ⟨_, hs⟩ | ⟨s', hwrite, hs⟩
    · rw [hs]
    · rw [hs]
      refine (written_of_write? hwrite).others key fun hk => ?_
      subst hk
      simp [writes, hwrite] at h

theorem written_of_writes {d : Event Store Operation} (h : writes d key = true) :
    ∃ value revision, d.operation = .writeSiteSettings key value revision ∧
      Written key value revision d.before (apply d.operation d.before) := by
  obtain ⟨op, s⟩ := d
  cases op with
  | get k | readSiteSettings k | lookUp => cases h
  | writeSiteSettings k value revision =>
    simp only [writes, Bool.and_eq_true, decide_eq_true_eq] at h
    obtain ⟨rfl, hsome⟩ := h
    rcases perform_write k value revision s with ⟨hnone, _⟩ | ⟨s', hwrite, hs⟩
    · rw [hnone] at hsome
      cases hsome
    · refine ⟨value, revision, rfl, ?_⟩
      rw [hs]
      exact written_of_write? hwrite

/-- The revision goes up by one with each successful write and never otherwise. -/
theorem revision_apply (d : Event Store Operation) (key : SiteSettingsKey) :
    (apply d.operation d.before).revision key =
      d.before.revision key + if writes d key then 1 else 0 := by
  by_cases h : writes d key
  · obtain ⟨value, revision, _, hwritten⟩ := written_of_writes h
    obtain ⟨row, hrow, _, hrevision⟩ := hwritten.left
    rw [if_pos h, Store.revision, hrow, Option.map_some, Option.getD_some, hrevision]
  · rw [if_neg h, Store.revision, row_of_not_writes (by simpa using h), ← Store.revision,
      Nat.add_zero]

theorem revision_evolution (key : SiteSettingsKey) :
    Evolution Operation fun s t : Store => s.revision key ≤ t.revision key where
  refl s := le_rfl
  trans s t u := le_trans
  step op s := by
    rw [revision_apply ⟨op, s⟩ key]
    exact Nat.le_add_right _ _

/-- A row stays or gets a larger revision. -/
structure Store.Precedes (s s' : Store) : Prop where
  rows : ∀ key row, s.row key = some row →
    s'.row key = some row ∨ row.revision < s'.revision key
  organizations : s'.organizations = s.organizations

theorem revision_of_row {row : SiteSettings} (h : s.row key = some row) :
    s.revision key = row.revision := by
  rw [Store.revision, h]
  rfl

theorem precedes_evolution : Evolution Operation Store.Precedes where
  refl s := ⟨fun _ _ h => .inl h, rfl⟩
  trans s t u hst htu := by
    refine ⟨fun key row hrow => ?_, htu.organizations.trans hst.organizations⟩
    rcases hst.rows key row hrow with h | h
    · exact htu.rows key row h
    · cases ht : t.row key with
      | none =>
        rw [Store.revision, ht] at h
        cases h
      | some row' =>
        rw [revision_of_row ht] at h
        rcases htu.rows key row' ht with h' | h'
        · rw [revision_of_row h']
          exact .inr h
        · exact .inr (h.trans h')
  step op s := by
    refine ⟨fun key row hrow => ?_, ?_⟩
    · by_cases h : writes ⟨op, s⟩ key
      · right
        rw [revision_apply ⟨op, s⟩ key, if_pos h, revision_of_row hrow]
        exact Nat.lt_succ_self _
      · left
        exact (row_of_not_writes (by simpa using h)).trans hrow
    · cases op with
      | get key | readSiteSettings key | lookUp => rfl
      | writeSiteSettings key value revision =>
        rcases perform_write key value revision s with ⟨_, hs⟩ | ⟨s', hwrite, hs⟩
        · rw [hs]
        · rw [hs]
          exact (written_of_write? hwrite).organizations

/-- A row that is found under the revision it was read at is the row that was read. -/
theorem row_of_same_revision (h : s.Precedes s') {read : Option ℕ}
    (hread : read = (s.row key).map (·.revision)) (hfound : (s'.row key).map (·.revision) = read) :
    s'.row key = s.row key := by
  rw [hread] at hfound
  cases hrow : s.row key with
  | none =>
    rw [hrow] at hfound
    exact Option.map_eq_none_iff.mp hfound
  | some row =>
    rw [hrow] at hfound
    rcases h.rows key row hrow with hsame | hless
    · exact hsame
    · obtain ⟨row', hrow', hrevision⟩ := Option.map_eq_some_iff.mp hfound
      rw [revision_of_row hrow', hrevision] at hless
      exact absurd hless (lt_irrefl _)

end Rows

def Operation.Silent : Operation → Prop
  | .writeSiteSettings _ _ _ => False
  | _ => True

theorem leaves_requireMatchingIfMatch (header : IfMatch) (current : Json) (name : String) :
    (requireMatchingIfMatch header current name).Leaves fun _ _ =>
      ∃ tags, header = some tags ∧ matchesTag tags current = true := by
  refine (leaves_orThrow _ _).bind fun tags _ ⟨htags, _⟩ => ?_
  exact (leaves_require _ _).mono fun _ _ ⟨hmatches, _⟩ => ⟨tags, htags, hmatches⟩

theorem silent_requireMatchingIfMatch (header : IfMatch) (current : Json) (name : String) :
    (requireMatchingIfMatch header current name).Only Operation.Silent := by
  simp [requireMatchingIfMatch]

section Contract

variable [Zod]

/-- The read that a write rests on. The navigation is written under the revision that was compared
with the header, any other key under the one that the writer reads. -/
def Based (call : Call) (key : SiteSettingsKey) (d : Event Store Operation) : Prop :=
  match call with
  | .putNavigation ifMatch _ => ∃ tags, ifMatch = some tags ∧ ∃ row,
      d.before.readAt .navigation = .ok row ∧ matchesTag tags (navigationRepresentation row) = true
  | _ => d.operation = .readSiteSettings key

def Grounded (defaults : SecurityPolicy) (call : Call) (log : SettingsLog) (_ : Store) :
    Operation → Prop
  | .writeSiteSettings key value revision => ∃ merge, call.merge defaults key = some merge ∧
      ∃ d ∈ log, Based call key d ∧ ∃ current, d.before.readAt key = .ok current ∧
        revision = current.map (·.revision) ∧ merge (current.map (·.value)) = .ok value
  | _ => True

def Ended {α : Type} (defaults : SecurityPolicy) (call : Call) (log : SettingsLog) :
    Except Failure α → Prop
  | .ok _ => ∀ key merge, call.merge defaults key = some merge → ∃ d ∈ log, writes d key = true
  | .error _ => True

variable {α β : Type} {defaults : SecurityPolicy} {call : Call} {key : SiteSettingsKey}

theorem grounded_of_silent {log : SettingsLog} {s : Store} {op : Operation} (h : op.Silent) :
    Grounded defaults call log s op := by
  cases op with
  | writeSiteSettings => exact h.elim
  | get | readSiteSettings | lookUp => exact trivial

theorem silent_getSiteSettings (key : SiteSettingsKey) :
    (getSiteSettings key).Only Operation.Silent := ⟨trivial, fun _ => only_ofExcept _⟩

theorem silent_getRepresentation (deployment : Deployment) (guarded : Guarded) :
    (getRepresentation deployment guarded).Only Operation.Silent := by
  cases guarded <;>
    simp [getRepresentation, getGeneralSettings, silent_getSiteSettings, Operation.Silent]

/-- The log has grown, and the write of a key is in it if the procedure has returned. -/
def Wrote (key : SiteSettingsKey) (log : SettingsLog) (log' : SettingsLog) :
    Except Failure α → Prop
  | .ok _ => log <:+ log' ∧ ∃ d ∈ log', writes d key = true
  | .error _ => True

theorem obeys_writeSiteSettings (call : Call) {log : SettingsLog} {value : Fields}
    {revision : Option ℕ}
    (h : ∀ s, Grounded defaults call log s (.writeSiteSettings key value revision)) :
    (writeSiteSettings key value revision).Obeys (Grounded defaults call) (Wrote key log) log := by
  intro s
  refine ⟨h s, ?_⟩
  beta_reduce
  by_cases hsome : (s.write? key value revision).isSome = true
  · rw [require_pos hsome]
    refine ⟨List.suffix_cons _ _, _, List.mem_cons_self, ?_⟩
    simp [writes, hsome]
  · rw [require_neg hsome]
    exact trivial

theorem obeys_mergeSiteSettings (call : Call) {merge : Merge}
    (hmerge : call.merge defaults key = some merge)
    (hbased : ∀ s, Based call key ⟨.readSiteSettings key, s⟩) (log : SettingsLog) :
    (mergeSiteSettings key merge).Obeys (Grounded defaults call) (Wrote key log) log := by
  intro s
  refine ⟨trivial, ?_⟩
  change (Procedure.ofExcept (s.readAt key) >>= _).Obeys _ _ _
  cases hread : s.readAt key with
  | error e => exact trivial
  | ok current =>
    change (Procedure.ofExcept (merge (current.map (·.value))) >>= _).Obeys _ _ _
    cases hvalue : merge (current.map (·.value)) with
    | error e => exact trivial
    | ok value =>
      refine (obeys_writeSiteSettings call fun _ =>
        ⟨merge, hmerge, _, List.mem_cons_self, hbased s, current, hread, rfl, hvalue⟩).mono
          fun log' r hr => ?_
      cases r with
      | ok a => exact ⟨(List.suffix_cons _ _).trans hr.1, hr.2⟩
      | error e => exact trivial

/-- Sequencing after operations that write nothing. -/
theorem obeys_silent_bind {p : Registry α} (hp : p.Only Operation.Silent) {f : α → Registry β}
    {Q : SettingsLog → Except Failure β → Prop} {log : SettingsLog}
    (hok : ∀ log' a, log <:+ log' → (f a).Obeys (Grounded defaults call) Q log')
    (herror : ∀ log' e, Q log' (.error e)) :
    (p >>= f).Obeys (Grounded defaults call) Q log :=
  hp.obeys_bind (fun _ _ _ => grounded_of_silent) (fun log' a hgrown _ => hok log' a hgrown.suffix)
    fun log' e _ => herror log' e

theorem leaves_getSiteSettings (key : SiteSettingsKey) :
    (getSiteSettings key).Leaves fun row log =>
      ∃ d ∈ log, d.before.readAt key = .ok row := by
  intro s
  refine (leaves_ofExcept _).mono fun row log ⟨hread, hlog⟩ => ?_
  exact ⟨⟨.get key, s⟩, by simp [hlog], hread⟩

/-- The rest of a call after its writes. -/
theorem ended_of_silent {p : Registry α} (hp : p.Only Operation.Silent) {log : SettingsLog}
    (h : ∀ key merge, call.merge defaults key = some merge → ∃ d ∈ log, writes d key = true) :
    p.Obeys (Grounded defaults call) (Ended defaults call) log := by
  refine hp.obeys (fun _ _ _ => grounded_of_silent) (fun log' _ hgrown _ key merge hmerge => ?_)
    fun _ _ _ => trivial
  obtain ⟨d, hd, hwrites⟩ := h key merge hmerge
  exact ⟨d, hgrown.subset hd, hwrites⟩

theorem obeys_putNavigation (deployment : Deployment) (ifMatch : IfMatch) (input : Fields) :
    (putNavigation deployment ifMatch input).Obeys
      (Grounded defaults (.putNavigation ifMatch input))
      (Ended defaults (.putNavigation ifMatch input)) [] := by
  refine (leaves_getSiteSettings _).obeys_bind (silent_getSiteSettings _)
    (fun _ _ _ => grounded_of_silent) (fun log₁ row hrow _ => ?_) fun _ _ _ => trivial
  refine (leaves_requireMatchingIfMatch _ _ _).obeys_bind (silent_requireMatchingIfMatch _ _ _)
    (fun _ _ _ => grounded_of_silent) (fun log₂ _ hmatch _ => ?_) fun _ _ _ => trivial
  refine (leaves_ofExcept _).obeys_bind (only_ofExcept _)
    (fun _ _ _ => grounded_of_silent) (fun log₃ value hvalue _ => ?_) fun _ _ _ => trivial
  obtain ⟨d, hd, hread⟩ := hrow
  obtain ⟨tags, htags, hmatches⟩ := hmatch
  obtain ⟨hvalue, rfl⟩ := hvalue
  refine Obeys.bind (obeys_writeSiteSettings _ fun s => ⟨_, rfl, d, by simp [hd],
    ⟨tags, htags, row, hread, hmatches⟩, row, hread, ?_, hvalue⟩) (fun log' _ _ hwrote => ?_)
    fun _ _ _ => trivial
  · cases row with
    | none => rfl
    | some v => exact if_neg v.positive.ne'
  · refine ended_of_silent (silent_getRepresentation _ _) fun key merge hmerge => ?_
    cases key <;> cases hmerge
    exact hwrote.2

theorem obeys_updateGeneral (call : Call) {links : Fields} {copy : Option Fields}
    (hmerge : call.merge defaults .general = mergeOfGeneral links copy)
    (hbased : ∀ s, Based call .general ⟨.readSiteSettings .general, s⟩) (log : SettingsLog) :
    (updateGeneral links copy).Obeys (Grounded defaults call)
      (fun log' r => ∀ u, r = .ok u → log <:+ log' ∧
        ((call.merge defaults .general).isSome → ∃ d ∈ log', writes d .general = true)) log := by
  unfold updateGeneral
  unfold mergeOfGeneral at hmerge
  by_cases h : updatesGeneral links copy = true
  · rw [if_pos h] at hmerge ⊢
    refine (obeys_mergeSiteSettings call hmerge hbased log).mono fun log' r hr u hu => ?_
    subst hu
    exact ⟨hr.1, fun _ => hr.2⟩
  · rw [if_neg h] at hmerge ⊢
    refine fun u _ => ⟨List.suffix_rfl, fun hsome => ?_⟩
    rw [hmerge] at hsome
    cases hsome

theorem obeys_updateSignIn (call : Call) {input : Option SignInInput}
    (hmerge : call.merge defaults .signIn = input.map mergeSignIn)
    (hbased : ∀ s, Based call .signIn ⟨.readSiteSettings .signIn, s⟩) (log : SettingsLog) :
    (updateSignIn input).Obeys (Grounded defaults call)
      (fun log' r => ∀ u, r = .ok u → log <:+ log' ∧
        ((call.merge defaults .signIn).isSome → ∃ d ∈ log', writes d .signIn = true)) log := by
  cases input with
  | none =>
    refine fun u _ => ⟨List.suffix_rfl, fun hsome => ?_⟩
    rw [hmerge] at hsome
    cases hsome
  | some x =>
    refine (obeys_mergeSiteSettings call hmerge hbased log).mono fun log' r hr u hu => ?_
    subst hu
    exact ⟨hr.1, fun _ => hr.2⟩

theorem obeys_updateSettings (input : SettingsInput) :
    (updateSettings input).Obeys (Grounded defaults (.updateSettings input))
      (Ended defaults (.updateSettings input)) [] := by
  refine Obeys.bind (obeys_updateSignIn (.updateSettings input) rfl (fun _ => rfl) [])
    (fun log₁ _ _ h₁ => ?_)
    fun _ _ _ => trivial
  refine (obeys_updateGeneral (.updateSettings input) rfl (fun _ => rfl) log₁).mono
    fun log₂ r h₂ => ?_
  cases r with
  | error e => exact trivial
  | ok u =>
    obtain ⟨hgrown, hgeneral⟩ := h₂ u rfl
    intro key merge hmerge
    cases key with
    | general => exact hgeneral (by rw [hmerge]; rfl)
    | signIn =>
      obtain ⟨d, hd, hwrites⟩ := (h₁ _ rfl).2 (by rw [hmerge]; rfl)
      exact ⟨d, hgrown.subset hd, hwrites⟩
    | branding | accountCenter | navigation | security | developer | email => cases hmerge

theorem obeys_updateBranding (input : Fields) (copy : Option Fields) :
    (updateBranding input copy).Obeys (Grounded defaults (.updateBranding input copy))
      (Ended defaults (.updateBranding input copy)) [] := by
  refine Obeys.bind (obeys_updateGeneral (.updateBranding input copy) rfl (fun _ => rfl) [])
    (fun log₁ _ _ h₁ => ?_) fun _ _ _ => trivial
  refine (obeys_mergeSiteSettings (.updateBranding input copy) rfl (fun _ => rfl)
    log₁).mono fun log₂ r h₂ => ?_
  cases r with
  | error e => exact trivial
  | ok u =>
    obtain ⟨hgrown, hbranding⟩ := h₂
    intro key merge hmerge
    cases key with
    | branding => exact hbranding
    | general =>
      obtain ⟨d, hd, hwrites⟩ := (h₁ _ rfl).2 (by rw [hmerge]; rfl)
      exact ⟨d, hgrown.subset hd, hwrites⟩
    | signIn | accountCenter | navigation | security | developer | email => cases hmerge

theorem obeys_replace (deployment : Deployment) (ifMatch : IfMatch) (replacement : Replacement)
    (log : SettingsLog) : (replacement.replace deployment).Obeys
      (Grounded defaults (.putReplacement ifMatch replacement))
      (Wrote replacement.guarded.key log) log := by
  have hgrown : ∀ {log' log'' : SettingsLog} {r : Except Failure Unit}, log <:+ log' →
      Wrote replacement.guarded.key log' log'' r → Wrote replacement.guarded.key log log'' r := by
    intro log' log'' r hlog hr
    cases r with
    | ok u => exact ⟨hlog.trans hr.1, hr.2⟩
    | error e => exact trivial
  cases replacement with
  | organizationCreation input =>
    refine obeys_silent_bind ?_ (fun log' _ hlog => ?_) fun _ _ => trivial
    · exact only_forEach fun id => by simp [getUser, Operation.Silent]
    · exact (obeys_mergeSiteSettings (.putReplacement ifMatch (.organizationCreation input)) rfl
        (fun _ => rfl) log').mono fun _ _ => hgrown hlog
  | developerConsoleAccess input =>
    refine obeys_silent_bind ?_ (fun log' _ hlog => ?_) fun _ _ => trivial
    · exact only_forEach fun id => by simp [findOrganization, Operation.Silent]
    · exact (obeys_mergeSiteSettings (.putReplacement ifMatch (.developerConsoleAccess input)) rfl
        (fun _ => rfl) log').mono fun _ _ => hgrown hlog
  | realm name =>
    exact obeys_mergeSiteSettings (.putReplacement ifMatch (.realm name)) rfl (fun _ => rfl) log
  | email input =>
    refine obeys_silent_bind (only_require _ _) (fun log' _ hlog => ?_) fun _ _ => trivial
    exact (obeys_mergeSiteSettings (.putReplacement ifMatch (.email input)) rfl
      (fun _ => rfl) log').mono fun _ _ => hgrown hlog

theorem obeys_putReplacement (deployment : Deployment) (ifMatch : IfMatch)
    (replacement : Replacement) : (putReplacement deployment ifMatch replacement).Obeys
      (Grounded defaults (.putReplacement ifMatch replacement))
      (Ended defaults (.putReplacement ifMatch replacement)) [] := by
  refine obeys_silent_bind (silent_getRepresentation _ _) (fun log₁ current _ => ?_)
    fun _ _ => trivial
  refine obeys_silent_bind (silent_requireMatchingIfMatch _ _ _) (fun log₂ _ _ => ?_)
    fun _ _ => trivial
  refine Obeys.bind (obeys_replace deployment ifMatch replacement log₂) (fun log₃ _ _ hwrote => ?_)
    fun _ _ _ => trivial
  refine ended_of_silent (silent_getRepresentation _ _) fun key merge hmerge => ?_
  simp only [Call.merge] at hmerge
  split at hmerge
  · rename_i hkey
    exact hkey ▸ hwrote.2
  · cases hmerge

theorem obeys_updatePolicy (deployment : Deployment) (input : SecurityPolicyInput)
    (enrolled : Bool) : (updatePolicy deployment input enrolled).Obeys
      (Grounded deployment.securityPolicy (.updatePolicy input enrolled))
      (Ended deployment.securityPolicy (.updatePolicy input enrolled)) [] := by
  refine obeys_silent_bind (silent_getSiteSettings _) (fun log₁ stored _ => ?_) fun _ _ => trivial
  refine obeys_silent_bind (only_ofExcept _) (fun log₂ current _ => ?_) fun _ _ => trivial
  refine obeys_silent_bind (only_require _ _) (fun log₃ _ _ => ?_) fun _ _ => trivial
  refine (obeys_mergeSiteSettings (.updatePolicy input enrolled) rfl (fun _ => rfl)
    log₃).mono fun log₄ r hr => ?_
  cases r with
  | error e => exact trivial
  | ok u =>
    intro key merge hmerge
    cases key <;> cases hmerge
    exact hr.2

theorem ended_of_wrote {log log' : SettingsLog}
    (hkey : ∀ k merge, call.merge defaults k = some merge → k = key)
    {r : Except Failure α} (h : Wrote key log log' r) :
    Ended defaults call log' r := by
  cases r with
  | error e => exact trivial
  | ok u => exact fun k merge hmerge => hkey k merge hmerge ▸ h.2

theorem program_contract (deployment : Deployment) (call : Call) :
    (call.program deployment).Obeys (Grounded deployment.securityPolicy call)
      (Ended deployment.securityPolicy call) [] := by
  have hreply : ∀ {γ : Type} {p : Registry γ} {f : γ → Option Json},
      p.Obeys (Grounded deployment.securityPolicy call) (Ended deployment.securityPolicy call) [] →
      (p >>= fun a => done (f a)).Obeys (Grounded deployment.securityPolicy call)
        (Ended deployment.securityPolicy call) [] :=
    fun hp => hp.bind (fun _ _ _ h => h) fun _ _ _ => trivial
  cases call with
  | putNavigation ifMatch input => exact hreply (obeys_putNavigation deployment ifMatch input)
  | putReplacement ifMatch replacement =>
    exact hreply (obeys_putReplacement deployment ifMatch replacement)
  | updateSettings input => exact hreply (obeys_updateSettings input)
  | updateBranding input copy => exact hreply (obeys_updateBranding input copy)
  | updateBrandingAsset kind assetId =>
    refine hreply ((obeys_mergeSiteSettings (.updateBrandingAsset kind assetId) rfl
      (fun _ => rfl) []).mono fun log r hr => ?_)
    exact ended_of_wrote (fun k merge hmerge => by cases k <;> cases hmerge; rfl) hr
  | updateAccountCenterSettings input =>
    refine hreply ((obeys_mergeSiteSettings (.updateAccountCenterSettings input) rfl
      (fun _ => rfl) []).mono fun log r hr => ?_)
    exact ended_of_wrote (fun k merge hmerge => by cases k <;> cases hmerge; rfl) hr
  | updatePolicy input enrolled => exact hreply (obeys_updatePolicy deployment input enrolled)

end Contract

end FlareAuth.Settings
