import FlareAuth.SettingsHistory

/-!
# No settings update is lost

Revisions count the successful writes of a key, each of which keeps the fields
that its input does not mention. So a field keeps its value until a later
successful write mentions it.
-/

namespace FlareAuth.Settings

open Concurrent Procedure

theorem parsed_congr {s s' : Store} {key : SiteSettingsKey} (h : s'.row key = s.row key) :
    s'.parsed key = s.parsed key := by
  rw [Store.parsed, Store.parsed, h]

theorem effective_of_not_writes {f : Field} {defaults : SecurityPolicy}
    {d : Event Store Operation} (h : writes d f.key = false) :
    f.effective defaults (apply d.operation d.before) = f.effective defaults d.before := by
  rw [Field.effective, Field.effective, parsed_congr (row_of_not_writes h)]

section Runs

variable [Zod] {deployment : Deployment} {init : Store → Prop}
  {ok : SettingsPool → Move Call → Prop} {pool : SettingsPool}
  {t : Thread Call Store Operation Failure (Option Json)} {d : Event Store Operation}
  {key : SiteSettingsKey}

theorem parsed_of_readAt {s : Store} {current : Option Versioned}
    (h : s.readAt key = .ok current) : s.parsed key = current.map (·.value) ∧
      (s.row key).map (·.revision) = current.map (·.revision) := by
  unfold Store.readAt at h
  rw [Store.parsed]
  cases hrow : s.row key with
  | none =>
    rw [hrow] at h
    obtain rfl := Except.ok.inj h
    exact ⟨rfl, rfl⟩
  | some row =>
    rw [hrow] at h
    dsimp only at h
    cases hparse : key.schema.parse row.value with
    | error e =>
      rw [hparse] at h
      cases h
    | ok value =>
      rw [hparse] at h
      obtain rfl := Except.ok.inj h
      rw [Schema.parse_eq_ok hparse]
      exact ⟨rfl, rfl⟩

/-- A write that succeeds merges the call's input into the value that it replaces. -/
structure Replaces (defaults : SecurityPolicy) (call : Call) (key : SiteSettingsKey)
    (d e : Event Store Operation) : Prop where
  based : Based call key e
  read : ∃ current, e.before.readAt key = .ok current
  row : d.before.row key = e.before.row key
  organizations : d.before.organizations = e.before.organizations
  merged : ∃ merge w, call.merge defaults key = some merge ∧ merge (d.before.parsed key) = .ok w ∧
    (apply d.operation d.before).parsed key = some (key.schema.normalize w)

theorem replaces_of_pending (h : Reachable (Call.program deployment) init ok pool) {i : ℕ}
    {op : Operation} (hpending : pool.pending i = some (t, op))
    (hwrites : writes ⟨op, pool.store⟩ key = true) :
    ∃ e ∈ t.log, Replaces deployment.securityPolicy t.call key ⟨op, pool.store⟩ e := by
  obtain ⟨value, revision, hop, hwritten⟩ := written_of_writes hwrites
  dsimp only at hop
  subst hop
  obtain ⟨ht, merge, hmerge, e, he, hbased, current, hread, hrevision, hvalue⟩ :=
    h.pending_obeys (program_contract deployment) hpending
  have hprecedes : e.before.Precedes pool.store := h.evolves_before precedes_evolution ht he
  obtain ⟨hparsed, hfound⟩ := parsed_of_readAt hread
  have hrow : pool.store.row key = e.before.row key :=
    row_of_same_revision hprecedes (hrevision.trans hfound.symm) hwritten.found
  refine ⟨e, he, hbased, ⟨current, hread⟩, hrow, hprecedes.organizations, merge, value, hmerge,
    ?_, ?_⟩
  · dsimp only
    rw [parsed_congr hrow, hparsed]
    exact hvalue
  · obtain ⟨row, hleft, hsame, _⟩ := hwritten.left
    rw [Store.parsed, hleft, Option.map_some, hsame]

theorem replaces_of_writes (h : Reachable (Call.program deployment) init ok pool)
    (ht : t ∈ pool.threads) (hd : d ∈ t.log) (hwrites : writes d key = true) :
    ∃ e, Replaces deployment.securityPolicy t.call key d e := by
  obtain ⟨later, earlier, hlog⟩ := List.append_of_mem hd
  obtain ⟨pool₀, i, t₀, after, hreach, _, hi, hcall, _, hrest, hstore, _⟩ := h.of_log ht hlog
  obtain ⟨op, s⟩ := d
  dsimp only at hstore hrest
  subst hstore
  obtain ⟨e, _, hreplaced⟩ :=
    replaces_of_pending hreach (Pool.pending_of_step hi hrest) hwrites
  rw [hcall] at hreplaced
  exact ⟨e, hreplaced⟩

/-- A field that a successful write neither mentions nor replaces keeps its effective value. -/
theorem effective_of_writes (h : Reachable (Call.program deployment) init ok pool)
    (ht : t ∈ pool.threads) (hd : d ∈ t.log) {f : Field} (hwrites : writes d f.key = true)
    (hmentions : t.call.mentions f = false)
    (hreplaces : t.call.replaces deployment.securityPolicy d.before f = false)
    (hopen : t.call.leavesOpen f = false) :
    f.effective deployment.securityPolicy (apply d.operation d.before) =
      f.effective deployment.securityPolicy d.before := by
  obtain ⟨e, hreplaced⟩ := replaces_of_writes h ht hd hwrites
  obtain ⟨merge, w, hmerge, hvalue, hafter⟩ := hreplaced.merged
  rw [Field.effective, hafter]
  exact read_of_merge hmerge hvalue hmentions hreplaces hopen

/-- The field is none that a later write of its key mentions or replaces. -/
def Untouched (defaults : SecurityPolicy) (pool : SettingsPool) (s : Store) (f : Field) : Prop :=
  ∀ t ∈ pool.threads, ∀ d ∈ t.log, writes d f.key = true →
    s.revision f.key ≤ d.before.revision f.key →
    t.call.mentions f = false ∧ t.call.replaces defaults d.before f = false ∧
      t.call.leavesOpen f = false

theorem effective_of_untouched (h : Reachable (Call.program deployment) init ok pool) {s : Store}
    (hs : s ∈ pool.history) {f : Field} (hf : Untouched deployment.securityPolicy pool s f) :
    f.effective deployment.securityPolicy pool.store =
      f.effective deployment.securityPolicy s := by
  refine h.unchanged_since (revision_evolution f.key) hs fun t ht d hd hlater => ?_
  by_cases hwrites : writes d f.key = true
  · obtain ⟨hmentions, hreplaces, hopen⟩ := hf t ht d hd hwrites hlater
    exact effective_of_writes h ht hd hwrites hmentions hreplaces hopen
  · exact effective_of_not_writes (by simpa using hwrites)

end Runs

/-- In every run of settings writers a call that returns has written each key it updates, revisions
count the successful writes, each of which changes only fields that its input mentions, or captcha's
secret key if it names another provider, and so a field keeps its value until a later write of its
key mentions or replaces it. About the legacy binding of a captcha that is configured again nothing
is said. -/
theorem no_update_lost [Zod] {deployment : Deployment} {pool : SettingsPool}
    (h : Reachable (Call.program deployment) (fun _ => True) (Unrestricted _ _ _ _ _) pool) :
    (∀ t ∈ pool.threads,
      (∀ reply, t.rest = .done reply → ∀ key merge,
        t.call.merge deployment.securityPolicy key = some merge →
          ∃ d ∈ t.log, writes d key = true) ∧
      (∀ d ∈ t.log, ∀ key, (apply d.operation d.before).revision key =
        d.before.revision key + if writes d key then 1 else 0) ∧
      ∀ d ∈ t.log, ∀ f : Field, writes d f.key = true → t.call.mentions f = false →
        t.call.replaces deployment.securityPolicy d.before f = false →
        t.call.leavesOpen f = false →
        f.effective deployment.securityPolicy (apply d.operation d.before) =
          f.effective deployment.securityPolicy d.before) ∧
    ∀ s ∈ pool.history, ∀ f : Field, Untouched deployment.securityPolicy pool s f →
      f.effective deployment.securityPolicy pool.store =
        f.effective deployment.securityPolicy s := by
  refine ⟨fun t ht => ⟨fun reply hdone => ?_, fun d _ key => revision_apply d key,
    fun d hd f hwrites hmentions hreplaces hopen =>
      effective_of_writes h ht hd hwrites hmentions hreplaces hopen⟩,
    fun s hs f hf => effective_of_untouched h hs hf⟩
  exact h.returned (program_contract deployment) ht hdone

namespace Sample

/-- Schemas that accept every value. -/
instance (priority := low) lenient : Zod := ⟨fun _ _ => true⟩

def captcha : CaptchaPolicy :=
  ⟨.bool false, .string "turnstile", .string "", none, "", none⟩

def policy : SecurityPolicy where
  mfa := [("mode", .string "optional")]
  passkeys := [("enabled", .bool true), ("rpId", .string "auth.example"),
    ("rpName", .string "Realmroot"), ("origins", texts ["https://auth.example"])]
  sessions := [("expiresInSeconds", .number (.ofNat 604800)),
    ("updateAgeSeconds", .number (.ofNat 86400)), ("freshAgeSeconds", .number (.ofNat 86400)),
    ("cookieCacheSeconds", .number (.ofNat 300))]
  password := [("minLength", .number (.ofNat 8)), ("requiredCharacterTypes", .number (.ofNat 1)),
    ("customWords", .array []), ("rejectUserInfo", .bool false), ("rejectSequential", .bool false),
    ("rejectCustomWords", .bool false)]
  captcha := captcha
  blocklist := [("blockSubaddressing", .bool false), ("entries", .array [])]

def deployment : Deployment := ⟨"https://auth.example", none, policy⟩

def store : Store := ⟨.empty _, [], []⟩

def captchaUpdate (input : CaptchaInput) : Call :=
  .updatePolicy ⟨none, none, none, none, some input, none⟩ true

/-- A captcha configuration with its secret, and then one of another provider without a secret. -/
def captchaUpdates : List (Move Call) :=
  .start (captchaUpdate
    ⟨.bool true, .string "turnstile", .string "site", none, some "turnstile-secret"⟩) ::
    List.replicate 3 (.resume 0) ++
    .start (captchaUpdate ⟨.bool false, .string "hcaptcha", .string "", none, none⟩) ::
    List.replicate 3 (.resume 1)

def run (moves : List (Move Call)) : Option SettingsPool :=
  (Pool.initial store).run (Call.program deployment) (fun _ _ => true) moves

/-- The name of the realm is written while an update of the copy has read it. -/
def racingCopies : Option SettingsPool := run
  ([.start (.updateSettings ⟨none, [], some [("headline", .string "Welcome")]⟩), .resume 0,
    .start (.putReplacement (some [.any]) (.realm "Example"))] ++ List.replicate 6 (.resume 1) ++
    [.resume 0])

def oneFailed (pool : SettingsPool) : Bool :=
  pool.threads.any (fun t => match t.rest with
    | .fail _ => true
    | _ => false) &&
  pool.threads.any fun t => match t.rest with
    | .done _ => true
    | _ => false

def captchaReplaced (pool : SettingsPool) : Bool :=
  pool.threads.any fun t => t.log.any fun d =>
    writes d .security && t.call.mentions (.captcha "secretKey") == false &&
      (Field.captcha "secretKey").effective deployment.securityPolicy
        (apply d.operation d.before) != (Field.captcha "secretKey").effective
          deployment.securityPolicy d.before

end Sample

/-- The second of two writers has lost the race and thrown. -/
theorem no_update_lost_sample : ∃ pool : SettingsPool, Sample.oneFailed pool = true ∧
    ∀ s ∈ pool.history, ∀ f : Field, Untouched Sample.deployment.securityPolicy pool s f →
      f.effective Sample.deployment.securityPolicy pool.store =
        f.effective Sample.deployment.securityPolicy s := by
  have hrun : Sample.racingCopies.any Sample.oneFailed = true := by decide +kernel
  obtain ⟨pool, hpool, hcheck⟩ := (Option.any_eq_true _ _).mp hrun
  exact ⟨pool, hcheck,
    (no_update_lost (Reachable.of_run (fun _ _ _ => trivial) (.initial trivial) hpool)).2⟩

/-- A captcha configuration of another provider empties the secret key that it does not mention. -/
theorem captcha_secret_lost : ∃ pool : SettingsPool,
    Reachable (Call.program Sample.deployment) (fun _ => True) (Unrestricted _ _ _ _ _) pool ∧
      ¬∀ t ∈ pool.threads, ∀ d ∈ t.log, ∀ f : Field, writes d f.key = true →
        t.call.mentions f = false →
        f.effective Sample.deployment.securityPolicy (apply d.operation d.before) =
          f.effective Sample.deployment.securityPolicy d.before := by
  have hrun : (Sample.run Sample.captchaUpdates).any Sample.captchaReplaced = true := by
    decide +kernel
  obtain ⟨pool, hpool, hcheck⟩ := (Option.any_eq_true _ _).mp hrun
  refine ⟨pool, Reachable.of_run (fun _ _ _ => trivial) (.initial trivial) hpool, fun h => ?_⟩
  simp only [Sample.captchaReplaced, List.any_eq_true, Bool.and_eq_true, beq_iff_eq,
    bne_iff_ne] at hcheck
  obtain ⟨t, ht, d, hd, ⟨hwrites, hmentions⟩, hchanged⟩ := hcheck
  exact hchanged (h t ht d hd (.captcha "secretKey") hwrites hmentions)

end FlareAuth.Settings
