import FlareAuth.AccessGrant
import FlareAuth.Text.Encodings

/-!
# The Agent binding of a token

A token of an Agent names the protocol Agent and the Host that it was issued to, with the runtime
session if there is one. What the issuers write is read back as it was, and what the reader accepts
of any other payload is a binding that they could have written.
-/

namespace FlareAuth

def realmrootAgentBindingClaim : String := "urn:realmroot:params:agent:binding"

def maximumSessionIdLength : ℕ := 1024

def isRuntimeStart (c : Char) : Bool := c.isLower || c.isDigit

/-- `runtimePattern`, with the whole text between its anchors. -/
def matchesRuntimePattern (text : String) : Bool :=
  match text.toList with
  | [] => false
  | c :: cs => isRuntimeStart c && decide (cs.length ≤ 63) &&
    cs.all fun c => isRuntimeStart c || c == '.' || c == '_' || c == '-'

/-- A session identifier with something in it besides white space, in at most so many UTF-16
units. -/
def isSessionId (text : String) : Bool :=
  !text.toList.all Text.isSpace && decide ((Text.utf16 text.toList).length ≤ maximumSessionIdLength)

def requiredString : Option Json → Option String
  | some (.string value) => if value ≠ "" then some value else none
  | _ => none

def invalidBinding : Failure := .error "The Agent binding claim is invalid."

def invalidRuntimeSession : Failure := .error "The Agent runtime session binding is invalid."

def readRuntimeSession (protocolAgentId hostId : Id) (runtime sessionId : Option Json) :
    Except Failure AgentBindingClaim :=
  match runtime, sessionId with
  | none, none => .ok ⟨protocolAgentId, hostId, none, none⟩
  | some (.string runtime), some (.string sessionId) =>
    if matchesRuntimePattern runtime && isSessionId sessionId then
      .ok ⟨protocolAgentId, hostId, some runtime, some sessionId⟩
    else .error invalidRuntimeSession
  | _, _ => .error invalidRuntimeSession

def readRealmrootAgentBinding (payload : Json) : Except Failure (Option AgentBindingClaim) :=
  match payload.field realmrootAgentBindingClaim with
  | none => .ok none
  | some (.object fields) => do
    let binding := Json.object fields
    match requiredString (binding.field "protocol_agent_id"),
        requiredString (binding.field "host_id") with
    | some protocolAgentId, some hostId =>
      some <$> readRuntimeSession protocolAgentId hostId (binding.field "runtime")
        (binding.field "session_id")
    | _, _ => .error invalidBinding
  | some _ => .error invalidBinding

namespace AgentBindingClaim

/-- The members of the claim, those of the session only if both are there. -/
def value (b : AgentBindingClaim) : Json :=
  .object ([("protocol_agent_id", .string b.protocolAgentId), ("host_id", .string b.hostId)] ++
    match b.runtime, b.sessionId with
    | some runtime, some sessionId =>
      [("runtime", .string runtime), ("session_id", .string sessionId)]
    | _, _ => [])

/-- `toRealmrootAgentBindingClaim`. -/
def encode (b : AgentBindingClaim) : Except Failure Json :=
  if b.runtime.isNone ≠ b.sessionId.isNone then
    .error (.error "Agent runtime and session ID must be provided together.")
  else .ok b.value

/-- A binding that a token may carry. -/
structure WellFormed (b : AgentBindingClaim) : Prop where
  protocolAgentId : b.protocolAgentId ≠ ""
  hostId : b.hostId ≠ ""
  session : (b.runtime = none ∧ b.sessionId = none) ∨
    ∃ runtime sessionId, b.runtime = some runtime ∧ b.sessionId = some sessionId ∧
      matchesRuntimePattern runtime = true ∧ isSessionId sessionId = true

end AgentBindingClaim

section RoundTrip

variable {b : AgentBindingClaim} {payload : Json}

theorem requiredString_eq_some {value : Option Json} {text : String} :
    requiredString value = some text ↔ value = some (.string text) ∧ text ≠ "" := by
  unfold requiredString
  split
  · rename_i found
    by_cases hfound : found = ""
    · simp only [hfound, ne_eq, not_true_eq_false, if_false, Option.some.injEq, Json.string.injEq]
      simp
    · simp only [hfound, ne_eq, not_false_eq_true, if_true, Option.some.injEq, Json.string.injEq]
      constructor
      · rintro rfl
        exact ⟨rfl, hfound⟩
      · exact And.left
  · rename_i hother
    simp only [reduceCtorEq, false_iff, not_and]
    rintro rfl
    exact absurd rfl (hother text)

theorem readRuntimeSession_eq_ok {protocolAgentId hostId : Id} {runtime sessionId : Option Json} :
    readRuntimeSession protocolAgentId hostId runtime sessionId = .ok b ↔
      b.protocolAgentId = protocolAgentId ∧ b.hostId = hostId ∧
        ((runtime = none ∧ sessionId = none ∧ b.runtime = none ∧ b.sessionId = none) ∨
          ∃ r s, runtime = some (.string r) ∧ sessionId = some (.string s) ∧ b.runtime = some r ∧
            b.sessionId = some s ∧ matchesRuntimePattern r = true ∧ isSessionId s = true) := by
  obtain ⟨agentId, hostId', r', s'⟩ := b
  unfold readRuntimeSession
  split
  · simp only [Except.ok.injEq, AgentBindingClaim.mk.injEq, true_and, reduceCtorEq, false_and,
      exists_const, or_false]
    constructor
    · rintro ⟨rfl, rfl, rfl, rfl⟩
      exact ⟨rfl, rfl, rfl, rfl⟩
    · rintro ⟨rfl, rfl, rfl, rfl⟩
      exact ⟨rfl, rfl, rfl, rfl⟩
  · rename_i r s
    by_cases hvalid : (matchesRuntimePattern r && isSessionId s) = true
    · rw [if_pos hvalid]
      rw [Bool.and_eq_true] at hvalid
      simp only [Except.ok.injEq, AgentBindingClaim.mk.injEq, reduceCtorEq, false_and, false_or,
        Option.some.injEq, Json.string.injEq]
      constructor
      · rintro ⟨rfl, rfl, rfl, rfl⟩
        exact ⟨rfl, rfl, r, s, rfl, rfl, rfl, rfl, hvalid⟩
      · rintro ⟨rfl, rfl, _, _, rfl, rfl, rfl, rfl, _⟩
        exact ⟨rfl, rfl, rfl, rfl⟩
    · rw [if_neg hvalid]
      rw [Bool.and_eq_true] at hvalid
      simp only [reduceCtorEq, false_and, false_or, false_iff, Option.some.injEq, Json.string.injEq]
      rintro ⟨_, _, _, _, rfl, rfl, _, _, hpattern, hsession⟩
      exact hvalid ⟨hpattern, hsession⟩
  · rename_i hneither hstrings
    simp only [reduceCtorEq, false_iff]
    rintro ⟨_, _, ⟨rfl, rfl, _⟩ | ⟨r, s, rfl, rfl, _⟩⟩
    · exact hneither rfl rfl
    · exact hstrings r s rfl rfl

theorem readRealmrootAgentBinding_of_object {fields : List (String × Json)}
    (h : payload.field realmrootAgentBindingClaim = some (.object fields)) :
    readRealmrootAgentBinding payload = .ok (some b) ↔
      requiredString ((Json.object fields).field "protocol_agent_id") = some b.protocolAgentId ∧
      requiredString ((Json.object fields).field "host_id") = some b.hostId ∧
      readRuntimeSession b.protocolAgentId b.hostId ((Json.object fields).field "runtime")
        ((Json.object fields).field "session_id") = .ok b := by
  unfold readRealmrootAgentBinding
  rw [h]
  dsimp only
  split
  · rename_i protocolAgentId hostId hagent hhost
    rw [hagent, hhost, Option.some.injEq, Option.some.injEq]
    constructor
    · intro hread
      cases hsession : readRuntimeSession protocolAgentId hostId
        ((Json.object fields).field "runtime") ((Json.object fields).field "session_id") with
      | error e =>
        rw [hsession] at hread
        cases hread
      | ok found =>
        rw [hsession] at hread
        obtain rfl : found = b := by cases hread; rfl
        obtain ⟨hsame, hsame', _⟩ := readRuntimeSession_eq_ok.mp hsession
        exact ⟨hsame.symm, hsame'.symm, by rw [hsame, hsame', hsession]⟩
    · rintro ⟨rfl, rfl, hsession⟩
      rw [hsession]
      rfl
  · rename_i hmissing
    constructor
    · intro hread
      cases hread
    · rintro ⟨hagent, hhost, _⟩
      exact (hmissing _ _ hagent hhost).elim

/-- What is accepted is a binding that a token may carry. -/
theorem wellFormed_of_read (h : readRealmrootAgentBinding payload = .ok (some b)) :
    b.WellFormed := by
  obtain ⟨fields, hfield⟩ :
      ∃ fields, payload.field realmrootAgentBindingClaim = some (.object fields) := by
    unfold readRealmrootAgentBinding at h
    split at h
    · cases h
    · exact ⟨_, by assumption⟩
    · cases h
  obtain ⟨hagent, hhost, hsession⟩ := (readRealmrootAgentBinding_of_object hfield).mp h
  obtain ⟨_, _, hsession⟩ := readRuntimeSession_eq_ok.mp hsession
  refine ⟨(requiredString_eq_some.mp hagent).2, (requiredString_eq_some.mp hhost).2, ?_⟩
  rcases hsession with ⟨_, _, hruntime, hnone⟩ | ⟨r, s, _, _, hruntime, hid, hpattern, hvalid⟩
  · exact .inl ⟨hruntime, hnone⟩
  · exact .inr ⟨r, s, hruntime, hid, hpattern, hvalid⟩

theorem AgentBindingClaim.WellFormed.encode (h : b.WellFormed) : b.encode = .ok b.value := by
  have hpaired : b.runtime.isNone = b.sessionId.isNone := by
    rcases h.session with ⟨hruntime, hsession⟩ | ⟨r, s, hruntime, hsession, _⟩
    · rw [hruntime, hsession]
    · rw [hruntime, hsession]
      rfl
  rw [AgentBindingClaim.encode, if_neg (by simp [hpaired])]

/-- A session is written with both members or with none. -/
theorem AgentBindingClaim.encode_eq_ok {claim : Json} (h : b.encode = .ok claim) :
    claim = b.value ∧ ((b.runtime = none ∧ b.sessionId = none) ∨
      ∃ r s, b.runtime = some r ∧ b.sessionId = some s) := by
  unfold AgentBindingClaim.encode at h
  split at h
  · cases h
  · rename_i hpaired
    obtain rfl := (Except.ok.inj h).symm
    refine ⟨rfl, ?_⟩
    cases hruntime : b.runtime <;> cases hsession : b.sessionId <;> simp_all

theorem AgentBindingClaim.WellFormed.read (h : b.WellFormed)
    (hfield : payload.field realmrootAgentBindingClaim = some b.value) :
    readRealmrootAgentBinding payload = .ok (some b) := by
  rw [readRealmrootAgentBinding_of_object hfield]
  refine ⟨?_, ?_, readRuntimeSession_eq_ok.mpr ⟨rfl, rfl, ?_⟩⟩
  · exact requiredString_eq_some.mpr ⟨rfl, h.protocolAgentId⟩
  · exact requiredString_eq_some.mpr ⟨rfl, h.hostId⟩
  · rcases h.session with ⟨hruntime, hsession⟩ | ⟨r, s, hruntime, hsession, hpattern, hvalid⟩
    · rw [hruntime, hsession]
      exact .inl ⟨rfl, rfl, rfl, rfl⟩
    · rw [hruntime, hsession]
      exact .inr ⟨r, s, rfl, rfl, rfl, rfl, hpattern, hvalid⟩

/-- Nothing else is read where a binding was written. -/
theorem AgentBindingClaim.eq_of_read {found : Option AgentBindingClaim}
    (hpaired : (b.runtime = none ∧ b.sessionId = none) ∨
      ∃ r s, b.runtime = some r ∧ b.sessionId = some s)
    (hfield : payload.field realmrootAgentBindingClaim = some b.value)
    (hread : readRealmrootAgentBinding payload = .ok found) : found = some b := by
  cases found with
  | none =>
    unfold readRealmrootAgentBinding at hread
    rw [hfield] at hread
    dsimp only [AgentBindingClaim.value] at hread
    split at hread
    · cases hsession : readRuntimeSession _ _ _ _ with
      | error e =>
        rw [hsession] at hread
        cases hread
      | ok x =>
        rw [hsession] at hread
        cases hread
    · cases hread
  | some found =>
    obtain ⟨hagent, hhost, hread⟩ := (readRealmrootAgentBinding_of_object hfield).mp hread
    have hsession := (readRuntimeSession_eq_ok.mp hread).2.2
    clear hread
    have hagent' : some (Json.string b.protocolAgentId) = some (.string found.protocolAgentId) :=
      (requiredString_eq_some.mp hagent).1
    have hhost' : some (Json.string b.hostId) = some (.string found.hostId) :=
      (requiredString_eq_some.mp hhost).1
    obtain ⟨agentId, hostId, runtime, sessionId⟩ := b
    obtain ⟨agentId', hostId', runtime', sessionId'⟩ := found
    dsimp only at hpaired hagent' hhost' hsession ⊢
    cases hagent'
    cases hhost'
    rcases hpaired with ⟨rfl, rfl⟩ | ⟨r, s, rfl, rfl⟩
    · rcases hsession with ⟨_, _, rfl, rfl⟩ | ⟨_, _, hruntime, _⟩
      · rfl
      · cases hruntime
    · rcases hsession with ⟨hruntime, _⟩ | ⟨_, _, hruntime, hid, rfl, rfl, _⟩
      · cases hruntime
      · cases hruntime
        cases hid
        rfl

/-- The reader gives back what the writer wrote just when a token may carry it, and otherwise fails;
what it accepts of any payload, the writer writes and the reader reads again. -/
theorem agentBinding_roundTrip (b : AgentBindingClaim) (payload : Json) :
    (∀ claim, b.encode = .ok claim → payload.field realmrootAgentBindingClaim = some claim →
      (b.WellFormed → readRealmrootAgentBinding payload = .ok (some b)) ∧
      (¬b.WellFormed → ∃ e, readRealmrootAgentBinding payload = .error e)) ∧
    (readRealmrootAgentBinding payload = .ok (some b) → b.WellFormed ∧
      ∃ claim, b.encode = .ok claim ∧ ∀ payload' : Json,
        payload'.field realmrootAgentBindingClaim = some claim →
          readRealmrootAgentBinding payload' = .ok (some b)) := by
  constructor
  · intro claim hencode hfield
    obtain ⟨rfl, hpaired⟩ := AgentBindingClaim.encode_eq_ok hencode
    refine ⟨fun h => h.read hfield, fun hmalformed => ?_⟩
    cases hread : readRealmrootAgentBinding payload with
    | error e => exact ⟨e, rfl⟩
    | ok found =>
      obtain rfl := AgentBindingClaim.eq_of_read hpaired hfield hread
      exact (hmalformed (wellFormed_of_read hread)).elim
  · intro hread
    have hwell := wellFormed_of_read hread
    exact ⟨hwell, b.value, hwell.encode, fun payload' hfield => hwell.read hfield⟩

end RoundTrip

end FlareAuth
