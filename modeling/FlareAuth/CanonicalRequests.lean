import FlareAuth.AccessGrant
import FlareAuth.AgentCreation
import FlareAuth.CanonicalJson

/-!
# Hashes of canonical texts

A Context is known by the hash of its details, and a request to create an Agent
by its fingerprint. Both are digests of canonical texts, so what has one digest
is equal up to the order of keys.
-/

namespace FlareAuth

open AgentCreation Json

/-- Requests that are equal but for the order of keys in the public key. -/
structure AgentCreation.CreateAgent.Same (a b : CreateAgent) : Prop where
  username : a.username = b.username
  name : a.name = b.name
  runtime : a.runtime = b.runtime
  agentId : a.installation.agentId = b.installation.agentId
  hostId : a.installation.hostId = b.installation.hostId
  installationName : a.installation.name = b.installation.name
  kid : a.installation.kid = b.installation.kid
  publicKey : Json.Same a.installation.publicKey b.installation.publicKey

structure AgentCreation.Context.Same (a b : Context) : Prop where
  applicationId : a.applicationId = b.applicationId
  actorUserId : a.actorUserId = b.actorUserId
  issuer : a.issuer = b.issuer

section Fingerprints

variable {input input' : CreateAgent} {context context' : Context}

theorem string_of_same {s s' : String} (h : Json.Same (.string s) (.string s')) : s = s' := by
  cases h
  rfl

theorem same_of_json (h : Json.Same input.json input'.json) : input.Same input' := by
  have hkeys : ["username", "name", "runtime", "installation"].Nodup := by decide
  have hfields := sameFields_of_same h rfl hkeys
  obtain - | ⟨-, husername, hfields⟩ := hfields
  obtain - | ⟨-, hname, hfields⟩ := hfields
  obtain - | ⟨-, hruntime, hfields⟩ := hfields
  obtain - | ⟨-, hinstallation, -⟩ := hfields
  have hkeys : ["agentId", "hostId", "name", "kid", "publicKey"].Nodup := by decide
  have hfields := sameFields_of_same hinstallation rfl hkeys
  obtain - | ⟨-, hagentId, hfields⟩ := hfields
  obtain - | ⟨-, hhostId, hfields⟩ := hfields
  obtain - | ⟨-, hinstallationName, hfields⟩ := hfields
  obtain - | ⟨-, hkid, hfields⟩ := hfields
  obtain - | ⟨-, hpublicKey, -⟩ := hfields
  exact ⟨string_of_same husername, string_of_same hname, string_of_same hruntime,
    string_of_same hagentId, string_of_same hhostId, string_of_same hinstallationName,
    string_of_same hkid, hpublicKey⟩

def fingerprinted (input : CreateAgent) (context : Context) : Json :=
  .object [("applicationId", .string context.applicationId),
    ("actorUserId", .string context.actorUserId), ("issuer", .string context.issuer),
    ("agent", input.json)]

theorem keysDistinct_fingerprinted (h : input.installation.publicKey.KeysDistinct) :
    (fingerprinted input context).KeysDistinct := by
  have houter : ["applicationId", "actorUserId", "issuer", "agent"].Nodup := by decide
  have hagent : ["username", "name", "runtime", "installation"].Nodup := by decide
  have hinstallation : ["agentId", "hostId", "name", "kid", "publicKey"].Nodup := by decide
  exact ⟨houter, trivial, trivial, trivial,
    ⟨hagent, trivial, trivial, trivial,
      ⟨hinstallation, trivial, trivial, trivial, trivial, h, trivial⟩, trivial⟩, trivial⟩

theorem same_fingerprinted : Json.Same (fingerprinted input context)
    (fingerprinted input' context') ↔ input.Same input' ∧ context.Same context' := by
  constructor
  · intro h
    have hkeys : ["applicationId", "actorUserId", "issuer", "agent"].Nodup := by decide
    have hfields := sameFields_of_same h rfl hkeys
    obtain - | ⟨-, happlicationId, hfields⟩ := hfields
    obtain - | ⟨-, hactorUserId, hfields⟩ := hfields
    obtain - | ⟨-, hissuer, hfields⟩ := hfields
    obtain - | ⟨-, hagent, -⟩ := hfields
    exact ⟨same_of_json hagent, string_of_same happlicationId, string_of_same hactorUserId,
      string_of_same hissuer⟩
  · rintro ⟨hinput, happlicationId, hactorUserId, hissuer⟩
    rw [fingerprinted, fingerprinted, CreateAgent.json, CreateAgent.json, hinput.username,
      hinput.name, hinput.runtime, hinput.agentId, hinput.hostId, hinput.installationName,
      hinput.kid, happlicationId, hactorUserId, hissuer]
    have hinstallation : Json.Same (.object [("agentId", .string input'.installation.agentId),
        ("hostId", .string input'.installation.hostId),
        ("name", .string input'.installation.name), ("kid", .string input'.installation.kid),
        ("publicKey", input.installation.publicKey)])
        (.object [("agentId", .string input'.installation.agentId),
        ("hostId", .string input'.installation.hostId),
        ("name", .string input'.installation.name), ("kid", .string input'.installation.kid),
        ("publicKey", input'.installation.publicKey)]) :=
      .object (.cons _ (.string _) (.cons _ (.string _) (.cons _ (.string _) (.cons _ (.string _)
        (.cons _ hinput.publicKey .nil))))) (.refl _)
    have hagent : SameFields _ _ := .cons "username" (.string input'.username)
      (.cons "name" (.string input'.name) (.cons "runtime" (.string input'.runtime)
        (.cons "installation" hinstallation .nil)))
    exact .object (.cons _ (.string _) (.cons _ (.string _) (.cons _ (.string _)
      (.cons _ (.object hagent (.refl _)) .nil)))) (.refl _)

end Fingerprints

theorem sha256_inj {value value' : String} : sha256 value = sha256 value' ↔ value = value' := by
  simp [sha256]

section Faithful

variable [Locale] [Std.TransCmp (localeCompare)] [Std.LawfulEqCmp (localeCompare)]

/-- A canonical text is faithful where locale comparison is a strict total order of the keys. So
Contexts with one hash and requests with one fingerprint are the same, since digests tell texts
apart. -/
theorem canonicalJson_faithful :
    (∀ a b : Json, a.KeysDistinct → b.KeysDistinct →
      (canonicalJson a = canonicalJson b ↔ Json.Same a b)) ∧
    (∀ details details' : List AuthorizationDetail, ItemsDistinct details →
      ItemsDistinct details' →
      (contextHash details = contextHash details' ↔ SameItems details details')) ∧
    ∀ (input input' : CreateAgent) (context context' : Context),
      input.installation.publicKey.KeysDistinct → input'.installation.publicKey.KeysDistinct →
      (applicationAgentCreationFingerprint input context =
        applicationAgentCreationFingerprint input' context' ↔
        input.Same input' ∧ context.Same context') := by
  refine ⟨fun a b ha _ => canonicalJson_eq_iff ha, ?_, ?_⟩
  · intro details details' hdetails _
    have harray : (Json.array details).KeysDistinct := hdetails
    rw [contextHash, contextHash, sha256_inj, canonicalJson_eq_iff harray]
    constructor
    · rintro ⟨⟩
      assumption
    · exact .array
  · intro input input' context context' hkey _
    rw [applicationAgentCreationFingerprint, applicationAgentCreationFingerprint, sha256_inj]
    exact (canonicalJson_eq_iff (keysDistinct_fingerprinted hkey)).trans same_fingerprinted

end Faithful

namespace Sample

def publicKey : Json := .object [("kty", .string "OKP"), ("crv", .string "Ed25519")]

/-- The public key with its keys in the other order. -/
def reorderedKey : Json := .object [("crv", .string "Ed25519"), ("kty", .string "OKP")]

def creation (publicKey : Json) : CreateAgent where
  username := "ada"
  name := "Ada"
  runtime := "node"
  installation := ⟨"agent", "host", "laptop", "kid", publicKey⟩

def creationContext : Context := ⟨⟨"application", "u", "key"⟩, "iss"⟩

theorem same_reordered : Json.Same publicKey reorderedKey :=
  .object (.cons _ (.string _) (.cons _ (.string _) .nil)) (.swap _ _ [])

end Sample

/-- What differs in the order of keys has one text: a public key, a Context and a request to create
an Agent. -/
theorem canonicalJson_faithful_sample :
    canonicalJson Sample.publicKey = canonicalJson Sample.reorderedKey ∧
    contextHash [Sample.publicKey] = contextHash [Sample.reorderedKey] ∧
    applicationAgentCreationFingerprint (Sample.creation Sample.publicKey) Sample.creationContext =
      applicationAgentCreationFingerprint (Sample.creation Sample.reorderedKey)
        Sample.creationContext := by
  have htrans : Std.TransCmp (localeCompare) :=
    inferInstanceAs (Std.TransCmp (compare : String → String → Ordering))
  have hlawful : Std.LawfulEqCmp (localeCompare) :=
    inferInstanceAs (Std.LawfulEqCmp (compare : String → String → Ordering))
  have hkey : Sample.publicKey.KeysDistinct := ⟨by decide, trivial, trivial, trivial⟩
  have hreordered : Sample.reorderedKey.KeysDistinct := ⟨by decide, trivial, trivial, trivial⟩
  have hsame := Sample.same_reordered
  obtain ⟨htexts, hhashes, hfingerprints⟩ := canonicalJson_faithful
  refine ⟨(htexts _ _ hkey hreordered).mpr hsame, ?_, ?_⟩
  · exact (hhashes [Sample.publicKey] [Sample.reorderedKey] ⟨hkey, trivial⟩
      ⟨hreordered, trivial⟩).mpr (.cons hsame .nil)
  · refine (hfingerprints _ _ _ _ hkey hreordered).mpr ⟨?_, ⟨rfl, rfl, rfl⟩⟩
    exact ⟨rfl, rfl, rfl, rfl, rfl, rfl, rfl, hsame⟩

end FlareAuth
