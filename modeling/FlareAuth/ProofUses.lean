import FlareAuth.Concurrent.Stamp
import FlareAuth.DpopProofs

/-!
# Uses of a proof

The row of an accepted proof stays until a batch whose reading of the clock is past
its expiry takes it away, and then the proof is outside its window. A request that
has checked the window before may still insert the row once more.
-/

namespace FlareAuth.Dpop

open Concurrent Procedure

abbrev ProofLog := Log Store Operation

def Records (e : Event Store Operation) (row : JtiRow) : Prop :=
  e.operation = .consumeJti row ∧ e.before.Admits row

section Contract

variable [Jose] [Platform]

def Grounded (c : Call) (log : ProofLog) (_ : Store) : Operation → Prop
  | .consumeJti row => (∃ d ∈ log, row.createdAt = d.before.now) ∧
      ∀ p, c.proof = some p → row.jtiHash = sha256 p.jti ∧ row.expiresAt = expiresAtOf p.iat
  | _ => True

def Settles (c : Call) (log : ProofLog) (accepted : Bool) : Prop :=
  ∀ p, c.proof = some p → accepted = true → ∃ e ∈ log, ∃ row, Records e row

variable {proof : String} {verified : Verified} {thumbprint : String}

theorem proofOf_eq (hverified : verifyDpopProof proof = .ok verified)
    (hthumbprint : thumbprintOf verified.header = .ok thumbprint) {jti : String} {iat : ℚ}
    (hjti : textOf verified.payload "jti" = some jti)
    (hiat : numberIn verified.payload "iat" = some iat) :
    proofOf proof = some ⟨jti, thumbprint, iat⟩ := by
  simp [proofOf, hverified, hthumbprint, hjti, hiat, Except.toOption]

theorem obeys_clock_bind {α : Type} {c : Call} {P : ProofLog → Except Failure α → Prop}
    {f : ℕ → Proving α} {log : ProofLog}
    (h : ∀ s : Store, (f s.now).Obeys (Grounded c) P (⟨.read, s⟩ :: log)) :
    (clock >>= f).Obeys (Grounded c) P log := fun s => ⟨trivial, h s⟩

theorem obeys_consumeJti_bind {α : Type} {c : Call} {P : ProofLog → Except Failure α → Prop}
    {f : Bool → Proving α} {row : JtiRow} {log : ProofLog}
    (hrow : ∀ s, Grounded c log s (.consumeJti row))
    (hfresh : ∀ s : Store, s.Admits row →
      (f true).Obeys (Grounded c) P (⟨.consumeJti row, s⟩ :: log))
    (hused : ∀ s : Store, (f false).Obeys (Grounded c) P (⟨.consumeJti row, s⟩ :: log)) :
    (consumeJti row >>= f).Obeys (Grounded c) P log := by
  intro s
  refine ⟨hrow s, ?_⟩
  by_cases hadmits : s.Admits row
  · have hanswer : decide (s.Admits row) = true := decide_eq_true hadmits
    simp only [hanswer]
    exact hfresh s hadmits
  · have hanswer : decide (s.Admits row) = false := decide_eq_false hadmits
    simp only [hanswer]
    exact hused s

theorem obeys_consumeProof {c : Call} {payload : Fields} {log : ProofLog}
    (hproof : ∀ jti iat, textOf payload "jti" = some jti → numberIn payload "iat" = some iat →
      c.proof = some ⟨jti, thumbprint, iat⟩) :
    (consumeProof payload thumbprint).Obeys (Grounded c)
      (fun log r => r = .ok () → ∃ e ∈ log, ∃ row, Records e row) log := by
  refine obeys_orThrow_bind (fun jti hjti => ?_) fun _ h => nomatch h
  refine obeys_orThrow_bind (fun iat hiat => ?_) fun _ h => nomatch h
  refine obeys_clock_bind fun s => ?_
  refine obeys_require_bind (fun _ => ?_) fun _ h => nomatch h
  refine obeys_clock_bind fun s' => ?_
  refine obeys_consumeJti_bind (fun _ => ⟨⟨_, List.mem_cons_self, rfl⟩, fun p hp => ?_⟩)
    (fun s'' hadmits => ?_) fun _ => ?_
  · rw [hproof jti iat hjti hiat, Option.some.injEq] at hp
    subst hp
    exact ⟨rfl, rfl⟩
  · rw [require_pos rfl]
    exact fun _ => ⟨_, List.mem_cons_self, _, rfl, hadmits⟩
  · rw [require_neg Bool.false_ne_true]
    exact fun h => nomatch h

theorem program_contract (c : Call) : c.program.Obeys (Grounded c)
    (fun log r => ∀ accepted, r = .ok accepted → Settles c log accepted) [] := by
  have hend : ∀ (log : ProofLog) (e : Failure) accepted,
      (Except.error e : Except Failure Bool) = .ok accepted → Settles c log accepted :=
    fun _ _ _ h => nomatch h
  cases c with
  | token proof tokenEndpoint =>
    rw [Call.program, validateDpopTokenProof]
    simp only [bind_assoc]
    refine obeys_ofExcept_bind (fun e _ => hend _ e) fun verified hverified => ?_
    refine obeys_ofExcept_bind (fun e _ => hend _ e) fun target _ => ?_
    refine obeys_require_bind (fun _ => ?_) fun _ => hend _ _
    refine obeys_ofExcept_bind (fun e _ => hend _ e) fun thumbprint hthumbprint => ?_
    refine (obeys_consumeProof (c := .token proof tokenEndpoint) fun jti iat hjti hiat =>
      proofOf_eq hverified hthumbprint hjti hiat).bind ?_ fun _ e _ => hend _ e
    intro log _ _ hrecorded accepted _ p _ _
    exact hrecorded rfl
  | resource input =>
    rw [Call.program, validateDpopResourceProof]
    simp only [bind_assoc]
    refine obeys_ofExcept_bind (fun e _ => hend _ e) fun verified hverified => ?_
    refine obeys_ofExcept_bind (fun e _ => hend _ e) fun thumbprint hthumbprint => ?_
    refine obeys_require_bind (fun _ => ?_) fun _ => hend _ _
    refine obeys_ofExcept_bind (fun e _ => hend _ e) fun target _ => ?_
    refine obeys_require_bind (fun _ => ?_) fun _ => hend _ _
    refine obeys_require_bind (fun _ => ?_) fun _ => hend _ _
    refine (obeys_consumeProof (c := .resource input) fun jti iat hjti hiat =>
      proofOf_eq hverified hthumbprint hjti hiat).bind ?_ fun _ e _ => hend _ e
    intro log _ _ hrecorded accepted _ p _ _
    exact hrecorded rfl
  | agentAuth jti maxAgeSec =>
    intro s
    refine ⟨trivial, fun s' => ⟨⟨⟨⟨.read, s⟩, List.mem_cons_self, rfl⟩, ?_⟩, ?_⟩⟩
    · exact fun p hp => nomatch hp
    · exact fun _ _ p hp => nomatch hp
  | elapse milliseconds =>
    intro s
    exact ⟨trivial, fun _ _ p hp => nomatch hp⟩

end Contract

section Runs

/-- A batch whose reading of the clock is past an expiry has taken effect. -/
def SweptPast (pool : ProofPool) (expiresAt : ℤ) : Prop :=
  ∃ t ∈ pool.threads, ∃ e ∈ t.log, ∃ row, Records e row ∧ expiresAt < (row.createdAt : ℤ)

def Accepts [Jose] [Platform] (t : Thread Call Store Operation Failure Bool)
    (p : DpopProof) : Prop :=
  t.call.proof = some p ∧ t.rest = .done true

variable [Jose] [Platform] {init : Store → Prop} {ok : ProofPool → Move Call → Prop}
  {pool pool' : ProofPool} {t : Thread Call Store Operation Failure Bool}

theorem SweptPast.next {m : Move Call} (hnext : pool.next Call.program m = some pool')
    {expiresAt : ℤ} (h : SweptPast pool expiresAt) : SweptPast pool' expiresAt := by
  obtain ⟨t, ht, e, he, row, hswept⟩ := h
  obtain ⟨t', ht', _, hlog⟩ := Pool.thread_persists hnext ht
  exact ⟨t', ht', e, hlog.subset he, row, hswept⟩

end Runs

namespace Sample

/-- Every proof is a signed one of the same key, made at second 1000. -/
local instance : Jose where
  decodeProtectedHeader _ := some [("typ", .string "dpop+jwt"), ("alg", .string "EdDSA"),
    ("jwk", .object [("kty", .string "OKP"), ("crv", .string "Ed25519")])]
  compactVerify _ _ := some [("htm", .string "POST"), ("htu", .string "https://auth.example/token"),
    ("jti", .string "jti"), ("iat", .number (.ofNat 1000))]
  calculateJwkThumbprint _ := some "thumbprint"

local instance : Platform where
  endpointOf := some
  numberOf _ := 1000
  base64Url digest := digest.preimage
  toLowerCase := id
  toUpperCase := id

/-- The last millisecond of the window. -/
def store : Store := ⟨1300000, []⟩

def request : Call := .token "proof" "https://auth.example/token"

def proof : DpopProof := ⟨"jti", "thumbprint", 1000⟩

/-- A proof is used, and used again one millisecond later. -/
def replayed : List (Move Call) :=
  [.start request, .resume 0, .resume 0, .resume 0, .start request, .resume 1, .resume 1, .resume 1]

/-- A second request checks the window in time, and reads the clock for its row too late. -/
def overtaken : List (Move Call) :=
  [.start request, .start request, .start (.elapse 1), .resume 0, .resume 0, .resume 0, .resume 1,
    .resume 2, .resume 1, .resume 1]

def landsCheck (pool : ProofPool) : Move Call → Bool
  | .start _ => true
  | .resume i =>
    match pool.pending i with
    | some (_, .consumeJti row) => decide ((row.createdAt : ℤ) ≤ row.expiresAt) &&
        pool.threads.all fun t => t.log.all fun e =>
          match e.operation with
          | .consumeJti batch => decide ((batch.createdAt : ℤ) ≤ row.expiresAt)
          | _ => true
    | _ => true

def accepted (pool : ProofPool) (i : ℕ) : Bool :=
  match pool.threads[i]? with
  | some t => decide (t.call.proof = some proof) &&
    match t.rest with
    | .done accepted => accepted
    | _ => false
  | none => false

end Sample

end FlareAuth.Dpop
