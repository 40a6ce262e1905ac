import FlareAuth.DelegatedExchange

/-!
# Reading back a signed payload

The claims that the readers of an access token find in the payload that its signer wrote: every
reader gets the value that was signed, numeric dates included.
-/

namespace FlareAuth

theorem Json.field_append (fields fields' : List (String × Json)) (key : String) :
    (Json.object (fields ++ fields')).field key =
      ((Json.object fields).field key).or ((Json.object fields').field key) := by
  rw [field, field, field, List.find?_append]
  cases fields.find? fun x => x.1 = key <;> rfl

/-- A member that is only written if there is a value for it. -/
theorem Json.field_optional {α : Type} (name : String) (value : α → Json) (o : Option α)
    (key : String) : (Json.object (o.map fun a => (name, value a)).toList).field key =
      if name = key then o.map value else none := by
  by_cases hkey : name = key <;> cases o <;> simp [field, hkey]

end FlareAuth

namespace FlareAuth.TokenExchange

theorem number_inj {m n : ℕ} (h : number m = number n) : m = n :=
  Text.toString_inj (congrArg NumberText.text (Json.number.inj h))

namespace AccessTokenInput

variable (i : AccessTokenInput)

@[simp] theorem field_iss : i.payload.field "iss" = some (.string i.issuer) := rfl

@[simp] theorem field_sub : i.payload.field "sub" = some (.string i.subject) := rfl

@[simp] theorem field_aud : i.payload.field "aud" = some (.string i.audience) := rfl

@[simp] theorem field_clientId : i.payload.field "client_id" = some (.string i.clientId) := rfl

@[simp] theorem field_scope : i.payload.field "scope" = some (.string (Text.join i.scopes)) := rfl

@[simp] theorem field_organization :
    i.payload.field realmrootOrganizationClaim = i.organization := by
  cases horganization : i.organization <;> cases hactor : i.actor <;>
    simp [payload, Json.field, realmrootOrganizationClaim, horganization, hactor]

@[simp] theorem field_act : i.payload.field "act" =
    i.actor.map fun a => .object [("iss", .string a.iss), ("sub", .string a.sub)] := by
  cases horganization : i.organization <;> cases hactor : i.actor <;>
    simp [payload, Json.field, realmrootOrganizationClaim, horganization, hactor]

@[simp] theorem field_iat : i.payload.field "iat" = some (number (i.issuedAt / 1000)) := by
  cases horganization : i.organization <;> cases hactor : i.actor <;>
    simp [payload, Json.field, realmrootOrganizationClaim, horganization, hactor]

@[simp] theorem field_exp : i.payload.field "exp" = some (number (i.expiresAt / 1000)) := by
  cases horganization : i.organization <;> cases hactor : i.actor <;>
    simp [payload, Json.field, realmrootOrganizationClaim, horganization, hactor]

@[simp] theorem field_jti : i.payload.field "jti" = some (.string i.jti) := by
  cases horganization : i.organization <;> cases hactor : i.actor <;>
    simp [payload, Json.field, realmrootOrganizationClaim, horganization, hactor]

end AccessTokenInput

end FlareAuth.TokenExchange

namespace FlareAuth.Delegation

open TokenExchange

@[simp] theorem readString_string {text : String} : readString (some (.string text)) =
    if text = "" then none else some text := rfl

@[simp] theorem readSingleAudience_string {text : String} :
    readSingleAudience (some (.string text)) = if text = "" then none else some text := rfl

theorem digit?_of_isDigit {c : Char} (h : c.isDigit = true) : digit? c = some (c.toNat - 48) := by
  rw [digit?, if_pos h]

theorem mapM_digit? {cs : List Char} (h : ∀ c ∈ cs, c.isDigit = true) :
    cs.mapM digit? = some (cs.map fun c => c.toNat - 48) := by
  induction cs with
  | nil => rfl
  | cons c cs ih =>
    obtain ⟨hc, hcs⟩ := List.forall_mem_cons.mp h
    rw [List.mapM_cons, digit?_of_isDigit hc, ih hcs]
    rfl

/-- A natural number is read back from its decimal digits. -/
theorem natural?_toDigits (n : ℕ) : natural? (Nat.toDigits 10 n) = some n := by
  have hdigits : ∀ c ∈ Nat.toDigits 10 n, c.isDigit = true :=
    fun c hc => Nat.isDigit_of_mem_toDigits (by decide) (by decide) hc
  have hvalue : Nat.ofDigitChars 10 (Nat.toDigits 10 n) 0 = n := Nat.ofDigitChars_ten_toDigits
  cases hn : Nat.toDigits 10 n with
  | nil => exact absurd hn Nat.toDigits_ne_nil
  | cons c cs =>
    rw [hn] at hdigits hvalue
    change ((c :: cs).mapM digit?).map _ = some n
    rw [mapM_digit? hdigits, Option.map_some, List.foldl_map, ← hvalue]
    rfl

/-- A whole number is read as it was written. -/
@[simp] theorem readNumber_number (n : ℕ) : readNumber (some (number n)) = some (n : ℤ) := by
  have hlist : (toString n).toList = Nat.toDigits 10 n := by
    simp [toString, Nat.repr]
  have hsign : ∀ cs, Nat.toDigits 10 n ≠ '-' :: cs := by
    intro cs hcs
    have hdigit : '-'.isDigit = true :=
      Nat.isDigit_of_mem_toDigits (b := 10) (n := n) (by decide) (by decide)
        (hcs ▸ List.mem_cons_self)
    cases hdigit
  unfold readNumber number NumberText.ofNat
  dsimp only
  rw [hlist]
  split
  · rename_i cs hcs
    exact absurd hcs (hsign cs)
  · rw [natural?_toDigits]
    rfl

end FlareAuth.Delegation
