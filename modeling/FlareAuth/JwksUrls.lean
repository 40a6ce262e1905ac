import FlareAuth.Failure
import FlareAuth.Web.Serialized
import FlareAuth.Web.Urls

/-!
# URLs of key sets

The key set of a federated issuer is fetched from a URL that an administrator gives. The
URL must be public: its host is tested by its text, and a text does not tell every
internal address, nor does it belong to one only because it begins like one.
-/

namespace FlareAuth.JwksUrls

open Web

/-- What `Number` makes of a text, as far as it is a natural number. -/
class Numbers where
  number : List Char → Option ℕ
  number_toDigits : ∀ n < 256, number (Nat.toDigits 10 n) = some n

section Model

/-- A bracket at the beginning and one at the end are dropped. -/
def stripBrackets (hostname : List Char) : List Char :=
  let host := if hostname.head? = some '[' then hostname.tail else hostname
  if host.getLast? = some ']' then host.dropLast else host

def isLocalName (host : List Char) : Bool :=
  host == "localhost".toList || ".localhost".toList.isSuffixOf host ||
    ".local".toList.isSuffixOf host

def hasPrivatePrefix (host : List Char) : Bool :=
  host == "::1".toList || "fc".toList.isPrefixOf host || "fd".toList.isPrefixOf host ||
    "fe80:".toList.isPrefixOf host

variable [Numbers]

def isPrivateOctets (parts : List (List Char)) : Bool :=
  match parts.map Numbers.number with
  | [some a, some b, some c, some d] =>
    if [a, b, c, d].any (255 < ·) then false
    else a == 10 || a == 127 || (a == 169 && b == 254) || (a == 172 && 16 ≤ b && b ≤ 31) ||
      (a == 192 && b == 168) || a == 0
  | _ => false

def isPrivateHostname (hostname : List Char) : Bool :=
  let host := stripBrackets (hostname.map Char.toLower)
  if isLocalName host then true
  else if hasPrivatePrefix host then true
  else isPrivateOctets (host.splitOn '.')

variable [Idna]

def validateJwksUrl (value : String) : Except Failure Unit :=
  let invalid := badRequest "jwksUrl must be a valid public HTTPS URL."
  match parseURL value with
  | none => .error invalid
  | some url =>
    if url.protocol ≠ "https:" ∨ url.username ≠ [] ∨ url.password ≠ [] ∨ url.hash ≠ [] ∨
      isPrivateHostname url.hostname = true then .error invalid
    else .ok ()

end Model

section Specification

def IsLocal (name : List Char) : Prop :=
  name = "localhost".toList ∨ ".localhost".toList <:+ name ∨ ".local".toList <:+ name

/-- Loopback, unspecified, private and link-local addresses. -/
def Ipv4Internal (a : Ipv4Address) : Prop :=
  Within 0x7f000000 8 a ∨ Within 0 32 a ∨
    (Within 0x0a000000 8 a ∨ Within 0xac100000 12 a ∨ Within 0xc0a80000 16 a) ∨
    Within 0xa9fe0000 16 a

/-- An IPv6 address that stands for an IPv4 address. -/
def Mapped (a : Ipv6Address) : Prop := Within (0xffff * 2 ^ 32) 96 a

def LinkLocal (a : Ipv6Address) : Prop := Within (0xfe80 * 2 ^ 112) 10 a

/-- Loopback, unspecified, unique-local and link-local addresses, and those mapped to internal
ones. -/
def Ipv6Internal (a : Ipv6Address) : Prop :=
  Within 1 128 a ∨ Within 0 128 a ∨ Within (0xfc00 * 2 ^ 112) 7 a ∨ LinkLocal a ∨
    (Mapped a ∧ Ipv4Internal (a.setWidth 32))

/-- Neither the unspecified address, nor one of the link-local addresses that do not begin with
`fe80`, nor one mapped to an internal address. -/
def Ipv6Told (a : Ipv6Address) : Prop :=
  ¬Within 0 128 a ∧ (LinkLocal a → Within (0xfe80 * 2 ^ 112) 16 a) ∧
    ¬(Mapped a ∧ Ipv4Internal (a.setWidth 32))

def Internal : Host → Prop
  | .domain name => IsLocal name.text
  | .ipv4 address => Ipv4Internal address
  | .ipv6 address => Ipv6Internal address

def PublicName : Host → Prop
  | .domain name => ¬IsLocal name.text
  | _ => False

/-- An `https` URL without credentials and fragment, and its host. -/
structure Plain [Idna] (value : String) (url : URL) (host : Host) : Prop where
  parsed : parseURL value = some url
  protocol : url.protocol = "https:"
  username : url.username = []
  password : url.password = []
  hash : url.hash = []
  host_eq : url.host = some host

variable [Numbers] [Idna]

/-- Only URLs of hosts that are not internal are accepted, and all plain ones of public names. -/
structure Guarded (value : String) : Prop where
  rejects : validateJwksUrl value = .ok () → ∃ url host, parseURL value = some url ∧
    url.protocol = "https:" ∧ url.host = some host ∧ ¬Internal host
  accepts : ∀ url host, Plain value url host → PublicName host → validateJwksUrl value = .ok ()

/-- The hosts which the test by texts puts on the right side. -/
def WellSorted : Host → Prop
  | .domain name => IsLocal name.text ∨ ¬"fc".toList <+: name.text ∧ ¬"fd".toList <+: name.text ∧
      isPrivateOctets (name.text.splitOn '.') = false
  | .ipv4 _ => True
  | .ipv6 address => Ipv6Told address

end Specification

section Hostnames

variable {host : List Char}

theorem isLocalName_iff : isLocalName host = true ↔ IsLocal host := by
  simp only [isLocalName, IsLocal, Bool.or_eq_true, beq_iff_eq,
    List.isSuffixOf_iff_suffix, or_assoc]

/-- A text without an `l` is no local name. -/
theorem not_isLocal (h : 'l' ∉ host) : isLocalName host = false := by
  rw [← Bool.not_eq_true, isLocalName_iff]
  rintro (rfl | hsuffix | hsuffix)
  · exact h (by decide)
  · exact h (hsuffix.subset (by decide))
  · exact h (hsuffix.subset (by decide))

theorem isUpper_of_isDigit {c : Char} (h : c.isDigit = true) : c.isUpper = false := by
  simp only [Char.isDigit, Bool.and_eq_true, decide_eq_true_eq, UInt32.le_iff_toNat_le,
    ge_iff_le] at h
  unfold Char.isUpper
  simp only [decide_eq_false_iff_not, UInt32.le_iff_toNat_le, ge_iff_le]
  change 48 ≤ c.toNat ∧ c.toNat ≤ 57 at h
  change ¬(65 ≤ c.toNat ∧ c.toNat ≤ 90)
  omega

theorem map_toLower (h : ∀ c ∈ host, c.isUpper = false) : host.map Char.toLower = host := by
  induction host with
  | nil => rfl
  | cons c rest ih =>
    have hc := h c List.mem_cons_self
    unfold Char.isUpper at hc
    simp only [decide_eq_false_iff_not] at hc
    have hlower : c.toLower = c := dif_neg hc
    rw [List.map_cons, ih fun d hd => h d (List.mem_cons_of_mem _ hd), hlower]

theorem stripBrackets_of_not_mem (hopen : '[' ∉ host) (hclose : ']' ∉ host) :
    stripBrackets host = host := by
  have hhead : host.head? ≠ some '[' := fun h => hopen (List.mem_of_head? h)
  have hlast : host.getLast? ≠ some ']' := fun h => hclose (List.mem_of_getLast? h)
  rw [stripBrackets, if_neg hhead, if_neg hlast]

theorem stripBrackets_brackets : stripBrackets ('[' :: host ++ [']']) = host := by
  rw [List.cons_append, stripBrackets, List.head?_cons, if_pos rfl, List.tail_cons,
    if_pos List.getLast?_concat, List.dropLast_concat]

variable [Numbers]

/-- A hostname without brackets and capital letters is tested as it is. -/
theorem isPrivateHostname_plain (hupper : ∀ c ∈ host, c.isUpper = false) (hopen : '[' ∉ host)
    (hclose : ']' ∉ host) : isPrivateHostname host = true ↔
      isLocalName host = true ∨ hasPrivatePrefix host = true ∨
        isPrivateOctets (host.splitOn '.') = true := by
  rw [isPrivateHostname, map_toLower hupper, stripBrackets_of_not_mem hopen hclose]
  split
  · next hlocal => simp [hlocal]
  · next hlocal =>
    split
    · next hprefixed => simp [hprefixed]
    · next hprefixed => simp [hlocal, hprefixed]

theorem isPrivateHostname_domain (name : Domain) : isPrivateHostname name.text = true ↔
    IsLocal name.text ∨ "fc".toList <+: name.text ∨ "fd".toList <+: name.text ∨
      isPrivateOctets (name.text.splitOn '.') = true := by
  have hnot : ∀ {c : Char}, isForbidden c = true → c ∉ name.text := by
    intro c hc hmem
    rw [name.allowed c hmem] at hc
    cases hc
  have hupper : ∀ c ∈ name.text, c.isUpper = false := by
    intro c hmem
    have hallowed := name.allowed c hmem
    simp only [isForbidden, Bool.or_eq_false_iff] at hallowed
    exact hallowed.1.2
  have hcolon : ':' ∉ name.text := hnot (by decide)
  have hloopback : name.text ≠ "::1".toList := fun h => hcolon (h ▸ by decide)
  have hlink : ¬"fe80:".toList <+: name.text := fun h => hcolon (h.subset (by decide))
  rw [isPrivateHostname_plain hupper (hnot (by decide)) (hnot (by decide)), isLocalName_iff]
  simp only [hasPrivatePrefix, Bool.or_eq_true, beq_iff_eq, List.isPrefixOf_iff_prefix, hloopback,
    hlink, false_or, or_false, or_assoc]

theorem isPrivateOctets_octets {a b c d : ℕ} (h : ∀ n ∈ [a, b, c, d], n < 256) :
    isPrivateOctets ([a, b, c, d].map (Nat.toDigits 10)) = true ↔
      a = 10 ∨ a = 127 ∨ (a = 169 ∧ b = 254) ∨ (a = 172 ∧ 16 ≤ b ∧ b ≤ 31) ∨
        (a = 192 ∧ b = 168) ∨ a = 0 := by
  have hsmall : [a, b, c, d].any (255 < ·) = false := by
    rw [List.any_eq_false]
    intro n hn
    simpa using Nat.lt_succ_iff.mp (h n hn)
  have hnumbers : ([a, b, c, d].map (Nat.toDigits 10)).map Numbers.number =
      [a, b, c, d].map some := by
    rw [List.map_map]
    exact List.map_congr_left fun n hn => Numbers.number_toDigits n (h n hn)
  rw [isPrivateOctets, hnumbers]
  simp only [List.map_cons, List.map_nil]
  rw [hsmall]
  simp only [Bool.false_eq_true, ↓reduceIte, Bool.or_eq_true, Bool.and_eq_true, beq_iff_eq,
    decide_eq_true_eq, or_assoc, and_assoc]

/-- Internal IPv4 addresses are private hostnames. -/
theorem isPrivateHostname_ipv4 {a : Ipv4Address} (h : Ipv4Internal a) :
    isPrivateHostname (Host.ipv4 a).serialize = true := by
  have hchars : ∀ c ∈ Ipv4Address.serialize a, c.isUpper = false ∧ c ≠ '[' ∧ c ≠ ']' := by
    intro c hc
    rcases mem_serialize_ipv4 hc with rfl | hdigit
    · decide
    · refine ⟨?_, ?_, ?_⟩
      · exact isUpper_of_isDigit hdigit
      · rintro rfl
        cases hdigit
      · rintro rfl
        cases hdigit
  refine (isPrivateHostname_plain (fun c hc => (hchars c hc).1) (fun hc => (hchars _ hc).2.1 rfl)
    fun hc => (hchars _ hc).2.2 rfl).mpr (.inr (.inr ?_))
  rw [splitOn_serialize_ipv4, Ipv4Address.octets, isPrivateOctets_octets octets_lt]
  have hlt : a.toNat < 2 ^ 32 := a.isLt
  simp only [Ipv4Internal, Within] at h
  omega

theorem isPrivateHostname_ipv6 (a : Ipv6Address) :
    isPrivateHostname (Host.ipv6 a).serialize = true ↔
    hasPrivatePrefix (Ipv6Address.serialize a) = true := by
  have hchars : ∀ c ∈ Ipv6Address.serialize a, c.isUpper = false ∧ c ≠ 'l' ∧ c ≠ '.' := by
    intro c hc
    rcases mem_serializePieces hc with rfl | hdigit
    · decide
    · have hall : hexDigits.all (fun c => !c.isUpper && c != 'l' && c != '.') = true := by decide
      simpa [and_assoc] using List.all_eq_true.mp hall c hdigit
  have hlower : (Host.ipv6 a).serialize.map Char.toLower = (Host.ipv6 a).serialize := by
    refine map_toLower fun c hc => ?_
    rcases List.mem_append.mp hc with hc | hc
    · rcases List.mem_cons.mp hc with rfl | hc
      · rfl
      · exact (hchars c hc).1
    · rw [List.mem_singleton.mp hc]
      rfl
  have hlocal := not_isLocal fun hc => (hchars _ hc).2.1 rfl
  have hsplit := List.splitOn_eq_singleton fun hc => (hchars '.' hc).2.2 rfl
  rw [isPrivateHostname, hlower, Host.serialize, stripBrackets_brackets, hlocal, hsplit]
  simp [isPrivateOctets]

end Hostnames

section Prefixes

variable {a : Ipv6Address}

/-- The test of the first piece, where it is one of the pieces of internal addresses. -/
theorem hasPrivatePrefix_first {piece : ℕ} {tail : List Char} (hlow : 0xfc00 ≤ piece)
    (hhigh : piece < 0xff00) : hasPrivatePrefix (Nat.toDigits 16 piece ++ ':' :: tail) = true ↔
      piece < 0xfe00 ∨ piece = 0xfe80 := by
  rw [toDigits_four (by omega) (by omega), show piece / 4096 = 15 by omega]
  have hsecond : piece / 256 % 16 = 12 ∨ piece / 256 % 16 = 13 ∨ piece / 256 % 16 = 14 := by omega
  have hdigit : ∀ m n : Fin 16, m.val.digitChar = n.val.digitChar → m = n := by decide
  rcases hsecond with h | h | h
  · rw [h]
    refine iff_of_true ?_ (by omega)
    simp [hasPrivatePrefix, Nat.digitChar]
  · rw [h]
    refine iff_of_true ?_ (by omega)
    simp [hasPrivatePrefix, Nat.digitChar]
  · rw [h]
    have hprefix : hasPrivatePrefix ('f' :: 'e' :: (piece / 16 % 16).digitChar ::
        (piece % 16).digitChar :: ':' :: tail) = true ↔
        (piece / 16 % 16).digitChar = '8' ∧ (piece % 16).digitChar = '0' := by
      simp [hasPrivatePrefix]
    refine hprefix.trans ⟨fun ⟨hthird, hfourth⟩ => ?_, fun hpiece => ?_⟩
    · have hthird' := hdigit ⟨piece / 16 % 16, by omega⟩ 8 hthird
      have hfourth' := hdigit ⟨piece % 16, by omega⟩ 0 hfourth
      rw [Fin.ext_iff] at hthird' hfourth'
      simp at hthird' hfourth'
      omega
    · rcases hpiece with hpiece | rfl
      · omega
      · exact ⟨rfl, rfl⟩

/-- Which internal IPv6 addresses the test by texts finds. -/
theorem hasPrivatePrefix_internal (h : Ipv6Internal a) :
    hasPrivatePrefix (Ipv6Address.serialize a) = true ↔ Ipv6Told a := by
  rcases h with hloopback | hunspecified | hlocal | hlink | ⟨hmapped, hinternal⟩
  · obtain rfl : a = 1#128 := BitVec.eq_of_toNat_eq (by simpa [Within] using hloopback)
    refine iff_of_true (by decide +kernel) ⟨by decide, fun h => ?_, fun h => ?_⟩
    · exact absurd h (by unfold LinkLocal; decide)
    · exact absurd h.1 (by unfold Mapped; decide)
  · obtain rfl : a = 0#128 := BitVec.eq_of_toNat_eq (by simpa [Within] using hunspecified)
    exact iff_of_false (by decide +kernel) fun h => h.1 (by decide)
  · simp only [Within] at hlocal
    obtain ⟨tail, htext⟩ := serialize_of_first (a := a) (by omega)
    rw [htext, hasPrivatePrefix_first (by omega) (by omega)]
    refine iff_of_true (by omega) ⟨?_, fun h => ?_, fun h => ?_⟩
    · simp only [Within]
      omega
    · simp only [LinkLocal, Within] at h
      omega
    · have hmapped := h.1
      simp only [Mapped, Within] at hmapped
      omega
  · have hpiece := hlink
    simp only [LinkLocal, Within] at hpiece
    obtain ⟨tail, htext⟩ := serialize_of_first (a := a) (by omega)
    rw [htext, hasPrivatePrefix_first (by omega) (by omega)]
    constructor
    · intro h
      refine ⟨?_, fun _ => ?_, fun h => ?_⟩
      · simp only [Within]
        omega
      · simp only [Within]
        omega
      · have hmapped := h.1
        simp only [Mapped, Within] at hmapped
        omega
    · intro h
      have hfirst := h.2.1 hlink
      simp only [Within] at hfirst
      omega
  · have hpiece := hmapped
    simp only [Mapped, Within] at hpiece
    obtain ⟨tail, htext⟩ := serialize_of_mapped (a := a) (by omega)
    rw [htext]
    exact iff_of_false (by simp [hasPrivatePrefix]) fun h => h.2.2 ⟨hmapped, hinternal⟩

end Prefixes

section Sorting

variable [Numbers]

/-- Internal hosts are refused exactly when the test sorts them well. -/
theorem isPrivateHostname_internal {host : Host} (h : Internal host) :
    isPrivateHostname host.serialize = true ↔ WellSorted host := by
  cases host with
  | domain name => exact iff_of_true ((isPrivateHostname_domain name).mpr (.inl h)) (.inl h)
  | ipv4 address => exact iff_of_true (isPrivateHostname_ipv4 h) trivial
  | ipv6 address => exact (isPrivateHostname_ipv6 address).trans (hasPrivatePrefix_internal h)

/-- Public names are accepted exactly when the test sorts them well. -/
theorem isPrivateHostname_publicName {host : Host} (h : PublicName host) :
    isPrivateHostname host.serialize = false ↔ WellSorted host := by
  cases host with
  | domain name =>
    rw [← Bool.not_eq_true, Host.serialize, isPrivateHostname_domain, WellSorted]
    have hpublic : ¬IsLocal name.text := h
    simp only [hpublic, false_or, not_or, Bool.not_eq_true]
  | ipv4 address => exact h.elim
  | ipv6 address => exact h.elim

/-- A host that is neither internal nor a public name is sorted well. -/
theorem wellSorted_of_other {host : Host} (hinternal : ¬Internal host)
    (hpublic : ¬PublicName host) :
    WellSorted host := by
  cases host with
  | domain name => exact absurd hinternal hpublic
  | ipv4 address => trivial
  | ipv6 address =>
    refine ⟨fun h => hinternal (.inr (.inl h)), fun h => ?_, fun h => ?_⟩
    · exact absurd (.inr (.inr (.inr (.inl h)))) hinternal
    · exact hinternal (.inr (.inr (.inr (.inr h))))

variable [Idna]

theorem validateJwksUrl_eq_ok {value : String} : validateJwksUrl value = .ok () ↔
    ∃ url host, Plain value url host ∧ isPrivateHostname host.serialize = false := by
  unfold validateJwksUrl
  cases hparsed : parseURL value with
  | none =>
    refine iff_of_false (by simp) ?_
    rintro ⟨url, host, hplain, -⟩
    rw [hplain.parsed] at hparsed
    cases hparsed
  | some url =>
    dsimp only
    split
    · next hrefused =>
      refine iff_of_false (by simp) ?_
      rintro ⟨url', host, hplain, hpublic⟩
      obtain rfl : url = url' := Option.some.inj (hparsed.symm.trans hplain.parsed)
      rw [URL.hostname, hplain.host_eq] at hrefused
      simp [hplain.protocol, hplain.username, hplain.password, hplain.hash, hpublic] at hrefused
    · next haccepted =>
      simp only [not_or, not_not, Bool.not_eq_true] at haccepted
      obtain ⟨hprotocol, husername, hpassword, hhash, hpublic⟩ := haccepted
      obtain ⟨host, hhost⟩ := parseURL_host hparsed hprotocol
      rw [URL.hostname, hhost] at hpublic
      refine iff_of_true rfl ⟨url, host,
        ⟨hparsed, hprotocol, husername, hpassword, hhash, hhost⟩, ?_⟩
      exact hpublic

theorem validateJwksUrl_of_plain {value : String} {url : URL} {host : Host}
    (h : Plain value url host) :
    validateJwksUrl value = .ok () ↔ isPrivateHostname host.serialize = false := by
  rw [validateJwksUrl_eq_ok]
  constructor
  · rintro ⟨url', host', hplain, hpublic⟩
    obtain rfl : url = url' := Option.some.inj (h.parsed.symm.trans hplain.parsed)
    obtain rfl : host = host' := Option.some.inj (h.host_eq.symm.trans hplain.host_eq)
    exact hpublic
  · exact fun hpublic => ⟨url, host, h, hpublic⟩

/-- Key set URLs are guarded where the host of a plain URL is sorted well by its text, and only
there. -/
theorem guarded_iff_wellSorted (value : String) :
    Guarded value ↔ ∀ url host, Plain value url host → WellSorted host := by
  constructor
  · intro hguarded url host hplain
    by_cases hinternal : Internal host
    · rw [← isPrivateHostname_internal hinternal, ← Bool.not_eq_false,
        ← validateJwksUrl_of_plain hplain]
      intro haccepted
      obtain ⟨url', host', hparsed, -, hhost, houtside⟩ := hguarded.rejects haccepted
      obtain rfl : url = url' := Option.some.inj (hplain.parsed.symm.trans hparsed)
      obtain rfl : host = host' := Option.some.inj (hplain.host_eq.symm.trans hhost)
      exact houtside hinternal
    · by_cases hpublic : PublicName host
      · rw [← isPrivateHostname_publicName hpublic, ← validateJwksUrl_of_plain hplain]
        exact hguarded.accepts url host hplain hpublic
      · exact wellSorted_of_other hinternal hpublic
  · intro hsorted
    constructor
    · intro haccepted
      obtain ⟨url, host, hplain, hpublic⟩ := validateJwksUrl_eq_ok.mp haccepted
      refine ⟨url, host, hplain.parsed, hplain.protocol, hplain.host_eq, fun hinternal => ?_⟩
      have hprivate := (isPrivateHostname_internal hinternal).mpr (hsorted url host hplain)
      rw [hpublic] at hprivate
      cases hprivate
    · intro url host hplain hpublic
      rw [validateJwksUrl_of_plain hplain, isPrivateHostname_publicName hpublic]
      exact hsorted url host hplain

end Sorting

namespace Sample

/-- The numbers of texts of decimal digits. -/
local instance : Numbers where
  number text := if text.all Char.isDigit then some (Nat.ofDigitChars 10 text 0) else none
  number_toDigits n _ := by
    rw [if_pos, Nat.ofDigitChars_ten_toDigits]
    exact List.all_eq_true.mpr fun c hc => Nat.isDigit_of_mem_toDigits (by decide) (by decide) hc

/-- Plain ASCII domains only. -/
local instance : Idna := ⟨fun _ => none⟩

def accepts (value : String) : Bool :=
  match validateJwksUrl value with
  | .ok () => true
  | .error _ => false

theorem accepts_iff {value : String} : accepts value = true ↔ validateJwksUrl value = .ok () := by
  unfold accepts
  split <;> simp [*]

def urlOf (host : Host) : URL := ⟨"https:", [], [], some host, []⟩

theorem not_guarded_of_accepted {value : String} (host : Host)
    (hparsed : parseURL value = some (urlOf host)) (haccepted : accepts value = true)
    (hinternal : Internal host) : ¬Guarded value := by
  intro hguarded
  obtain ⟨url', host', hparsed', -, hhost, houtside⟩ := hguarded.rejects (accepts_iff.mp haccepted)
  obtain rfl : urlOf host = url' := Option.some.inj (hparsed.symm.trans hparsed')
  obtain rfl : host = host' := Option.some.inj hhost
  exact houtside hinternal

theorem not_guarded_of_refused {value : String} (host : Host)
    (hparsed : parseURL value = some (urlOf host)) (hrefused : accepts value = false)
    (hpublic : PublicName host) : ¬Guarded value := by
  intro hguarded
  have haccepted := hguarded.accepts _ host ⟨hparsed, rfl, rfl, rfl, rfl, rfl⟩ hpublic
  rw [← accepts_iff, hrefused] at haccepted
  cases haccepted

theorem allowed_name : ∀ c ∈ "fcbarcelona.com".toList, isForbidden c = false := by
  have hall : ("fcbarcelona.com".toList.all fun c => !isForbidden c) = true := by decide
  simpa using List.all_eq_true.mp hall

def name : Domain := ⟨"fcbarcelona.com".toList, by decide, allowed_name⟩

/-- The unspecified address, a link-local and a mapped one are accepted, and a public name is
refused. -/
theorem jwksUrls_missorted : ¬Guarded "https://[::]/jwks" ∧ ¬Guarded "https://[fe90::1]/jwks" ∧
    ¬Guarded "https://[::ffff:127.0.0.1]/jwks" ∧ ¬Guarded "https://fcbarcelona.com/jwks" := by
  refine ⟨?_, ?_, ?_, ?_⟩
  · refine not_guarded_of_accepted (.ipv6 0) (by decide +kernel) (by decide +kernel) ?_
    exact .inr (.inl (by decide))
  · refine not_guarded_of_accepted (.ipv6 (0xfe90 * 2 ^ 112 + 1)) (by decide +kernel)
      (by decide +kernel) ?_
    exact .inr (.inr (.inr (.inl (by unfold LinkLocal; decide +kernel))))
  · refine not_guarded_of_accepted (.ipv6 (0xffff * 2 ^ 32 + 0x7f000001))
      (by decide +kernel) (by decide +kernel) ?_
    exact .inr (.inr (.inr (.inr ⟨by unfold Mapped; decide +kernel, .inl (by decide +kernel)⟩)))
  · refine not_guarded_of_refused (.domain name) (by decide +kernel) (by decide +kernel) ?_
    rw [PublicName, ← isLocalName_iff]
    decide

end Sample

end FlareAuth.JwksUrls
