import FlareAuth.Web.Hosts

/-!
# Parsing of `https` URLs

The parser of the URL standard, without a base URL. Of a URL of another scheme only the
protocol is kept.
-/

namespace Web

structure URL where
  protocol : String
  username : List Char
  password : List Char
  host : Option Host
  hash : List Char
  deriving DecidableEq

def URL.hostname (url : URL) : List Char := url.host.elim [] Host.serialize

/-- Control characters and spaces at both ends, and all tabs and newlines, are dropped. -/
def cleanInput (value : String) : List Char :=
  let isBlank := fun c : Char => c.toNat ≤ 32
  let trimmed := ((value.toList.dropWhile isBlank).reverse.dropWhile isBlank).reverse
  trimmed.filter fun c => !(['\t', '\n', '\r'].contains c)

/-- The scheme in lower case, and what follows its colon. -/
def splitScheme (text : List Char) : Option (List Char × List Char) :=
  let isSchemeChar := fun c : Char => c.isAlphanum || ['+', '-', '.'].contains c
  match text with
  | [] => none
  | c :: _ =>
    if c.isAlpha then
      match text.dropWhile isSchemeChar with
      | ':' :: rest => some ((text.takeWhile isSchemeChar).map Char.toLower, rest)
      | _ => none
    else none

/-- What stands before the last `@`, and after it. -/
def splitCredentials (authority : List Char) : List Char × List Char :=
  let isOther := fun c : Char => c ≠ '@'
  let reversed := authority.reverse
  ((reversed.dropWhile isOther).tail.reverse, (reversed.takeWhile isOther).reverse)

/-- What stands before the first colon outside of brackets, and after it. -/
def splitPort : Bool → List Char → List Char × List Char
  | _, [] => ([], [])
  | insideBrackets, c :: rest =>
    if c = ':' ∧ insideBrackets = false then ([], rest)
    else
      let (host, port) := splitPort (c = '[' || (c ≠ ']' && insideBrackets)) rest
      (c :: host, port)

def isPort (port : List Char) : Bool :=
  port.all Char.isDigit && ((ofDigits 10 port).any fun n => n ≤ 65535)

variable [Idna]

/-- The user name, the password and the fragment are kept as they are written: encoding them does
not make them empty. -/
def parseURL (value : String) : Option URL := do
  let (scheme, rest) ← splitScheme (cleanInput value)
  if scheme ≠ "https".toList then some ⟨String.ofList scheme ++ ":", [], [], none, []⟩
  else
    let text := rest.dropWhile fun c => c = '/' || c = '\\'
    let inAuthority := fun c : Char => !(['/', '\\', '?', '#'].contains c)
    let (credentials, hostAndPort) := splitCredentials (text.takeWhile inAuthority)
    let (buffer, port) := splitPort false hostAndPort
    if buffer = [] || !isPort port then none
    else
      let host ← parseHost buffer
      return {
        protocol := "https:"
        username := credentials.takeWhile (· ≠ ':')
        password := (credentials.dropWhile (· ≠ ':')).tail
        host := some host
        hash := ((text.dropWhile inAuthority).dropWhile (· ≠ '#')).tail }

/-- An `https` URL has a host. -/
theorem parseURL_host {value : String} {url : URL} (h : parseURL value = some url)
    (hprotocol : url.protocol = "https:") : ∃ host, url.host = some host := by
  obtain ⟨⟨scheme, rest⟩, -, h⟩ := Option.bind_eq_some_iff.mp h
  dsimp only at h
  split at h
  · next hscheme =>
    rw [← Option.some.inj h] at hprotocol
    have hchars := congrArg String.toList hprotocol
    rw [String.toList_append, String.toList_ofList] at hchars
    exact absurd (List.append_cancel_right hchars) hscheme
  · split at h
    · cases h
    · obtain ⟨host, -, h⟩ := Option.bind_eq_some_iff.mp h
      rw [← Option.some.inj h]
      exact ⟨host, rfl⟩

end Web
