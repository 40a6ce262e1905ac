import Mathlib.Algebra.Group.Nat.Defs
import Mathlib.Data.List.Basic

/-!
# Hosts of URLs

The host of an `https` URL is a domain, an IPv4 address or an IPv6 address. It is read
from a text in which the same address can be written in many ways, and it is serialized
in one way only.
-/

namespace Web

/-- The code points which no domain has, and the capital letters, which are mapped away. -/
def isForbidden (c : Char) : Bool :=
  c.toNat ≤ 32 || 127 ≤ c.toNat || c.isUpper || "#/:<>?@[\\]^|%".toList.contains c

/-- A domain in lower-case ASCII. -/
structure Domain where
  text : List Char
  nonempty : text ≠ []
  allowed : ∀ c ∈ text, isForbidden c = false
  deriving DecidableEq

abbrev Ipv4Address := BitVec 32

abbrev Ipv6Address := BitVec 128

inductive Host where
  | domain (name : Domain)
  | ipv4 (address : Ipv4Address)
  | ipv6 (address : Ipv6Address)
  deriving DecidableEq

/-- The address has the first `length` bits of the network. -/
def Within {w : ℕ} (network length : ℕ) (address : BitVec w) : Prop :=
  address.toNat / 2 ^ (w - length) = network / 2 ^ (w - length)

instance {w : ℕ} (network length : ℕ) (address : BitVec w) :
    Decidable (Within network length address) :=
  inferInstanceAs (Decidable (_ = _))

section Serializing

def Ipv4Address.octets (a : Ipv4Address) : List ℕ :=
  [a.toNat / 256 ^ 3, a.toNat / 256 ^ 2 % 256, a.toNat / 256 % 256, a.toNat % 256]

def Ipv4Address.serialize (a : Ipv4Address) : List Char :=
  ['.'].intercalate (a.octets.map (Nat.toDigits 10))

def Ipv6Address.pieces (a : Ipv6Address) : List ℕ :=
  [7, 6, 5, 4, 3, 2, 1, 0].map fun k => a.toNat / 2 ^ (16 * k) % 2 ^ 16

def zeroRun (pieces : List ℕ) (k : ℕ) : ℕ := ((pieces.drop k).takeWhile (· == 0)).length

def longestRun (pieces : List ℕ) : ℕ :=
  (List.range pieces.length).foldl
    (fun best k => if zeroRun pieces best < zeroRun pieces k then k else best) 0

def joinPieces (pieces : List ℕ) : List Char := [':'].intercalate (pieces.map (Nat.toDigits 16))

/-- A run of more than one zero piece is left out. -/
def serializePieces (pieces : List ℕ) : List Char :=
  let first := longestRun pieces
  let length := zeroRun pieces first
  if 1 < length then
    joinPieces (pieces.take first) ++ ':' :: ':' :: joinPieces (pieces.drop (first + length))
  else joinPieces pieces

def Ipv6Address.serialize (a : Ipv6Address) : List Char := serializePieces a.pieces

def Host.serialize : Host → List Char
  | .domain name => name.text
  | .ipv4 address => Ipv4Address.serialize address
  | .ipv6 address => '[' :: Ipv6Address.serialize address ++ [']']

end Serializing

section Digits

def hexValue (c : Char) : Option ℕ :=
  if c.isDigit then some (c.toNat - '0'.toNat)
  else if 'a' ≤ c ∧ c ≤ 'f' then some (c.toNat - 'a'.toNat + 10)
  else if 'A' ≤ c ∧ c ≤ 'F' then some (c.toNat - 'A'.toNat + 10)
  else none

/-- The number that digits of a radix stand for. -/
def ofDigits (radix : ℕ) (digits : List Char) : Option ℕ :=
  digits.foldlM (fun n c => do
    let d ← hexValue c
    if d < radix then some (radix * n + d) else none) 0

end Digits

section Ipv4

/-- A number written in decimal, octal or hexadecimal notation. -/
def ipv4Number : List Char → Option ℕ
  | [] => none
  | '0' :: 'x' :: digits => ofDigits 16 digits
  | '0' :: 'X' :: digits => ofDigits 16 digits
  | '0' :: digit :: digits => ofDigits 8 (digit :: digits)
  | digits => ofDigits 10 digits

/-- The labels of a domain, less an empty one at the end. -/
def labels (domain : List Char) : List (List Char) :=
  let parts := domain.splitOn '.'
  if parts.getLast? = some [] then parts.dropLast else parts

def endsInNumber (domain : List Char) : Bool :=
  match (labels domain).getLast? with
  | none => false
  | some last => (last ≠ [] && last.all Char.isDigit) || (ipv4Number last).isSome

/-- The last number fills all octets that are not given. -/
def parseIpv4 (domain : List Char) : Option Ipv4Address := do
  let parts := labels domain
  if 4 < parts.length then none
  let numbers ← parts.mapM ipv4Number
  let last ← numbers.getLast?
  let first := numbers.dropLast
  if first.any (255 < ·) || 256 ^ (5 - numbers.length) ≤ last then none
  return BitVec.ofNat 32
    (first.foldl (fun n octet => 256 * n + octet) 0 * 256 ^ (4 - first.length) +
    last)

end Ipv4

section Ipv6

/-- An octet in decimal notation without leading zeros. -/
def decimalOctet : List Char → Option ℕ
  | [] => none
  | ['0'] => some 0
  | '0' :: _ => none
  | digits => do
    let n ← ofDigits 10 digits
    if n ≤ 255 then some n else none

/-- The last two pieces, written as an IPv4 address. -/
def embeddedIpv4 (text : List Char) : Option (List ℕ) :=
  match (text.splitOn '.').mapM decimalOctet with
  | some [a, b, c, d] => some [256 * a + b, 256 * c + d]
  | _ => none

/-- The pieces of a text that has room for some more of them, and where pieces are left out. A
piece left out counts as one. -/
def readPieces : ℕ → List Char → Option ℕ → List ℕ → Option (List ℕ × Option ℕ)
  | _, [], compress, pieces => some (pieces, compress)
  | 0, _ :: _, _, _ => none
  | room + 1, ':' :: rest, compress, pieces =>
    if compress.isSome then none
    else readPieces room rest (some (pieces.length + 1)) (pieces ++ [0])
  | room + 1, c :: cs, compress, pieces =>
    let text := c :: cs
    let digits := (text.take 4).takeWhile fun c => (hexValue c).isSome
    let value := (ofDigits 16 digits).getD 0
    match text.drop digits.length with
    | [] => some (pieces ++ [value], compress)
    | '.' :: _ =>
      if digits = [] ∨ room < 1 then none
      else (embeddedIpv4 text).map fun last => (pieces ++ last, compress)
    | [':'] => none
    | ':' :: rest => readPieces room rest compress (pieces ++ [value])
    | _ => none

def parseIpv6 (text : List Char) : Option Ipv6Address := do
  let (pieces, compress) ←
    match text with
    | ':' :: ':' :: rest => readPieces 7 rest (some 1) [0]
    | ':' :: _ => none
    | text => readPieces 8 text none []
  let address ←
    match compress with
    | some k => some (pieces.take k ++ List.replicate (8 - pieces.length) 0 ++ pieces.drop k)
    | none => if pieces.length = 8 then some pieces else none
  return BitVec.ofNat 128 (address.foldl (fun n piece => 2 ^ 16 * n + piece) 0)

end Ipv6

section Parsing

/-- The mapping of domains that are not plain ASCII, or have labels in Punycode, to ASCII. It is
given the domain as it is written, with its percent-encoded bytes. -/
class Idna where
  toASCII : List Char → Option (List Char)

/-- The domain of a mapped text. A mapped text is lower-case ASCII, so that what is refused here
are the forbidden code points. -/
def Domain.of? (text : List Char) : Option Domain :=
  if h : text ≠ [] ∧ text.all (fun c => !isForbidden c) = true then
    some ⟨text, h.1, by simpa using h.2⟩
  else none

/-- Percent-decoding of a text all of whose bytes are ASCII. -/
def percentDecode : List Char → Option (List Char)
  | [] => some []
  | '%' :: a :: b :: rest =>
    match hexValue a, hexValue b with
    | some high, some low =>
      if 16 * high + low < 128 then (percentDecode rest).map (Char.ofNat (16 * high + low) :: ·)
      else none
    | _, _ => (percentDecode (a :: b :: rest)).map ('%' :: ·)
  | c :: rest => if c.toNat < 128 then (percentDecode rest).map (c :: ·) else none

def hasPunycode (domain : List Char) : Bool :=
  (domain.splitOn '.').any fun label => "xn--".toList.isPrefixOf (label.map Char.toLower)

variable [Idna]

/-- A plain ASCII domain is written in lower case. -/
def domainToASCII (buffer : List Char) : Option Domain :=
  match percentDecode buffer with
  | some domain =>
    if hasPunycode domain then (Idna.toASCII buffer).bind Domain.of?
    else Domain.of? (domain.map Char.toLower)
  | none => (Idna.toASCII buffer).bind Domain.of?

def parseHost : List Char → Option Host
  | '[' :: rest =>
    if rest.getLast? = some ']' then (parseIpv6 rest.dropLast).map .ipv6 else none
  | buffer => do
    let name ← domainToASCII buffer
    if endsInNumber name.text then (parseIpv4 name.text).map .ipv4 else some (.domain name)

end Parsing

end Web
