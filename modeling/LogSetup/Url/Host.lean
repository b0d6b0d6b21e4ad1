import LogSetup.Text.Split
import LogSetup.Url.Percent

/-!
# Hosts

The host of a URL with a special scheme is a domain name, an IPv4 address or an IPv6 address; a
domain name that ends in a number must be an IPv4 address. Elsewhere a host is an IPv6 address or
any text without delimiters.

International domain names are left out. A domain name with characters beyond ASCII, which would
have to be mapped to ASCII, is refused, and labels that start with `xn--` are taken as they are
written.

## Main definitions

- `Host` : the kinds of host
- `Host.text` : how a host is written
- `Host.readDomain` : the domain name that a text stands for
- `Host.read`, `Host.readPlain` : hosts of special and of other schemes
-/

namespace LogSetup

/-- Why a text is no URL. -/
inductive UrlError where
  | emptyHost
  | invalidDomainName
  | invalidPort
  | invalidIpv4Address
  | invalidIpv6Address
  | invalidDomainCharacter
  | relativeWithoutBase
  deriving DecidableEq, Repr

/-- The wording of an error. -/
def UrlError.message : UrlError → String
  | .emptyHost => "empty host"
  | .invalidDomainName => "invalid international domain name"
  | .invalidPort => "invalid port number"
  | .invalidIpv4Address => "invalid IPv4 address"
  | .invalidIpv6Address => "invalid IPv6 address"
  | .invalidDomainCharacter => "invalid domain character"
  | .relativeWithoutBase => "relative URL without a base"

/-- The host of a URL. An empty domain stands for no host. -/
inductive Host where
  | domain (name : List Char)
  | ipv4 (address : Nat)
  | ipv6 (pieces : List Nat)
  deriving DecidableEq, Repr

namespace Host

/-! ### IPv4 addresses -/

/-- The value of one number of an IPv4 address: decimal, octal after `0`, hexadecimal after `0x`. -/
def ipv4Number? (part : List Char) : Option Nat :=
  match part with
  | [] => none
  | '0' :: 'x' :: rest | '0' :: 'X' :: rest =>
    if rest = [] then some 0 else Text.readDigits? 16 rest
  | '0' :: c :: rest => Text.readDigits? 8 (c :: rest)
  | _ => Text.readDigits? 10 part

/-- Whether the last part of a domain name, not counting an empty one after a final dot, is a
number. -/
def endsInNumber (name : List Char) : Bool :=
  let last :=
    match (Text.splitOn '.' name).reverse with
    | [] :: before :: _ => before
    | last :: _ => last
    | [] => []
  (!last.isEmpty && last.all Char.isDigit) || (ipv4Number? last).isSome

/-- Put the numbers of an address together: all but the last fill one byte each, and the last fills
the bytes that remain. -/
def ipv4OfNumbers? (numbers : List Nat) : Option Nat :=
  match numbers.reverse with
  | [] => none
  | last :: front =>
    let remaining := Nat.pow 256 (4 - front.length)
    if 3 < front.length ∨ front.any (fun n => decide (255 < n)) ∨ remaining ≤ last then none
    else some (front.reverse.foldl (fun acc n => acc * 256 + n) 0 * remaining + last)

/-- Read a domain name as an IPv4 address. -/
def readIpv4 (name : List Char) : Except UrlError Nat :=
  let parts := Text.splitOn '.' name
  let parts := if parts.getLast? = some [] then parts.dropLast else parts
  match (parts.mapM ipv4Number?).bind ipv4OfNumbers? with
  | some n => .ok n
  | none => .error .invalidIpv4Address

/-- The four bytes of an address. -/
def ipv4Bytes (n : Nat) : List Nat :=
  [n / 0x1000000 % 256, n / 0x10000 % 256, n / 0x100 % 256, n % 256]

/-! ### IPv6 addresses -/

/-- A group of one to four hexadecimal digits. -/
def ipv6Group? (group : List Char) : Option Nat :=
  if 4 < group.length then none else Text.readDigits? 16 group

/-- A byte of a dotted address: decimal, without leading zeros, at most 255. -/
def ipv6Byte? (part : List Char) : Option Nat :=
  match part with
  | '0' :: _ :: _ => none
  | _ =>
    match (if 3 < part.length then none else Text.readDigits? 10 part) with
    | some n => if n ≤ 255 then some n else none
    | none => none

/-- The two pieces that a dotted address stands for. -/
def ipv6Dotted? (group : List Char) : Option (List Nat) :=
  match (Text.splitOn '.' group).mapM ipv6Byte? with
  | some [a, b, c, d] => some [a * 256 + b, c * 256 + d]
  | _ => none

/-- The pieces of groups separated by colons; the last may be a dotted address. -/
def ipv6Pieces? : List (List Char) → Option (List Nat)
  | [] => some []
  | [last] => if '.' ∈ last then ipv6Dotted? last else (ipv6Group? last).map fun n => [n]
  | group :: rest =>
    match ipv6Group? group, ipv6Pieces? rest with
    | some n, some more => some (n :: more)
    | _, _ => none

/-- The text before the first double colon and the text after it. -/
def cutDoubleColon? : List Char → Option (List Char × List Char)
  | [] => none
  | ':' :: ':' :: rest => some ([], rest)
  | c :: rest => (cutDoubleColon? rest).map fun (front, back) => (c :: front, back)

/-- The pieces of one side of a double colon, which may be empty. -/
def ipv6Side? (side : List Char) : Option (List Nat) :=
  if side = [] then some [] else ipv6Pieces? (Text.splitOn ':' side)

/-- The eight pieces of an IPv6 address. A double colon stands for at least one zero piece. -/
def readIpv6 (cs : List Char) : Except UrlError (List Nat) :=
  let pieces? : Option (List Nat) :=
    match cutDoubleColon? cs with
    | none => (ipv6Side? cs).bind fun p => if p.length = 8 then some p else none
    | some (front, back) =>
      match ipv6Side? front, ipv6Side? back with
      | some p, some q =>
        if '.' ∈ front ∨ 7 < p.length + q.length then none
        else some (p ++ List.replicate (8 - p.length - q.length) 0 ++ q)
      | _, _ => none
  match pieces? with
  | some p => .ok p
  | none => .error .invalidIpv6Address

/-- How many zero pieces stand at the front. -/
def zeroRun (pieces : List Nat) : Nat := (pieces.takeWhile (· == 0)).length

/-- The first of the longest runs of at least two zero pieces: where it starts and its length. -/
def longestZeros (pieces : List Nat) : Option (Nat × Nat) :=
  (List.range pieces.length).foldl
    (fun best start =>
      let run := zeroRun (pieces.drop start)
      let least := (best.map (·.2)).getD 1
      if least < run then some (start, run) else best)
    none

/-- Pieces in hexadecimal with colons between them. -/
def ipv6Groups (pieces : List Nat) : List Char := Text.joinWith [':'] (pieces.map Text.hexDigits)

/-- An IPv6 address with its longest run of zeros left out. -/
def ipv6Text (pieces : List Nat) : List Char :=
  match longestZeros pieces with
  | none => ipv6Groups pieces
  | some (start, run) =>
    ipv6Groups (pieces.take start) ++ [':', ':'] ++ ipv6Groups (pieces.drop (start + run))

/-! ### Domains -/

/-- Characters that a domain name may not hold. -/
def isForbiddenInDomain (c : Char) : Bool :=
  c.toNat ≤ 0x20 || 0x7F ≤ c.toNat || "#/:<>?@[\\]^|%".toList.contains c

/-- Characters that a plain host may not hold. -/
def isForbiddenInPlain (c : Char) : Bool :=
  c.toNat = 0 || c == '\t' || c == '\n' || c == '\r' || c == ' ' ||
    "#/:<>?@[\\]^|".toList.contains c

/-- The text between square brackets, if the host starts with one. -/
def bracketed? (cs : List Char) : Option (Except UrlError (List Char)) :=
  match cs with
  | '[' :: rest =>
    match rest.reverse with
    | ']' :: inner => some (.ok inner.reverse)
    | _ => some (.error .invalidIpv6Address)
  | _ => none

/-- The domain name that a text stands for: escapes replaced and in small letters. A name that is
not all ASCII is refused. -/
def readDomain (cs : List Char) : Except UrlError (List Char) :=
  match Utf8.decode? (Percent.decode cs) with
  | none => .error .invalidDomainName
  | some name =>
    if name.toList.any isForbiddenInDomain then .error .invalidDomainName
    else if name.toList = [] then .error .emptyHost
    else .ok (Text.lowerAscii name.toList)

/-- The host of a URL with a special scheme. -/
def read (cs : List Char) : Except UrlError Host :=
  match bracketed? cs with
  | some (.ok inner) => (readIpv6 inner).map .ipv6
  | some (.error e) => .error e
  | none =>
    match readDomain cs with
    | .error e => .error e
    | .ok name => if endsInNumber name then (readIpv4 name).map .ipv4 else .ok (.domain name)

/-- The host of a URL with any other scheme. -/
def readPlain (cs : List Char) : Except UrlError Host :=
  match bracketed? cs with
  | some (.ok inner) => (readIpv6 inner).map .ipv6
  | some (.error e) => .error e
  | none =>
    if cs.any isForbiddenInPlain then .error .invalidDomainCharacter
    else .ok (.domain (Percent.encode Percent.controlSet cs))

/-- How a host is written. -/
def text : Host → List Char
  | .domain name => name
  | .ipv4 n => Text.joinWith ['.'] ((ipv4Bytes n).map Text.decimalDigits)
  | .ipv6 pieces => '[' :: (ipv6Text pieces ++ [']'])

end Host

end LogSetup
