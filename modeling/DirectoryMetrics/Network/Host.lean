import DirectoryMetrics.Network.Ip
import DirectoryMetrics.Network.Punycode
import DirectoryMetrics.Text.Letter
import DirectoryMetrics.Text.Octets
import DirectoryMetrics.Text.Printable

namespace DirectoryMetrics

/-!
Host names of addresses. Schemes of the web have domain names or numeric addresses, which are
checked as such; all other schemes have opaque names, in which only delimiters are refused.
-/

inductive UriError where
  | emptyHost
  | internationalName
  | badPort
  | ipv4
  | ipv6
  | domainCharacter
  | relative
  deriving DecidableEq, Repr

def UriError.message : UriError → String
  | .emptyHost => "empty host"
  | .internationalName => "invalid international domain name"
  | .badPort => "invalid port number"
  | .ipv4 => "invalid IPv4 address"
  | .ipv6 => "invalid IPv6 address"
  | .domainCharacter => "invalid domain character"
  | .relative => "relative URL without a base"

namespace Host

def isDelimiter (c : Char) : Bool :=
  [Char.ofNat 0, '\t', '\n', '\r', ' ', '#', '/', ':', '<', '>', '?', '@', '[', '\\', ']', '^',
    '|'].contains c

def checkBracketed (host : List Char) : Except UriError Unit :=
  if host.getLast? ≠ some ']' then .error .ipv6
  else if (Ip.readV6? (host.drop 1).dropLast).isSome then .ok ()
  else .error .ipv6

def checkOpaque (host : List Char) : Except UriError Unit :=
  if host.head? = some '[' then checkBracketed host
  else if host.any isDelimiter then .error .domainCharacter
  else .ok ()

def hexPair? : List Char → Option (UInt8 × List Char)
  | high :: low :: rest => do
      let h ← Decimal.digitIn? 16 high
      let l ← Decimal.digitIn? 16 low
      some (UInt8.ofNat (16 * h + l), rest)
  | _ => none

def percentDecode : (length : Nat) → List Char → List UInt8
  | 0, _ => []
  | _, [] => []
  | length + 1, '%' :: rest =>
      match hexPair? rest with
      | some (octet, rest) => octet :: percentDecode length rest
      | none => '%'.val.toUInt8 :: percentDecode length rest
  | length + 1, c :: rest => (String.singleton c).toUTF8.toList ++ percentDecode length rest

def isForbidden (c : Char) : Bool :=
  c.toNat ≤ 0x20 || c.toNat == 0x7f || "%#/:<>?@[\\]^`\x7b|\x7d".toList.contains c

def ignoredCodes : List (Nat × Nat) :=
  [(0xad, 0xad), (0x34f, 0x34f), (0x180b, 0x180d), (0x180f, 0x180f), (0x200b, 0x200b),
    (0x2060, 0x2060), (0x2064, 0x2064), (0xfe00, 0xfe0f), (0xfeff, 0xfeff)]

def isIgnored (c : Char) : Bool :=
  ignoredCodes.any fun range => range.1 ≤ c.toNat && c.toNat ≤ range.2

/-- A character of a domain name as it is compared: small, and of ordinary width. -/
def mapCharacter (c : Char) : List Char :=
  if isIgnored c then []
  else if c = Char.ofNat 0x3002 then ['.']
  else if 0xff01 ≤ c.toNat ∧ c.toNat ≤ 0xff5e then Text.lower (Char.ofNat (c.toNat - 0xfee0))
  else Text.lower c

def isHidden (c : Char) : Bool :=
  0x80 ≤ c.toNat && Text.hiddenRanges.any (·.has c.toNat)

def isJoining (c : Char) : Bool := Text.joiningRanges.any (·.has c.toNat)

def isValidInLabel (c : Char) : Bool := !isForbidden c && !isHidden c

/-- A coded label is one that decodes to small characters, not all of them plain. -/
def isValidLabel (label : List Char) : Bool :=
  match label with
  | 'x' :: 'n' :: '-' :: '-' :: coded =>
      match Punycode.decode? coded with
      | some decoded =>
          decoded.any (·.toNat ≥ 0x80) && decoded.all (fun c => isValidInLabel c && mapCharacter c == [c]) &&
            !(decoded.head?.any isJoining)
      | none => false
  | _ => label.all isValidInLabel && !(label.head?.any isJoining)

/-- A number in a numeric address: decimal, octal after a zero, or hexadecimal. The inner value is
none for a number of more than 32 bits. -/
def readNumber? (text : List Char) : Option (Option Nat) :=
  let inRadix (radix : Nat) (digits : List Char) : Option (Option Nat) :=
    if digits.isEmpty then some (some 0)
    else (Decimal.readNat? radix digits).map fun n => if n < Nat.pow 2 32 then some n else none
  match text with
  | [] => none
  | '0' :: 'x' :: rest => inRadix 16 rest
  | '0' :: 'X' :: rest => inRadix 16 rest
  | '0' :: c :: rest => inRadix 8 (c :: rest)
  | _ => inRadix 10 text

def labels (domain : List Char) : List (List Char) :=
  let parts := Text.splitOn '.' domain
  if parts.length > 1 ∧ parts.getLast? = some [] then parts.dropLast else parts

def endsInNumber (domain : List Char) : Bool :=
  match (labels domain).getLast? with
  | some last => (!last.isEmpty && last.all Char.isDigit) || (readNumber? last).isSome
  | none => false

/-- At most four numbers; all but the last fit an octet, and the last fills the octets left. -/
def checkNumeric (domain : List Char) : Except UriError Unit :=
  match (labels domain).mapM fun part => (readNumber? part).join with
  | none => .error .ipv4
  | some numbers =>
      let last := numbers.getLast?.getD 0
      let front := numbers.dropLast
      if numbers.length ≤ 4 ∧ last < Nat.pow 256 (4 - front.length) ∧ front.all (· ≤ 255) then .ok ()
      else .error .ipv4

def checkDomain (host : List Char) : Except UriError Unit :=
  if host.head? = some '[' then checkBracketed host
  else
    match Text.Octets.decode? (percentDecode host.length host) with
    | none => .error .internationalName
    | some decoded =>
        let domain := decoded.toList.flatMap mapCharacter
        if !(Text.splitOn '.' domain).all isValidLabel then .error .internationalName
        else if domain.isEmpty then .error .emptyHost
        else if endsInNumber domain then checkNumeric domain
        else .ok ()

end Host

end DirectoryMetrics
