import DirectoryMetrics.Decimal.Reading
import DirectoryMetrics.Yaml.Character
import DirectoryMetrics.Yaml.Token

namespace DirectoryMetrics.Yaml

/-!
Names of nodes, tags, and the directives that abbreviate tags. A tag is a run of octets, since its
characters may be written as escaped octets.
-/

namespace Property

def name? (cs : List Char) : Option (String × List Char) :=
  let name := cs.takeWhile isNameChar
  let rest := cs.dropWhile isNameChar
  let ends := endsWord rest || rest.head?.any fun c => "?:,]\x7d%@\x60".toList.contains c
  if !name.isEmpty && ends then some (String.ofList name, rest) else none

/-- What may stand in a tag; inside of angle brackets also what separates items. -/
def isTagChar (verbatim : Bool) (c : Char) : Bool :=
  isNameChar c || ";/?:@&=+$.!~*'()".toList.contains c ||
    (verbatim && (c = ',' || c = '[' || c = ']'))

def following? (octet : Nat) : Option Nat :=
  if octet < 0x80 then some 0
  else if octet < 0xc0 then none
  else if octet < 0xe0 then some 1
  else if octet < 0xf0 then some 2
  else if octet < 0xf8 then some 3
  else none

/-- Reads on while `pending` escaped octets must follow. -/
def octetsFrom (verbatim : Bool) (pending : Nat) : List Char → Option (List UInt8 × List Char)
  | '%' :: high :: low :: rest => do
      let octet := 16 * (← Decimal.digitIn? 16 high) + (← Decimal.digitIn? 16 low)
      let pending ←
        match pending with
        | 0 => following? octet
        | pending + 1 => if octet / 64 = 2 then some pending else none
      let (octets, rest) ← octetsFrom verbatim pending rest
      return (octet.toUInt8 :: octets, rest)
  | c :: rest =>
      if pending ≠ 0 || c = '%' then none
      else if isTagChar verbatim c then do
        let (octets, rest) ← octetsFrom verbatim 0 rest
        return (c.toNat.toUInt8 :: octets, rest)
      else some ([], c :: rest)
  | [] => if pending = 0 then some ([], []) else none

def asOctets (cs : List Char) : List UInt8 := cs.map (·.toNat.toUInt8)

def handle? : List Char → Option (List Char × List Char)
  | '!' :: rest =>
      let name := rest.takeWhile isNameChar
      match rest.dropWhile isNameChar with
      | '!' :: rest => some ('!' :: name ++ ['!'], rest)
      | rest => some ('!' :: name, rest)
  | _ => none

/-- A handle that stands for a stem has a mark at either end. -/
def isHandle (handle : List Char) : Bool := 1 < handle.length && handle.getLast? = some '!'

/-- A tag in angle brackets, after a handle, or after a single mark. -/
def tag? : List Char → Option (Token × List Char)
  | '!' :: '<' :: cs => do
      match ← octetsFrom true 0 cs with
      | ([], _) => none
      | (octets, '>' :: rest) => some (.tag "" octets, rest)
      | _ => none
  | cs => do
      let (handle, rest) ← handle? cs
      let (octets, rest) ← octetsFrom false 0 rest
      if isHandle handle then
        if octets.isEmpty then none else some (.tag (String.ofList handle) octets, rest)
      else
        match asOctets (handle.drop 1) ++ octets with
        | [] => some (.tag "" (asOctets handle), rest)
        | suffix => some (.tag "!" suffix, rest)

def endsTag (inFlow : Bool) (cs : List Char) : Bool :=
  endsWord cs || (inFlow && cs.head? = some ',')

def skipSpaces (cs : List Char) : List Char := cs.dropWhile isSpace

def versionNumber? (cs : List Char) : Option (Nat × List Char) :=
  let digits := cs.takeWhile Char.isDigit
  if digits.isEmpty || 9 < digits.length then none
  else some (Decimal.natOfDigits digits, cs.dropWhile Char.isDigit)

def version? (cs : List Char) : Option (Token × List Char) := do
  let (major, rest) ← versionNumber? (skipSpaces cs)
  match rest with
  | '.' :: rest =>
      let (minor, rest) ← versionNumber? rest
      return (.version major minor, rest)
  | _ => none

def handleDirective? (cs : List Char) : Option (Token × List Char) := do
  let (handle, rest) ← handle? (skipSpaces cs)
  if handle ≠ ['!'] && !isHandle handle then none
  else if !rest.head?.any isSpace then none
  else
    let (stem, rest) ← octetsFrom true 0 (skipSpaces rest)
    if stem.isEmpty || !endsWord rest then none
    else some (.handle (String.ofList handle) stem, rest)

def directive? (cs : List Char) : Option (Token × List Char) :=
  let name := cs.takeWhile isNameChar
  let rest := cs.dropWhile isNameChar
  if !endsWord rest then none
  else
    match String.ofList name with
    | "YAML" => version? rest
    | "TAG" => handleDirective? rest
    | _ => none

end Property

end DirectoryMetrics.Yaml
