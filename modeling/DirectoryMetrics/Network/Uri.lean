import DirectoryMetrics.Network.Host

namespace DirectoryMetrics

/-!
Which texts are absolute addresses of a server: a scheme, and after two slashes an optional user, a
host and an optional port number. The path and what follows it are never wrong.
-/

namespace Uri

inductive Scheme where
  | web
  | file
  | other
  deriving DecidableEq, Repr

def Scheme.ofName (name : String) : Scheme :=
  match name with
  | "http" | "https" | "ws" | "wss" | "ftp" => .web
  | "file" => .file
  | _ => .other

def isEdge (c : Char) : Bool := c.toNat ≤ 0x20

def clean (text : String) : List Char :=
  let trimmed := ((text.toList.dropWhile isEdge).reverse.dropWhile isEdge).reverse
  trimmed.filter fun c => c ≠ '\t' ∧ c ≠ '\n' ∧ c ≠ '\r'

def isSchemeChar (c : Char) : Bool := c.isAlphanum || c = '+' || c = '-' || c = '.'

def splitScheme? (text : List Char) : Option (Scheme × List Char) :=
  let name := text.takeWhile isSchemeChar
  match name, text.dropWhile isSchemeChar with
  | c :: _, ':' :: rest =>
      if c.isAlpha then some (Scheme.ofName (String.ofList (name.map Char.toLower)), rest) else none
  | _, _ => none

def isSlash (special : Bool) (c : Char) : Bool := c = '/' || (special && c = '\\')

def endsAuthority (special : Bool) (c : Char) : Bool := isSlash special c || c = '?' || c = '#'

def splitUser? (authority : List Char) : Option (List Char × List Char) :=
  let host := (authority.reverse.takeWhile (· ≠ '@')).reverse
  if host.length = authority.length then none
  else some (authority.take (authority.length - host.length - 1), host)

def splitHost (inside : Bool) : List Char → List Char × List Char
  | [] => ([], [])
  | c :: rest =>
      if c = ':' ∧ inside = false then ([], c :: rest)
      else
        let (host, more) := splitHost (if c = '[' then true else if c = ']' then false else inside) rest
        (c :: host, more)

/-- Digits of a number up to 65535; a slash of either kind ends them. -/
def checkPort (text : List Char) : Except UriError Unit :=
  let digits := text.takeWhile Char.isDigit
  if Decimal.natOfDigits digits > 65535 then .error .badPort
  else
    match text.drop digits.length with
    | [] => .ok ()
    | c :: _ => if c = '\\' then .ok () else .error .badPort

/-- A user that leaves text before the host: more than one lone colon. -/
def leavesUser (user : List Char) : Bool := !(user.isEmpty || user == [':'])

def checkAuthority (special : Bool) (text : List Char) : Except UriError Unit := do
  let authority := text.takeWhile (!endsAuthority special ·)
  let (user, hostAndPort) := (splitUser? authority).getD ([], authority)
  let reachesEnd := authority.length = text.length
  if (splitUser? authority).isSome ∧ user.isEmpty ∧ hostAndPort.isEmpty ∧ !reachesEnd then
    .error .emptyHost
  let (host, rest) := splitHost false hostAndPort
  if special ∧ host.isEmpty then .error .emptyHost
  if special then Host.checkDomain host else Host.checkOpaque host
  if host.isEmpty ∧ (!rest.isEmpty ∨ special) then .error .emptyHost
  match rest with
  | [] => pure ()
  | _ :: digits => checkPort digits
  if host.isEmpty ∧ leavesUser user then .error .emptyHost

def isDriveLetter (host : List Char) : Bool :=
  match host with
  | [letter, mark] => letter.isAlpha && (mark = ':' || mark = '|')
  | _ => false

/-- A file needs no host; the letter of a drive is none. -/
def checkFile (text : List Char) : Except UriError Unit :=
  match text with
  | a :: b :: rest =>
      if isSlash true a && isSlash true b then
        let host := rest.takeWhile (!endsAuthority true ·)
        if host.isEmpty || isDriveLetter host then .ok () else Host.checkDomain host
      else .ok ()
  | _ => .ok ()

def check (text : String) : Except UriError Unit :=
  match splitScheme? (clean text) with
  | none => .error .relative
  | some (.web, rest) => checkAuthority true (rest.dropWhile (isSlash true))
  | some (.file, rest) => checkFile rest
  | some (.other, '/' :: '/' :: rest) => checkAuthority false rest
  | some (.other, _) => .ok ()

end Uri

end DirectoryMetrics
