namespace DirectoryMetrics.Yaml

def isSpace (c : Char) : Bool := c = ' ' || c = '\t'

/-- Other line ends have been replaced by line feeds. -/
def isBreak (c : Char) : Bool := c = '\n' || c = '\u2028' || c = '\u2029'

def isNameChar (c : Char) : Bool := c.isAlphanum || c = '_' || c = '-'

def isFlowIndicator (c : Char) : Bool :=
  c = ',' || c = '[' || c = ']' || c = '{' || c = '}'

def byteOrderMark : Char := '\ufeff'

def endsWord : List Char → Bool
  | [] => true
  | c :: _ => isSpace c || isBreak c

def isAllowed (c : Char) : Bool :=
  let n := c.toNat
  n = 0x9 || n = 0xa || n = 0xd || (0x20 ≤ n && n ≤ 0x7e) || n = 0x85 ||
    (0xa0 ≤ n && n ≤ 0xfffd) || 0x10000 ≤ n

/-- One line feed for each line end; the two separators are kept as they are. -/
def lineFeeds : List Char → List Char
  | [] => []
  | '\r' :: '\n' :: rest => '\n' :: lineFeeds rest
  | c :: rest => (if c = '\r' ∨ c = '\u0085' then '\n' else c) :: lineFeeds rest

structure Place where
  index : Nat
  line : Nat
  column : Nat
  deriving DecidableEq, Repr

namespace Place

def start : Place := ⟨0, 0, 0⟩

def skip (count : Nat) (p : Place) : Place :=
  { p with index := p.index + count, column := p.column + count }

def next (p : Place) : Place := p.skip 1

def newLine (p : Place) : Place := ⟨p.index + 1, p.line + 1, 0⟩

def after (c : Char) (p : Place) : Place := if isBreak c then p.newLine else p.next

end Place

def isMarker (p : Place) (cs : List Char) : Bool :=
  p.column = 0 &&
    match cs with
    | '-' :: '-' :: '-' :: rest => endsWord rest
    | '.' :: '.' :: '.' :: rest => endsWord rest
    | _ => false

/-- Up to the next line, if only blanks and a comment come before it. -/
def nextLine? (inComment : Bool) (p : Place) : List Char → Option (Place × List Char)
  | [] => some (p, [])
  | c :: rest =>
      if isBreak c then some (p.newLine, rest)
      else if inComment || isSpace c then nextLine? inComment p.next rest
      else if c = '#' then nextLine? true p.next rest
      else none

end DirectoryMetrics.Yaml
