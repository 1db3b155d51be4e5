import DirectoryMetrics.Yaml.Block
import DirectoryMetrics.Yaml.Plain
import DirectoryMetrics.Yaml.Property
import DirectoryMetrics.Yaml.Quotation

namespace DirectoryMetrics.Yaml

/-!
The tokens of a text in order. A key that has no mark of its own is known only by the colon after it,
on the same line; its tokens are then put before what has been read since it began.
-/

structure KeyStart where
  /-- How many tokens are before it. -/
  preceding : Nat
  place : Place
  /-- In a block, what begins a line has to be a key. -/
  required : Bool
  deriving DecidableEq, Repr

structure TokenStream where
  /-- The latest token first. -/
  tokens : List Token
  /-- The columns of the blocks around, the innermost first. -/
  blocks : List Nat
  key : Option KeyStart
  /-- The keys begun outside of each bracket around. -/
  outerKeys : List (Option KeyStart)
  keyAllowed : Bool
  deriving DecidableEq, Repr

namespace TokenStream

def start : TokenStream := ⟨[], [], none, [], true⟩

def inFlow (s : TokenStream) : Bool := !s.outerKeys.isEmpty

/-- The first column inside of the innermost block. -/
def margin (s : TokenStream) : Nat :=
  match s.blocks with
  | [] => 0
  | column :: _ => column + 1

def emit (token : Token) (s : TokenStream) : TokenStream := { s with tokens := token :: s.tokens }

def insertAfter (preceding : Nat) (token : Token) (s : TokenStream) : TokenStream :=
  let later := s.tokens.length - preceding
  { s with tokens := s.tokens.take later ++ token :: s.tokens.drop later }

def allowKey (allowed : Bool) (s : TokenStream) : TokenStream := { s with keyAllowed := allowed }

def openBlock (column preceding : Nat) (token : Token) (s : TokenStream) : TokenStream :=
  if !s.inFlow && s.margin ≤ column then
    { s.insertAfter preceding token with blocks := column :: s.blocks }
  else s

def openBlockHere (column : Nat) (token : Token) (s : TokenStream) : TokenStream :=
  s.openBlock column s.tokens.length token

def closeBlocks (column : Nat) (s : TokenStream) : TokenStream :=
  if s.inFlow then s
  else
    let closed := s.blocks.takeWhile (column ≤ ·)
    { s with
      blocks := s.blocks.drop closed.length
      tokens := closed.map (fun _ => Token.blockEnd) ++ s.tokens }

def dropKey? (s : TokenStream) : Option TokenStream :=
  if s.key.any (·.required) then none else some { s with key := none }

def beginKey? (p : Place) (s : TokenStream) : Option TokenStream := do
  if s.keyAllowed then
    let required := !s.inFlow && s.blocks.head? = some p.column
    let s ← s.dropKey?
    return { s with key := some ⟨s.tokens.length, p, required⟩ }
  else return s

/-- A key ends on the line where it begins, and within 1024 characters. -/
def isStale (p : Place) (key : KeyStart) : Bool :=
  key.place.line < p.line || key.place.index + 1024 < p.index

def freshKey? (p : Place) : Option KeyStart → Option (Option KeyStart)
  | none => some none
  | some key =>
      if !isStale p key then some (some key) else if key.required then none else some none

def dropStaleKeys? (p : Place) (s : TokenStream) : Option TokenStream := do
  return { s with key := ← freshKey? p s.key, outerKeys := ← s.outerKeys.mapM (freshKey? p) }

/-- Skips blanks, comments and line ends. A tab is no blank where a key of a block may begin. -/
def skipBlanks (inFlow inComment keyAllowed : Bool) (p : Place) :
    List Char → Bool × Place × List Char
  | [] => (keyAllowed, p, [])
  | c :: rest =>
      if isBreak c then skipBlanks inFlow false (keyAllowed || !inFlow) p.newLine rest
      else if inComment then skipBlanks inFlow true keyAllowed p.next rest
      else if c = ' ' || (c = '\t' && (inFlow || !keyAllowed)) ||
          (c = byteOrderMark && p.column = 0) then
        skipBlanks inFlow false keyAllowed p.next rest
      else if c = '#' then skipBlanks inFlow true keyAllowed p.next rest
      else (keyAllowed, p, c :: rest)

abbrev Step := Option (TokenStream × Place × List Char)

def leaveBlocks? (s : TokenStream) : Option TokenStream :=
  ((s.closeBlocks 0).allowKey false).dropKey?

def directive? (p : Place) (cs : List Char) (s : TokenStream) : Step := do
  let s ← s.leaveBlocks?
  let (token, rest) ← Property.directive? (cs.drop 1)
  let (p, rest) ← nextLine? false (p.skip (cs.length - rest.length)) rest
  return (s.emit token, p, rest)

def marker? (p : Place) (cs : List Char) (s : TokenStream) : Step := do
  let s ← s.leaveBlocks?
  let token := if cs.head? = some '-' then Token.documentStart else Token.documentEnd
  return (s.emit token, p.skip 3, cs.drop 3)

def openFlow? (token : Token) (p : Place) (rest : List Char) (s : TokenStream) : Step := do
  let s ← s.beginKey? p
  return ({ s with key := none, outerKeys := s.key :: s.outerKeys, keyAllowed := true }.emit token,
    p.next, rest)

def closeFlow? (token : Token) (p : Place) (rest : List Char) (s : TokenStream) : Step := do
  let s ← s.dropKey?
  let s :=
    match s.outerKeys with
    | [] => s
    | key :: outerKeys => { s with key, outerKeys }
  return ((s.allowKey false).emit token, p.next, rest)

def flowEntry? (p : Place) (rest : List Char) (s : TokenStream) : Step := do
  return (((← s.dropKey?).allowKey true).emit .flowEntry, p.next, rest)

def blockEntry? (p : Place) (rest : List Char) (s : TokenStream) : Step := do
  if !s.inFlow && !s.keyAllowed then none
  let s ← (s.openBlockHere p.column .blockSequence).dropKey?
  return ((s.allowKey true).emit .blockEntry, p.next, rest)

def explicitKey? (p : Place) (rest : List Char) (s : TokenStream) : Step := do
  if !s.inFlow && !s.keyAllowed then none
  let s ← (s.openBlockHere p.column .blockMapping).dropKey?
  return ((s.allowKey !s.inFlow).emit .key, p.next, rest)

def value? (p : Place) (rest : List Char) (s : TokenStream) : Step :=
  match s.key with
  | some key =>
      let s := s.insertAfter key.preceding .key
      let s := s.openBlock key.place.column key.preceding .blockMapping
      some ({ s with key := none, keyAllowed := false }.emit .value, p.next, rest)
  | none =>
      if !s.inFlow && !s.keyAllowed then none
      else
        let s := s.openBlockHere p.column .blockMapping
        some ((s.allowKey !s.inFlow).emit .value, p.next, rest)

def keyPart? (token : Token) (p : Place) (cs rest : List Char) (s : TokenStream) : Step := do
  let s ← s.beginKey? p
  return ((s.allowKey false).emit token, p.skip (cs.length - rest.length), rest)

def tag? (p : Place) (cs : List Char) (s : TokenStream) : Step := do
  let (token, rest) ← Property.tag? cs
  if Property.endsTag s.inFlow rest then s.keyPart? token p cs rest else none

def named? (token : String → Token) (p : Place) (cs : List Char) (s : TokenStream) : Step := do
  let (name, rest) ← Property.name? (cs.drop 1)
  s.keyPart? (token name) p cs rest

def block? (p : Place) (cs : List Char) (s : TokenStream) : Step := do
  let s ← s.dropKey?
  let (text, p, rest) ← Block.read? (cs.head? = some '>') s.margin p.next (cs.drop 1)
  return ((s.allowKey true).emit (.scalar false text), p, rest)

def quotation? (quote : Char) (p : Place) (rest : List Char) (s : TokenStream) : Step := do
  let s ← s.beginKey? p
  let (text, p, rest) ← Quotation.read? quote p.next rest
  return ((s.allowKey false).emit (.scalar false text), p, rest)

def plain? (p : Place) (cs : List Char) (s : TokenStream) : Step := do
  let s ← s.beginKey? p
  let found ← Plain.read? s.inFlow s.margin p cs
  return ((s.allowKey found.beforeBreak).emit (.scalar true found.text), found.place, found.rest)

def next? (p : Place) (c : Char) (rest : List Char) (s : TokenStream) : Step :=
  let cs := c :: rest
  if p.column = 0 && c = '%' then s.directive? p cs
  else if isMarker p cs then s.marker? p cs
  else if c = '[' then s.openFlow? .flowSequence p rest
  else if c = '{' then s.openFlow? .flowMapping p rest
  else if c = ']' then s.closeFlow? .flowSequenceEnd p rest
  else if c = '}' then s.closeFlow? .flowMappingEnd p rest
  else if c = ',' then s.flowEntry? p rest
  else if c = '-' && endsWord rest then s.blockEntry? p rest
  else if c = '?' && (s.inFlow || endsWord rest) then s.explicitKey? p rest
  else if c = ':' && (s.inFlow || endsWord rest) then s.value? p rest
  else if c = '*' then s.named? .reference p cs
  else if c = '&' then s.named? .anchor p cs
  else if c = '!' then s.tag? p cs
  else if !s.inFlow && (c = '|' || c = '>') then s.block? p cs
  else if c = '\'' || c = '"' then s.quotation? c p rest
  else if Plain.mayBegin s.inFlow c rest then s.plain? p cs
  else none

/-- Every step reads a character at least, so as many steps as characters are enough. -/
def readFrom (p : Place) (cs : List Char) (s : TokenStream) : (steps : Nat) → Option (List Token)
  | 0 => none
  | steps + 1 => do
      let (keyAllowed, p, cs) := skipBlanks s.inFlow false s.keyAllowed p cs
      let s ← (s.allowKey keyAllowed).dropStaleKeys? p
      let s := s.closeBlocks (p.column + 1)
      match cs with
      | [] => return (← s.leaveBlocks?).tokens.reverse
      | c :: rest =>
          let (s, p, cs) ← s.next? p c rest
          readFrom p cs s steps

end TokenStream

def tokens? (cs : List Char) : Option (List Token) :=
  TokenStream.start.readFrom .start cs (cs.length + 1)

end DirectoryMetrics.Yaml
