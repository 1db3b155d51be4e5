import DirectoryMetrics.Yaml.Character

namespace DirectoryMetrics.Yaml

/-!
Block scalars: the lines that are indented at least as far as the first of them. A folded block
joins lines of text that neither begin with a blank nor stand apart.
-/

namespace Block

inductive Chomping where
  | strip
  | clip
  | keep
  deriving DecidableEq, Repr

structure Style where
  isFolded : Bool
  chomping : Chomping
  deriving DecidableEq, Repr

def chomping? : List Char → Option Chomping × List Char
  | '+' :: rest => (some .keep, rest)
  | '-' :: rest => (some .strip, rest)
  | cs => (none, cs)

/-- A digit other than zero gives the indentation; zero stands for none given. -/
def indentation? : List Char → Option (Nat × List Char)
  | c :: rest =>
      if c = '0' then none
      else if c.isDigit then some (c.toNat - '0'.toNat, rest)
      else some (0, c :: rest)
  | [] => some (0, [])

def header? (cs : List Char) : Option (Chomping × Nat × List Char) := do
  let (before, cs) := chomping? cs
  let (indentation, cs) ← indentation? cs
  match before with
  | some chomping => some (chomping, indentation, cs)
  | none =>
      let (after, cs) := chomping? cs
      some (after.getD .clip, indentation, cs)

/-- What has been read of a block; texts are in reverse, and an unknown indentation is zero. -/
structure Progress where
  indentation : Nat
  text : List Char
  lineEnd : List Char
  emptyLines : List Char
  afterBlank : Bool
  deepest : Nat
  deriving DecidableEq, Repr

namespace Progress

def start (indentation : Nat) : Progress := ⟨indentation, [], [], [], false, 0⟩

def separator (isFolded : Bool) (first : Char) (s : Progress) : List Char :=
  if isFolded && s.lineEnd = ['\n'] && !s.afterBlank && !isSpace first then
    if s.emptyLines.isEmpty then [' '] else s.emptyLines
  else s.emptyLines ++ s.lineEnd

def beginLine (isFolded : Bool) (indentation : Nat) (first : Char) (s : Progress) : Progress :=
  { s with
    indentation
    text := first :: (s.separator isFolded first ++ s.text)
    lineEnd := []
    emptyLines := []
    afterBlank := isSpace first }

def finish (chomping : Chomping) (s : Progress) : String :=
  String.ofList <| List.reverse <|
    match chomping with
    | .strip => s.text
    | .clip => s.lineEnd ++ s.text
    | .keep => s.emptyLines ++ s.lineEnd ++ s.text

end Progress

/-- Reads lines, each after its indentation. Where it is not given, the first line of text or the
longest blank line before it sets the indentation. -/
def readFrom (isFolded : Bool) (margin : Nat) (inLine : Bool) (s : Progress) (p : Place) :
    List Char → Option (Progress × Place × List Char)
  | [] => some (s, p, [])
  | c :: rest =>
      if inLine then
        if isBreak c then readFrom isFolded margin false { s with lineEnd := [c] } p.newLine rest
        else readFrom isFolded margin true { s with text := c :: s.text } p.next rest
      else
        let isIndented := s.indentation ≠ 0 && s.indentation ≤ p.column
        let deepest := max s.deepest p.column
        if !isIndented && c = ' ' then readFrom isFolded margin false s p.next rest
        else if !isIndented && c = '\t' then none
        else if isBreak c then
          readFrom isFolded margin false
            { s with emptyLines := c :: s.emptyLines, deepest } p.newLine rest
        else
          let indentation := if s.indentation = 0 then max (max deepest margin) 1 else s.indentation
          if p.column = indentation then
            readFrom isFolded margin true (s.beginLine isFolded indentation c) p.next rest
          else some (s, p, c :: rest)

/-- The block after an indicator; what is around it is indented less than `margin`. -/
def read? (isFolded : Bool) (margin : Nat) (p : Place) (cs : List Char) :
    Option (String × Place × List Char) := do
  let (chomping, given, rest) ← header? cs
  let (p, rest) ← nextLine? false (p.skip (cs.length - rest.length)) rest
  let indentation := if given = 0 then 0 else margin - 1 + given
  let (s, p, rest) ← readFrom isFolded margin false (.start indentation) p rest
  return (s.finish chomping, p, rest)

end Block

end DirectoryMetrics.Yaml
