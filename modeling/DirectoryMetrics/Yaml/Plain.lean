import DirectoryMetrics.Yaml.Folding

namespace DirectoryMetrics.Yaml

/-!
Plain scalars. They end before a colon with a blank after it, before a comment, at a marker of a
document, or where a line is not indented enough.
-/

namespace Plain

structure Found where
  text : String
  /-- Whether line ends were read after the text. -/
  beforeBreak : Bool
  place : Place
  rest : List Char
  deriving DecidableEq, Repr

def indicators : List Char := "-?:,[]\x7b\x7d#&*!|>'\"%@\x60".toList

def mayBegin (inFlow : Bool) (c : Char) (rest : List Char) : Bool :=
  !(isSpace c || indicators.contains c) || (c = '-' && !endsWord rest) ||
    (!inFlow && (c = '?' || c = ':') && !endsWord rest)

def endsAfterGap (inFlow : Bool) (margin : Nat) (p : Place) (cs : List Char) : Bool :=
  (!inFlow && p.column < margin) || isMarker p cs || cs.head? = some '#'

/-- Brackets make a colon before an indicator ambiguous. -/
def isAmbiguous (inFlow : Bool) (c : Char) (rest : List Char) : Bool :=
  inFlow && c = ':' && rest.head?.any fun next => isFlowIndicator next || next = '?'

def endsBefore (inFlow : Bool) (c : Char) (rest : List Char) : Bool :=
  (c = ':' && endsWord rest) || (inFlow && isFlowIndicator c)

/-- Reads on with the text so far in reverse. A tab must not take the place of indentation. -/
def readFrom (inFlow : Bool) (margin : Nat) (text : List Char) (gap : Gap) (p : Place) :
    List Char → Option Found
  | [] => some ⟨String.ofList text.reverse, gap.hasBreak, p, []⟩
  | c :: rest =>
      let found : Found := ⟨String.ofList text.reverse, gap.hasBreak, p, c :: rest⟩
      if isSpace c || isBreak c then
        if c = '\t' && gap.hasBreak && p.column < margin then none
        else readFrom inFlow margin text (gap.push c) (p.after c) rest
      else if !gap.isEmpty && endsAfterGap inFlow margin p (c :: rest) then some found
      else if isAmbiguous inFlow c rest then none
      else if endsBefore inFlow c rest then some found
      else readFrom inFlow margin (c :: (gap.folded ++ text)) .empty p.next rest

def read? (inFlow : Bool) (margin : Nat) (p : Place) (cs : List Char) : Option Found :=
  readFrom inFlow margin [] .empty p cs

end Plain

end DirectoryMetrics.Yaml
