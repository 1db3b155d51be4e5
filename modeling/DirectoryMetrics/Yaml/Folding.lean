import DirectoryMetrics.Yaml.Character

namespace DirectoryMetrics.Yaml

/-!
Scalars that go over several lines and are not blocks. A single line end between two pieces of text
is folded into a space; of several, the first is dropped.
-/

/-- What is between two pieces of text: blanks, or a line end and those after it. Both are kept in
reverse. -/
inductive Gap where
  | blanks (reversed : List Char)
  | lines (first : List Char) (reversed : List Char)
  deriving DecidableEq, Repr

namespace Gap

def empty : Gap := .blanks []

def isEmpty : Gap → Bool
  | .blanks reversed => reversed.isEmpty
  | .lines _ _ => false

def hasBreak : Gap → Bool
  | .blanks _ => false
  | .lines _ _ => true

/-- Blanks before a line end and at the start of a line do not count. -/
def push (c : Char) : Gap → Gap
  | .blanks reversed => if isBreak c then .lines [c] [] else .blanks (c :: reversed)
  | .lines first reversed => .lines first (if isBreak c then c :: reversed else reversed)

def folded : Gap → List Char
  | .blanks reversed => reversed
  | .lines ['\n'] [] => [' ']
  | .lines ['\n'] reversed => reversed
  | .lines first reversed => reversed ++ first

end Gap

end DirectoryMetrics.Yaml
