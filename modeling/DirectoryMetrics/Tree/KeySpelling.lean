import DirectoryMetrics.Text.Letter
import DirectoryMetrics.Tree.Field
import DirectoryMetrics.Tree.Walk

namespace DirectoryMetrics

/-!
One spelling for structural keys: words in small letters joined by underscores. The names that
users give to child objects and metrics stay as they are written.
-/

namespace KeySpelling

/-- A word starts only at a capital after a small letter. -/
def snakeCaseFrom (afterSmall : Bool) : List Char → List Char
  | [] => []
  | c :: rest =>
      (if Text.isUpper c && afterSmall then ['_'] else []) ++ Text.lower c ++
        snakeCaseFrom (Text.isLower c) rest

def snakeCase (key : String) : String := String.ofList (snakeCaseFrom false key.toList)

def normalizeKey : Node → Node
  | .text key => .text (snakeCase key)
  | key => key

inductive Role where
  | settings
  | node
  | childNames
  deriving DecidableEq, Repr

def Role.of (parent : Role) (key : Option String) : Role :=
  match parent with
  | .childNames => .node
  | .settings => if key = some Field.object then .node else .settings
  | .node => if key = some Field.object ∨ key = some Field.metric then .childNames else .node

/-- Keys that come to be one keep the place of the first and the value of the last. -/
def normalizeEntries (m : Mapping) : Mapping :=
  Mapping.ofEntries (m.map fun (key, value) => (normalizeKey key, value))

def visit : Visitor ε Role := fun place parent m =>
  let role := Role.of parent place.key
  .ok (if role = .childNames then m else normalizeEntries m, role)

def normalize (tree : Node) : Except ε Node := tree.walk visit .settings

end KeySpelling

end DirectoryMetrics
