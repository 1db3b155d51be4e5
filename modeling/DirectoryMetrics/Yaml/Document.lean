import DirectoryMetrics.Yaml.Scalar
import DirectoryMetrics.Yaml.TokenStream

namespace DirectoryMetrics.Yaml

def depthLimit : Nat := 128

/-- How many references may be followed for each step that it takes to tell the document. -/
def referencesPerStep : Nat := 100

/-- Counts down the references that may still be followed. -/
abbrev Composition := StateT Nat (Except Fault)

def follow (nodes : List (Nat × Form Nat)) : Form Nat → Composition (Form Nat)
  | .reference number => do
      match ← get with
      | 0 => throw .tooManyReferences
      | left + 1 =>
          set left
          match nodes.lookup number with
          | some form => return form
          | none => throw .unknownAnchor
  | form => return form

def addEntry (m : Mapping) (key value : Node) : Except Fault Mapping :=
  if m.any fun entry => entry.1 == key then .error .duplicateKey else .ok (m ++ [(key, value)])

def compose (nodes : List (Nat × Form Nat)) (depth : Nat) (form : Form Nat) : Composition Node := do
  match ← follow nodes form, depth with
  | .reference _, _ => throw .unknownAnchor
  | .scalar marks isPlain text, _ => Scalar.resolve marks.tag isPlain text
  | .sequence marks items, depth + 1 =>
      let items ← items.mapM fun item => compose nodes depth item
      return tagged marks.tag (.sequence items)
  | .mapping marks entries, depth + 1 =>
      let mapping ← entries.foldlM
        (fun (m : Mapping) (key, value) => do
          let key ← compose nodes depth key
          let value ← compose nodes depth value
          addEntry m key value)
        []
      return tagged marks.tag (.mapping mapping)
  | _, 0 => throw .tooDeep

/-- The tree of a document; of the nodes with one number, the last one counts. -/
def Form.toNode (form : Form String) : Except Fault Node := do
  let (numbered, _) := form.number.run []
  match numbered with
  | none => throw .unknownAnchor
  | some form =>
      return (← (compose form.anchored.reverse depthLimit form).run
        (referencesPerStep * form.size)).1

def orFault (fault : Fault) : Option α → Except Fault α
  | some value => .ok value
  | none => .error fault

def read (text : String) : Except Fault Node := do
  if !text.toList.all isAllowed then throw .character
  let tokens ← orFault .token (tokens? (lineFeeds text.toList))
  let form ← orFault .structured (Form.ofTokens? tokens)
  form.toNode

end DirectoryMetrics.Yaml
