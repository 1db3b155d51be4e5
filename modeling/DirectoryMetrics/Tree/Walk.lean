import DirectoryMetrics.Tree.Node

namespace DirectoryMetrics

/-!
Walks over a configuration tree. A visitor changes one mapping and says what the mappings below it
inherit; each mapping is visited before what it then holds. The items of a sequence have the key
and the inheritance of the sequence, and nothing under a tag is visited.
-/

/-- Where a walk is: the key that the node is nested under, and the keys from the root on. -/
structure Place where
  key : Option String
  path : String
  deriving DecidableEq, Repr

namespace Place

def root : Place := ⟨none, ""⟩

def child (place : Place) (key : Node) : Place :=
  match key.keyName? with
  | none => ⟨none, place.path⟩
  | some name => ⟨some name, if place.path.isEmpty then name else place.path ++ "/" ++ name⟩

def item (place : Place) (index : Nat) : Place :=
  ⟨place.key, place.path ++ "[" ++ toString index ++ "]"⟩

end Place

/-- The mapping that takes the place of the visited one, and what its children inherit. -/
abbrev Visitor (ε κ : Type) := Place → κ → Mapping → Except ε (Mapping × κ)

namespace Node

def walkWithin (visit : Visitor ε κ) : Nat → Place → κ → Node → Except ε Node
  | depth + 1, place, inherited, .mapping entries => do
      let (entries, own) ← visit place inherited entries
      let entries ← entries.mapM fun (key, value) => do
        return (key, ← walkWithin visit depth (place.child key) own value)
      return .mapping entries
  | depth + 1, place, inherited, .sequence items => do
      let items ← items.zipIdx.mapM fun (item, index) =>
        walkWithin visit depth (place.item index) inherited item
      return .sequence items
  | _, _, _, node => .ok node

/-- A visitor that does not nest a mapping deeper sees every mapping there is. -/
def walk (visit : Visitor ε κ) (inherited : κ) (node : Node) : Except ε Node :=
  walkWithin visit node.height .root inherited node

end Node

end DirectoryMetrics
