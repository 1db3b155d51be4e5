import DirectoryMetrics.Decimal.Style

namespace DirectoryMetrics

/-!
Configuration trees. A mapping keeps its entries in the order in which their keys were first
inserted, and a tag marks a node without changing what most accessors see of it.
-/

inductive Node where
  | null
  | bool (flag : Bool)
  | int (value : Int)
  | float (value : Float)
  | text (value : String)
  | sequence (items : List Node)
  | mapping (entries : List (Node × Node))
  | tagged (tag : String) (content : Node)
  deriving Inhabited

abbrev Mapping := List (Node × Node)

def sameFloat (x y : Float) : Bool := x == y || (x.isNaN && y.isNaN)

mutual
def Node.same : Node → Node → Bool
  | .null, .null => true
  | .bool a, .bool b => a == b
  | .int a, .int b => a == b
  | .float a, .float b => sameFloat a b
  | .text a, .text b => a == b
  | .sequence as, .sequence bs => sameItems as bs
  | .mapping as, .mapping bs => as.length == bs.length && sameEntries as bs
  | .tagged s a, .tagged t b => s == t && a.same b
  | _, _ => false

def sameItems : List Node → List Node → Bool
  | [], [] => true
  | a :: as, b :: bs => a.same b && sameItems as bs
  | _, _ => false

def sameEntries : List (Node × Node) → List (Node × Node) → Bool
  | [], _ => true
  | (key, value) :: rest, bs =>
      bs.any (fun entry => key.same entry.1 && value.same entry.2) && sameEntries rest bs
end

instance : BEq Node := ⟨Node.same⟩

namespace Mapping

def isKey (name : String) : Node → Bool
  | .text key => key == name
  | _ => false

/-- The value under a key that is plain text. -/
def get? (name : String) : Mapping → Option Node
  | [] => none
  | (key, value) :: rest => if isKey name key then some value else get? name rest

def has (name : String) (m : Mapping) : Bool := (m.get? name).isSome

/-- A new key goes to the end; a known one keeps its place and gets the new value. -/
def insert (key value : Node) : Mapping → Mapping
  | [] => [(key, value)]
  | (k, v) :: rest => if k == key then (k, value) :: rest else (k, v) :: insert key value rest

def set (name : String) (value : Node) : Mapping → Mapping
  | [] => [(.text name, value)]
  | (k, v) :: rest => if isKey name k then (k, value) :: rest else (k, v) :: set name value rest

def ofEntries (entries : List (Node × Node)) : Mapping :=
  entries.foldl (fun m entry => m.insert entry.1 entry.2) []

def modify (name : String) (f : Node → Except ε Node) : Mapping → Except ε Mapping
  | [] => .ok []
  | (k, v) :: rest =>
      if isKey name k then (f v).map fun v => (k, v) :: rest
      else (modify name f rest).map ((k, v) :: ·)

end Mapping

namespace Node

def untag : Node → Node
  | .tagged _ content => content.untag
  | node => node

def text? (node : Node) : Option String :=
  match node.untag with
  | .text value => some value
  | _ => none

def mapping? (node : Node) : Option Mapping :=
  match node.untag with
  | .mapping entries => some entries
  | _ => none

def sequence? (node : Node) : Option (List Node) :=
  match node.untag with
  | .sequence items => some items
  | _ => none

def field? (name : String) (node : Node) : Option Node :=
  node.mapping?.bind (·.get? name)

def modifyMapping? (f : Mapping → Except ε Mapping) : Node → Option (Except ε Node)
  | .mapping entries => some ((f entries).map .mapping)
  | .tagged tag content => (content.modifyMapping? f).map (·.map (.tagged tag))
  | _ => none

/-- The text of a key: numbers and flags may name an object as well as text does. -/
def keyName? : Node → Option String
  | .text name => some name
  | .int value => some (toString value)
  | .float value => some (DecimalStyle.tree.write value)
  | .bool flag => some (toString flag)
  | _ => none

mutual
/-- How deep mappings and sequences are nested; tags are not looked under. -/
def height : Node → Nat
  | .sequence items => itemsHeight items + 1
  | .mapping entries => entriesHeight entries + 1
  | _ => 0

def itemsHeight : List Node → Nat
  | [] => 0
  | item :: rest => max item.height (itemsHeight rest)

def entriesHeight : List (Node × Node) → Nat
  | [] => 0
  | (_, value) :: rest => max value.height (entriesHeight rest)
end

mutual
def mappings : Node → List Mapping
  | .mapping entries => entries :: entriesMappings entries
  | .sequence items => itemsMappings items
  | _ => []

def itemsMappings : List Node → List Mapping
  | [] => []
  | item :: rest => item.mappings ++ itemsMappings rest

def entriesMappings : List (Node × Node) → List Mapping
  | [] => []
  | (_, value) :: rest => value.mappings ++ entriesMappings rest
end

mutual
def hasTag : Node → Bool
  | .tagged _ _ => true
  | .sequence items => itemsHaveTag items
  | .mapping entries => entriesHaveTag entries
  | _ => false

def itemsHaveTag : List Node → Bool
  | [] => false
  | item :: rest => item.hasTag || itemsHaveTag rest

def entriesHaveTag : List (Node × Node) → Bool
  | [] => false
  | (key, value) :: rest => key.hasTag || value.hasTag || entriesHaveTag rest
end

end Node

end DirectoryMetrics
