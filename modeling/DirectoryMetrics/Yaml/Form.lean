namespace DirectoryMetrics.Yaml

structure Marks (ν : Type) where
  anchor : Option ν
  tag : Option (List UInt8)
  deriving DecidableEq, Repr

def Marks.none : Marks ν := ⟨.none, .none⟩

inductive Form (ν : Type) where
  | reference (name : ν)
  | scalar (marks : Marks ν) (isPlain : Bool) (text : String)
  | sequence (marks : Marks ν) (items : List (Form ν))
  | mapping (marks : Marks ν) (entries : List (Form ν × Form ν))

namespace Form

def empty : Form ν := .scalar .none true ""

instance : Inhabited (Form ν) := ⟨empty⟩

mutual
/-- How many steps it takes to tell a form: one for what has no parts, two around parts. -/
def size : Form ν → Nat
  | .reference _ => 1
  | .scalar _ _ _ => 1
  | .sequence _ items => itemsSize items + 2
  | .mapping _ entries => entriesSize entries + 2

def itemsSize : List (Form ν) → Nat
  | [] => 0
  | item :: rest => item.size + itemsSize rest

def entriesSize : List (Form ν × Form ν) → Nat
  | [] => 0
  | (key, value) :: rest => key.size + value.size + entriesSize rest
end

abbrev Names := List (String × Nat)

def nameAnchor (name : String) (names : Names) : Nat × Names :=
  (names.length, (name, names.length) :: names.filter (·.1 ≠ name))

def numberMarks (marks : Marks String) : StateM Names (Marks Nat) := do
  match marks.anchor with
  | none => return ⟨none, marks.tag⟩
  | some name =>
      let (number, names) := nameAnchor name (← get)
      set names
      return ⟨some number, marks.tag⟩

mutual
/-- None if a name is referred to before it is given. -/
def number : Form String → OptionT (StateM Names) (Form Nat)
  | .reference name => do return .reference (← OptionT.mk (return (← get).lookup name))
  | .scalar marks isPlain text => do return .scalar (← numberMarks marks) isPlain text
  | .sequence marks items => do
      let marks ← numberMarks marks
      return .sequence marks (← numberItems items)
  | .mapping marks entries => do
      let marks ← numberMarks marks
      return .mapping marks (← numberEntries entries)

def numberItems : List (Form String) → OptionT (StateM Names) (List (Form Nat))
  | [] => return []
  | item :: rest => do
      let item ← item.number
      return item :: (← numberItems rest)

def numberEntries :
    List (Form String × Form String) → OptionT (StateM Names) (List (Form Nat × Form Nat))
  | [] => return []
  | (key, value) :: rest => do
      let key ← key.number
      let value ← value.number
      return (key, value) :: (← numberEntries rest)
end

def marks? : Form ν → Option (Marks ν)
  | .reference _ => none
  | .scalar marks _ _ => some marks
  | .sequence marks _ => some marks
  | .mapping marks _ => some marks

def itself (form : Form ν) : List (ν × Form ν) :=
  match form.marks?.bind Marks.anchor with
  | some name => [(name, form)]
  | none => []

mutual
def anchored : Form ν → List (ν × Form ν)
  | .reference _ => []
  | .scalar marks isPlain text => (Form.scalar marks isPlain text).itself
  | .sequence marks items => (Form.sequence marks items).itself ++ itemsAnchored items
  | .mapping marks entries => (Form.mapping marks entries).itself ++ entriesAnchored entries

def itemsAnchored : List (Form ν) → List (ν × Form ν)
  | [] => []
  | item :: rest => item.anchored ++ itemsAnchored rest

def entriesAnchored : List (Form ν × Form ν) → List (ν × Form ν)
  | [] => []
  | (key, value) :: rest => key.anchored ++ value.anchored ++ entriesAnchored rest
end

end Form

end DirectoryMetrics.Yaml
