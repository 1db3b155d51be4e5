import DirectoryMetrics.Tree.ObjectTree

namespace DirectoryMetrics

namespace ChildSlots

def slotName (n : Nat) : String := s!"child{n}"

/-- The first slot from `n` on that is not taken; among more slots than taken names one is free. -/
def freeSlot (taken : List String) : (tries n : Nat) → Nat
  | 0, n => n
  | tries + 1, n => if taken.contains (slotName n) then freeSlot taken tries (n + 1) else n

def reservedName? (key : Node) : Option String :=
  key.text?.filter Field.reserved.contains

def keepName (name : String) (child : Node) : Node :=
  let named (m : Mapping) : Except Empty Mapping :=
    .ok (if m.has Field.name then m else m ++ [(.text Field.name, .text name)])
  match child.modifyMapping? named with
  | some (.ok child) => child
  | none => child

def moveFrom (taken : List String) (slot : Nat) : Mapping → Mapping
  | [] => []
  | (key, child) :: rest =>
      match reservedName? key with
      | none => (key, child) :: moveFrom taken slot rest
      | some name =>
          let n := freeSlot taken taken.length slot
          (.text (slotName n), keepName name child) :: moveFrom taken (n + 1) rest

/-- Children none of whose plain names is reserved stay as they are. -/
def disambiguate (children : Mapping) : Mapping :=
  let names := children.filterMap (·.1.keyName?)
  if names.any Field.reserved.contains then moveFrom names 1 children else children

def disambiguateUnder (field : String) (m : Mapping) : Mapping :=
  match m.get? field with
  | some (.mapping children) => m.set field (.mapping (disambiguate children))
  | _ => m

def visit : Visitor ε Unit := fun _ _ m =>
  .ok (disambiguateUnder Field.metric (disambiguateUnder Field.object m), ())

def rename (tree : Node) : Except ConfigError Node :=
  tree.mapObjectTrees fun _ object => object.walk visit ()

end ChildSlots

end DirectoryMetrics
