import DirectoryMetrics.Tree.ObjectTree

namespace DirectoryMetrics

/-!
Distinguished names. The name of an object is its own part followed by the name of the nearest
object around it, down to the root of the directory; a node that only has an attribute asks the
object around it.
-/

namespace ObjectDn

structure Suffix where
  dn : String
  anchored : Bool
  deriving DecidableEq, Repr

def join (rdn suffix : String) : String :=
  if suffix.isEmpty then rdn else rdn ++ "," ++ suffix

/-- The name of a node; none if there is a root and nothing on the way says where below it. -/
def own? (root : String) (parent : Suffix) (m : Mapping) : Option Suffix :=
  match m.nonempty? Field.rdn with
  | some rdn => some ⟨join rdn parent.dn, true⟩
  | none => if !parent.anchored && !root.isEmpty then none else some parent

def visit (root : String) (owner : Owner) : Visitor ConfigError Suffix := fun place parent m =>
  if m.isQueryable then
    match own? root parent m with
    | some own => .ok (m.set Field.computedDn (.text own.dn), own)
    | none =>
        .error (.attributeWithoutObject (joinPath owner.label place.path)
          ((m.text? Field.attributeName).getD ""))
  else .ok (m, parent)

def annotate (tree : Node) : Except ConfigError Node :=
  let root := ((tree.field? Field.dnRoot).bind Node.text?).getD ""
  tree.mapObjectTrees fun owner object => object.walk (visit root owner) ⟨root, false⟩

end ObjectDn

end DirectoryMetrics
