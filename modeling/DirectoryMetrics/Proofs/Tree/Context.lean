import DirectoryMetrics.Proofs.Tree.Ancestry

namespace DirectoryMetrics

/-! Contexts. A node of a tree is put back into what is around it; configurations that differ in one
object tree still do after a pass over the object trees. -/

/-- Under the same keys two mappings hold the same, or each a text. -/
def Mapping.SameButTexts (m m' : Mapping) : Prop :=
  List.Forall₂
    (fun a b : Node × Node => a.1 = b.1 ∧ (a.2 = b.2 ∨ ∃ s t, a.2 = .text s ∧ b.2 = .text t)) m m'

namespace Mapping.SameButTexts

variable {m m' : Mapping}

theorem refl (m : Mapping) : m.SameButTexts m := List.forall₂_same.mpr fun _ _ => ⟨rfl, .inl rfl⟩

theorem set (hsame : m.SameButTexts m') (name s t : String) :
    (m.set name (.text s)).SameButTexts (m'.set name (.text t)) := by
  induction hsame with
  | nil => exact .cons ⟨rfl, .inr ⟨s, t, rfl, rfl⟩⟩ .nil
  | @cons a b rest rest' head tail ih =>
      obtain ⟨key, value⟩ := a
      obtain ⟨key', value'⟩ := b
      obtain ⟨rfl, values⟩ := head
      rw [Mapping.set_cons, Mapping.set_cons]
      split
      · exact .cons ⟨rfl, .inr ⟨s, t, rfl, rfl⟩⟩ tail
      · exact .cons ⟨rfl, values⟩ ih

theorem of_set {name old : String} (hfound : m.get? name = some (.text old)) (new : String) :
    m.SameButTexts (m.set name (.text new)) := by
  have hsame := (refl m).set name old new
  rwa [Mapping.set_of_get?_eq_some hfound] at hsame

theorem height_eq (hsame : m.SameButTexts m') :
    (Node.mapping m').height = (Node.mapping m).height := by
  have hentries : Node.entriesHeight m' = Node.entriesHeight m := by
    induction hsame with
    | nil => rfl
    | cons head tail ih =>
        rw [Node.entriesHeight, Node.entriesHeight, ih]
        rcases head.2 with eq | ⟨s, t, eq, eq'⟩
        · rw [eq]
        · rw [eq, eq']
          rfl
  rw [Node.height, Node.height, hentries]

end Mapping.SameButTexts

/-- A tree with one node left out; it is not left out under a tag. -/
inductive Context where
  | hole
  | entry (before : Mapping) (key : Node) (inner : Context) (after : Mapping)
  | item (before : List Node) (inner : Context) (after : List Node)

namespace Context

def plug (node : Node) : Context → Node
  | hole => node
  | entry before key inner after => .mapping (before ++ (key, inner.plug node) :: after)
  | item before inner after => .sequence (before ++ inner.plug node :: after)

def address : Context → List Nat
  | hole => []
  | entry before _ inner _ => before.length :: inner.address
  | item before inner _ => before.length :: inner.address

def around (node : Node) (outer : Ancestry) (place : Place) : Context → Ancestry
  | hole => outer
  | entry before key inner after =>
      inner.around node ((place, before ++ (key, inner.plug node) :: after) :: outer)
        (place.child key)
  | item before inner _ => inner.around node outer (place.item before.length)

/-- Whether a node that is put back is in a field that an annotation writes over. -/
def overwritten (field : String) (node : Node) : Context → Bool
  | hole => false
  | entry before key inner after =>
      (Mapping.isQueryable (before ++ (key, inner.plug node) :: after) &&
          Mapping.isKey field key && !before.has field) ||
        inner.overwritten field node
  | item _ inner _ => inner.overwritten field node

end Context

namespace Node

theorem entriesHeight_append (before after : Mapping) :
    entriesHeight (before ++ after) = max (entriesHeight before) (entriesHeight after) := by
  induction before with
  | nil => simp [entriesHeight]
  | cons entry rest ih => rw [List.cons_append, entriesHeight, entriesHeight, ih, Nat.max_assoc]

theorem itemsHeight_append (before after : List Node) :
    itemsHeight (before ++ after) = max (itemsHeight before) (itemsHeight after) := by
  induction before with
  | nil => simp [itemsHeight]
  | cons item rest ih => rw [List.cons_append, itemsHeight, itemsHeight, ih, Nat.max_assoc]

end Node

namespace Context

variable {node node' : Node}

theorem plug_height (hsame : node'.height = node.height) (c : Context) :
    (c.plug node').height = (c.plug node).height := by
  induction c with
  | hole => exact hsame
  | entry before key inner after ih =>
      simp only [plug, Node.height, Node.entriesHeight_append, Node.entriesHeight, ih]
  | item before inner after ih =>
      simp only [plug, Node.height, Node.itemsHeight_append, Node.itemsHeight, ih]

theorem plug_alike (halike : node.Alike node') (c : Context) :
    (c.plug node).Alike (c.plug node') := by
  cases c with
  | hole => exact halike
  | entry before key inner after => exact .mapping _ _
  | item before inner after => exact .sequence _ _

theorem entry_alike (halike : node.Alike node') (before : Mapping) (key : Node) (inner : Context)
    (after : Mapping) :
    Mapping.Alike (before ++ (key, inner.plug node) :: after)
      (before ++ (key, inner.plug node') :: after) :=
  List.rel_append (List.forall₂_same.mpr fun _ _ => ⟨rfl, .same _⟩)
    (.cons ⟨rfl, plug_alike halike inner⟩ (List.forall₂_same.mpr fun _ _ => ⟨rfl, .same _⟩))

/-- What is left out of a configuration is an object tree. -/
inductive HoldsObject : Context → Prop where
  | shared {before after : Mapping} (first : before.get? Field.object = none) :
      HoldsObject (.entry before (.text Field.object) .hole after)
  | own {before after entries rest : Mapping} {servers later : List Node}
      (firstServers : before.get? Field.ldapServers = none)
      (first : entries.get? Field.object = none) :
      HoldsObject (.entry before (.text Field.ldapServers)
        (.item servers (.entry entries (.text Field.object) .hole rest) later) after)

theorem changeServer_here {f : Node → Except ConfigError Node} {entries rest : Mapping}
    (hfirst : entries.get? Field.object = none) (server : Node) :
    ((Node.mapping (entries ++ (.text Field.object, node) :: rest)).modifyMapping?
        fun server => server.modify Field.object f).getD (.ok server) =
      (f node).map fun object => .mapping (entries ++ (.text Field.object, object) :: rest) := by
  rw [Node.modifyMapping?, Option.getD_some, Mapping.modify_here (by simp) hfirst, Except.map_map]

theorem HoldsObject.mapObjectTrees {config : Context} (hholds : config.HoldsObject)
    {f : Node → Except ConfigError Node} {changed changed' : Node}
    (hchanging : (config.plug node).mapObjectTrees (fun _ => f) = .ok changed)
    (hchanging' : (config.plug node').mapObjectTrees (fun _ => f) = .ok changed') :
    ∃ (config' : Context) (object object' : Node), config'.address = config.address ∧
      f node = .ok object ∧ f node' = .ok object' ∧
      changed = config'.plug object ∧ changed' = config'.plug object' := by
  obtain ⟨root, new, isRoot, making, rfl⟩ := Node.mapRoot_eq_ok.mp hchanging
  obtain ⟨root', new', isRoot', making', rfl⟩ := Node.mapRoot_eq_ok.mp hchanging'
  obtain ⟨between, sharing, serving⟩ := Except.bind_eq_ok.mp making
  obtain ⟨between', sharing', serving'⟩ := Except.bind_eq_ok.mp making'
  cases hholds with
  | @shared before after first =>
      cases isRoot
      cases isRoot'
      rw [plug, Mapping.modify_here (by simp) first] at sharing sharing'
      obtain ⟨object, eq, rfl⟩ := Except.map_eq_ok.mp sharing
      obtain ⟨object', eq', rfl⟩ := Except.map_eq_ok.mp sharing'
      obtain ⟨before', after', keys, rfl, rfl⟩ :=
        Mapping.modify_elsewhere (by decide) serving serving'
      exact ⟨.entry before' (.text Field.object) .hole after', object, object',
        by simpa [address] using congrArg List.length keys, eq, eq', rfl, rfl⟩
  | @own before after entries rest servers later firstServers first =>
      cases isRoot
      cases isRoot'
      obtain ⟨before', after', keys, rfl, rfl⟩ :=
        Mapping.modify_elsewhere (by decide) sharing sharing'
      have firstServers' := Mapping.get?_eq_none_of_keys keys firstServers
      rw [Node.mapServers, Mapping.modify_here (by simp) firstServers'] at serving serving'
      obtain ⟨_, listing, rfl⟩ := Except.map_eq_ok.mp serving
      obtain ⟨_, listing', rfl⟩ := Except.map_eq_ok.mp serving'
      obtain ⟨_, each, rfl⟩ := Except.map_eq_ok.mp listing
      obtain ⟨_, each', rfl⟩ := Except.map_eq_ok.mp listing'
      obtain ⟨left, server, server', right, count, rfl, rfl, making, making'⟩ := forall₂_apart
        (fun _ _ _ one two => Except.ok.inj (one.symm.trans two)) (Except.mapM_eq_ok.mp each)
        (Except.mapM_eq_ok.mp each')
      obtain ⟨object, eq, rfl⟩ :=
        Except.map_eq_ok.mp ((changeServer_here first _).symm.trans making)
      obtain ⟨object', eq', rfl⟩ :=
        Except.map_eq_ok.mp ((changeServer_here first _).symm.trans making')
      refine ⟨.entry before' (.text Field.ldapServers)
        (.item left (.entry entries (.text Field.object) .hole rest) right) after', object, object',
        ?_, eq, eq', rfl, rfl⟩
      simpa [address, count] using congrArg List.length keys

end Context

end DirectoryMetrics
