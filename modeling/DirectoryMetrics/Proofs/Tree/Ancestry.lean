import DirectoryMetrics.Proofs.Tree.Annotation
import DirectoryMetrics.Proofs.Tree.ObjectTrees

namespace DirectoryMetrics

/-! Ancestries. What an annotation writes into a mapping is told by the mapping and the mappings
around it, and apart from the annotated field the tree stays as it was. -/

abbrev Ancestry := List (Place × Mapping)

namespace Node

mutual
/-- The ancestries of the mappings of a tree, in the order of a walk; tags are not looked under. -/
def ancestries (around : Ancestry) (place : Place) : Node → List Ancestry
  | .mapping m => ((place, m) :: around) :: entriesAncestries ((place, m) :: around) place m
  | .sequence items => itemsAncestries around place 0 items
  | _ => []

def entriesAncestries (around : Ancestry) (place : Place) : List (Node × Node) → List Ancestry
  | [] => []
  | (key, value) :: rest =>
      value.ancestries around (place.child key) ++ entriesAncestries around place rest

def itemsAncestries (around : Ancestry) (place : Place) (index : Nat) : List Node → List Ancestry
  | [] => []
  | item :: rest =>
      item.ancestries around (place.item index) ++ itemsAncestries around place (index + 1) rest
end

variable {around : Ancestry} {place : Place}

theorem ancestries_mapping (m : Mapping) :
    (Node.mapping m).ancestries around place =
      ((place, m) :: around) ::
        m.flatMap fun entry => entry.2.ancestries ((place, m) :: around) (place.child entry.1) := by
  have entries : ∀ (around : Ancestry) (entries : Mapping),
      entriesAncestries around place entries =
        entries.flatMap fun entry => entry.2.ancestries around (place.child entry.1) := by
    intro around entries
    induction entries with
    | nil => rfl
    | cons entry rest ih => rw [entriesAncestries, ih, List.flatMap_cons]
  rw [ancestries, entries]

theorem ancestries_sequence (items : List Node) :
    (Node.sequence items).ancestries around place =
      items.zipIdx.flatMap fun item => item.1.ancestries around (place.item item.2) := by
  have heach : ∀ (items : List Node) (index : Nat), itemsAncestries around place index items =
      (items.zipIdx index).flatMap fun item => item.1.ancestries around (place.item item.2) := by
    intro items
    induction items with
    | nil => exact fun _ => rfl
    | cons item rest ih =>
        intro index
        rw [itemsAncestries, ih, List.zipIdx_cons, List.flatMap_cons]
  rw [ancestries, heach]

theorem ancestries_leaf {node : Node} (hnoMapping : ∀ m, node ≠ .mapping m)
    (hnoSequence : ∀ items, node ≠ .sequence items) : node.ancestries around place = [] := by
  cases node with
  | mapping m => exact absurd rfl (hnoMapping m)
  | sequence items => exact absurd rfl (hnoSequence items)
  | _ => rfl

theorem suffix_of_mem_ancestries {node : Node} {ancestry : Ancestry}
    (hmember : ancestry ∈ node.ancestries around place) : around <:+ ancestry := by
  have hwithin : ∀ depth around place (node : Node), node.height ≤ depth →
      ∀ ancestry ∈ node.ancestries around place, around <:+ ancestry := by
    intro depth
    induction depth with
    | zero =>
        intro around place node bound ancestry hmember
        rw [ancestries_leaf (by rintro m rfl; simp [height] at bound)
          (by rintro items rfl; simp [height] at bound)] at hmember
        cases hmember
    | succ depth ih =>
        intro around place node bound ancestry hmember
        cases node with
        | mapping m =>
            rw [height, Nat.add_le_add_iff_right, entriesHeight_le_iff] at bound
            rw [ancestries_mapping, List.mem_cons, List.mem_flatMap] at hmember
            rcases hmember with rfl | ⟨entry, inside, hmember⟩
            · exact List.suffix_cons _ _
            · exact (List.suffix_cons _ _).trans (ih _ _ _ (bound entry inside) ancestry hmember)
        | sequence items =>
            rw [height, Nat.add_le_add_iff_right, itemsHeight_le_iff] at bound
            rw [ancestries_sequence, List.mem_flatMap] at hmember
            obtain ⟨item, inside, hmember⟩ := hmember
            exact ih _ _ _ (bound item.1 (List.fst_mem_of_mem_zipIdx inside)) ancestry hmember
        | _ => cases hmember
  exact hwithin node.height around place node (Nat.le_refl _) ancestry hmember

end Node

/-- Every queryable mapping has a text in a field that its ancestry tells. -/
def Node.Annotated (field : String) (written : Ancestry → String) (object : Node) : Prop :=
  ∀ place m around, (place, m) :: around ∈ object.ancestries [] .root → m.isQueryable = true →
    m.get? field = some (.text (written ((place, m) :: around)))

namespace Visitor

variable {ε κ : Type} {visit : Visitor ε κ} {field : String} {text : κ → String}
  {told : Ancestry → κ}

/-- What a mapping hands down is told by what the walk leaves of its ancestry and by the keys that
the mappings there are nested under. -/
def Told (visit : Visitor ε κ) (told : Ancestry → κ) : Prop :=
  ∀ place place' around m visited own walked, place'.key = place.key →
    visit place (told around) m = .ok (visited, own) → Mapping.Alike visited walked →
    own = told ((place', walked) :: around)

theorem Annotates.annotated (hannotates : visit.Annotates field text) (htells : visit.Told told)
    (hnotRdn : Field.rdn ≠ field) (hnotAttribute : Field.attributeName ≠ field)
    {node walked : Node} (hwalking : node.walk visit (told []) = .ok walked) :
    walked.Annotated field fun ancestry => text (told ancestry) := by
  have hwithin := Node.walkWithin_induct hannotates.shallow
    (motive := fun walkPlace inherited _ walked => ∀ (around : Ancestry) (place : Place),
      place.key = walkPlace.key → inherited = told around →
      ∀ ancestry ∈ walked.ancestries around place, ∀ place m outer,
        ancestry = (place, m) :: outer → m.isQueryable = true →
          m.get? field = some (.text (text (told ancestry))))
    ?_ ?_ ?_ node.height .root (told []) node walked (Nat.le_refl _) hwalking
  · intro place m around member queryable
    exact hwithin [] .root rfl rfl _ member place m around rfl queryable
  · intro _ _ node noMapping noSequence around place _ _ ancestry member
    rw [Node.ancestries_leaf noMapping noSequence] at member
    cases member
  · rintro walkPlace _ m visited own after visiting alike children around place sameKey rfl
    have hhanded := htells walkPlace place around m visited own after sameKey visiting alike
    rw [Node.ancestries_mapping, List.forall_mem_cons]
    constructor
    · rintro _ _ _ ⟨rfl, rfl⟩ queryable
      rw [hannotates.isQueryable visiting alike hnotRdn hnotAttribute] at queryable
      rw [hannotates.get?_field visiting alike queryable, hhanded]
    · intro ancestry member
      obtain ⟨entry, inAfter, member⟩ := List.mem_flatMap.mp member
      refine forall_mem_of_forall₂
        (P := fun entry : Node × Node =>
          ∀ ancestry ∈ entry.2.ancestries ((place, after) :: around) (place.child entry.1),
            ∀ place m outer, ancestry = (place, m) :: outer → m.isQueryable = true →
              m.get? field = some (.text (text (told ancestry))))
        (children.imp ?_) entry inAfter ancestry member
      rintro before entry ⟨same, child⟩
      exact child _ _ (by rw [Place.child_key, Place.child_key, same]) hhanded
  · rintro walkPlace _ items after children around place sameKey rfl ancestry member
    rw [Node.ancestries_sequence] at member
    obtain ⟨item, inAfter, member⟩ := List.mem_flatMap.mp member
    refine forall_mem_of_forall₂
      (P := fun item : Node => ∀ (index : Nat),
        ∀ ancestry ∈ item.ancestries around (place.item index),
          ∀ place m outer, ancestry = (place, m) :: outer → m.isQueryable = true →
            m.get? field = some (.text (text (told ancestry))))
      (children.imp ?_) item.1 (List.fst_mem_of_mem_zipIdx inAfter) item.2 ancestry member
    rintro before item ⟨index, child⟩ index'
    exact child _ _ sameKey rfl

end Visitor

theorem intercalate_ne_empty (separator : String) {parts : List String}
    (hnonempty : ∀ part ∈ parts, part ≠ "") (hsome : parts ≠ []) :
    separator.intercalate parts ≠ "" := by
  cases parts with
  | nil => exact absurd rfl hsome
  | cons part rest =>
      have hfirst := hnonempty part List.mem_cons_self
      cases rest with
      | nil => simpa using hfirst
      | cons next later =>
          rw [String.intercalate_cons_cons]
          intro empty
          have hletters := congrArg String.toList empty
          simp [hfirst] at hletters

namespace Node

mutual
def without (field : String) : Node → Node
  | .mapping m =>
      .mapping ((entriesWithout field m).filter fun entry =>
        !(Mapping.isQueryable m && Mapping.isKey field entry.1))
  | .sequence items => .sequence (itemsWithout field items)
  | node => node

def entriesWithout (field : String) : List (Node × Node) → List (Node × Node)
  | [] => []
  | (key, value) :: rest => (key, value.without field) :: entriesWithout field rest

def itemsWithout (field : String) : List Node → List Node
  | [] => []
  | item :: rest => item.without field :: itemsWithout field rest
end

variable {field : String}

theorem entriesWithout_eq_map (m : Mapping) :
    entriesWithout field m = m.map fun entry => (entry.1, entry.2.without field) := by
  induction m with
  | nil => rfl
  | cons entry rest ih => rw [entriesWithout, ih, List.map_cons]

theorem itemsWithout_eq_map (items : List Node) :
    itemsWithout field items = items.map (Node.without field) := by
  induction items with
  | nil => rfl
  | cons item rest ih => rw [itemsWithout, ih, List.map_cons]

theorem entriesWithout_set (written : Node) (m : Mapping) :
    (entriesWithout field (m.set field written)).filter
      (fun entry => !Mapping.isKey field entry.1) =
      (entriesWithout field m).filter fun entry => !Mapping.isKey field entry.1 := by
  induction m with
  | nil => simp [Mapping.set, entriesWithout]
  | cons entry rest ih =>
      obtain ⟨key, held⟩ := entry
      rw [Mapping.set_cons]
      split
      · rename_i isName
        simp [entriesWithout, isName]
      · rename_i notName
        rw [entriesWithout, entriesWithout, List.filter_cons, List.filter_cons, ih]

def objectsWithout (field : String) (tree : Node) : Except ConfigError Node :=
  tree.mapObjectTrees fun _ object => .ok (object.without field)

end Node

namespace Visitor.Annotates

variable {ε κ : Type} {visit : Visitor ε κ} {field : String} {text : κ → String}

theorem visited_without (hannotates : visit.Annotates field text) {place : Place}
    {inherited own : κ} {m visited : Mapping}
    (hvisiting : visit place inherited m = .ok (visited, own)) :
    (Node.entriesWithout field visited).filter
        (fun entry => !(m.isQueryable && Mapping.isKey field entry.1)) =
      (Node.entriesWithout field m).filter
        fun entry => !(m.isQueryable && Mapping.isKey field entry.1) := by
  rw [hannotates _ _ _ _ _ hvisiting]
  cases m.isQueryable with
  | false => rfl
  | true => simpa using Node.entriesWithout_set _ m

theorem walk_without (hannotates : visit.Annotates field text) (hnotRdn : Field.rdn ≠ field)
    (hnotAttribute : Field.attributeName ≠ field) {inherited : κ} {node walked : Node}
    (hwalking : node.walk visit inherited = .ok walked) :
    walked.without field = node.without field := by
  refine Node.walkWithin_induct hannotates.shallow
    (motive := fun _ _ node walked => walked.without field = node.without field)
    ?_ ?_ ?_ node.height .root inherited node walked (Nat.le_refl _) hwalking
  · exact fun _ _ _ _ _ => rfl
  · intro place _ m visited own after visiting alike children
    have hbelow : Node.entriesWithout field after = Node.entriesWithout field visited := by
      rw [Node.entriesWithout_eq_map, Node.entriesWithout_eq_map, ← List.forall₂_eq_eq_eq,
        List.forall₂_map_left_iff, List.forall₂_map_right_iff]
      exact children.flip.imp fun after before ⟨same, child⟩ => by rw [same, child]
    rw [Node.without, Node.without, hbelow,
      hannotates.isQueryable visiting alike hnotRdn hnotAttribute,
        hannotates.visited_without visiting]
  · intro _ _ items after children
    rw [Node.without, Node.without, Node.itemsWithout_eq_map, Node.itemsWithout_eq_map]
    congr 1
    rw [← List.forall₂_eq_eq_eq, List.forall₂_map_left_iff, List.forall₂_map_right_iff]
    exact children.flip.imp fun after before ⟨index, child⟩ => child

end Visitor.Annotates

theorem Node.annotated_of_mapObjectTrees {κ : Type} {visit : Owner → Visitor ConfigError κ}
    {field : String} {text : κ → String} {told : Ancestry → κ} {outset : κ} {tree annotated : Node}
    (hannotates : ∀ owner, (visit owner).Annotates field text)
    (htells : ∀ owner, (visit owner).Told told)
    (hatRoot : told [] = outset) (hnotRdn : Field.rdn ≠ field)
    (hnotAttribute : Field.attributeName ≠ field)
    (hannotating : tree.mapObjectTrees (fun owner object => object.walk (visit owner) outset) =
      .ok annotated) :
    annotated.Objects (Node.Annotated field fun ancestry => text (told ancestry)) ∧
      annotated.objectsWithout field = tree.objectsWithout field := by
  subst hatRoot
  constructor
  · refine Node.Objects.mapObjectTrees ?_ hannotating (Node.objects_trivial tree)
    intro owner object walked _ walking
    exact (hannotates owner).annotated (htells owner) hnotRdn hnotAttribute walking
  · refine Node.mapObjectTrees_mapObjectTrees ?_ hannotating
    intro owner object walked walking
    rw [(hannotates owner).walk_without hnotRdn hnotAttribute walking]

end DirectoryMetrics
