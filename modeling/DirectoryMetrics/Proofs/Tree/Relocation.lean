import DirectoryMetrics.Proofs.Tree.ObjectTrees
import DirectoryMetrics.Proofs.Tree.Respelling
import DirectoryMetrics.Proofs.Tree.SettledSpelling
import Mathlib.Order.Bounds.Basic

namespace DirectoryMetrics

structure Mapping.Nameable (m : Mapping) : Prop where
  distinct : m.DistinctKeys
  named : ∀ entry ∈ m, entry.1.keyName?.isSome = true

namespace ChildSlots

/-- A child before and after it moves: a mapping without a name of its own is given the one under
which it was. -/
inductive Named (name : String) : Node → Node → Prop where
  | stays {child : Node} (named : ∀ m, child.mapping? = some m → m.get? Field.name ≠ none) :
      Named name child child
  | gets {child : Node} {m : Mapping} (mapping : child.mapping? = some m)
      (unnamed : m.get? Field.name = none) :
      Named name child (child.withMapping (m ++ [(.text Field.name, .text name)]))

theorem keepName_named (name : String) (child : Node) : Named name child (keepName name child) := by
  rw [keepName]
  simp only [Node.modifyMapping?_eq]
  cases held : child.mapping? with
  | none => exact .stays fun m found => by simp [held] at found
  | some m =>
      simp only [Option.map_some, Except.map]
      by_cases named : m.has Field.name = true
      · rw [if_pos named, Node.withMapping_of_mapping? held]
        refine .stays fun m' found unnamed => ?_
        rw [held] at found
        cases found
        simp [Mapping.has, unnamed] at named
      · rw [if_neg named]
        exact .gets held (by simpa [Mapping.has] using named)

/-- The children of a level, from a slot on. Those under the names of fields move, each to the least
slot after the one before it that no child of the level is named by. -/
inductive Moves (taken : List String) : (slot : Nat) → Mapping → Mapping → Prop where
  | nil {slot : Nat} : Moves taken slot [] []
  | stays {slot : Nat} {key child : Node} {rest rest' : Mapping}
      (free : ∀ name ∈ Field.reserved, Mapping.isKey name key = false)
      (later : Moves taken slot rest rest') :
      Moves taken slot ((key, child) :: rest) ((key, child) :: rest')
  | moves {slot n : Nat} {name : String} {child child' : Node} {rest rest' : Mapping}
      (reserved : name ∈ Field.reserved)
      (least : IsLeast {n | slot ≤ n ∧ slotName n ∉ taken} n) (named : Named name child child')
      (later : Moves taken (n + 1) rest rest') :
      Moves taken slot ((.text name, child) :: rest) ((.text (slotName n), child') :: rest')

theorem freeSlot_isLeast (taken : List String) (slot : Nat) :
    IsLeast {n | slot ≤ n ∧ slotName n ∉ taken} (freeSlot taken taken.length slot) := by
  obtain ⟨above, between, _⟩ := freeSlot_spec taken taken.length slot
  refine ⟨⟨above, freeSlot_not_mem taken slot⟩, fun n ⟨low, free⟩ => ?_⟩
  exact Nat.le_of_not_lt fun before => free (between n low before)

theorem moves_of_free {taken : List String} {slot : Nat} {children : Mapping}
    (hfree : ∀ entry ∈ children, ∀ name ∈ Field.reserved, Mapping.isKey name entry.1 = false) :
    Moves taken slot children children := by
  induction children with
  | nil => exact .nil
  | cons entry rest ih =>
      rw [List.forall_mem_cons] at hfree
      exact .stays hfree.1 (ih hfree.2)

theorem moveFrom_moves (taken : List String) (slot : Nat) {children : Mapping}
    (hnamed : ∀ entry ∈ children, entry.1.keyName?.isSome = true) :
    Moves taken slot children (moveFrom taken slot children) := by
  induction children generalizing slot with
  | nil => exact .nil
  | cons entry rest ih =>
      obtain ⟨key, child⟩ := entry
      rw [List.forall_mem_cons] at hnamed
      have huntagged : key.hasTag = false := by
        cases key with
        | sequence _ | mapping _ | tagged _ _ => cases hnamed.1
        | _ => rfl
      rw [moveFrom]
      split
      · rename_i absent
        exact .stays (free_of_reservedName?_eq_none absent) (ih slot hnamed.2)
      · rename_i name found
        rw [reservedName?_eq_some huntagged found]
        exact .moves (reservedName?_mem found) (freeSlot_isLeast taken slot)
          (keepName_named name child) (ih _ hnamed.2)

theorem disambiguate_moves {children : Mapping}
    (hnamed : ∀ entry ∈ children, entry.1.keyName?.isSome = true) :
    Moves (children.filterMap (·.1.keyName?)) 1 children (disambiguate children) := by
  have hfree := free_of_moved (disambiguate_moved children)
  rw [disambiguate] at hfree ⊢
  split
  · exact moveFrom_moves _ 1 hnamed
  · rename_i noCollision
    rw [if_neg noCollision] at hfree
    exact moves_of_free hfree

/-- The children of a level before and after they move. Inserted one after another into a mapping,
none takes the place of another. -/
structure Level (children moved : Mapping) : Prop where
  moves : Moves (children.filterMap (·.1.keyName?)) 1 children moved
  length : moved.length = children.length
  inserted : Mapping.ofEntries moved = moved
  free : ∀ name ∈ Field.reserved, moved.get? name = none

theorem disambiguate_level {children : Mapping} (hnameable : children.Nameable) :
    Level children (disambiguate children) where
  moves := disambiguate_moves hnameable.named
  length := (disambiguate_moved children).length_eq.symm
  inserted := Mapping.ofEntries_of_distinctKeys (disambiguate_distinctKeys hnameable.distinct)
  free := fun name reserved => Mapping.get?_eq_none_iff.mpr fun entry member =>
    free_of_moved (disambiguate_moved children) entry member name reserved

/-- An object tree, or the children of a node in it, before and after children move. The fields of a
node stay; the children under two of them move, and they are nodes again. -/
inductive Relocates : KeySpelling.Role → Node → Node → Prop where
  | leaf {role : KeySpelling.Role} {node : Node} (noMapping : ∀ m, node ≠ .mapping m)
      (noSequence : ∀ items, node ≠ .sequence items) : Relocates role node node
  | sequence {role : KeySpelling.Role} {items items' : List Node}
      (length : items.length = items'.length)
      (each : ∀ (i : Nat) item item', items[i]? = some item → items'[i]? = some item' →
        Relocates .node item item') : Relocates role (.sequence items) (.sequence items')
  | node {m m' : Mapping} (keys : m.map Prod.fst = m'.map Prod.fst)
      (each : ∀ (i : Nat) entry entry', m[i]? = some entry → m'[i]? = some entry' →
        Relocates (KeySpelling.Role.below .node entry.1) entry.2 entry'.2) :
      Relocates .node (.mapping m) (.mapping m')
  | childNames {children moved children' : Mapping} (level : Level children moved)
      (keys : moved.map Prod.fst = children'.map Prod.fst)
      (each : ∀ (i : Nat) entry entry', moved[i]? = some entry → children'[i]? = some entry' →
        Relocates .node entry.2 entry'.2) :
      Relocates .childNames (.mapping children) (.mapping children')

theorem nameable_keepName {child : Node} (hnameable : ∀ m ∈ child.mappings, m.Nameable)
    (name : String) : ∀ m ∈ (keepName name child).mappings, m.Nameable := by
  cases child with
  | mapping m =>
      rw [keepName_mapping]
      split
      · exact hnameable
      · rw [Node.forall_mem_mappings] at hnameable ⊢
        exact ⟨⟨hnameable.1.distinct.set _ _, Mapping.forall_mem_set hnameable.1.named rfl⟩,
          Mapping.forall_mem_set hnameable.2 (by simp [Node.mappings])⟩
  | tagged tag content =>
      obtain ⟨named, eq⟩ := keepName_tagged name tag content
      rw [eq]
      simp [Node.mappings]
  | _ => exact hnameable

theorem nameable_disambiguate {children : Mapping}
    (hnameable : ∀ m ∈ (Node.mapping children).mappings, m.Nameable) :
    ∀ m ∈ (Node.mapping (disambiguate children)).mappings, m.Nameable := by
  rw [Node.forall_mem_mappings] at hnameable ⊢
  have named := (List.forall₂_and_left _ _).mpr ⟨hnameable.1.named, disambiguate_moved children⟩
  have hbelow := (List.forall₂_and_left _ _).mpr ⟨hnameable.2, disambiguate_moved children⟩
  refine ⟨⟨disambiguate_distinctKeys hnameable.1.distinct, forall_mem_of_forall₂ (named.imp ?_)⟩,
    forall_mem_of_forall₂ (P := fun entry => ∀ m ∈ entry.2.mappings, m.Nameable) (hbelow.imp ?_)⟩
  · rintro before after ⟨named, moved⟩
    cases moved with
    | stays _ _ => exact named
    | moves key name found n child => rfl
  · rintro before after ⟨hnameable, moved⟩
    cases moved with
    | stays _ _ => exact hnameable
    | moves key name found n child => exact nameable_keepName hnameable name

theorem nameable_settleUnder {entry : Node × Node}
    (hnameable : ∀ m ∈ entry.2.mappings, m.Nameable) (fields : List String) :
    ∀ m ∈ (settleUnder fields entry).2.mappings, m.Nameable := by
  rw [settleUnder]
  split
  · obtain ⟨key, value⟩ := entry
    cases value with
    | mapping children => exact nameable_disambiguate hnameable
    | _ => exact hnameable
  · exact hnameable

structure Relocated (node walked : Node) : Prop where
  own : Relocates .node node walked
  children : ∀ moved : Mapping, node = .mapping moved →
    (∀ name ∈ Field.reserved, moved.get? name = none) →
      ∃ children', walked = .mapping children' ∧
        List.Forall₂ (fun b a => b.1 = a.1 ∧ Relocates .node b.2 a.2) moved children'

theorem Relocated.entry {entry : Node × Node} {after : Node}
    (hnameable : ∀ m ∈ entry.2.mappings, m.Nameable)
    (hrelocated : Relocated (settleUnder [Field.object, Field.metric] entry).2 after) :
    Relocates (KeySpelling.Role.below .node entry.1) entry.2 after := by
  obtain ⟨key, value⟩ := entry
  simp only [settleUnder, List.any_cons, List.any_nil, Bool.or_false, Bool.or_eq_true]
    at hrelocated
  simp only [KeySpelling.Role.below]
  by_cases isField : Mapping.isKey Field.object key = true ∨ Mapping.isKey Field.metric key = true
  · rw [if_pos isField] at hrelocated ⊢
    cases value with
    | mapping children =>
        have hlevel := disambiguate_level (Node.forall_mem_mappings.mp hnameable).1
        obtain ⟨children', rfl, each⟩ := hrelocated.children _ rfl hlevel.free
        obtain ⟨keys, each⟩ := forall₂_eq_and_iff.mp each
        exact .childNames hlevel keys each
    | sequence items =>
        cases hrelocated.own with
        | leaf _ noSequence => exact absurd rfl (noSequence items)
        | sequence length each => exact .sequence length each
    | _ =>
        cases hrelocated.own with
        | leaf noMapping noSequence => exact .leaf noMapping noSequence
  · rw [if_neg isField] at hrelocated ⊢
    exact hrelocated.own

theorem relocated_mapping {place : Place} {ε : Type} {m visited walked : Mapping} {own : Unit}
    (hnameable : ∀ m' ∈ (Node.mapping m).mappings, m'.Nameable)
    (hvisiting : visit (ε := ε) place () m = .ok (visited, own))
    (hchildren : List.Forall₂ (fun b a : Node × Node => b.1 = a.1 ∧
      ((∀ m' ∈ b.2.mappings, m'.Nameable) → Relocated b.2 a.2)) visited walked) :
    Relocated (.mapping m) (.mapping walked) := by
  rw [Node.forall_mem_mappings] at hnameable
  constructor
  case own =>
    have hdistinct := hnameable.1.distinct
    rw [visit_eq_map (hdistinct.holdsOnce _) (hdistinct.holdsOnce _) hvisiting,
      List.forall₂_map_left_iff] at hchildren
    obtain ⟨keys, relocates⟩ := forall₂_eq_and_iff.mp
      (((List.forall₂_and_left _ _).mpr ⟨hnameable.2, hchildren⟩).imp
        (S := fun b a => b.1 = a.1 ∧ Relocates (KeySpelling.Role.below .node b.1) b.2 a.2)
        fun before after ⟨hnameable, same, child⟩ => ⟨(settleUnder_fst _ before).symm.trans same,
          (child (nameable_settleUnder hnameable _)).entry hnameable⟩)
    exact .node keys relocates
  case children =>
    intro moved eq free
    cases eq
    cases hvisiting
    rw [disambiguateUnder_of_none (free Field.object (by decide)),
      disambiguateUnder_of_none (free Field.metric (by decide))] at hchildren
    exact ⟨walked, rfl, ((List.forall₂_and_left _ _).mpr ⟨hnameable.2, hchildren⟩).imp
      fun before after ⟨hnameable, same, child⟩ => ⟨same, (child hnameable).own⟩⟩

theorem relocates_of_walk {ε : Type} {object moved : Node}
    (hwalking : object.walk (visit (ε := ε)) () = .ok moved)
    (hnameable : ∀ m ∈ object.mappings, m.Nameable) : Relocates .node object moved := by
  refine (Node.walkWithin_induct visit_shallow
    (motive := fun _ _ node walked => (∀ m ∈ node.mappings, m.Nameable) → Relocated node walked)
    ?_ ?_ ?_ object.height .root () object moved (Nat.le_refl _) hwalking hnameable).own
  · intro place _ node noMapping noSequence _
    exact ⟨.leaf noMapping noSequence, fun m eq => absurd eq (noMapping m)⟩
  · intro place _ m visited own walked visiting alike children hnameable
    exact relocated_mapping hnameable visiting children
  · intro place _ items walked children hnameable
    have hinside : ∀ item ∈ items, ∀ m ∈ item.mappings, m.Nameable := fun item member m below =>
      hnameable m (Node.mem_itemsMappings.mpr ⟨item, member, below⟩)
    obtain ⟨length, each⟩ := forall₂_iff_getElem?.mp
      (((List.forall₂_and_left _ _).mpr ⟨hinside, children⟩).imp
        fun item after ⟨hnameable, _, child⟩ => (child hnameable).own)
    exact ⟨.sequence length each, fun m eq _ => by cases eq⟩

end ChildSlots

end DirectoryMetrics
