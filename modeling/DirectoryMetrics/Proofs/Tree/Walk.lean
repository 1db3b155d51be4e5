import DirectoryMetrics.Proofs.Results
import DirectoryMetrics.Proofs.Tree.Mapping
import DirectoryMetrics.Tree.Walk

namespace DirectoryMetrics

/-! Induction over a walk. The depth that a walk carries along is enough for every visitor that
does not nest a mapping deeper, so that a walk is known by what its visitor does to one mapping. -/

namespace Node

theorem entriesHeight_le_iff {entries : Mapping} {depth : Nat} :
    entriesHeight entries ≤ depth ↔ ∀ entry ∈ entries, entry.2.height ≤ depth := by
  induction entries with
  | nil => simp [entriesHeight]
  | cons entry rest ih => rw [entriesHeight, Nat.max_le, ih, List.forall_mem_cons]

theorem itemsHeight_le_iff {items : List Node} {depth : Nat} :
    itemsHeight items ≤ depth ↔ ∀ item ∈ items, item.height ≤ depth := by
  induction items with
  | nil => simp [itemsHeight]
  | cons item rest ih => rw [itemsHeight, Nat.max_le, ih, List.forall_mem_cons]

theorem mem_entriesMappings {m : Mapping} {entries : Mapping} :
    m ∈ entriesMappings entries ↔ ∃ entry ∈ entries, m ∈ entry.2.mappings := by
  induction entries with
  | nil => simp [entriesMappings]
  | cons entry rest ih => simp [entriesMappings, ih]

theorem mem_itemsMappings {m : Mapping} {items : List Node} :
    m ∈ itemsMappings items ↔ ∃ item ∈ items, m ∈ item.mappings := by
  induction items with
  | nil => simp [itemsMappings]
  | cons item rest ih => simp [itemsMappings, ih]

theorem forall_mem_mappings {P : Mapping → Prop} {m : Mapping} :
    (∀ m' ∈ (Node.mapping m).mappings, P m') ↔
      P m ∧ ∀ entry ∈ m, ∀ m' ∈ entry.2.mappings, P m' := by
  rw [mappings, List.forall_mem_cons]
  refine and_congr_right fun _ =>
    ⟨fun below entry member m' within => ?_, fun below m' within => ?_⟩
  · exact below m' (mem_entriesMappings.mpr ⟨entry, member, within⟩)
  · obtain ⟨entry, member, within⟩ := mem_entriesMappings.mp within
    exact below entry member m' within

inductive Alike : Node → Node → Prop where
  | same (node : Node) : Alike node node
  | mapping (before after : Mapping) : Alike (.mapping before) (.mapping after)
  | sequence (before after : List Node) : Alike (.sequence before) (.sequence after)

theorem Alike.trans {before between after : Node} (hfirst : before.Alike between)
    (hsecond : between.Alike after) : before.Alike after := by
  cases hfirst with
  | same => exact hsecond
  | mapping before between =>
      cases hsecond with
      | same => exact .mapping before between
      | mapping _ after => exact .mapping before after
  | sequence before between =>
      cases hsecond with
      | same => exact .sequence before between
      | sequence _ after => exact .sequence before after

theorem Alike.text? {before after : Node} (halike : before.Alike after) :
    after.text? = before.text? := by
  cases halike <;> rfl

theorem Alike.keyName? {before after : Node} (halike : before.Alike after) :
    after.keyName? = before.keyName? := by
  cases halike <;> rfl

end Node

namespace Mapping

def Alike (before after : Mapping) : Prop :=
  List.Forall₂ (fun b a : Node × Node => b.1 = a.1 ∧ b.2.Alike a.2) before after

namespace Alike

variable {before after : Mapping}

theorem get? (halike : before.Alike after) (name : String) :
    Option.Rel Node.Alike (before.get? name) (after.get? name) := by
  induction halike with
  | nil => exact .none
  | @cons b a later later' head tail ih =>
      obtain ⟨key, value⟩ := b
      obtain ⟨key', value'⟩ := a
      obtain ⟨same, values⟩ := head
      cases same
      rw [get?_cons, get?_cons]
      split
      · exact .some values
      · exact ih

theorem get?_text (halike : before.Alike after) {name text : String}
    (hheld : before.get? name = some (.text text)) : after.get? name = some (.text text) := by
  have values := halike.get? name
  rw [hheld] at values
  generalize after.get? name = value at values
  cases values with
  | some values => cases values with | same => rfl

theorem text? (halike : before.Alike after) (name : String) :
    after.text? name = before.text? name := by
  have hfields := halike.get? name
  unfold Mapping.text?
  generalize before.get? name = old at hfields
  generalize after.get? name = new at hfields
  cases hfields with
  | none => rfl
  | some values => exact values.text?

theorem keyName? (halike : before.Alike after) (name : String) :
    (after.get? name).bind Node.keyName? = (before.get? name).bind Node.keyName? := by
  have hfields := halike.get? name
  generalize before.get? name = old at hfields
  generalize after.get? name = new at hfields
  cases hfields with
  | none => rfl
  | some values => exact values.keyName?

theorem nonempty? (halike : before.Alike after) (name : String) :
    after.nonempty? name = before.nonempty? name := by
  rw [Mapping.nonempty?, Mapping.nonempty?, halike.text?]

theorem isQueryable (halike : before.Alike after) : after.isQueryable = before.isQueryable := by
  simp only [Mapping.isQueryable, Mapping.declares, halike.nonempty?]

theorem keys_eq (halike : before.Alike after) : after.map Prod.fst = before.map Prod.fst := by
  induction halike with
  | nil => rfl
  | cons head tail ih => simp [head.1, ih]

end Alike

end Mapping

@[simp] theorem Place.child_key (place : Place) (key : Node) :
    (place.child key).key = key.keyName? := by
  unfold Place.child
  split
  · rename_i absent
    rw [absent]
  · rename_i name found
    rw [found]

def Visitor.Shallow {ε κ : Type} (visit : Visitor ε κ) : Prop :=
  ∀ place inherited m visited own, visit place inherited m = .ok (visited, own) →
    Node.entriesHeight visited ≤ Node.entriesHeight m

namespace Node

variable {ε κ : Type} {visit : Visitor ε κ}

theorem walkWithin_mapping {depth : Nat} {place : Place} {inherited : κ} {m : Mapping}
    {node : Node} :
    walkWithin visit (depth + 1) place inherited (.mapping m) = .ok node ↔
      ∃ visited own walked, visit place inherited m = .ok (visited, own) ∧
        List.Forall₂
          (fun before after : Node × Node => before.1 = after.1 ∧
            walkWithin visit depth (place.child before.1) own before.2 = .ok after.2)
          visited walked ∧
        node = .mapping walked := by
  have hentry (own : κ) (before after : Node × Node) :
      (do
        let value ← walkWithin visit depth (place.child before.1) own before.2
        return (before.1, value) : Except ε (Node × Node)) = .ok after ↔
      before.1 = after.1 ∧
        walkWithin visit depth (place.child before.1) own before.2 = .ok after.2 := by
    obtain ⟨key, value⟩ := after
    rw [Except.bind_eq_ok]
    constructor
    · rintro ⟨new, walked, returned⟩
      cases returned
      exact ⟨rfl, walked⟩
    · rintro ⟨same, walked⟩
      exact ⟨value, walked, by rw [same]; rfl⟩
  rw [walkWithin, Except.bind_eq_ok]
  constructor
  · rintro ⟨⟨visited, own⟩, visiting, rest⟩
    rw [Except.bind_eq_ok] at rest
    obtain ⟨walked, children, returned⟩ := rest
    cases returned
    rw [Except.mapM_eq_ok] at children
    exact ⟨visited, own, walked, visiting,
      children.imp fun before after => (hentry own before after).mp, rfl⟩
  · rintro ⟨visited, own, walked, visiting, children, rfl⟩
    refine ⟨(visited, own), visiting, ?_⟩
    rw [Except.bind_eq_ok]
    refine ⟨walked, ?_, rfl⟩
    rw [Except.mapM_eq_ok]
    exact children.imp fun before after => (hentry own before after).mpr

theorem walkWithin_sequence {depth : Nat} {place : Place} {inherited : κ} {items : List Node}
    {node : Node} :
    walkWithin visit (depth + 1) place inherited (.sequence items) = .ok node ↔
      ∃ walked,
        List.Forall₂
          (fun item after =>
            walkWithin visit depth (place.item item.2) inherited item.1 = .ok after)
          items.zipIdx walked ∧
        node = .sequence walked := by
  rw [walkWithin, Except.bind_eq_ok]
  constructor
  · rintro ⟨walked, children, returned⟩
    cases returned
    exact ⟨walked, Except.mapM_eq_ok.mp children, rfl⟩
  · rintro ⟨walked, children, rfl⟩
    exact ⟨walked, Except.mapM_eq_ok.mpr children, rfl⟩

theorem walkWithin_items {depth : Nat} {place : Place} {inherited : κ} {items : List Node}
    {node : Node}
    (hwalking : walkWithin visit (depth + 1) place inherited (.sequence items) = .ok node) :
    ∃ walked, List.Forall₂
        (fun item after => ∃ index,
          walkWithin visit depth (place.item index) inherited item = .ok after) items walked ∧
      node = .sequence walked := by
  obtain ⟨walked, children, same⟩ := walkWithin_sequence.mp hwalking
  have heach := children.imp
    (S := fun item after => ∃ index,
      walkWithin visit depth (place.item index) inherited item.1 = .ok after)
    fun item after child => ⟨item.2, child⟩
  rw [← List.forall₂_map_left_iff (R := fun item after => ∃ index,
    walkWithin visit depth (place.item index) inherited item = .ok after),
    List.zipIdx_map_fst] at heach
  exact ⟨walked, heach, same⟩

theorem walkWithin_of_items {depth : Nat} {place : Place} {inherited : κ} {items walked : List Node}
    (heach : List.Forall₂
      (fun item after => ∀ index,
        walkWithin visit depth (place.item index) inherited item = .ok after) items walked) :
    walkWithin visit (depth + 1) place inherited (.sequence items) = .ok (.sequence walked) := by
  rw [← List.zipIdx_map_fst 0 items, List.forall₂_map_left_iff] at heach
  exact walkWithin_sequence.mpr ⟨walked, heach.imp fun item after child => child item.2, rfl⟩

theorem walkWithin_alike {depth : Nat} {place : Place} {inherited : κ} {node walked : Node}
    (hwalking : walkWithin visit depth place inherited node = .ok walked) : node.Alike walked := by
  cases depth with
  | zero =>
      cases hwalking
      exact .same node
  | succ depth =>
      cases node with
      | mapping m =>
          rw [walkWithin_mapping] at hwalking
          obtain ⟨visited, own, after, -, -, rfl⟩ := hwalking
          exact .mapping m after
      | sequence items =>
          rw [walkWithin_sequence] at hwalking
          obtain ⟨after, -, rfl⟩ := hwalking
          exact .sequence items after
      | _ =>
          cases hwalking
          exact .same _

theorem walkWithin_mapping_eq_error_iff {depth : Nat} {place : Place} {inherited own : κ}
    {m visited : Mapping} {errors : Node × Node → List ε}
    (hvisiting : visit place inherited m = .ok (visited, own))
    (heach : ∀ entry ∈ visited, ∀ error,
      walkWithin visit depth (place.child entry.1) own entry.2 = .error error ↔
        (errors entry).head? = some error) {error : ε} :
    walkWithin visit (depth + 1) place inherited (.mapping m) = .error error ↔
      (visited.flatMap errors).head? = some error := by
  have hentries : (visited.mapM fun entry => do
      return (entry.1, ← walkWithin visit depth (place.child entry.1) own entry.2)) =
        .error error ↔ (visited.flatMap errors).head? = some error :=
    Except.mapM_eq_error_iff fun entry inside error => by
      rw [Except.bind_eq_error, ← heach entry inside]
      simp [pure, Except.pure]
  rw [← hentries, walkWithin, hvisiting, Except.bind_eq_error]
  constructor
  · rintro (failed | ⟨result, ⟨_, _⟩, failing⟩)
    · cases failed
    · rcases Except.bind_eq_error.mp failing with failing | ⟨_, _, returned⟩
      · exact failing
      · cases returned
  · exact fun failing => .inr ⟨_, rfl, Except.bind_eq_error.mpr (.inl failing)⟩

theorem walkWithin_sequence_eq_error_iff {depth : Nat} {place : Place} {inherited : κ}
    {items : List Node} {errors : Node × Nat → List ε}
    (heach : ∀ item ∈ items.zipIdx, ∀ error,
      walkWithin visit depth (place.item item.2) inherited item.1 = .error error ↔
        (errors item).head? = some error) {error : ε} :
    walkWithin visit (depth + 1) place inherited (.sequence items) = .error error ↔
      (items.zipIdx.flatMap errors).head? = some error := by
  rw [walkWithin, Except.bind_eq_error, Except.mapM_eq_error_iff heach]
  simp [pure, Except.pure]

/-- A walk ends if its visitor does wherever something good is handed down, and hands on
the like. -/
theorem walkWithin_isOk_of {P : κ → Prop}
    (hvisits : ∀ place inherited m, P inherited →
      ∃ visited own, visit place inherited m = .ok (visited, own) ∧ P own)
    (depth : Nat) (place : Place) {inherited : κ} (hgood : P inherited) (node : Node) :
    ∃ walked, walkWithin visit depth place inherited node = .ok walked := by
  induction depth generalizing place inherited node with
  | zero => exact ⟨node, rfl⟩
  | succ depth ih =>
      cases node with
      | mapping m =>
          obtain ⟨visited, own, visiting, goodOwn⟩ := hvisits place inherited m hgood
          have heach : ∀ before ∈ visited, ∃ after : Node × Node, before.1 = after.1 ∧
              walkWithin visit depth (place.child before.1) own before.2 = .ok after.2 := by
            intro before _
            obtain ⟨value, walking⟩ := ih (place.child before.1) goodOwn before.2
            exact ⟨(before.1, value), rfl, walking⟩
          obtain ⟨walked, children⟩ := exists_forall₂ heach
          exact ⟨_, walkWithin_mapping.mpr ⟨visited, own, walked, visiting, children, rfl⟩⟩
      | sequence items =>
          have heach : ∀ item ∈ items.zipIdx, ∃ after,
              walkWithin visit depth (place.item item.2) inherited item.1 = .ok after :=
            fun item _ => ih (place.item item.2) hgood item.1
          obtain ⟨walked, children⟩ := exists_forall₂ heach
          exact ⟨_, walkWithin_sequence.mpr ⟨walked, children, rfl⟩⟩
      | _ => exact ⟨_, rfl⟩

theorem walkWithin_isOk
    (hvisits : ∀ place inherited m, ∃ result, visit place inherited m = .ok result)
    (depth : Nat) (place : Place) (inherited : κ) (node : Node) :
    ∃ walked, walkWithin visit depth place inherited node = .ok walked := by
  refine walkWithin_isOk_of (P := fun _ => True) (fun place inherited m _ => ?_) depth place
    trivial node
  obtain ⟨⟨visited, own⟩, visiting⟩ := hvisits place inherited m
  exact ⟨visited, own, visiting, trivial⟩

theorem walk_isOk (hvisits : ∀ place inherited m, ∃ result, visit place inherited m = .ok result)
    (inherited : κ) (node : Node) : ∃ walked, node.walk visit inherited = .ok walked :=
  walkWithin_isOk hvisits node.height .root inherited node

/-- What holds of every node that is no collection, and of a collection where it holds of what is
in it, holds of every walk that ends. The induction is on the depth that is left. -/
theorem walkWithin_induct (hshallow : visit.Shallow)
    {motive : Place → κ → Node → Node → Prop}
    (hleaf : ∀ place inherited node, (∀ m, node ≠ .mapping m) → (∀ items, node ≠ .sequence items) →
      motive place inherited node node)
    (hmapping : ∀ place inherited m visited own walked,
      visit place inherited m = .ok (visited, own) → Mapping.Alike visited walked →
      List.Forall₂
        (fun before after : Node × Node =>
          before.1 = after.1 ∧ motive (place.child before.1) own before.2 after.2)
        visited walked →
      motive place inherited (.mapping m) (.mapping walked))
    (hsequence : ∀ place inherited items walked,
      List.Forall₂ (fun item after => ∃ index, motive (place.item index) inherited item after)
        items walked →
      motive place inherited (.sequence items) (.sequence walked))
    (depth : Nat) (place : Place) (inherited : κ) (node walked : Node)
    (hbound : node.height ≤ depth)
    (hwalking : walkWithin visit depth place inherited node = .ok walked) :
    motive place inherited node walked := by
  induction depth generalizing place inherited node walked with
  | zero =>
      cases hwalking
      apply hleaf
      · rintro m rfl
        simp [height] at hbound
      · rintro items rfl
        simp [height] at hbound
  | succ depth ih =>
      cases node with
      | mapping m =>
          rw [walkWithin_mapping] at hwalking
          obtain ⟨visited, own, after, visiting, children, rfl⟩ := hwalking
          have hlow : ∀ entry ∈ visited, entry.2.height ≤ depth := by
            rw [← entriesHeight_le_iff]
            have := hshallow place inherited m visited own visiting
            simp only [height] at hbound
            omega
          refine hmapping place inherited m visited own after visiting
            (children.imp fun before after child => ⟨child.1, walkWithin_alike child.2⟩) ?_
          have hbounded := (List.forall₂_and_left _ _).mpr ⟨hlow, children⟩
          exact hbounded.imp fun before after ⟨height, same, child⟩ =>
            ⟨same, ih _ _ _ _ height child⟩
      | sequence items =>
          obtain ⟨after, children, rfl⟩ := walkWithin_items hwalking
          have hlow : ∀ item ∈ items, item.height ≤ depth := by
            rw [← itemsHeight_le_iff]
            simp only [height] at hbound
            omega
          apply hsequence
          exact ((List.forall₂_and_left _ _).mpr ⟨hlow, children⟩).imp
            fun item after ⟨height, index, child⟩ => ⟨index, ih _ _ _ _ height child⟩
      | _ =>
          cases hwalking
          exact hleaf _ _ _ (by simp) (by simp)

/-- What a visit keeps of a mapping and of all mappings below it, a walk keeps. -/
theorem walk_forall_mappings (hshallow : visit.Shallow) {P : Mapping → Prop}
    (halike : ∀ m m', Mapping.Alike m m' → P m → P m')
    (hkept : ∀ place inherited m visited own, visit place inherited m = .ok (visited, own) →
      (∀ m' ∈ (Node.mapping m).mappings, P m') → ∀ m' ∈ (Node.mapping visited).mappings, P m')
    {inherited : κ} {node walked : Node} (hwalking : node.walk visit inherited = .ok walked)
    (hholds : ∀ m ∈ node.mappings, P m) : ∀ m ∈ walked.mappings, P m := by
  refine walkWithin_induct hshallow
    (motive := fun _ _ node walked => (∀ m ∈ node.mappings, P m) → ∀ m ∈ walked.mappings, P m)
    ?_ ?_ ?_ node.height .root inherited node walked (Nat.le_refl _) hwalking hholds
  · intro place inherited node noMapping noSequence hholds
    exact hholds
  · intro place inherited m visited own walked visiting alikeBelow children hholds
    have holdsVisited := hkept place inherited m visited own visiting hholds
    rw [forall_mem_mappings] at holdsVisited ⊢
    refine ⟨halike visited walked alikeBelow holdsVisited.1, ?_⟩
    exact forall_mem_of_forall₂ (P := fun entry => ∀ m ∈ entry.2.mappings, P m)
      (((List.forall₂_and_left _ _).mpr ⟨holdsVisited.2, children⟩).imp
        fun before after ⟨hholds, _, child⟩ => child hholds)
  · intro place inherited items walked children hholds
    rw [mappings] at hholds ⊢
    have hinside : ∀ item ∈ items, ∀ m ∈ item.mappings, P m := fun item member m within =>
      hholds m (mem_itemsMappings.mpr ⟨item, member, within⟩)
    have hwalks := forall_mem_of_forall₂ (P := fun item => ∀ m ∈ item.mappings, P m)
      (((List.forall₂_and_left _ _).mpr ⟨hinside, children⟩).imp
        fun before after ⟨hholds, _, child⟩ => child hholds)
    intro m member
    obtain ⟨item, inWalked, within⟩ := mem_itemsMappings.mp member
    exact hwalks item inWalked m within

end Node

end DirectoryMetrics
