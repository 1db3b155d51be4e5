import DirectoryMetrics.Proofs.Tree.Descent
import DirectoryMetrics.Tree.ChildSlots

namespace DirectoryMetrics

/-! Moving children to slots. A child that leaves its reserved key takes the key along as its name,
so that a descent that names mappings by their `name` field before their key does not notice. After
the move no mapping of child names has a structural key, and it can be read as any other mapping. -/

namespace Mapping

/-- No tagged keys, and no structural key twice. -/
def Orderly (m : Mapping) : Prop :=
  (∀ field ∈ Field.reserved, m.HoldsOnce field) ∧ ∀ entry ∈ m, entry.1.hasTag = false

theorem Orderly.of_keys_eq {m m' : Mapping} (hkeys : m'.map Prod.fst = m.map Prod.fst)
    (horderly : m.Orderly) : m'.Orderly := by
  refine ⟨fun field reserved => (horderly.1 field reserved).of_keys_eq hkeys, ?_⟩
  have huntagged : ∀ key ∈ m.map Prod.fst, key.hasTag = false := by
    simpa using fun a b member => horderly.2 (a, b) member
  intro entry member
  exact huntagged entry.1 (hkeys ▸ List.mem_map_of_mem member)

theorem Orderly.set {m : Mapping} (horderly : m.Orderly) (name : String) (value : Node) :
    (m.set name value).Orderly :=
  ⟨fun field reserved => (horderly.1 field reserved).set name value,
    forall_mem_set horderly.2 rfl⟩

end Mapping

def Node.Orderly (node : Node) : Prop := ∀ m ∈ node.mappings, m.Orderly

theorem Node.orderly_mapping {m : Mapping} :
    (Node.mapping m).Orderly ↔ m.Orderly ∧ ∀ entry ∈ m, entry.2.Orderly :=
  forall_mem_mappings

theorem Node.orderly_leaf {node : Node} (hnoMapping : ∀ m, node ≠ .mapping m)
    (hnoSequence : ∀ items, node ≠ .sequence items) : node.Orderly := by
  intro m inside
  cases node with
  | mapping m => exact absurd rfl (hnoMapping m)
  | sequence items => exact absurd rfl (hnoSequence items)
  | _ => simp [mappings] at inside

theorem Node.Orderly.set {m : Mapping} (horderly : (Node.mapping m).Orderly) {value : Node}
    (hbelow : value.Orderly) (name : String) :
    (Node.mapping (Mapping.set name value m)).Orderly := by
  rw [orderly_mapping] at horderly ⊢
  exact ⟨horderly.1.set name value, Mapping.forall_mem_set horderly.2 hbelow⟩

theorem Node.Orderly.item {items : List Node} (horderly : (Node.sequence items).Orderly)
    {item : Node} (hmember : item ∈ items) : item.Orderly := by
  intro m' inside
  exact horderly m' (mem_itemsMappings.mpr ⟨item, hmember, inside⟩)

namespace ChildSlots

theorem slotName_toList (n : Nat) : (slotName n).toList = "child".toList ++ Nat.toDigits 10 n := by
  have hjoined : slotName n = "child" ++ Nat.repr n := rfl
  rw [hjoined, String.toList_append, Nat.toList_repr]

theorem slotName_not_mem_reserved (n : Nat) : slotName n ∉ Field.reserved := by
  have hnone : ∀ name ∈ Field.reserved, name.toList.take 5 = "child".toList →
      (name.toList.drop 5).all Char.isDigit = false := by decide
  have hdigits : ((slotName n).toList.drop 5).all Char.isDigit = true := by
    rw [slotName_toList]
    exact List.all_eq_true.mpr fun c member =>
      Nat.isDigit_of_mem_toDigits (by decide) (by decide) member
  intro reserved
  have hstarted : (slotName n).toList.take 5 = "child".toList := by
    rw [slotName_toList]
    rfl
  rw [hnone (slotName n) reserved hstarted] at hdigits
  cases hdigits

/-- A child stays where it is, or it leaves a reserved key for a slot. -/
inductive Moved : Node × Node → Node × Node → Prop where
  | stays (entry : Node × Node)
      (free : ∀ field ∈ Field.reserved, Mapping.isKey field entry.1 = false) : Moved entry entry
  | moves (key : Node) (name : String) (found : reservedName? key = some name) (n : Nat)
      (child : Node) : Moved (key, child) (.text (slotName n), keepName name child)

theorem reservedName?_eq_some {key : Node} {name : String} (huntagged : key.hasTag = false)
    (hfound : reservedName? key = some name) : key = .text name := by
  unfold reservedName? at hfound
  rw [Option.filter_eq_some_iff] at hfound
  cases key with
  | text written =>
      cases hfound.1
      rfl
  | tagged tag content => simp [Node.hasTag] at huntagged
  | _ => simp [Node.text?, Node.untag] at hfound

theorem reservedName?_mem {key : Node} {name : String} (hfound : reservedName? key = some name) :
    name ∈ Field.reserved := by
  rw [reservedName?, Option.filter_eq_some_iff] at hfound
  simpa using hfound.2

theorem reservedName?_of_free {key : Node} (huntagged : key.hasTag = false)
    (hfree : ∀ field ∈ Field.reserved, Mapping.isKey field key = false) :
    reservedName? key = none := by
  cases found : reservedName? key with
  | none => rfl
  | some name =>
      have hisName := reservedName?_eq_some huntagged found
      have hdiffers := hfree name (reservedName?_mem found)
      rw [Mapping.isKey_iff.mpr hisName] at hdiffers
      cases hdiffers

theorem free_of_reservedName?_eq_none {key : Node} (habsent : reservedName? key = none) :
    ∀ field ∈ Field.reserved, Mapping.isKey field key = false := by
  intro field reserved
  cases isField : Mapping.isKey field key with
  | false => rfl
  | true =>
      rw [Mapping.isKey_iff] at isField
      subst isField
      have hfound : reservedName? (.text field) = some field := by
        simp [reservedName?, Node.text?, Node.untag, reserved]
      rw [hfound] at habsent
      cases habsent

theorem moveFrom_moved (taken : List String) (slot : Nat) (children : Mapping) :
    List.Forall₂ Moved children (moveFrom taken slot children) := by
  induction children generalizing slot with
  | nil => exact .nil
  | cons entry rest ih =>
      obtain ⟨key, child⟩ := entry
      rw [moveFrom]
      split
      · rename_i absent
        exact .cons (.stays _ (free_of_reservedName?_eq_none absent)) (ih slot)
      · rename_i name found
        exact .cons (.moves key name found _ child) (ih _)

theorem disambiguate_moved (children : Mapping) :
    List.Forall₂ Moved children (disambiguate children) := by
  rw [disambiguate]
  split
  · exact moveFrom_moved _ 1 children
  · rename_i noCollision
    refine List.forall₂_same.mpr fun entry member => .stays entry fun field reserved => ?_
    cases isField : Mapping.isKey field entry.1 with
    | false => rfl
    | true =>
        rw [Mapping.isKey_iff] at isField
        refine absurd ?_ noCollision
        rw [List.any_eq_true]
        refine ⟨field, List.mem_filterMap.mpr ⟨entry, member, by rw [isField]; rfl⟩, ?_⟩
        simpa using reserved

theorem free_of_moved {children moved : Mapping} (hall : List.Forall₂ Moved children moved) :
    ∀ entry ∈ moved, ∀ field ∈ Field.reserved, Mapping.isKey field entry.1 = false := by
  refine forall_mem_of_forall₂ (hall.imp ?_)
  intro before after moved field reserved
  cases moved with
  | stays _ free => exact free field reserved
  | moves key name found n child =>
      rw [Mapping.isKey_text, beq_eq_false_iff_ne]
      rintro rfl
      exact slotName_not_mem_reserved n reserved

theorem keepName_mapping (name : String) (m : Mapping) :
    keepName name (.mapping m) =
      .mapping (if m.has Field.name then m else m.set Field.name (.text name)) := by
  rw [keepName]
  simp only [Node.modifyMapping?, Except.map]
  by_cases named : m.has Field.name = true
  · rw [if_pos named, if_pos named]
  · have habsent : Mapping.get? Field.name m = none := by simpa [Mapping.has] using named
    rw [if_neg named, if_neg named, Mapping.set_of_get?_eq_none habsent]

theorem keepName_tagged (name tag : String) (content : Node) :
    ∃ named, keepName name (.tagged tag content) = .tagged tag named := by
  rw [keepName]
  simp only [Node.modifyMapping?]
  generalize content.modifyMapping? _ = changed
  rcases changed with _ | _ | named
  · exact ⟨content, rfl⟩
  · contradiction
  · exact ⟨named, rfl⟩

theorem height_keepName_le (name : String) (child : Node) :
    (keepName name child).height ≤ child.height := by
  cases child with
  | mapping m =>
      rw [keepName_mapping]
      split
      · exact Nat.le_refl _
      · rw [Node.height, Node.height, Nat.add_le_add_iff_right, Node.entriesHeight_le_iff]
        exact Mapping.forall_mem_set (Node.entriesHeight_le_iff.mp (Nat.le_refl _))
          (Nat.zero_le _)
  | tagged tag content =>
      obtain ⟨named, eq⟩ := keepName_tagged name tag content
      rw [eq]
      exact Nat.le_refl _
  | _ => exact Nat.le_refl _

theorem entriesHeight_disambiguate_le (children : Mapping) :
    Node.entriesHeight (disambiguate children) ≤ Node.entriesHeight children := by
  have hlow := Node.entriesHeight_le_iff.mp (Nat.le_refl (Node.entriesHeight children))
  rw [Node.entriesHeight_le_iff]
  refine forall_mem_of_forall₂
    (((List.forall₂_and_left _ _).mpr ⟨hlow, disambiguate_moved children⟩).imp ?_)
  intro before after ⟨bound, moved⟩
  cases moved with
  | stays _ _ => exact bound
  | moves key name found n child => exact Nat.le_trans (height_keepName_le name child) bound

def settle : Node → Node
  | .mapping children => .mapping (disambiguate children)
  | node => node

def settleUnder (fields : List String) (entry : Node × Node) : Node × Node :=
  if fields.any (Mapping.isKey · entry.1) then (entry.1, settle entry.2) else entry

@[simp] theorem settleUnder_fst (fields : List String) (entry : Node × Node) :
    (settleUnder fields entry).1 = entry.1 := by
  unfold settleUnder
  split <;> rfl

theorem settleUnder_alike (fields : List String) (entry : Node × Node) :
    entry.2.Alike (settleUnder fields entry).2 := by
  unfold settleUnder
  split
  · cases entry.2 with
    | mapping children => exact .mapping children (disambiguate children)
    | _ => exact .same _
  · exact .same entry.2

theorem map_settleUnder_of_none {field : String} {m : Mapping} (habsent : m.get? field = none) :
    m.map (settleUnder [field]) = m := by
  rw [Mapping.get?_eq_none_iff] at habsent
  rw [List.map_congr_left (g := id), List.map_id]
  intro entry member
  simp [settleUnder, habsent entry member]

theorem disambiguateUnder_cons (field : String) (key value : Node) (rest : Mapping) :
    disambiguateUnder field ((key, value) :: rest) =
      if Mapping.isKey field key then (key, settle value) :: rest
      else (key, value) :: disambiguateUnder field rest := by
  rw [disambiguateUnder, disambiguateUnder, Mapping.get?_cons]
  cases isField : Mapping.isKey field key with
  | true =>
      rw [if_pos rfl, if_pos rfl]
      cases value with
      | mapping children => simp [settle, Mapping.set_cons, isField]
      | _ => rfl
  | false =>
      rw [if_neg Bool.false_ne_true, if_neg Bool.false_ne_true]
      split
      · rw [Mapping.set_cons, isField, if_neg Bool.false_ne_true]
      · rfl

theorem disambiguateUnder_eq_map {field : String} {m : Mapping} (honce : m.HoldsOnce field) :
    disambiguateUnder field m = m.map (settleUnder [field]) := by
  induction m with
  | nil => rfl
  | cons entry rest ih =>
      obtain ⟨key, value⟩ := entry
      rw [disambiguateUnder_cons, List.map_cons]
      cases isField : Mapping.isKey field key with
      | true =>
          rw [if_pos rfl, map_settleUnder_of_none (honce.get?_tail isField)]
          simp [settleUnder, isField]
      | false =>
          rw [if_neg Bool.false_ne_true, ih honce.of_tail]
          simp [settleUnder, isField]

theorem disambiguateUnder_of_none {field : String} {m : Mapping} (habsent : m.get? field = none) :
    disambiguateUnder field m = m := by
  rw [disambiguateUnder, habsent]

theorem entriesHeight_disambiguateUnder_le (field : String) (m : Mapping) :
    Node.entriesHeight (disambiguateUnder field m) ≤ Node.entriesHeight m := by
  have hlow := Node.entriesHeight_le_iff.mp (Nat.le_refl (Node.entriesHeight m))
  rw [disambiguateUnder]
  split
  · rename_i children found
    rw [Node.entriesHeight_le_iff]
    refine Mapping.forall_mem_set hlow ?_
    refine Nat.le_trans ?_ (hlow _ (Mapping.mem_of_get? found))
    rw [Node.height, Node.height, Nat.add_le_add_iff_right]
    exact entriesHeight_disambiguate_le children
  · exact Nat.le_refl _

theorem visit_shallow {ε : Type} : (visit (ε := ε)).Shallow := by
  intro place inherited m visited own visiting
  cases visiting
  exact Nat.le_trans (entriesHeight_disambiguateUnder_le _ _)
    (entriesHeight_disambiguateUnder_le _ _)

theorem visit_eq_map {ε : Type} {m visited : Mapping} {own : Unit} {place : Place}
    (honceObject : m.HoldsOnce Field.object) (honceMetric : m.HoldsOnce Field.metric)
    (hvisiting : visit (ε := ε) place () m = .ok (visited, own)) :
    visited = m.map (settleUnder [Field.object, Field.metric]) := by
  have honceSettled : Mapping.HoldsOnce Field.metric (m.map (settleUnder [Field.object])) :=
    honceMetric.of_keys_eq (by simp [Function.comp_def])
  cases hvisiting
  rw [disambiguateUnder_eq_map honceObject, disambiguateUnder_eq_map honceSettled, List.map_map]
  refine List.map_congr_left fun entry _ => ?_
  obtain ⟨key, value⟩ := entry
  cases isObject : Mapping.isKey Field.object key with
  | true =>
      rw [Mapping.isKey_iff] at isObject
      subst isObject
      rfl
  | false => simp [settleUnder, isObject]

theorem visit_eq_ok {m visited : Mapping} {own : Unit} {place : Place}
    (horderly : m.Orderly) (hvisiting : visit (ε := ConfigError) place () m = .ok (visited, own)) :
    visited = m.map (settleUnder [Field.object, Field.metric]) :=
  visit_eq_map (horderly.1 _ (by decide)) (horderly.1 _ (by decide)) hvisiting

theorem orderly_keepName {child : Node} (horderly : child.Orderly) (name : String) :
    (keepName name child).Orderly := by
  cases child with
  | mapping m =>
      rw [keepName_mapping]
      split
      · exact horderly
      · exact horderly.set (Node.orderly_leaf (by simp) (by simp)) Field.name
  | tagged tag content =>
      obtain ⟨named, eq⟩ := keepName_tagged name tag content
      rw [eq]
      exact Node.orderly_leaf (by simp) (by simp)
  | _ => exact horderly

theorem orderly_disambiguate {children : Mapping} (horderly : (Node.mapping children).Orderly) :
    (Node.mapping (disambiguate children)).Orderly := by
  have moved := disambiguate_moved children
  rw [Node.orderly_mapping] at horderly ⊢
  have untagged := ((List.forall₂_and_left _ _).mpr ⟨horderly.1.2, moved⟩)
  have hbelow := ((List.forall₂_and_left _ _).mpr ⟨horderly.2, moved⟩)
  refine ⟨⟨fun field reserved => ?_, forall_mem_of_forall₂ (untagged.imp ?_)⟩,
    forall_mem_of_forall₂ (P := fun entry => entry.2.Orderly) (hbelow.imp ?_)⟩
  · rw [Mapping.HoldsOnce, List.countP_eq_zero.mpr]
    · exact Nat.zero_le 1
    · intro entry member
      simp [free_of_moved moved entry member field reserved]
  · rintro before after ⟨untagged, moved⟩
    cases moved with
    | stays _ _ => exact untagged
    | moves key name found n child => rfl
  · rintro before after ⟨horderly, moved⟩
    cases moved with
    | stays _ _ => exact horderly
    | moves key name found n child => exact orderly_keepName horderly name

theorem orderly_disambiguateUnder {m : Mapping} (horderly : (Node.mapping m).Orderly)
    (field : String) : (Node.mapping (disambiguateUnder field m)).Orderly := by
  rw [disambiguateUnder]
  split
  · rename_i children found
    have hinside := (Node.orderly_mapping.mp horderly).2 _ (Mapping.mem_of_get? found)
    exact horderly.set (orderly_disambiguate hinside) field
  · exact horderly

theorem walk_orderly {ε : Type} {object renamed : Node}
    (hwalking : object.walk (visit (ε := ε)) () = .ok renamed) (horderly : object.Orderly) :
    renamed.Orderly := by
  refine Node.walk_forall_mappings visit_shallow
    (fun m m' alike horderly => horderly.of_keys_eq alike.keys_eq) ?_ hwalking horderly
  intro place _ m visited own visiting horderly
  cases visiting
  exact orderly_disambiguateUnder (orderly_disambiguateUnder horderly _) _

end ChildSlots

end DirectoryMetrics
