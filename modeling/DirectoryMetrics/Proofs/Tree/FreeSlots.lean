import DirectoryMetrics.Proofs.Tree.Rest
import DirectoryMetrics.Proofs.Tree.Spelling
import Mathlib.Data.List.Nodup
import Mathlib.Data.List.Perm.Subperm

namespace DirectoryMetrics

namespace ChildSlots

theorem slotName_inj {n k : Nat} : slotName n = slotName k ↔ n = k := by
  refine ⟨fun same => ?_, congrArg slotName⟩
  have hdigits := congrArg String.toList same
  rw [slotName_toList, slotName_toList, List.append_cancel_left_eq] at hdigits
  rw [← Nat.ofDigitChars_toDigits (b := 10) (n := n) (by decide) (by decide), hdigits,
    Nat.ofDigitChars_toDigits (by decide) (by decide)]

theorem freeSlot_spec (taken : List String) (tries slot : Nat) :
    slot ≤ freeSlot taken tries slot ∧
      (∀ n, slot ≤ n → n < freeSlot taken tries slot → slotName n ∈ taken) ∧
      (slotName (freeSlot taken tries slot) ∈ taken →
        freeSlot taken tries slot = slot + tries) := by
  induction tries generalizing slot with
  | zero =>
    exact ⟨Nat.le_refl _, fun n low high => absurd high (by rw [freeSlot]; omega), fun _ => rfl⟩
  | succ tries ih =>
      rw [freeSlot]
      split
      · rename_i isTaken
        obtain ⟨above, between, last⟩ := ih (slot + 1)
        refine ⟨by omega, fun n low high => ?_, fun again => ?_⟩
        · by_cases first : n = slot
          · subst first
            simpa using isTaken
          · exact between n (by omega) high
        · rw [last again]
          omega
      · rename_i isFree
        refine ⟨Nat.le_refl _, fun n low high => absurd high (by omega), fun isTaken => ?_⟩
        exact absurd (by simpa using isTaken) isFree

theorem freeSlot_not_mem (taken : List String) (slot : Nat) :
    slotName (freeSlot taken taken.length slot) ∉ taken := by
  intro isTaken
  obtain ⟨_, between, last⟩ := freeSlot_spec taken taken.length slot
  have hall : (List.range' slot (taken.length + 1)).map slotName ⊆ taken := by
    intro name member
    obtain ⟨n, inRange, rfl⟩ := List.mem_map.mp member
    rw [List.mem_range'_1] at inRange
    have hends := last isTaken
    by_cases isLast : n = freeSlot taken taken.length slot
    · rwa [isLast]
    · exact between n inRange.1 (by omega)
  have hapart : ((List.range' slot (taken.length + 1)).map slotName).Nodup :=
    (List.nodup_range' _).map fun _ _ same => slotName_inj.mp same
  have hfew := (hapart.subperm hall).length_le
  rw [List.length_map, List.length_range'] at hfew
  omega

theorem reservedName?_of_moved {children : Mapping} {taken : List String} {slot : Nat} :
    ∀ entry ∈ moveFrom taken slot children, reservedName? entry.1 = none := by
  induction children generalizing slot with
  | nil => simp [moveFrom]
  | cons entry rest ih =>
      obtain ⟨key, child⟩ := entry
      rw [moveFrom]
      split
      · rename_i absent
        exact List.forall_mem_cons.mpr ⟨absent, ih⟩
      · refine List.forall_mem_cons.mpr ⟨?_, ih⟩
        rw [reservedName?, Option.filter_eq_none_iff]
        intro name named
        cases named
        simpa using slotName_not_mem_reserved _

theorem key_of_moved {children : Mapping} {taken : List String} {slot : Nat} :
    ∀ entry ∈ moveFrom taken slot children, (∃ before ∈ children, entry.1 = before.1) ∨
      ∃ n, slot ≤ n ∧ entry.1 = .text (slotName n) ∧ slotName n ∉ taken := by
  induction children generalizing slot with
  | nil => simp [moveFrom]
  | cons entry rest ih =>
      obtain ⟨key, child⟩ := entry
      rw [moveFrom]
      split
      · refine List.forall_mem_cons.mpr ⟨.inl ⟨_, List.mem_cons_self, rfl⟩, fun entry member => ?_⟩
        refine (ih entry member).imp_left ?_
        rintro ⟨before, inside, same⟩
        exact ⟨before, List.mem_cons_of_mem _ inside, same⟩
      · have hlow := (freeSlot_spec taken taken.length slot).1
        refine List.forall_mem_cons.mpr
          ⟨.inr ⟨_, hlow, rfl, freeSlot_not_mem taken slot⟩, fun entry member => ?_⟩
        refine (ih entry member).imp ?_ ?_
        · rintro ⟨before, inside, same⟩
          exact ⟨before, List.mem_cons_of_mem _ inside, same⟩
        · rintro ⟨n, later, rest⟩
          exact ⟨n, by omega, rest⟩

theorem same_text_eq_false {name : String} {key : Node} (hother : key ≠ .text name) :
    (Node.text name == key) = false ∧ (key == Node.text name) = false := by
  cases key with
  | text written =>
      have hdifferent : written ≠ name := fun same => hother (by rw [same])
      simp [BEq.beq, Node.same, hdifferent, Ne.symm hdifferent]
  | _ => exact ⟨rfl, rfl⟩

theorem moveFrom_distinctKeys {children : Mapping} {taken : List String} {slot : Nat}
    (hdistinct : children.DistinctKeys)
    (hnames : ∀ entry ∈ children, ∀ name, entry.1 = .text name → name ∈ taken) :
    (moveFrom taken slot children).DistinctKeys := by
  induction children generalizing slot with
  | nil => exact .nil
  | cons entry rest ih =>
      obtain ⟨key, child⟩ := entry
      rw [Mapping.DistinctKeys, List.pairwise_cons] at hdistinct
      rw [List.forall_mem_cons] at hnames
      rw [moveFrom]
      split
      · refine List.pairwise_cons.mpr ⟨fun entry member => ?_, ih hdistinct.2 hnames.2⟩
        rcases key_of_moved entry member with ⟨before, inside, same⟩ | ⟨n, _, same, free⟩
        · rw [same]
          exact hdistinct.1 before inside
        · rw [same]
          exact (same_text_eq_false fun isSlot => free (hnames.1 _ isSlot)).2
      · refine List.pairwise_cons.mpr ⟨fun entry member => ?_, ih hdistinct.2 hnames.2⟩
        refine (same_text_eq_false fun isSlot => ?_).1
        rcases key_of_moved entry member with ⟨before, inside, same⟩ | ⟨n, above, same, _⟩
        · exact freeSlot_not_mem taken slot (hnames.2 before inside _ (same.symm.trans isSlot))
        · rw [same, Node.text.injEq, slotName_inj] at isSlot
          omega

theorem disambiguate_distinctKeys {children : Mapping} (hdistinct : children.DistinctKeys) :
    (disambiguate children).DistinctKeys := by
  rw [disambiguate]
  split
  · refine moveFrom_distinctKeys hdistinct fun entry member name isName => ?_
    exact List.mem_filterMap.mpr ⟨entry, member, by rw [isName]; rfl⟩
  · exact hdistinct

def IsFree (children : Mapping) : Prop :=
  (children.filterMap (·.1.keyName?)).any Field.reserved.contains = false ∨
    ∀ entry ∈ children, reservedName? entry.1 = none

theorem IsFree.of_keys_eq {children children' : Mapping}
    (hkeys : children'.map Prod.fst = children.map Prod.fst) (hfree : IsFree children) :
    IsFree children' := by
  have hnames (m : Mapping) :
      m.filterMap (·.1.keyName?) = (m.map Prod.fst).filterMap Node.keyName? := by
    rw [List.filterMap_map]
    rfl
  have heach (m : Mapping) : (∀ entry ∈ m, reservedName? entry.1 = none) ↔
      ∀ key ∈ m.map Prod.fst, reservedName? key = none := by
    simp
  rw [IsFree, hnames, heach] at hfree ⊢
  rwa [hkeys]

theorem moveFrom_of_reservedName? {children : Mapping}
    (habsent : ∀ entry ∈ children, reservedName? entry.1 = none) (taken : List String)
    (slot : Nat) :
    moveFrom taken slot children = children := by
  induction children with
  | nil => rfl
  | cons entry rest ih =>
      obtain ⟨key, child⟩ := entry
      rw [List.forall_mem_cons] at habsent
      simp only [moveFrom, habsent.1, ih habsent.2]

theorem disambiguate_of_isFree {children : Mapping} (hfree : IsFree children) :
    disambiguate children = children := by
  rw [disambiguate]
  split
  · rename_i collides
    rcases hfree with none | absent
    · exact absurd collides (by rw [none]; exact Bool.false_ne_true)
    · exact moveFrom_of_reservedName? absent _ _
  · rfl

theorem isFree_disambiguate (children : Mapping) : IsFree (disambiguate children) := by
  rw [disambiguate]
  split
  · exact .inr reservedName?_of_moved
  · rename_i noCollision
    exact .inl (by simpa using noCollision)

theorem IsFree.get?_eq_none {children : Mapping} (hfree : IsFree children) :
    ∀ field ∈ Field.reserved, children.get? field = none := by
  have none := free_of_moved (disambiguate_moved children)
  rw [disambiguate_of_isFree hfree] at none
  intro field reserved
  rw [Mapping.get?_eq_none_iff]
  exact fun entry member => none entry member field reserved

theorem IsFree.not_queryable {children : Mapping} (hfree : IsFree children) :
    children.isQueryable = false :=
  Mapping.isQueryable_of_free hfree.get?_eq_none

/-- The children of a node do not move. -/
def Clear (m : Mapping) : Prop :=
  ∀ field, field = Field.object ∨ field = Field.metric →
    ∀ children, m.get? field = some (.mapping children) → IsFree children

theorem disambiguateUnder_of_isFree {field : String} {m : Mapping}
    (hfree : ∀ children, m.get? field = some (.mapping children) → IsFree children) :
    disambiguateUnder field m = m := by
  rw [disambiguateUnder]
  split
  · rename_i children found
    rw [disambiguate_of_isFree (hfree children found), Mapping.set_of_get?_eq_some found]
  · rfl

theorem Clear.visit {ε : Type} {m : Mapping} (hclear : Clear m) (place : Place) :
    visit (ε := ε) place () m = .ok (m, ()) := by
  rw [ChildSlots.visit, disambiguateUnder_of_isFree (hclear _ (.inl rfl)),
    disambiguateUnder_of_isFree (hclear _ (.inr rfl))]

/-- Where no child moves a walk is at rest. The induction is on how deep the tree is nested. -/
theorem rests_of_clear {ε : Type} (depth : Nat) {node : Node} (hlow : node.height ≤ depth)
    (hclear : ∀ m ∈ node.mappings, Clear m) (key : Option String) :
    (ChildSlots.visit (ε := ε)).Rests key () node := by
  induction depth generalizing node key with
  | zero =>
      refine .leaf ?_ ?_
      · rintro m rfl
        simp [Node.height] at hlow
      · rintro items rfl
        simp [Node.height] at hlow
  | succ depth ih =>
      cases node with
      | mapping m =>
          rw [Node.forall_mem_mappings] at hclear
          rw [Node.height, Nat.add_le_add_iff_right, Node.entriesHeight_le_iff] at hlow
          exact .mapping () (fun place _ => hclear.1.visit place) fun entry member =>
            ih (hlow entry member) (hclear.2 entry member) _
      | sequence items =>
          rw [Node.height, Nat.add_le_add_iff_right, Node.itemsHeight_le_iff] at hlow
          exact .sequence fun item member => ih (hlow item member)
            (fun m inside => hclear m (Node.mem_itemsMappings.mpr ⟨item, member, inside⟩)) key
      | _ => exact .leaf (by simp) (by simp)

theorem get?_disambiguateUnder (field : String) (m : Mapping) :
    (disambiguateUnder field m).get? field = (m.get? field).map settle := by
  rw [disambiguateUnder]
  cases found : m.get? field with
  | none => simp [found]
  | some value =>
      cases value with
      | mapping children => simp [settle]
      | _ => simp [settle, found]

theorem get?_disambiguateUnder_of_ne {field other : String} (hdifferent : other ≠ field)
    (m : Mapping) : (disambiguateUnder field m).get? other = m.get? other := by
  rw [disambiguateUnder]
  split
  · exact Mapping.get?_set_of_ne hdifferent _ m
  · rfl

theorem clear_of_visit {ε : Type} {place : Place} {m visited : Mapping} {own : Unit}
    (hvisiting : ChildSlots.visit (ε := ε) place () m = .ok (visited, own)) : Clear visited := by
  cases hvisiting
  have hsettled (value : Option Node) (children : Mapping)
      (found : value.map settle = some (.mapping children)) : IsFree children := by
    obtain ⟨node, _, eq⟩ := Option.map_eq_some_iff.mp found
    cases node with
    | mapping before =>
        cases eq
        exact isFree_disambiguate before
    | _ => cases eq
  rintro field (rfl | rfl) children found
  · rw [get?_disambiguateUnder_of_ne (by decide), get?_disambiguateUnder] at found
    exact hsettled _ children found
  · rw [get?_disambiguateUnder] at found
    exact hsettled _ children found

theorem Clear.of_rel {before after : Mapping} (hclear : Clear before)
    (hbelow : ∀ field, Option.Rel
      (fun b a => ∀ children', a = .mapping children' → ∃ children, b = .mapping children ∧
        (IsFree children → children'.map Prod.fst = children.map Prod.fst))
      (before.get? field) (after.get? field)) : Clear after := by
  intro field isField children' found
  have kept := hbelow field
  rw [found] at kept
  generalize held : before.get? field = value at kept
  cases kept with
  | some kept =>
      obtain ⟨children, rfl, keys⟩ := kept children' rfl
      have hfree := hclear field isField children held
      exact hfree.of_keys_eq (keys hfree)

section

variable {ε κ : Type} {visit : Visitor ε κ}

/-- A walk leaves every mapping clear if its visits do, and if they keep the keys of free children.
What the mappings are like before is kept of those that are still to be visited. -/
theorem clear_of_walk (hshallow : visit.Shallow) {Q : Mapping → Prop}
    (hclears : ∀ place inherited m visited own, visit place inherited m = .ok (visited, own) →
      (∀ m' ∈ (Node.mapping m).mappings, Q m') →
      Clear visited ∧ ∀ entry ∈ visited, ∀ m' ∈ entry.2.mappings, Q m')
    (hkeeps : ∀ place inherited m visited own, visit place inherited m = .ok (visited, own) →
      IsFree m → visited.map Prod.fst = m.map Prod.fst)
    {inherited : κ} {node walked : Node} (hwalking : node.walk visit inherited = .ok walked)
    (hholds : ∀ m ∈ node.mappings, Q m) : ∀ m ∈ walked.mappings, Clear m := by
  refine (Node.walkWithin_induct hshallow
    (motive := fun _ _ node walked =>
      ((∀ m ∈ node.mappings, Q m) → ∀ m ∈ walked.mappings, Clear m) ∧
      ∀ children', walked = .mapping children' → ∃ children, node = .mapping children ∧
        (IsFree children → children'.map Prod.fst = children.map Prod.fst))
    ?_ ?_ ?_ node.height .root inherited node walked (Nat.le_refl _) hwalking).1 hholds
  · intro place inherited node noMapping noSequence
    refine ⟨fun _ m inside => ?_, fun children eq => absurd eq (noMapping children)⟩
    cases node with
    | mapping m => exact absurd rfl (noMapping m)
    | sequence items => exact absurd rfl (noSequence items)
    | _ => simp [Node.mappings] at inside
  · intro place inherited m visited own walked visiting alike children
    refine ⟨fun hholds => ?_, ?_⟩
    · obtain ⟨clear, below⟩ := hclears place inherited m visited own visiting hholds
      rw [Node.forall_mem_mappings]
      refine ⟨clear.of_rel fun field => ?_, ?_⟩
      · exact Mapping.get?_rel (R := fun _ b a => ∀ children', a = .mapping children' →
          ∃ children, b = .mapping children ∧
            (IsFree children → children'.map Prod.fst = children.map Prod.fst))
          (children.imp fun before after ⟨same, _, keys⟩ => ⟨same, keys⟩) field
      · exact forall_mem_of_forall₂ (P := fun entry => ∀ m ∈ entry.2.mappings, Clear m)
          (((List.forall₂_and_left _ _).mpr ⟨below, children⟩).imp
            fun before after ⟨hholds, _, child, _⟩ => child hholds)
    · rintro children' eq
      cases eq
      refine ⟨m, rfl, fun free => ?_⟩
      rw [alike.keys_eq, hkeeps place inherited m visited own visiting free]
  · intro place inherited items walked children
    refine ⟨fun hholds m inside => ?_, fun children' eq => by cases eq⟩
    have hinItems : ∀ item ∈ items, ∀ m ∈ item.mappings, Q m := fun item member m inside =>
      hholds m (Node.mem_itemsMappings.mpr ⟨item, member, inside⟩)
    obtain ⟨item, member, inside⟩ := Node.mem_itemsMappings.mp inside
    exact forall_mem_of_forall₂ (P := fun item => ∀ m ∈ item.mappings, Clear m)
      (((List.forall₂_and_left _ _).mpr ⟨hinItems, children⟩).imp
        fun before after ⟨hholds, _, child, _⟩ => child hholds) item member m inside

end

theorem keys_disambiguateUnder (field : String) (m : Mapping) :
    (disambiguateUnder field m).map Prod.fst = m.map Prod.fst := by
  induction m with
  | nil => rfl
  | cons entry rest ih =>
      obtain ⟨key, value⟩ := entry
      rw [disambiguateUnder_cons]
      split
      · rfl
      · rw [List.map_cons, List.map_cons, ih]

theorem walk_clear {ε : Type} {object moved : Node}
    (hwalking : object.walk (ChildSlots.visit (ε := ε)) () = .ok moved) :
    ∀ m ∈ moved.mappings, Clear m := by
  refine clear_of_walk visit_shallow (Q := fun _ => True) ?_ ?_ hwalking fun _ _ => trivial
  · intro place _ m visited own visiting _
    exact ⟨clear_of_visit visiting, fun _ _ _ _ => trivial⟩
  · intro place _ m visited own visiting _
    cases visiting
    rw [keys_disambiguateUnder, keys_disambiguateUnder]

end ChildSlots

theorem Visitor.Annotates.walk_clear {ε κ : Type} {visit : Visitor ε κ} {field : String}
    {text : κ → String} (hannotates : visit.Annotates field text)
    (hnotObject : Field.object ≠ field) (hnotMetric : Field.metric ≠ field) {inherited : κ}
    {node walked : Node} (hwalking : node.walk visit inherited = .ok walked)
    (hclear : ∀ m ∈ node.mappings, ChildSlots.Clear m) :
    ∀ m ∈ walked.mappings, ChildSlots.Clear m := by
  refine ChildSlots.clear_of_walk hannotates.shallow (Q := ChildSlots.Clear) ?_ ?_ hwalking hclear
  · intro place inherited m visited own visiting hclear
    rw [Node.forall_mem_mappings] at hclear
    refine ⟨?_, hannotates.forall_mem visiting hclear.2 fun written m inside => ?_⟩
    · intro name isName children found
      rw [hannotates.get?_of_ne visiting] at found
      · exact hclear.1 name isName children found
      · rcases isName with rfl | rfl
        · exact hnotObject
        · exact hnotMetric
    · simp [Node.mappings] at inside
  · intro place inherited m visited own visiting free
    rw [hannotates place inherited m visited own visiting, if_neg (by simp [free.not_queryable])]

end DirectoryMetrics
