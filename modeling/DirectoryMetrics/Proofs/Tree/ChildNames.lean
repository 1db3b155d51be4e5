import DirectoryMetrics.Proofs.Tree.Disambiguation

namespace DirectoryMetrics

/-! Descents through moved children. A descent that knows which mappings hold the names of children
finds in a tree what one that knows nothing of them finds after the children have moved. -/

namespace ChildSlots

def childFields : List String := [Field.object, Field.metric]

def keepsName : Node → Bool
  | .mapping m =>
      match Mapping.get? Field.name m with
      | none => true
      | some (.text _) => true
      | some _ => false
  | .sequence _ => false
  | _ => true

mutual
def namesKept (names : Bool) : Node → Bool
  | .mapping m => entriesNamesKept names m
  | .sequence items => itemsNamesKept items
  | _ => true

def entriesNamesKept (names : Bool) : List (Node × Node) → Bool
  | [] => true
  | (key, child) :: rest =>
      (!(names && (reservedName? key).isSome) || keepsName child) &&
        namesKept (!names && childFields.any (Mapping.isKey · key)) child &&
        entriesNamesKept names rest

def itemsNamesKept : List Node → Bool
  | [] => true
  | item :: rest => namesKept false item && itemsNamesKept rest
end

theorem namesKept_mapping {names : Bool} {m : Mapping} :
    namesKept names (.mapping m) = true ↔
      ∀ entry ∈ m,
        (names = true → (reservedName? entry.1).isSome = true → keepsName entry.2 = true) ∧
          namesKept (!names && childFields.any (Mapping.isKey · entry.1)) entry.2 = true := by
  rw [namesKept]
  induction m with
  | nil => simp [entriesNamesKept]
  | cons entry rest ih =>
      obtain ⟨key, child⟩ := entry
      rw [entriesNamesKept, Bool.and_eq_true, Bool.and_eq_true, ih, List.forall_mem_cons]
      cases names <;> cases (reservedName? key).isSome <;> simp

theorem namesKept_sequence {names : Bool} {items : List Node} :
    namesKept names (.sequence items) = true ↔ ∀ item ∈ items, namesKept false item = true := by
  rw [namesKept]
  induction items with
  | nil => simp [itemsNamesKept]
  | cons item rest ih => rw [itemsNamesKept, Bool.and_eq_true, ih, List.forall_mem_cons]

theorem namesKept_of_ne {node : Node} (hnoMapping : ∀ m, node ≠ .mapping m) (names : Bool) :
    namesKept names node = namesKept false node := by
  cases node with
  | mapping m => exact absurd rfl (hnoMapping m)
  | _ => rfl

theorem namesKept_keepName {child : Node} (hkept : namesKept false child = true) (name : String) :
    namesKept false (keepName name child) = true := by
  cases child with
  | mapping m =>
      rw [keepName_mapping]
      split
      · exact hkept
      · rw [namesKept_mapping] at hkept ⊢
        exact Mapping.forall_mem_set hkept (by simp [namesKept])
  | tagged tag content =>
      obtain ⟨named, eq⟩ := keepName_tagged name tag content
      rw [eq]
      rfl
  | _ => exact hkept

end ChildSlots

/-- A descent that makes the same of mappings that are alike, passes by a mapping without
structural fields, and uses a `name` field in place of the key and for nothing else. -/
structure Descent.NamesByField {κ β : Type} (d : Descent κ β) : Prop where
  alike : ∀ key above m m', Mapping.Alike m m' → d.look key above m' = d.look key above m
  free : ∀ key above m, (∀ field ∈ Field.reserved, Mapping.get? field m = none) →
    d.look key above m = (above, none, [])
  named : ∀ key above m name, Mapping.get? Field.name m = none →
    d.look key above (m ++ [(.text Field.name, .text name)]) = d.look (some name) above m
  ownName : ∀ key key' above m name, Mapping.get? Field.name m = some (.text name) →
    d.look key above m = d.look key' above m

namespace ChildSlots

variable {κ β : Type} {d : Descent κ β}

theorem node_mapping_congr {d d' : Descent κ β} {key key' : Option String} {above : κ}
    {m m' : Mapping} (hlooks : d.look key above m = d'.look key' above m')
    (hentries : m.flatMap (d.entry false (d.hidden m) (d.own key above m)) =
      m'.flatMap (d'.entry false (d.hidden m) (d.own key above m))) :
    d.node false key above (.mapping m) = d'.node false key' above (.mapping m') := by
  simp only [Descent.look, Prod.mk.injEq] at hlooks
  rw [Descent.node_mapping, Descent.node_mapping, hentries, hlooks.2.1, hlooks.1, hlooks.2.2]

theorem node_keepName (hbyField : d.NamesByField) {child : Node} (hkept : keepsName child = true)
    (name : String) (key : Option String) (above : κ) :
    d.node false (some name) above child = d.node false key above (keepName name child) := by
  cases child with
  | mapping m =>
      rw [keepName_mapping]
      rw [keepsName] at hkept
      split at hkept
      · rename_i absent
        have hlooks := hbyField.named key above m name absent
        rw [Mapping.has, absent, Option.isSome_none, if_neg Bool.false_ne_true,
          Mapping.set_of_get?_eq_none absent]
        refine node_mapping_congr hlooks.symm ?_
        rw [List.flatMap_append]
        have hnothing (hidden : List String) (own : κ) :
            d.entry false hidden own (.text Field.name, .text name) = [] := by
          rw [Descent.entry]
          split
          · rfl
          · rfl
        simp [hnothing]
      · rename_i own found
        rw [Mapping.has, found]
        exact node_mapping_congr (hbyField.ownName (some name) key above m own found) rfl
      · cases hkept
  | sequence items => cases hkept
  | tagged tag content =>
      obtain ⟨named, eq⟩ := keepName_tagged name tag content
      rw [eq]
      rfl
  | _ => rfl

/-- What a descent finds in a node, and in a mapping whose children have moved to the node. -/
def Simulates (d : Descent κ β) (place : Place) (node walked : Node) : Prop :=
  (node.Orderly → namesKept false node = true → ∀ above,
      d.node false place.key above node = d.flat.node false place.key above walked) ∧
    ∀ m children, node = .mapping m → List.Forall₂ Moved children m →
      (Node.mapping children).Orderly → namesKept true (.mapping children) = true → ∀ above,
      d.node true place.key above (.mapping children) =
        d.flat.node false place.key above walked

theorem entry_flat (hidden : List String) (own : κ) (entry : Node × Node) :
    d.flat.entry false hidden own entry =
      if hidden.any (Mapping.isKey · entry.1) then []
      else d.flat.node false entry.1.keyName? own entry.2 := rfl

theorem Simulates.entry (hfields : d.childFields = childFields) {place : Place}
    {before after : Node × Node} (horderly : before.2.Orderly)
    (hkept : namesKept (childFields.any (Mapping.isKey · before.1)) before.2 = true)
    (hsame : before.1 = after.1)
    (hsimulates : Simulates d (place.child before.1) (settleUnder childFields before).2 after.2)
    (hidden : List String) (own : κ) :
    d.entry false hidden own before = d.flat.entry false hidden own after := by
  rw [entry_flat, Descent.entry, hfields, ← hsame, Bool.not_false, Bool.true_and]
  split
  · rfl
  · rw [settleUnder] at hsimulates
    cases holds : childFields.any (Mapping.isKey · before.1) with
    | false =>
        rw [holds, if_neg Bool.false_ne_true] at hsimulates
        rw [holds] at hkept
        simpa using hsimulates.1 horderly hkept own
    | true =>
        rw [holds, if_pos rfl] at hsimulates
        rw [holds] at hkept
        generalize before.2 = node at *
        cases node with
        | mapping children =>
            simpa using hsimulates.2 _ children rfl (disambiguate_moved children) horderly hkept own
        | _ =>
            rw [Descent.node_names_of_ne _ (by simp)]
            rw [namesKept_of_ne (by simp)] at hkept
            simpa [settle] using hsimulates.1 horderly hkept own

theorem Simulates.child (hbyField : d.NamesByField) {place : Place}
    {before between after : Node × Node}
    (hmoved : Moved before between) (huntagged : before.1.hasTag = false)
    (horderly : before.2.Orderly)
    (hkept : (reservedName? before.1).isSome = true → keepsName before.2 = true)
    (hkeptBelow : namesKept false before.2 = true) (hsame : between.1 = after.1)
    (hsimulates : Simulates d (place.child between.1) between.2 after.2) (own : κ) :
    d.entry true [] own before = d.flat.entry false [] own after := by
  have hatEntry : d.entry true [] own before = d.node false before.1.keyName? own before.2 := rfl
  have hatAfter : d.flat.entry false [] own after =
      d.flat.node false after.1.keyName? own after.2 := rfl
  rw [hatEntry, hatAfter, ← hsame]
  cases hmoved with
  | stays _ free => simpa using hsimulates.1 horderly hkeptBelow own
  | moves key name found n child =>
      have hwalks := hsimulates.1 (orderly_keepName horderly name)
        (namesKept_keepName hkeptBelow name) own
      have hisName := reservedName?_eq_some huntagged found
      subst hisName
      rw [Place.child_key] at hwalks
      rw [← hwalks]
      exact node_keepName hbyField (hkept (by rw [found]; rfl)) name _ own

theorem mapping_simulates_own (hbyField : d.NamesByField) (hfields : d.childFields = childFields)
    {place : Place} {m visited walked : Mapping} {own : Unit}
    (hvisiting : visit (ε := ConfigError) place () m = .ok (visited, own))
    (halike : Mapping.Alike visited walked)
    (hchildren : List.Forall₂
      (fun before after : Node × Node =>
        before.1 = after.1 ∧ Simulates d (place.child before.1) before.2 after.2)
      visited walked)
    (horderly : (Node.mapping m).Orderly) (hkept : namesKept false (.mapping m) = true)
    (above : κ) :
    d.node false place.key above (.mapping m) =
      d.flat.node false place.key above (.mapping walked) := by
  have visitedEq := visit_eq_ok (horderly m List.mem_cons_self) hvisiting
  subst visitedEq
  rw [List.forall₂_map_left_iff] at hchildren
  rw [Mapping.Alike, List.forall₂_map_left_iff] at halike
  have hmAlike : Mapping.Alike m walked := halike.imp fun before after ⟨same, below⟩ =>
    ⟨by rw [← same, settleUnder_fst], (settleUnder_alike _ before).trans below⟩
  have hlooks := hbyField.alike place.key above m walked hmAlike
  refine node_mapping_congr hlooks.symm ?_
  have hinside : ∀ entry ∈ m, entry.2.Orderly ∧
      namesKept (childFields.any (Mapping.isKey · entry.1)) entry.2 = true := by
    rw [namesKept_mapping] at hkept
    intro entry member
    exact ⟨(Node.orderly_mapping.mp horderly).2 entry member, by simpa using (hkept entry member).2⟩
  refine Descent.flatMap_eq_of_forall₂ ((List.forall₂_and_left _ _).mpr ⟨hinside, hchildren⟩) ?_
  intro before after ⟨⟨orderlyBelow, keptBelow⟩, same, simulates⟩
  rw [settleUnder_fst] at same simulates
  exact simulates.entry hfields orderlyBelow keptBelow same _ _

theorem mapping_simulates_named (hbyField : d.NamesByField) {place : Place}
    {m named visited walked : Mapping} {own : Unit}
    (hvisiting : visit (ε := ConfigError) place () m = .ok (visited, own))
    (halike : Mapping.Alike visited walked)
    (hchildren : List.Forall₂
      (fun before after : Node × Node =>
        before.1 = after.1 ∧ Simulates d (place.child before.1) before.2 after.2)
      visited walked)
    (hmoved : List.Forall₂ Moved named m) (horderly : (Node.mapping named).Orderly)
    (hkept : namesKept true (.mapping named) = true) (above : κ) :
    d.node true place.key above (.mapping named) =
      d.flat.node false place.key above (.mapping walked) := by
  have hfree := free_of_moved hmoved
  have habsent : ∀ field ∈ Field.reserved, Mapping.get? field m = none := fun field reserved =>
    Mapping.get?_eq_none_iff.mpr fun entry member => hfree entry member field reserved
  have hunvisited : visited = m := by
    cases hvisiting
    rw [disambiguateUnder_of_none (habsent Field.object (by decide)),
      disambiguateUnder_of_none (habsent Field.metric (by decide))]
  subst hunvisited
  have hlooks := (hbyField.alike place.key above visited walked halike).trans
    (hbyField.free place.key above visited habsent)
  simp only [Descent.look, Prod.mk.injEq] at hlooks
  have hinside : ∀ entry ∈ named, entry.1.hasTag = false ∧ entry.2.Orderly ∧
      ((reservedName? entry.1).isSome = true → keepsName entry.2 = true) ∧
      namesKept false entry.2 = true := by
    rw [namesKept_mapping] at hkept
    intro entry member
    exact ⟨(horderly named List.mem_cons_self).2 entry member,
      (Node.orderly_mapping.mp horderly).2 entry member, (hkept entry member).1 rfl,
      by simpa using (hkept entry member).2⟩
  have hboth := forall₂_comp
    (P := fun before after => ∃ between, Moved before between ∧ between.1 = after.1 ∧
      Simulates d (place.child between.1) between.2 after.2)
    (fun before between after hmoved below => ⟨between, hmoved, below⟩) hmoved hchildren
  rw [Descent.node_names, Descent.node_mapping]
  have ownEq : d.flat.own place.key above walked = above := hlooks.1
  have gatherEq : d.flat.gather above walked = none := by
    have hgathered := hlooks.2.1
    rwa [hlooks.1] at hgathered
  have hiddenEq : d.flat.hidden walked = [] := hlooks.2.2
  rw [ownEq, gatherEq, hiddenEq, Option.toList_none, List.nil_append]
  refine Descent.flatMap_eq_of_forall₂ ((List.forall₂_and_left _ _).mpr ⟨hinside, hboth⟩) ?_
  intro before after
    ⟨⟨untagged, orderlyBelow, keptName, keptBelow⟩, between, hmoved, same, simulates⟩
  exact simulates.child hbyField hmoved untagged orderlyBelow keptName keptBelow same above

theorem walk_descent_eq (hbyField : d.NamesByField) (hfields : d.childFields = childFields)
    {object renamed : Node} (hwalking : object.walk (visit (ε := ConfigError)) () = .ok renamed)
    (horderly : object.Orderly) (hkept : namesKept false object = true) (above : κ) :
    d.node false none above object = d.flat.node false none above renamed := by
  have simulates : Simulates d .root object renamed := by
    refine Node.walkWithin_induct visit_shallow
      (motive := fun place _ node walked => Simulates d place node walked)
      ?_ ?_ ?_ object.height .root () object renamed (Nat.le_refl _) hwalking
    · intro place _ node noMapping noSequence
      refine ⟨fun _ _ above => ?_, fun m _ eq => absurd eq (noMapping m)⟩
      rw [Descent.node_leaf _ noMapping noSequence, Descent.node_leaf _ noMapping noSequence]
    · intro place _ m visited own walked visiting alike children
      constructor
      · exact mapping_simulates_own hbyField hfields visiting alike children
      · intro _ named eq moved
        cases eq
        exact mapping_simulates_named hbyField visiting alike children moved
    · intro place _ items walked children
      refine ⟨fun horderly hkept above => ?_, fun m _ eq => by cases eq⟩
      rw [namesKept_sequence] at hkept
      rw [Descent.node_sequence, Descent.node_sequence]
      have hinside : ∀ item ∈ items, item.Orderly ∧ namesKept false item = true :=
        fun item member => ⟨horderly.item member, hkept item member⟩
      refine Descent.flatMap_eq_of_forall₂ ((List.forall₂_and_left _ _).mpr ⟨hinside, children⟩) ?_
      intro item after ⟨⟨orderlyBelow, keptBelow⟩, index, simulates⟩
      exact simulates.1 orderlyBelow keptBelow above
  exact simulates.1 horderly hkept above

end ChildSlots

end DirectoryMetrics
