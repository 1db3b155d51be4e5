import DirectoryMetrics.Proofs.Tree.Ancestry

namespace DirectoryMetrics

namespace ObjectDn

def directoryRoot (tree : Node) : String := ((tree.field? Field.dnRoot).bind Node.text?).getD ""

/-- The parts of a name from a mapping outwards, the root of the directory at the end. -/
def chain (root : String) (ancestry : Ancestry) : List String :=
  ancestry.filterMap (fun enclosing => enclosing.2.nonempty? Field.rdn) ++
    if root.isEmpty then [] else [root]

def nameIn (root : String) (ancestry : Ancestry) : String := ",".intercalate (chain root ancestry)

/-- Whether a mapping or one around it has a part of its own. -/
def anchored (ancestry : Ancestry) : Bool :=
  ancestry.any fun enclosing => enclosing.2.declares Field.rdn

def suffix (root : String) (ancestry : Ancestry) : Suffix :=
  ⟨nameIn root ancestry, anchored ancestry⟩

variable {root : String} {around : Ancestry} {place : Place} {m : Mapping}

theorem chain_nil (root : String) : chain root [] = if root.isEmpty then [] else [root] := by
  simp [chain]

theorem chain_cons (enclosing : Place × Mapping) :
    chain root (enclosing :: around) =
      (enclosing.2.nonempty? Field.rdn).toList ++ chain root around := by
  rw [chain, chain, List.filterMap_cons]
  cases enclosing.2.nonempty? Field.rdn <;> rfl

theorem chain_nonempty (ancestry : Ancestry) : ∀ part ∈ chain root ancestry, part ≠ "" := by
  induction ancestry with
  | nil =>
      rw [chain_nil]
      split
      · simp
      · rename_i notEmpty
        simpa using notEmpty
  | cons enclosing around ih =>
      rw [chain_cons, List.forall_mem_append]
      exact ⟨fun part own => (Mapping.nonempty?_eq_some.mp (Option.mem_toList.mp own)).2, ih⟩

theorem join_intercalate (rdn : String) {parts : List String}
    (hnonempty : ∀ part ∈ parts, part ≠ "") :
    join rdn (",".intercalate parts) = ",".intercalate (rdn :: parts) := by
  cases parts with
  | nil => rfl
  | cons part rest =>
      have hnotEmpty : (",".intercalate (part :: rest)).isEmpty ≠ true := by
        rw [Ne, String.isEmpty_iff]
        exact intercalate_ne_empty "," hnonempty (List.cons_ne_nil _ _)
      rw [join, if_neg hnotEmpty, String.intercalate_cons_cons]

theorem suffix_nil (root : String) : suffix root [] = ⟨root, false⟩ := by
  rw [suffix, nameIn, chain_nil]
  congr 1
  split
  · rename_i empty
    rw [String.isEmpty_iff.mp empty]
    rfl
  · simp

theorem suffix_of_no_part (hnone : m.nonempty? Field.rdn = none) :
    suffix root ((place, m) :: around) = suffix root around := by
  rw [suffix, suffix, nameIn, nameIn, chain_cons, anchored, anchored, List.any_cons,
    Mapping.declares, hnone]
  rfl

theorem suffix_of_part {rdn : String} (hown : m.nonempty? Field.rdn = some rdn) :
    suffix root ((place, m) :: around) = ⟨join rdn (suffix root around).dn, true⟩ := by
  rw [suffix, nameIn, chain_cons, anchored, List.any_cons, Mapping.declares, hown, suffix, nameIn,
    join_intercalate rdn (chain_nonempty around)]
  rfl

theorem visit_told (root : String) (owner : Owner) : (visit root owner).Told (suffix root) := by
  intro place place' around m visited own walked sameKey visiting alike
  have hpart : walked.nonempty? Field.rdn = m.nonempty? Field.rdn :=
    (visit_annotates root owner).nonempty?_of_ne visiting alike (by decide)
  unfold visit at visiting
  split at visiting
  · rename_i queryable
    unfold own? at visiting
    cases declared : m.nonempty? Field.rdn with
    | some rdn =>
        rw [declared] at hpart visiting
        cases visiting
        rw [suffix_of_part hpart]
    | none =>
        rw [declared] at hpart visiting
        rw [suffix_of_no_part hpart]
        split at visiting
        · rename_i bare
          simp only at bare
          split at bare
          · cases bare
          · cases bare
            cases visiting
            rfl
        · cases visiting
  · rename_i structural
    cases visiting
    have none : m.nonempty? Field.rdn = none := by
      simpa [Mapping.isQueryable, Mapping.declares] using (Bool.or_eq_false_iff.mp
        (Bool.eq_false_iff.mpr structural)).1
    rw [suffix_of_no_part (hpart.trans none)]

/-- What there is to say of a queryable mapping that no part places below the root. -/
def complaint? (owner : Owner) : Ancestry → Option ConfigError
  | [] => none
  | (place, m) :: around =>
      if m.isQueryable && !anchored ((place, m) :: around) then
        some (.attributeWithoutObject (joinPath owner.label place.path)
          ((m.text? Field.attributeName).getD ""))
      else none

def complaints (owner : Owner) (object : Node) : List ConfigError :=
  (object.ancestries [] .root).filterMap (complaint? owner)

variable {owner : Owner}

theorem complaint?_of_anchored {ancestry : Ancestry} (hplaced : anchored ancestry = true) :
    complaint? owner ancestry = none := by
  cases ancestry with
  | nil => rfl
  | cons enclosing around => simp [complaint?, hplaced]

theorem no_complaints_of_anchored {node : Node} (hplaced : anchored around = true) :
    (node.ancestries around place).filterMap (complaint? owner) = [] := by
  rw [List.filterMap_eq_nil_iff]
  intro ancestry member
  obtain ⟨inner, rfl⟩ := Node.suffix_of_mem_ancestries member
  refine complaint?_of_anchored ?_
  rw [anchored] at hplaced ⊢
  rw [List.any_append, hplaced, Bool.or_true]

theorem walkWithin_isOk_of_anchored (root : String) (owner : Owner) (depth : Nat) (place : Place)
    {parent : Suffix} (hplaced : parent.anchored = true) (node : Node) :
    ∃ walked, Node.walkWithin (visit root owner) depth place parent node = .ok walked := by
  refine Node.walkWithin_isOk_of (P := fun suffix => suffix.anchored = true) ?_ depth place
    hplaced node
  intro place parent m hplaced
  rw [visit]
  split
  · rw [own?]
    cases m.nonempty? Field.rdn with
    | some rdn => exact ⟨_, _, rfl, rfl⟩
    | none => exact ⟨_, parent, by simp [hplaced]; rfl, hplaced⟩
  · exact ⟨m, parent, rfl, hplaced⟩

theorem visit_of_part (root : String) (owner : Owner) (place : Place) (parent : Suffix)
    {rdn : String} (hown : m.nonempty? Field.rdn = some rdn) :
    ∃ visited, visit root owner place parent m = .ok (visited, ⟨join rdn parent.dn, true⟩) := by
  have hqueryable : m.isQueryable = true := by simp [Mapping.isQueryable, Mapping.declares, hown]
  rw [visit, if_pos hqueryable, own?, hown]
  exact ⟨_, rfl⟩

theorem anchored_of_no_part (hnoPart : m.nonempty? Field.rdn = none)
    (hloose : anchored around = false) : anchored ((place, m) :: around) = false := by
  rw [anchored] at hloose ⊢
  rw [List.any_cons, hloose, Mapping.declares, hnoPart]
  rfl

theorem visit_of_no_part (owner : Owner) (place : Place) (hbelow : root ≠ "")
    {parent : Suffix} (hlooseParent : parent.anchored = false)
    (hnoPart : m.nonempty? Field.rdn = none) (hloose : anchored around = false) :
    visit root owner place parent m =
      match complaint? owner ((place, m) :: around) with
      | some error => .error error
      | none => .ok (m, parent) := by
  rw [visit, own?, hnoPart, complaint?, anchored_of_no_part hnoPart hloose]
  cases m.isQueryable with
  | true => simp [hlooseParent, hbelow]
  | false => simp

/-- As long as nothing is placed a walk fails with the first complaint. -/
theorem walkWithin_eq_error_iff (hbelow : root ≠ "") {depth : Nat} {parent : Suffix}
    (hlooseParent : parent.anchored = false) (hloose : anchored around = false) {node : Node}
    (hbound : node.height ≤ depth) {error : ConfigError} :
    Node.walkWithin (visit root owner) depth place parent node = .error error ↔
      ((node.ancestries around place).filterMap (complaint? owner)).head? = some error := by
  induction depth generalizing place around node error with
  | zero =>
      rw [Node.ancestries_leaf (by rintro m rfl; simp [Node.height] at hbound)
        (by rintro items rfl; simp [Node.height] at hbound)]
      simp [Node.walkWithin]
  | succ depth ih =>
      cases node with
      | mapping entries =>
          rw [Node.height, Nat.add_le_add_iff_right, Node.entriesHeight_le_iff] at hbound
          rw [Node.ancestries_mapping, List.filterMap_cons, List.filterMap_flatMap]
          cases part : Mapping.nonempty? Field.rdn entries with
          | some rdn =>
              obtain ⟨visited, visiting⟩ := visit_of_part root owner place parent part
              have hplaced : anchored ((place, entries) :: around) = true := by
                simp [anchored, Mapping.declares, part]
              have hnothing (m : Mapping) : m.flatMap (fun _ => ([] : List ConfigError)) = [] :=
                List.flatMap_eq_nil_iff.mpr fun _ _ => rfl
              rw [Node.walkWithin_mapping_eq_error_iff visiting fun entry _ error => ?_, hnothing,
                complaint?_of_anchored hplaced]
              · simp [no_complaints_of_anchored hplaced, hnothing]
              · have hhandedDown : Suffix.anchored ⟨join rdn parent.dn, true⟩ = true := rfl
                obtain ⟨walked, walking⟩ := walkWithin_isOk_of_anchored root owner depth
                  (place.child entry.1) hhandedDown entry.2
                simp [walking]
          | none =>
              have visiting := visit_of_no_part owner place hbelow hlooseParent part hloose
              cases complaining : complaint? owner ((place, entries) :: around) with
              | some first =>
                  rw [complaining] at visiting
                  rw [Node.walkWithin, visiting]
                  simp [bind, Except.bind]
              | none =>
                  rw [complaining] at visiting
                  exact Node.walkWithin_mapping_eq_error_iff visiting fun entry inside error =>
                    ih (anchored_of_no_part part hloose) (hbound entry inside)
      | sequence items =>
          rw [Node.height, Nat.add_le_add_iff_right, Node.itemsHeight_le_iff] at hbound
          rw [Node.ancestries_sequence, List.filterMap_flatMap]
          exact Node.walkWithin_sequence_eq_error_iff fun item inside error =>
            ih hloose (hbound item.1 (List.fst_mem_of_mem_zipIdx inside))
      | _ => simp [Node.walkWithin, Node.ancestries]

theorem walk_eq_error_iff (hbelow : root ≠ "") {object : Node} {error : ConfigError} :
    object.walk (visit root owner) ⟨root, false⟩ = .error error ↔
      (complaints owner object).head? = some error :=
  walkWithin_eq_error_iff hbelow rfl rfl (Nat.le_refl _)

def complaintsOf (tree : Node) : List ConfigError :=
  tree.ownedObjects.flatMap fun tree => complaints tree.1 tree.2

theorem walk_isOk_of_no_root (owner : Owner) (parent : Suffix) (object : Node) :
    ∃ walked, object.walk (visit "" owner) parent = .ok walked := by
  refine Node.walk_isOk (fun place parent m => ?_) parent object
  rw [visit]
  split
  · rw [own?]
    cases m.nonempty? Field.rdn with
    | some rdn => exact ⟨_, rfl⟩
    | none => exact ⟨_, by simp; rfl⟩
  · exact ⟨_, rfl⟩

theorem annotate_eq_error_iff (m : Mapping) {error : ConfigError} :
    annotate (.mapping m) = .error error ↔
      directoryRoot (.mapping m) ≠ "" ∧ (complaintsOf (.mapping m)).head? = some error := by
  rw [annotate, ← directoryRoot]
  by_cases below : directoryRoot (.mapping m) = ""
  · rw [below]
    obtain ⟨placed, placing⟩ := mapObjectTrees_isOk
      (fun owner object => walk_isOk_of_no_root owner ⟨"", false⟩ object) m
    simp [placing]
  · rw [complaintsOf, Node.mapObjectTrees_eq_error_iff rfl fun owner object error =>
      walk_eq_error_iff below]
    exact (and_iff_right below).symm

/-- A pass for distinguished names gives every queryable mapping the chain of the parts from it
outwards and changes nothing else; below a root it fails exactly if some queryable mapping is not
placed by a part, and then says so of the first one. -/
theorem annotate_chains (m : Mapping) :
    (∀ placed, annotate (.mapping m) = .ok placed →
      placed.Objects (Node.Annotated Field.computedDn (nameIn (directoryRoot (.mapping m)))) ∧
        placed.objectsWithout Field.computedDn =
          (Node.mapping m).objectsWithout Field.computedDn) ∧
      ∀ error, annotate (.mapping m) = .error error ↔
        directoryRoot (.mapping m) ≠ "" ∧ (complaintsOf (.mapping m)).head? = some error := by
  refine ⟨fun placed placing => ?_, fun error => annotate_eq_error_iff m⟩
  rw [annotate, ← directoryRoot] at placing
  have hannotated := Node.annotated_of_mapObjectTrees (visit_annotates _) (visit_told _)
    (suffix_nil _) (by decide) (by decide) placing
  exact hannotated

def monitored (own : Mapping) : Mapping :=
  [(.text "dn_root", .text "dc=example"),
    (.text "object", .mapping
      (own ++
        [(.text "waits", .sequence
          [.mapping [(.text "rdn", .text "cn=Reads")],
            .mapping [(.text "attribute", .text "busy")]])]))]

def monitoredPlaced : Mapping :=
  [(.text "dn_root", .text "dc=example"),
    (.text "object", .mapping
      [(.text "rdn", .text "cn=Monitor"),
        (.text "waits", .sequence
          [.mapping
            [(.text "rdn", .text "cn=Reads"),
              (.text "computed_dn", .text "cn=Reads,cn=Monitor,dc=example")],
            .mapping
              [(.text "attribute", .text "busy"),
                (.text "computed_dn", .text "cn=Monitor,dc=example")]]),
        (.text "computed_dn", .text "cn=Monitor,dc=example")])]

theorem monitored_chains :
    (annotate (.mapping (monitored [(.text "rdn", .text "cn=Monitor")])) =
        .ok (.mapping monitoredPlaced) ∧
      (Node.mapping monitoredPlaced).Objects
        (Node.Annotated Field.computedDn (nameIn "dc=example")) ∧
      (Node.mapping monitoredPlaced).objectsWithout Field.computedDn =
        (Node.mapping (monitored [(.text "rdn", .text "cn=Monitor")])).objectsWithout
          Field.computedDn) ∧
      annotate (.mapping (monitored [])) =
        .error (.attributeWithoutObject "object/waits[1]" "busy") := by
  have hplacing : annotate (.mapping (monitored [(.text "rdn", .text "cn=Monitor")])) =
      .ok (.mapping monitoredPlaced) := rfl
  exact ⟨⟨hplacing, (annotate_chains (monitored [(.text "rdn", .text "cn=Monitor")])).1 _ hplacing⟩,
    ((annotate_chains (monitored [])).2 _).mpr ⟨by decide, rfl⟩⟩

end ObjectDn

end DirectoryMetrics
