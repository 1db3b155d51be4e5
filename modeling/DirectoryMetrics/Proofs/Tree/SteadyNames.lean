import DirectoryMetrics.Proofs.Tree.ChildNames
import DirectoryMetrics.Proofs.Tree.SettledSpelling

namespace DirectoryMetrics

/-! Moved children and the roles of keys. The items of a list under `object` or `metric` have keys
that name children, but a node is made of such an item all the same when children move: what one of
its children has under `object` or `metric` loses that key, and the names in it become fields. -/

namespace ChildSlots

open KeySpelling

def isLeaf : Node → Bool
  | .mapping _ | .sequence _ => false
  | _ => true

def isBare : Node → Bool
  | .mapping m => m.all fun entry => !childFields.any (Mapping.isKey · entry.1) || isLeaf entry.2
  | _ => true

mutual
/-- No child in an item of a list has children of its own that would lose their role. The flag is
false for a mapping that has had its children moved before it is visited. -/
def isSteady (role : Role) (loose : Bool) : Node → Bool
  | .mapping m => entriesSteady role loose m
  | .sequence items => itemsSteady role items
  | _ => true

def entriesSteady (role : Role) (loose : Bool) : List (Node × Node) → Bool
  | [] => true
  | (key, value) :: rest =>
      (!(role == .childNames && loose && childFields.any (Mapping.isKey · key)) || isBare value) &&
        isSteady (Role.of role key.keyName?) (!childFields.any (Mapping.isKey · key)) value &&
        entriesSteady role loose rest

def itemsSteady (role : Role) : List Node → Bool
  | [] => true
  | item :: rest => isSteady role true item && itemsSteady role rest
end

variable {role : Role} {loose : Bool}

theorem isSteady_mapping {m : Mapping} :
    isSteady role loose (.mapping m) = true ↔
      ∀ entry ∈ m,
        (role = .childNames → loose = true → childFields.any (Mapping.isKey · entry.1) = true →
          isBare entry.2 = true) ∧
        isSteady (Role.of role entry.1.keyName?) (!childFields.any (Mapping.isKey · entry.1))
          entry.2 = true := by
  rw [isSteady]
  induction m with
  | nil => simp [entriesSteady]
  | cons entry rest ih =>
      obtain ⟨key, value⟩ := entry
      rw [entriesSteady, Bool.and_eq_true, Bool.and_eq_true, ih, List.forall_mem_cons]
      refine and_congr_left fun _ => and_congr_left fun _ => ?_
      cases role <;> cases loose <;> cases childFields.any (Mapping.isKey · key) <;> simp

theorem isSteady_sequence {items : List Node} :
    isSteady role loose (.sequence items) = true ↔
      ∀ item ∈ items, isSteady role true item = true := by
  rw [isSteady]
  induction items with
  | nil => simp [itemsSteady]
  | cons item rest ih => rw [itemsSteady, Bool.and_eq_true, ih, List.forall_mem_cons]

theorem isSteady_leaf {node : Node} (hleaf : isLeaf node = true) :
    isSteady role loose node = true := by
  cases node with
  | mapping m => cases hleaf
  | sequence items => cases hleaf
  | _ => rfl

theorem isSteady_congr {node : Node} (hnotNames : role ≠ .childNames) (loose' : Bool)
    (hsteady : isSteady role loose node = true) : isSteady role loose' node = true := by
  cases node with
  | mapping m =>
      rw [isSteady_mapping] at hsteady ⊢
      exact fun entry member => ⟨fun isNames => absurd isNames hnotNames, (hsteady entry member).2⟩
  | sequence items => exact hsteady
  | _ => rfl

theorem spelled_leaf {node : Node} (hleaf : isLeaf node = true) : Spelled role node := by
  cases node with
  | mapping m => cases hleaf
  | sequence items => cases hleaf
  | _ => exact .leaf (by simp) (by simp)

theorem isLeaf_keepName {child : Node} (hleaf : isLeaf child = true) (name : String) :
    isLeaf (keepName name child) = true := by
  cases child with
  | mapping m => cases hleaf
  | sequence items => cases hleaf
  | tagged tag content =>
      obtain ⟨named, eq⟩ := keepName_tagged name tag content
      rw [eq]
      rfl
  | _ => rfl

theorem spelled_keepName {child : Node} (hspelled : Spelled .node child) (name : String) :
    Spelled .node (keepName name child) := by
  cases child with
  | mapping m =>
      rw [keepName_mapping]
      split
      · exact hspelled
      · exact hspelled.set rfl (spelled_leaf rfl)
  | sequence items => exact hspelled
  | _ => exact spelled_leaf (isLeaf_keepName rfl name)

theorem isSteady_keepName {child : Node} (hsteady : isSteady .node loose child = true)
    (name : String) : isSteady .node loose (keepName name child) = true := by
  cases child with
  | mapping m =>
      rw [keepName_mapping]
      split
      · exact hsteady
      · rw [isSteady_mapping] at hsteady ⊢
        exact Mapping.forall_mem_set hsteady ⟨fun isNames => (by cases isNames), rfl⟩
  | sequence items => exact hsteady
  | _ => exact isSteady_leaf (isLeaf_keepName rfl name)

theorem role_slotName (hnotSettings : role ≠ .settings) (n : Nat) :
    Role.of role (some (slotName n)) = .node := by
  have hnotField : ∀ field ∈ childFields, slotName n ≠ field := by
    rintro field isField rfl
    have hreserved : ∀ field ∈ childFields, field ∈ Field.reserved := by decide
    exact slotName_not_mem_reserved n (hreserved _ isField)
  cases role with
  | settings => exact absurd rfl hnotSettings
  | childNames => rfl
  | node =>
      simp only [childFields, List.mem_cons, List.not_mem_nil, or_false, forall_eq_or_imp,
        forall_eq] at hnotField
      simp [Role.of, hnotField.1, hnotField.2]

theorem normalizeKey_slotName (n : Nat) :
    normalizeKey (.text (slotName n)) = .text (slotName n) := by
  have hsmall : ∀ c ∈ (slotName n).toList, isSmall c = true := by
    rw [slotName_toList, List.forall_mem_append]
    refine ⟨List.all_eq_true.mp (by decide), fun c member => ?_⟩
    have hdigit := Nat.isDigit_of_mem_toDigits (by decide) (by decide) member
    have hlow : c.toNat < 0x80 := by
      rw [Char.isDigit, Bool.and_eq_true, decide_eq_true_eq, decide_eq_true_eq] at hdigit
      exact Nat.lt_of_le_of_lt (UInt32.le_iff_toNat_le.mp hdigit.2) (by decide)
    have hsmall := ascii_of_all (p := fun c => !c.isDigit || isSmall c) (by decide +kernel) hlow
    rwa [hdigit, Bool.not_true, Bool.false_or] at hsmall
  rw [normalizeKey, snakeCase, snakeCaseFrom_of_small hsmall, String.ofList_toList]

theorem isKey_childFields {key : Node} (hfield : childFields.any (Mapping.isKey · key) = true) :
    key = .text Field.object ∨ key = .text Field.metric := by
  simpa [childFields, Mapping.isKey_iff] using hfield

def KeepsRole (role : Role) (children : Mapping) : Prop :=
  ∀ entry ∈ children, reservedName? entry.1 ≠ none →
    Role.of role entry.1.keyName? = .node ∨ isLeaf entry.2 = true

theorem keepsRole_childNames (children : Mapping) : KeepsRole .childNames children :=
  fun _ _ _ => .inl rfl

theorem keepsRole_of_isBare {children : Mapping} (hbare : isBare (.mapping children) = true) :
    KeepsRole .node children := by
  rw [isBare, List.all_eq_true] at hbare
  intro entry member moves
  have hinside := hbare entry member
  cases isField : childFields.any (Mapping.isKey · entry.1) with
  | true =>
      rw [isField] at hinside
      exact .inr hinside
  | false =>
      left
      obtain ⟨key, child⟩ := entry
      cases key with
      | text name =>
          simp only [childFields, List.any_cons, List.any_nil, Mapping.isKey_text, Bool.or_false,
            Bool.or_eq_false_iff, beq_eq_false_iff_ne] at isField
          simp [Role.of, Node.keyName?, isField.1, isField.2]
      | tagged tag content => rfl
      | _ => exact absurd rfl moves

section

variable {children : Mapping} (hnotSettings : role ≠ .settings) (hkeeps : KeepsRole role children)

include hnotSettings hkeeps

theorem spelled_disambiguate (hspelled : Spelled role (.mapping children)) :
    Spelled role (.mapping (disambiguate children)) := by
  have moved := disambiguate_moved children
  cases hspelled with
  | leaf noMapping _ => exact absurd rfl (noMapping children)
  | mapping distinct keys below =>
      have heach := (List.forall₂_and_left _ _).mpr
        ⟨fun entry member => And.intro (below entry member) (hkeeps entry member), moved⟩
      refine .mapping (disambiguate_distinctKeys distinct) (fun ownKeys => ?_)
        (forall_mem_of_forall₂ (P := fun entry => Spelled (Role.of role entry.1.keyName?) entry.2)
          (heach.imp ?_))
      · refine forall_mem_of_forall₂ (P := fun entry => normalizeKey entry.1 = entry.1)
          (((List.forall₂_and_left _ _).mpr ⟨keys ownKeys, moved⟩).imp ?_)
        rintro before after ⟨fixed, moved⟩
        cases moved with
        | stays _ _ => exact fixed
        | moves key name found n child => exact normalizeKey_slotName n
      · rintro before after ⟨⟨hspelled, hkeeps⟩, moved⟩
        cases moved with
        | stays _ _ => exact hspelled
        | moves key name found n child =>
            rcases hkeeps (by simp [found]) with isNode | leaf
            · rw [isNode] at hspelled
              exact (role_slotName hnotSettings n).symm ▸ spelled_keepName hspelled name
            · exact spelled_leaf (isLeaf_keepName leaf name)

theorem isSteady_disambiguate (hnotLoose : role = .childNames → loose = false)
    (hsteady : isSteady role loose (.mapping children) = true) :
    isSteady role loose (.mapping (disambiguate children)) = true := by
  have moved := disambiguate_moved children
  rw [isSteady_mapping] at hsteady ⊢
  have heach := (List.forall₂_and_left _ _).mpr
    ⟨fun entry member => And.intro (hsteady entry member) (hkeeps entry member), moved⟩
  refine forall_mem_of_forall₂ (P := fun entry : Node × Node =>
    (role = .childNames → loose = true → childFields.any (Mapping.isKey · entry.1) = true →
      isBare entry.2 = true) ∧
    isSteady (Role.of role entry.1.keyName?) (!childFields.any (Mapping.isKey · entry.1))
      entry.2 = true) (heach.imp ?_)
  rintro before after ⟨⟨hsteady, hkeeps⟩, moved⟩
  refine ⟨fun isNames isLoose => ?_, ?_⟩
  · rw [hnotLoose isNames] at isLoose
    cases isLoose
  · cases moved with
    | stays _ _ => exact hsteady.2
    | moves key name found n child =>
        rcases hkeeps (by simp [found]) with isNode | leaf
        · rw [isNode] at hsteady
          show isSteady (Role.of role (some (slotName n))) _ _ = true
          rw [role_slotName hnotSettings n]
          exact isSteady_keepName (isSteady_congr (by decide) _ hsteady.2) name
        · exact isSteady_leaf (isLeaf_keepName leaf name)

end

/-- A node whose keys are spelled and stay so when its children move. The children of a mapping of
child names have moved, unless it is an item of a list. -/
def Ready (role : Role) (node : Node) : Prop :=
  role ≠ .settings ∧ Spelled role node ∧ ∃ loose, isSteady role loose node = true ∧
    (role = .childNames → loose = false → ∀ m, node = .mapping m →
      ∀ entry ∈ m, childFields.any (Mapping.isKey · entry.1) = false)

theorem role_of_ne_settings (hnotSettings : role ≠ .settings) (key : Option String) :
    Role.of role key ≠ .settings := by
  cases role with
  | settings => exact absurd rfl hnotSettings
  | childNames => simp [Role.of]
  | node =>
      simp only [Role.of]
      split <;> decide

theorem ready_settleUnder {m : Mapping} (hready : Ready role (.mapping m)) {entry : Node × Node}
    (hmember : entry ∈ m) :
    Ready (Role.of role entry.1.keyName?) (settleUnder childFields entry).2 := by
  obtain ⟨notSettings, spelled, loose, steady, unmoved⟩ := hready
  cases spelled with
  | leaf noMapping _ => exact absurd rfl (noMapping m)
  | mapping _ _ below =>
      have spelled := below entry hmember
      have hsteadyEntry := (isSteady_mapping.mp steady) entry hmember
      have hroleNot := role_of_ne_settings notSettings entry.1.keyName?
      rw [settleUnder]
      cases isField : childFields.any (Mapping.isKey · entry.1) with
      | false =>
          rw [if_neg Bool.false_ne_true]
          rw [isField] at hsteadyEntry
          exact ⟨hroleNot, spelled, true, hsteadyEntry.2, fun _ isLoose => by cases isLoose⟩
      | true =>
          rw [if_pos rfl]
          rw [isField] at hsteadyEntry
          obtain ⟨key, value⟩ := entry
          have hisChildren : role = .node → Role.of role key.keyName? = .childNames := by
            rintro rfl
            rcases isKey_childFields isField with rfl | rfl <;> rfl
          cases value with
          | mapping children =>
              have hkeeps : KeepsRole (Role.of role key.keyName?) children := by
                cases role with
                | settings => exact absurd rfl notSettings
                | node =>
                    rw [hisChildren rfl]
                    exact keepsRole_childNames children
                | childNames =>
                    cases loose with
                    | false =>
                        have hnoField := unmoved rfl rfl m rfl _ hmember
                        rw [isField] at hnoField
                        cases hnoField
                    | true => exact keepsRole_of_isBare (hsteadyEntry.1 rfl rfl rfl)
              refine ⟨hroleNot, spelled_disambiguate hroleNot hkeeps spelled, false,
                isSteady_disambiguate hroleNot hkeeps (fun _ => rfl) hsteadyEntry.2, ?_⟩
              rintro _ _ moved ⟨⟩ after inside
              have hfree := free_of_moved (disambiguate_moved children) after inside
              rw [List.any_eq_false]
              intro field isChildField
              rw [hfree field ?_]
              · exact Bool.false_ne_true
              · have hreserved : ∀ field ∈ childFields, field ∈ Field.reserved := by decide
                exact hreserved field isChildField
          | _ => exact ⟨hroleNot, spelled, false, hsteadyEntry.2, fun _ _ m eq => by cases eq⟩

theorem spelled_of_walk {ε : Type} {object moved : Node}
    (hwalking : object.walk (visit (ε := ε)) () = .ok moved) (hready : Ready role object) :
    Spelled role moved := by
  refine Node.walkWithin_induct visit_shallow
    (motive := fun _ _ node walked => ∀ role, Ready role node → Spelled role walked)
    ?_ ?_ ?_ object.height .root () object moved (Nat.le_refl _) hwalking role hready
  · intro place _ node _ _ role hready
    exact hready.2.1
  · intro place _ m visited own walked visiting alike children role hready
    have hentries : ∀ entry ∈ m.map (settleUnder childFields),
        Ready (Role.of role entry.1.keyName?) entry.2 := by
      intro after member
      obtain ⟨entry, inside, rfl⟩ := List.mem_map.mp member
      rw [settleUnder_fst]
      exact ready_settleUnder hready inside
    obtain ⟨_, spelled, _⟩ := hready
    cases spelled with
    | leaf noMapping _ => exact absurd rfl (noMapping m)
    | mapping distinct keys _ =>
        have heq := visit_eq_map (distinct.holdsOnce _) (distinct.holdsOnce _) visiting
        have same : visited.map Prod.fst = m.map Prod.fst := by
          rw [heq, List.map_map]
          exact List.map_congr_left fun entry _ => settleUnder_fst _ entry
        rw [← show visited = m.map (settleUnder childFields) from heq] at hentries
        refine .mapping_of_rel (distinct.of_keys_eq same) (fun ownKeys => ?_)
          (((List.forall₂_and_left _ _).mpr ⟨hentries, children⟩).imp ?_)
        · have honKeys : ∀ key ∈ m.map Prod.fst, normalizeKey key = key := by
            simpa using fun a b member => keys ownKeys (a, b) member
          intro entry member
          exact honKeys entry.1 (same ▸ List.mem_map_of_mem member)
        · rintro before after ⟨hready, same, child⟩
          exact ⟨same, child _ hready⟩
  · intro place _ items walked children role ⟨notSettings, spelled, loose, steady, _⟩
    cases spelled with
    | leaf _ noSequence => exact absurd rfl (noSequence items)
    | sequence below =>
        have heach : ∀ item ∈ items, Ready role item := fun item member =>
          ⟨notSettings, below item member, true, (isSteady_sequence.mp steady) item member,
            fun _ isLoose => by cases isLoose⟩
        refine .sequence (forall_mem_of_forall₂ (P := Spelled role)
          (((List.forall₂_and_left _ _).mpr ⟨heach, children⟩).imp ?_))
        rintro item after ⟨hready, index, child⟩
        exact child role hready

end ChildSlots

end DirectoryMetrics
