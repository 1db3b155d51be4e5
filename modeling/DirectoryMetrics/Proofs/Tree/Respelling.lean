import DirectoryMetrics.Proofs.Tree.KeptServer
import DirectoryMetrics.Proofs.Tree.KeyNames
import DirectoryMetrics.Proofs.Tree.Spelling

namespace DirectoryMetrics

namespace Mapping

/-- Entries of one key are merged: the key stays in the place of the first of them, with the value
of the last. -/
inductive Merges : List (Node × Node) → Mapping → Prop where
  | nil : Merges [] []
  | cons {key value : Node} {rest : List (Node × Node)} {merged : Mapping}
      (others : Merges (rest.filter fun entry => !(key == entry.1)) merged) :
      Merges ((key, value) :: rest)
        ((key, (rest.filter fun entry => key == entry.1).getLast?.elim value Prod.snd) :: merged)

theorem foldl_insert_cons (key value : Node) (m : Mapping) (entries : List (Node × Node)) :
    entries.foldl (fun (m : Mapping) entry => m.insert entry.1 entry.2) ((key, value) :: m) =
      (key, (entries.filter fun entry => key == entry.1).getLast?.elim value Prod.snd) ::
        (entries.filter fun entry => !(key == entry.1)).foldl
          (fun (m : Mapping) entry => m.insert entry.1 entry.2) m := by
  induction entries generalizing value m with
  | nil => rfl
  | cons entry rest ih =>
      rw [List.foldl_cons, Mapping.insert]
      cases same : key == entry.1 with
      | true =>
          simp only [List.filter_cons, same, if_true, Bool.not_true, Bool.false_eq_true, if_false]
          rw [ih, List.getLast?_cons]
          cases (rest.filter fun entry => key == entry.1).getLast? with
          | none => rfl
          | some last => rfl
      | false =>
          simp only [List.filter_cons, same, if_true, Bool.not_false, Bool.false_eq_true, if_false]
          exact ih value _

theorem ofEntries_merges (entries : List (Node × Node)) : Merges entries (ofEntries entries) := by
  induction length : entries.length using Nat.strongRecOn generalizing entries with
  | ind n shorter =>
      cases entries with
      | nil => exact .nil
      | cons entry rest =>
          have hmerged : ofEntries (entry :: rest) = _ := foldl_insert_cons entry.1 entry.2 [] rest
          have hfewer := Nat.lt_succ_of_le
            (List.length_filter_le (fun later => !(entry.1 == later.1)) rest)
          rw [List.length_cons] at length
          rw [hmerged]
          exact .cons (shorter _ (length ▸ hfewer) _ rfl)

variable {R : Node → Node → Node → Prop}

theorem insert_related (halike : ∀ key key' value value', (key == key') = true →
      R key' value value' → R key value value') {m m' : Mapping}
    (hrelated : List.Forall₂ (fun a b => a.1 = b.1 ∧ R a.1 a.2 b.2) m m') {key value value' : Node}
    (hnew : R key value value') :
    List.Forall₂ (fun a b => a.1 = b.1 ∧ R a.1 a.2 b.2) (m.insert key value)
      (m'.insert key value') := by
  induction hrelated with
  | nil => exact .cons ⟨rfl, hnew⟩ .nil
  | @cons a b rest rest' head tail ih =>
      obtain ⟨known, old⟩ := a
      obtain ⟨known', old'⟩ := b
      obtain ⟨rfl, values⟩ := head
      rw [Mapping.insert, Mapping.insert]
      split
      · rename_i same
        exact .cons ⟨rfl, halike _ _ _ _ same hnew⟩ tail
      · exact .cons ⟨rfl, values⟩ ih

theorem ofEntries_related (halike : ∀ key key' value value', (key == key') = true →
      R key' value value' → R key value value') {entries entries' : List (Node × Node)}
    (hrelated : List.Forall₂ (fun a b => a.1 = b.1 ∧ R a.1 a.2 b.2) entries entries') :
    List.Forall₂ (fun a b => a.1 = b.1 ∧ R a.1 a.2 b.2) (ofEntries entries)
      (ofEntries entries') := by
  have honto : ∀ m m' : Mapping, List.Forall₂ (fun a b => a.1 = b.1 ∧ R a.1 a.2 b.2) m m' →
      List.Forall₂ (fun a b => a.1 = b.1 ∧ R a.1 a.2 b.2)
        (entries.foldl (fun (m : Mapping) entry => m.insert entry.1 entry.2) m)
        (entries'.foldl (fun (m : Mapping) entry => m.insert entry.1 entry.2) m') := by
    induction hrelated with
    | nil => exact fun m m' before => before
    | @cons a b rest rest' head tail ih =>
        intro m m' before
        obtain ⟨key, value⟩ := a
        obtain ⟨key', value'⟩ := b
        obtain ⟨rfl, values⟩ := head
        exact ih _ _ (insert_related halike before values)
  exact honto [] [] .nil

end Mapping

namespace KeySpelling

/-- What the mappings under a key are: `object` opens an object tree, `object` and `metric` of a
node hold the names of children, and under each such name there is a node. -/
def Role.below (role : Role) (key : Node) : Role :=
  match role with
  | .settings => if Mapping.isKey Field.object key then .node else .settings
  | .node =>
      if Mapping.isKey Field.object key ∨ Mapping.isKey Field.metric key then .childNames else .node
  | .childNames => .node

theorem Role.of_keyName? (role : Role) (key : Node) :
    Role.of role key.keyName? = role.below key := by
  have named (field : String) (letter : field.toList.contains 'c' = true) :
      key.keyName? = some field ↔ Mapping.isKey field key = true := by
    rw [Mapping.isKey_iff]
    exact ⟨fun named => Node.text_of_keyName? named letter, fun same => same ▸ rfl⟩
  cases role with
  | settings => simp only [Role.of, below, named Field.object (by decide)]
  | node =>
      simp only [Role.of, below, named Field.object (by decide), named Field.metric (by decide)]
  | childNames => rfl

theorem Role.below_of_same {key key' : Node} (hsame : (key == key') = true) (role : Role) :
    role.below key = role.below key' := by
  simp only [below, Mapping.isKey_of_same hsame]

/-- A tree of a role before and after its keys are spelled. The names of children stay as they are
written. -/
inductive Respelled : Role → Node → Node → Prop where
  | leaf {role : Role} {node : Node} (noMapping : ∀ m, node ≠ .mapping m)
      (noSequence : ∀ items, node ≠ .sequence items) : Respelled role node node
  | sequence {role : Role} {items items' : List Node} (length : items.length = items'.length)
      (each : ∀ (i : Nat) item item', items[i]? = some item → items'[i]? = some item' →
        Respelled role item item') : Respelled role (.sequence items) (.sequence items')
  | childNames {m m' : Mapping} (keys : m.map Prod.fst = m'.map Prod.fst)
      (each : ∀ (i : Nat) entry entry', m[i]? = some entry → m'[i]? = some entry' →
        Respelled .node entry.2 entry'.2) : Respelled .childNames (.mapping m) (.mapping m')
  | structural {role : Role} {m merged m' : Mapping} (own : role ≠ .childNames)
      (merges : Mapping.Merges (m.map fun entry => (normalizeKey entry.1, entry.2)) merged)
      (keys : merged.map Prod.fst = m'.map Prod.fst)
      (each : ∀ (i : Nat) entry entry', merged[i]? = some entry → m'[i]? = some entry' →
        Respelled (role.below entry.1) entry.2 entry'.2) :
      Respelled role (.mapping m) (.mapping m')

/-- Trees of a role that differ only in how structural keys are spelled. -/
inductive SameSpelling : Role → Node → Node → Prop where
  | leaf {role : Role} {node : Node} (noMapping : ∀ m, node ≠ .mapping m)
      (noSequence : ∀ items, node ≠ .sequence items) : SameSpelling role node node
  | sequence {role : Role} {items items' : List Node} (length : items.length = items'.length)
      (each : ∀ (i : Nat) item item', items[i]? = some item → items'[i]? = some item' →
        SameSpelling role item item') : SameSpelling role (.sequence items) (.sequence items')
  | childNames {m m' : Mapping} (keys : m.map Prod.fst = m'.map Prod.fst)
      (each : ∀ (i : Nat) entry entry', m[i]? = some entry → m'[i]? = some entry' →
        SameSpelling .node entry.2 entry'.2) : SameSpelling .childNames (.mapping m) (.mapping m')
  | structural {role : Role} {m m' : Mapping} (own : role ≠ .childNames)
      (keys : m.map (fun entry => normalizeKey entry.1) = m'.map fun entry => normalizeKey entry.1)
      (each : ∀ (i : Nat) entry entry', m[i]? = some entry → m'[i]? = some entry' →
        SameSpelling (role.below (normalizeKey entry.1)) entry.2 entry'.2) :
      SameSpelling role (.mapping m) (.mapping m')

theorem respelled_of_normalize {ε : Type} {tree normalized : Node}
    (hnormalizing : normalize (ε := ε) tree = .ok normalized) :
    Respelled .settings tree normalized := by
  refine Node.walkWithin_induct visit_shallow
    (motive := fun place parent node walked => Respelled (Role.of parent place.key) node walked)
    ?_ ?_ ?_ tree.height .root .settings tree normalized (Nat.le_refl _) hnormalizing
  · intro place parent node noMapping noSequence
    exact .leaf noMapping noSequence
  · intro place parent m visited own walked visiting alike children
    simp only [Place.child_key, Role.of_keyName?] at children
    cases visiting
    split at children
    · rename_i isNames
      rw [isNames] at children ⊢
      obtain ⟨keys, each⟩ := forall₂_eq_and_iff.mp children
      exact .childNames keys each
    · rename_i ownKeys
      obtain ⟨keys, each⟩ := forall₂_eq_and_iff.mp children
      exact .structural ownKeys (Mapping.ofEntries_merges _) keys each
  · intro place parent items walked children
    obtain ⟨length, each⟩ := forall₂_iff_getElem?.mp children
    refine .sequence length fun i item after before walked => ?_
    obtain ⟨_, child⟩ := each i item after before walked
    exact child

variable (ε : Type)

def WalkAlike (role : Role) (node node' : Node) : Prop :=
  ∀ ⦃depth depth' : Nat⦄ ⦃place place' : Place⦄ ⦃parent : Role⦄ ⦃walked : Node⦄,
    role = Role.of parent place.key → place'.key = place.key →
      node.height ≤ depth → node'.height ≤ depth' →
        Node.walkWithin (visit (ε := ε)) depth place parent node = .ok walked →
          Node.walkWithin (visit (ε := ε)) depth' place' parent node' = .ok walked

variable {ε}

theorem walkAlike_sequence {role : Role} {items items' : List Node}
    (heach : List.Forall₂ (WalkAlike ε role) items items') :
    WalkAlike ε role (.sequence items) (.sequence items') := by
  intro depth depth' place place' parent walked isRole key bound bound' walking
  rw [Node.height] at bound bound'
  obtain ⟨depth, rfl⟩ := Nat.exists_eq_add_of_le' (Nat.le_trans (Nat.le_add_left 1 _) bound)
  obtain ⟨depth', rfl⟩ := Nat.exists_eq_add_of_le' (Nat.le_trans (Nat.le_add_left 1 _) bound')
  obtain ⟨after, children, rfl⟩ := Node.walkWithin_items walking
  have low := Node.itemsHeight_le_iff.mp (Nat.le_of_add_le_add_right bound)
  have low' := Node.itemsHeight_le_iff.mp (Nat.le_of_add_le_add_right bound')
  refine Node.walkWithin_of_items (forall₂_comp ?_
    ((List.forall₂_and_left _ _).mpr ⟨low', heach.flip⟩)
    ((List.forall₂_and_left _ _).mpr ⟨low, children⟩))
  rintro item' item after ⟨low', alike⟩ ⟨low, _, child⟩ index
  refine alike ?_ ?_ low low' child
  · exact isRole
  · exact key

theorem walkAlike_mapping {role : Role} {m m' : Mapping}
    (heach : List.Forall₂ (fun a b => a.1 = b.1 ∧ WalkAlike ε (role.below a.1) a.2 b.2)
      (if role = .childNames then m else normalizeEntries m)
      (if role = .childNames then m' else normalizeEntries m')) :
    WalkAlike ε role (.mapping m) (.mapping m') := by
  intro depth depth' place place' parent walked isRole key bound bound' walking
  rw [Node.height] at bound bound'
  obtain ⟨depth, rfl⟩ := Nat.exists_eq_add_of_le' (Nat.le_trans (Nat.le_add_left 1 _) bound)
  obtain ⟨depth', rfl⟩ := Nat.exists_eq_add_of_le' (Nat.le_trans (Nat.le_add_left 1 _) bound')
  have hvisiting (m : Mapping) : visit (ε := ε) place parent m =
      .ok (if role = .childNames then m else normalizeEntries m, role) := by
    rw [isRole]
    rfl
  have low (m : Mapping) {depth : Nat} (bound : Node.entriesHeight m + 1 ≤ depth + 1) :=
    Node.entriesHeight_le_iff.mp (Nat.le_trans (visit_shallow place parent m _ _ (hvisiting m))
      (Nat.le_of_add_le_add_right bound))
  rw [Node.walkWithin_mapping] at walking
  obtain ⟨visited, own, after, visited_eq, children, rfl⟩ := walking
  rw [hvisiting] at visited_eq
  cases visited_eq
  refine Node.walkWithin_mapping.mpr ⟨_, _, after, visit_place key (hvisiting m'), ?_, rfl⟩
  refine forall₂_comp ?_ ((List.forall₂_and_left _ _).mpr ⟨low m' bound', heach.flip⟩)
    ((List.forall₂_and_left _ _).mpr ⟨low m bound, children⟩)
  rintro entry' entry after ⟨low', same, alike⟩ ⟨low, kept, child⟩
  rw [← same]
  refine ⟨kept, alike ?_ ?_ low low' child⟩
  · rw [Place.child_key, Role.of_keyName?]
  · rw [Place.child_key, Place.child_key]

theorem SameSpelling.walkAlike {role : Role} {node node' : Node}
    (hsame : SameSpelling role node node') : WalkAlike ε role node node' := by
  induction hsame with
  | leaf _ _ =>
      intro depth depth' place place' parent walked isRole key bound bound' walking
      exact walkWithin_elsewhere bound walking bound' key
  | sequence length _ ih => exact walkAlike_sequence (forall₂_iff_getElem?.mpr ⟨length, ih⟩)
  | childNames keys _ ih =>
      apply walkAlike_mapping
      rw [if_pos rfl, if_pos rfl]
      exact forall₂_eq_and_iff.mpr ⟨keys, ih⟩
  | structural own keys _ ih =>
      rename_i role m m' _
      apply walkAlike_mapping
      rw [if_neg own, if_neg own]
      apply Mapping.ofEntries_related (R := fun key => WalkAlike ε (role.below key))
      · intro key key' value value' hsame held
        rwa [Role.below_of_same hsame]
      · rw [List.forall₂_map_left_iff, List.forall₂_map_right_iff]
        exact forall₂_eq_and_iff.mpr ⟨keys, ih⟩

/-- Structural keys are spelled anew, all else is kept, and how they were spelled makes no
difference. -/
theorem normalize_respells (tree : Node) :
    ∃ normalized, normalize (ε := ε) tree = .ok normalized ∧ Respelled .settings tree normalized ∧
      ∀ other, SameSpelling .settings tree other → normalize (ε := ε) other = .ok normalized := by
  have hvisits (place : Place) (parent : Role) (m : Mapping) :
      ∃ result, visit (ε := ε) place parent m = .ok result := ⟨_, rfl⟩
  obtain ⟨normalized, normalizing⟩ := Node.walk_isOk hvisits .settings tree
  exact ⟨normalized, normalizing, respelled_of_normalize normalizing, fun other same =>
    same.walkAlike rfl rfl (Nat.le_refl _) (Nat.le_refl _) normalizing⟩

def written : Node := .mapping
  [(.text "Object", .mapping [(.text "Metric", .sequence [.mapping
    [(.text "metricName", .mapping [(.text "userDn", .int 1), (.text "user_dn", .int 2)])]])])]

def rewritten : Node := .mapping
  [(.text "object", .mapping [(.text "metric", .sequence [.mapping
    [(.text "metricName", .mapping [(.text "user_dn", .int 1), (.text "userDn", .int 2)])]])])]

theorem written_alike : ∃ normalized,
    normalize (ε := ConfigError) written = .ok normalized ∧
      normalize (ε := ConfigError) rewritten = .ok normalized ∧
      normalized.mappings.map (·.filterMap (·.1.keyName?)) =
        [["object"], ["metric"], ["metricName"], ["user_dn"]] := by
  obtain ⟨normalized, normalizing, _, same⟩ := normalize_respells (ε := ConfigError) written
  have hnames : (normalize (ε := ConfigError) written).toOption.map
      (fun tree => tree.mappings.map (·.filterMap (·.1.keyName?))) =
        some [["object"], ["metric"], ["metricName"], ["user_dn"]] := by decide +kernel
  rw [normalizing] at hnames
  refine ⟨normalized, normalizing, same rewritten ?_, Option.some.inj hnames⟩
  have hobject : Role.below .settings (normalizeKey (.text "Object")) = .node := by decide +kernel
  have hmetric : Role.below .node (normalizeKey (.text "Metric")) = .childNames := by decide +kernel
  have hleaf (role : Role) (value : Int) : SameSpelling role (.int value) (.int value) :=
    .leaf (by simp) (by simp)
  refine .structural (by decide) (congrArg (fun key => [Node.text key]) (by decide +kernel))
    (forall₂_iff_getElem?.mp (.cons ?_ .nil)).2
  rw [hobject]
  refine .structural (by decide) (congrArg (fun key => [Node.text key]) (by decide +kernel))
    (forall₂_iff_getElem?.mp (.cons ?_ .nil)).2
  rw [hmetric]
  refine .sequence rfl (forall₂_iff_getElem?.mp (.cons ?_ .nil)).2
  refine .childNames rfl (forall₂_iff_getElem?.mp (.cons ?_ .nil)).2
  refine .structural (by decide)
    (congrArg₂ (fun key key' => [Node.text key, .text key']) (by decide +kernel)
      (by decide +kernel))
    (forall₂_iff_getElem?.mp (.cons ?_ (.cons ?_ .nil))).2
  · exact hleaf _ 1
  · exact hleaf _ 2

end KeySpelling

end DirectoryMetrics
