import DirectoryMetrics.Proofs.Tree.FreeSlots

namespace DirectoryMetrics

theorem Mapping.insert_of_new {key value : Node} {m : Mapping}
    (hnew : ∀ entry ∈ m, (entry.1 == key) = false) : m.insert key value = m ++ [(key, value)] := by
  induction m with
  | nil => rfl
  | cons entry rest ih =>
      rw [List.forall_mem_cons] at hnew
      rw [insert, if_neg (by simp [hnew.1]), ih hnew.2]
      rfl

theorem Mapping.ofEntries_of_distinctKeys {m : Mapping} (hdistinct : m.DistinctKeys) :
    ofEntries m = m := by
  have honto : ∀ before : Mapping, DistinctKeys (before ++ m) →
      m.foldl (fun m entry => m.insert entry.1 entry.2) before = before ++ m := by
    clear hdistinct
    induction m with
    | nil => simp
    | cons entry rest ih =>
        intro before hdistinct
        have hnew : ∀ earlier ∈ before, (earlier.1 == entry.1) = false := fun earlier member =>
          (List.pairwise_append.mp hdistinct).2.2 earlier member entry List.mem_cons_self
        rw [List.foldl_cons, insert_of_new hnew, ih]
        · simp
        · simpa using hdistinct
  exact honto [] hdistinct

theorem Mapping.set_eq_insert (name : String) (value : Node) (m : Mapping) :
    m.set name value = m.insert (.text name) value := by
  induction m with
  | nil => rfl
  | cons entry rest ih =>
      obtain ⟨key, held⟩ := entry
      rw [set_cons, insert, ih]
      cases key <;> rfl

theorem Mapping.DistinctKeys.set {m : Mapping} (hdistinct : m.DistinctKeys) (name : String)
    (value : Node) : (m.set name value).DistinctKeys := by
  rw [set_eq_insert]
  exact hdistinct.insert _ value

namespace KeySpelling

def isSmall (c : Char) : Bool := !Text.isUpper c && Text.lower c == [c]

def isAscii (key : String) : Bool := key.toList.all fun c => decide (c.toNat < 0x80)

theorem snakeCaseFrom_of_small {text : List Char} (hsmall : ∀ c ∈ text, isSmall c = true)
    (afterSmall : Bool) : snakeCaseFrom afterSmall text = text := by
  induction text generalizing afterSmall with
  | nil => rfl
  | cons c rest ih =>
      rw [List.forall_mem_cons, isSmall, Bool.and_eq_true, Bool.not_eq_true', beq_iff_eq] at hsmall
      rw [snakeCaseFrom, hsmall.1.1, hsmall.1.2, ih hsmall.2]
      rfl

theorem ascii_of_all {p : Char → Bool}
    (hall : ((List.range 0x80).all fun n => p (Char.ofNat n)) = true) {c : Char}
    (hascii : c.toNat < 0x80) : p c = true := by
  have hwritten := List.all_eq_true.mp hall c.toNat (List.mem_range.mpr hascii)
  rwa [Char.ofNat_toNat] at hwritten

theorem small_lower {c : Char} (hascii : c.toNat < 0x80) : ∀ d ∈ Text.lower c, isSmall d = true :=
  List.all_eq_true.mp
    (ascii_of_all (p := fun c => (Text.lower c).all isSmall) (by decide +kernel) hascii)

theorem small_snakeCaseFrom {text : List Char} (hascii : ∀ c ∈ text, c.toNat < 0x80)
    (afterSmall : Bool) : ∀ c ∈ snakeCaseFrom afterSmall text, isSmall c = true := by
  induction text generalizing afterSmall with
  | nil => simp [snakeCaseFrom]
  | cons c rest ih =>
      rw [List.forall_mem_cons] at hascii
      rw [snakeCaseFrom, List.forall_mem_append, List.forall_mem_append]
      refine ⟨⟨?_, small_lower hascii.1⟩, ih hascii.2 _⟩
      split
      · simp only [List.mem_singleton, forall_eq]
        decide
      · simp

theorem snakeCase_idem {key : String} (hascii : isAscii key = true) :
    snakeCase (snakeCase key) = snakeCase key := by
  have hplain : ∀ c ∈ key.toList, c.toNat < 0x80 := by simpa [isAscii] using hascii
  rw [snakeCase, snakeCase, String.toList_ofList,
    snakeCaseFrom_of_small (small_snakeCaseFrom hplain false)]

def isAsciiKey : Node → Bool
  | .text key => isAscii key
  | _ => true

theorem normalizeKey_idem {key : Node} (hascii : isAsciiKey key = true) :
    normalizeKey (normalizeKey key) = normalizeKey key := by
  cases key with
  | text key => exact congrArg Node.text (snakeCase_idem hascii)
  | _ => rfl

/-- A tree whose mapping, or the items in whose place of it, has a role: its keys are spelled, and
none of them is there twice. -/
inductive Spelled : Role → Node → Prop where
  | leaf {role : Role} {node : Node} (noMapping : ∀ m, node ≠ .mapping m)
      (noSequence : ∀ items, node ≠ .sequence items) : Spelled role node
  | mapping {role : Role} {m : Mapping} (distinct : m.DistinctKeys)
      (keys : role ≠ .childNames → ∀ entry ∈ m, normalizeKey entry.1 = entry.1)
      (below : ∀ entry ∈ m, Spelled (Role.of role entry.1.keyName?) entry.2) :
      Spelled role (.mapping m)
  | sequence {role : Role} {items : List Node} (below : ∀ item ∈ items, Spelled role item) :
      Spelled role (.sequence items)

theorem normalizeEntries_of_spelled {m : Mapping} (hdistinct : m.DistinctKeys)
    (hkeys : ∀ entry ∈ m, normalizeKey entry.1 = entry.1) : normalizeEntries m = m := by
  have hsame : (m.map fun (entry : Node × Node) => (normalizeKey entry.1, entry.2)) = m := by
    conv_rhs => rw [← List.map_id m]
    exact List.map_congr_left fun entry member => by rw [hkeys entry member]; rfl
  rw [normalizeEntries, hsame, Mapping.ofEntries_of_distinctKeys hdistinct]

theorem Spelled.rests {ε : Type} {role parent : Role} {key : Option String} {node : Node}
    (hspelled : Spelled role node) (hrole : role = Role.of parent key) :
    (visit (ε := ε)).Rests key parent node := by
  induction hspelled generalizing parent key with
  | leaf noMapping noSequence => exact .leaf noMapping noSequence
  | mapping distinct keys _ ih =>
      rename_i role m _
      refine .mapping role (fun place under => ?_) fun entry member => ih entry member rfl
      rw [visit, under, ← hrole]
      split
      · rfl
      · rename_i ownKeys
        rw [normalizeEntries_of_spelled distinct (keys ownKeys)]
  | sequence _ ih => exact .sequence fun item member => ih item member hrole

theorem Spelled.normalize {ε : Type} {tree : Node} (hspelled : Spelled .settings tree) :
    normalize (ε := ε) tree = .ok tree :=
  (hspelled.rests (by decide)).walk

theorem Spelled.mapping_of_rel {role : Role} {before after : Mapping}
    (hdistinct : before.DistinctKeys)
    (hkeys : role ≠ .childNames → ∀ entry ∈ before, normalizeKey entry.1 = entry.1)
    (hbelow : List.Forall₂ (fun b a : Node × Node => b.1 = a.1 ∧
      Spelled (Role.of role b.1.keyName?) a.2) before after) : Spelled role (.mapping after) := by
  have same : after.map Prod.fst = before.map Prod.fst := by
    clear hdistinct hkeys
    induction hbelow with
    | nil => rfl
    | cons head _ ih => rw [List.map_cons, List.map_cons, head.1, ih]
  refine .mapping (hdistinct.of_keys_eq same) (fun ownKeys => ?_) ?_
  · have honKeys : ∀ key ∈ before.map Prod.fst, normalizeKey key = key := by
      simpa using fun a b member => hkeys ownKeys (a, b) member
    intro entry member
    exact honKeys entry.1 (same ▸ List.mem_map_of_mem member)
  · refine forall_mem_of_forall₂ (P := fun entry => Spelled (Role.of role entry.1.keyName?) entry.2)
      (hbelow.imp ?_)
    rintro b a ⟨same, spelled⟩
    rwa [← same]

theorem spelled_of_normalize {ε : Type} {tree normalized : Node}
    (hdistinct : ∀ m ∈ tree.mappings, m.DistinctKeys)
    (hascii : ∀ m ∈ tree.mappings, ∀ entry ∈ m, isAsciiKey entry.1 = true)
    (hnormalizing : KeySpelling.normalize (ε := ε) tree = .ok normalized) :
    Spelled .settings normalized := by
  refine Node.walkWithin_induct visit_shallow
    (motive := fun place parent node walked => (∀ m ∈ node.mappings, m.DistinctKeys) →
      (∀ m ∈ node.mappings, ∀ entry ∈ m, isAsciiKey entry.1 = true) →
      Spelled (Role.of parent place.key) walked)
    ?_ ?_ ?_ tree.height .root .settings tree normalized
      (Nat.le_refl _) hnormalizing hdistinct hascii
  · intro place parent node noMapping noSequence _ _
    exact .leaf noMapping noSequence
  · intro place parent m visited own walked visiting alike children hdistinct hascii
    rw [Node.forall_mem_mappings] at hdistinct hascii
    cases visiting
    have hbelow : ∀ entry ∈ m, (∀ m' ∈ entry.2.mappings, Mapping.DistinctKeys m') ∧
        ∀ m' ∈ entry.2.mappings, ∀ entry ∈ m', isAsciiKey entry.1 = true :=
      fun entry member => ⟨hdistinct.2 entry member, hascii.2 entry member⟩
    split at children
    · rename_i isNames
      refine .mapping_of_rel hdistinct.1 (fun notNames => absurd isNames notNames) ?_
      refine ((List.forall₂_and_left _ _).mpr ⟨hbelow, children⟩).imp ?_
      rintro before after ⟨⟨hdistinct, hascii⟩, same, child⟩
      rw [← Place.child_key place]
      exact ⟨same, child hdistinct hascii⟩
    · have hentries := mem_normalizeEntries (P := fun key => normalizeKey key = key)
        (Q := fun value => (∀ m' ∈ value.mappings, Mapping.DistinctKeys m') ∧
          ∀ m' ∈ value.mappings, ∀ entry ∈ m', isAsciiKey entry.1 = true)
        fun entry member => ⟨normalizeKey_idem (hascii.1 entry member), hbelow entry member⟩
      refine .mapping_of_rel (Mapping.ofEntries_distinctKeys _)
        (fun _ entry member => (hentries entry member).1) ?_
      refine ((List.forall₂_and_left _ _).mpr ⟨hentries, children⟩).imp ?_
      rintro before after ⟨⟨_, hdistinct, hascii⟩, same, child⟩
      rw [← Place.child_key place]
      exact ⟨same, child hdistinct hascii⟩
  · intro place parent items walked children hdistinct hascii
    have hinItems : ∀ item ∈ items, (∀ m ∈ item.mappings, Mapping.DistinctKeys m) ∧
        ∀ m ∈ item.mappings, ∀ entry ∈ m, isAsciiKey entry.1 = true := fun item member =>
      ⟨fun m inside => hdistinct m (Node.mem_itemsMappings.mpr ⟨item, member, inside⟩),
        fun m inside => hascii m (Node.mem_itemsMappings.mpr ⟨item, member, inside⟩)⟩
    refine .sequence (forall_mem_of_forall₂ (P := Spelled (Role.of parent place.key))
      (((List.forall₂_and_left _ _).mpr ⟨hinItems, children⟩).imp ?_))
    rintro item after ⟨⟨hdistinct, hascii⟩, index, child⟩
    exact child hdistinct hascii

theorem Spelled.set {role : Role} {m : Mapping} (hspelled : Spelled role (.mapping m))
    {field : String} (hfixed : normalizeKey (.text field) = .text field) {value : Node}
    (hbelow : Spelled (Role.of role (some field)) value) :
    Spelled role (.mapping (m.set field value)) := by
  cases hspelled with
  | leaf noMapping _ => exact absurd rfl (noMapping m)
  | mapping distinct keys inside =>
      exact .mapping (distinct.set field value)
        (fun ownKeys => Mapping.forall_mem_set (keys ownKeys) hfixed)
        (Mapping.forall_mem_set inside hbelow)

theorem spelled_of_annotates {ε κ : Type} {visit : Visitor ε κ} {field : String} {text : κ → String}
    (hannotates : visit.Annotates field text) (hfixed : normalizeKey (.text field) = .text field)
    {inherited : κ} {node walked : Node} (hwalking : node.walk visit inherited = .ok walked)
    {role : Role} (hspelled : Spelled role node) : Spelled role walked := by
  refine Node.walkWithin_induct hannotates.shallow
    (motive := fun _ _ node walked => ∀ role, Spelled role node → Spelled role walked)
    ?_ ?_ ?_ node.height .root inherited node walked (Nat.le_refl _) hwalking role hspelled
  · intro place inherited node _ _ role hspelled
    exact hspelled
  · intro place inherited m visited own walked visiting alike children role hspelled
    have hspelledVisited : Spelled role (.mapping visited) := by
      rw [hannotates place inherited m visited own visiting]
      split
      · exact hspelled.set hfixed (.leaf (by simp) (by simp))
      · exact hspelled
    cases hspelledVisited with
    | leaf noMapping _ => exact absurd rfl (noMapping visited)
    | mapping distinct keys below =>
        refine .mapping_of_rel distinct keys
          (((List.forall₂_and_left _ _).mpr ⟨below, children⟩).imp ?_)
        rintro before after ⟨hspelled, same, child⟩
        exact ⟨same, child _ hspelled⟩
  · intro place inherited items walked children role hspelled
    cases hspelled with
    | leaf _ noSequence => exact absurd rfl (noSequence items)
    | sequence below =>
        refine .sequence (forall_mem_of_forall₂ (P := Spelled role)
          (((List.forall₂_and_left _ _).mpr ⟨below, children⟩).imp ?_))
        rintro item after ⟨hspelled, index, child⟩
        exact child role hspelled

end KeySpelling

end DirectoryMetrics
