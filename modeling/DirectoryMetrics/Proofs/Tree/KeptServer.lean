import DirectoryMetrics.Proofs.Tree.ListedServers
import DirectoryMetrics.Proofs.Tree.Rest
import DirectoryMetrics.Proofs.Tree.Spelling

namespace DirectoryMetrics

/-! One server of many. A configuration with one of its servers and nothing else changed is prepared
as the whole of it is: each pass makes of that server what it makes of it among the others. -/

namespace Mapping

def mapUnder (isField : Node → Bool) (g : Node → Node) (m : Mapping) : Mapping :=
  m.map fun entry => (entry.1, if isField entry.1 then g entry.2 else entry.2)

variable {isField : Node → Bool} {g : Node → Node} {name other : String}

theorem mapUnder_cons (key value : Node) (rest : Mapping) :
    mapUnder isField g ((key, value) :: rest) =
      (key, if isField key then g value else value) :: mapUnder isField g rest := rfl

theorem forall₂_mapUnder {R : Node × Node → Node × Node → Prop} {before after : Mapping} :
    List.Forall₂ R (before.mapUnder isField g) (after.mapUnder isField g) ↔
      List.Forall₂ (fun b a => R (b.1, if isField b.1 then g b.2 else b.2)
        (a.1, if isField a.1 then g a.2 else a.2)) before after := by
  rw [mapUnder, mapUnder, List.forall₂_map_left_iff, List.forall₂_map_right_iff]

theorem get?_mapUnder (m : Mapping) :
    (m.mapUnder (isKey name) g).get? name = (m.get? name).map g := by
  induction m with
  | nil => rfl
  | cons entry rest ih =>
      obtain ⟨key, value⟩ := entry
      rw [mapUnder_cons, get?_cons, get?_cons, ih]
      split <;> rfl

theorem get?_mapUnder_of_ne (hdifferent : other ≠ name) (m : Mapping) :
    (m.mapUnder (isKey name) g).get? other = m.get? other := by
  induction m with
  | nil => rfl
  | cons entry rest ih =>
      obtain ⟨key, value⟩ := entry
      rw [mapUnder_cons, get?_cons, get?_cons, ih]
      split
      · rename_i isOther
        rw [isKey_iff] at isOther
        subst isOther
        simp [hdifferent]
      · rfl

theorem mapUnder_set (m : Mapping) (value : Node) :
    (m.set name value).mapUnder (isKey name) g =
      (m.mapUnder (isKey name) g).set name (g value) := by
  induction m with
  | nil => simp [set, mapUnder]
  | cons entry rest ih =>
      obtain ⟨key, held⟩ := entry
      rw [set_cons, mapUnder_cons, set_cons]
      split
      · rename_i isName
        rw [mapUnder_cons, if_pos isName]
      · rename_i notName
        rw [mapUnder_cons, if_neg notName, ih]

theorem mapUnder_set_of_ne (hdifferent : other ≠ name) (m : Mapping) (value : Node) :
    (m.set other value).mapUnder (isKey name) g = (m.mapUnder (isKey name) g).set other value := by
  induction m with
  | nil => simp [set, mapUnder, hdifferent]
  | cons entry rest ih =>
      obtain ⟨key, held⟩ := entry
      rw [set_cons, mapUnder_cons, set_cons]
      split
      · rename_i isOther
        rw [isKey_iff] at isOther
        subst isOther
        simp [mapUnder_cons, hdifferent]
      · rw [mapUnder_cons, ih]

theorem isKey_of_same {key key' : Node} (hsame : (key == key') = true) :
    isKey name key = isKey name key' := by
  cases key with
  | text text =>
      cases key' with
      | text text' =>
          have heq : text = text' := by simpa [BEq.beq, Node.same] using hsame
          rw [heq]
      | _ => cases hsame
  | _ =>
      cases key' with
      | text text' => cases hsame
      | _ => rfl

theorem mapUnder_insert (m : Mapping) (key value : Node) :
    (m.insert key value).mapUnder (isKey name) g =
      (m.mapUnder (isKey name) g).insert key (if isKey name key then g value else value) := by
  induction m with
  | nil => rfl
  | cons entry rest ih =>
      obtain ⟨known, held⟩ := entry
      rw [insert, mapUnder_cons, insert]
      split
      · rename_i same
        rw [mapUnder_cons, isKey_of_same same]
      · rw [mapUnder_cons, ih]

theorem mapUnder_ofEntries (spell : Node → Node) (m : Mapping) :
    ofEntries ((m.mapUnder (fun key => isKey name (spell key)) g).map
        fun entry => (spell entry.1, entry.2)) =
      (ofEntries (m.map fun entry => (spell entry.1, entry.2))).mapUnder (isKey name) g := by
  rw [ofEntries, ofEntries]
  have honto : ∀ before : Mapping,
      ((m.mapUnder (fun key => isKey name (spell key)) g).map
          fun entry => (spell entry.1, entry.2)).foldl
        (fun m entry => m.insert entry.1 entry.2) (before.mapUnder (isKey name) g) =
      ((m.map fun entry => (spell entry.1, entry.2)).foldl
        (fun m entry => m.insert entry.1 entry.2) before).mapUnder (isKey name) g := by
    induction m with
    | nil => exact fun before => rfl
    | cons entry rest ih =>
        intro before
        obtain ⟨key, value⟩ := entry
        rw [mapUnder_cons, List.map_cons, List.map_cons, List.foldl_cons, List.foldl_cons,
          ← ih, mapUnder_insert]
  exact honto []

theorem mapUnder_normalizeEntries (m : Mapping) :
    KeySpelling.normalizeEntries
        (m.mapUnder (fun key => isKey name (KeySpelling.normalizeKey key)) g) =
      (KeySpelling.normalizeEntries m).mapUnder (isKey name) g :=
  mapUnder_ofEntries KeySpelling.normalizeKey m

end Mapping

def Node.keepItem (i : Nat) : Node → Node
  | .sequence items => .sequence items[i]?.toList
  | .tagged tag content => .tagged tag (content.keepItem i)
  | node => node

theorem Node.untag_keepItem (i : Nat) :
    ∀ node : Node, (node.keepItem i).untag = node.untag.keepItem i
  | .tagged _ content => untag_keepItem i content
  | .null | .bool _ | .int _ | .float _ | .text _ | .sequence _ | .mapping _ => rfl

/-- A configuration with one of its servers, under whatever spelling they are. -/
def Node.keepServer (i : Nat) : Node → Node
  | .mapping root =>
      .mapping (Mapping.mapUnder
        (fun key => Mapping.isKey Field.ldapServers (KeySpelling.normalizeKey key))
        (keepItem i) root)
  | node => node

def Mapping.keepServer (i : Nat) (root : Mapping) : Mapping :=
  root.mapUnder (isKey Field.ldapServers) (Node.keepItem i)

namespace KeySpelling

variable {ε : Type} {i : Nat}

theorem visit_place {place place' : Place} {parent : Role} {m : Mapping}
    {result : Mapping × Role} (hunder : place'.key = place.key)
    (hvisiting : visit (ε := ε) place parent m = .ok result) :
    visit (ε := ε) place' parent m = .ok result := by
  rw [visit, hunder]
  exact hvisiting

theorem walkWithin_elsewhere {depth depth' : Nat} {place place' : Place} {parent : Role}
    {node walked : Node} (hbound : node.height ≤ depth)
    (hwalking : Node.walkWithin (visit (ε := ε)) depth place parent node = .ok walked)
    (hbound' : node.height ≤ depth') (hunder : place'.key = place.key) :
    Node.walkWithin (visit (ε := ε)) depth' place' parent node = .ok walked :=
  Node.walkWithin_elsewhere visit_shallow
    (fun _ _ _ _ _ hunder => visit_place hunder) hbound hwalking
    hbound' hunder

theorem walkWithin_keepItem {depth depth' : Nat} {place place' : Place} {parent : Role}
    {node walked : Node} (hbound : node.height ≤ depth)
    (hwalking : Node.walkWithin (visit (ε := ε)) depth place parent node = .ok walked)
    (hbound' : (node.keepItem i).height ≤ depth') (hunder : place'.key = place.key) :
    Node.walkWithin (visit (ε := ε)) depth' place' parent (node.keepItem i) =
      .ok (walked.keepItem i) := by
  have halike := Node.walkWithin_alike hwalking
  cases node with
  | sequence items =>
      rw [Node.keepItem, Node.height] at hbound'
      rw [Node.height] at hbound
      obtain ⟨depth, rfl⟩ := Nat.exists_eq_add_of_le' (Nat.le_trans (Nat.le_add_left 1 _) hbound)
      obtain ⟨depth', rfl⟩ := Nat.exists_eq_add_of_le' (Nat.le_trans (Nat.le_add_left 1 _) hbound')
      obtain ⟨after, children, rfl⟩ := Node.walkWithin_items hwalking
      have low := Node.itemsHeight_le_iff.mp (Nat.le_of_add_le_add_right hbound)
      have low' := Node.itemsHeight_le_iff.mp (Nat.le_of_add_le_add_right hbound')
      have hkept := forall₂_toList_getElem? ((List.forall₂_and_left _ _).mpr ⟨low, children⟩) i
      refine Node.walkWithin_of_items (((List.forall₂_and_left _ _).mpr ⟨low', hkept⟩).imp ?_)
      rintro item after ⟨low', low, _, child⟩ index
      exact walkWithin_elsewhere low child low' hunder
  | mapping m =>
      have hwhole := walkWithin_elsewhere hbound hwalking hbound' hunder
      cases halike <;> exact hwhole
  | tagged tag content =>
      cases halike
      cases depth' <;> rfl
  | _ =>
      have hwhole := walkWithin_elsewhere hbound hwalking hbound' hunder
      cases halike
      exact hwhole

theorem normalize_keepServer {tree : Node} {root : Mapping}
    (hnormalizing : normalize (ε := ε) tree = .ok (.mapping root)) :
    normalize (ε := ε) (tree.keepServer i) = .ok (.mapping (root.keepServer i)) := by
  have halike := Node.walkWithin_alike hnormalizing
  cases tree with
  | mapping m =>
      rw [normalize, Node.walk, Node.height, Node.walkWithin_mapping] at hnormalizing
      obtain ⟨visited, own, walked, visiting, children, same⟩ := hnormalizing
      cases same
      rw [Node.keepServer, normalize, Node.walk, Node.height, Node.walkWithin_mapping]
      have hvisitingKept : visit (ε := ε) .root .settings
          (Mapping.mapUnder (fun key => Mapping.isKey Field.ldapServers (normalizeKey key))
            (Node.keepItem i) m) = .ok (visited.keepServer i, own) := by
        rw [visit] at visiting ⊢
        cases visiting
        exact congrArg (fun entries => Except.ok (entries, Role.settings))
          (Mapping.mapUnder_normalizeEntries m)
      have low := Node.entriesHeight_le_iff.mp (visit_shallow _ _ _ _ _ visiting)
      have lowKept := Node.entriesHeight_le_iff.mp (visit_shallow _ _ _ _ _ hvisitingKept)
      rw [Mapping.keepServer, Mapping.mapUnder, List.forall_mem_map] at lowKept
      refine ⟨visited.keepServer i, own, _, hvisitingKept, Mapping.forall₂_mapUnder.mpr ?_, rfl⟩
      refine ((List.forall₂_and_left _ _).mpr ⟨low, (List.forall₂_and_left _ _).mpr
        ⟨lowKept, children⟩⟩).imp ?_
      rintro ⟨key, value⟩ ⟨key', value'⟩ ⟨low, lowKept, sameKey, child⟩
      cases sameKey
      refine ⟨rfl, ?_⟩
      cases isServers : Mapping.isKey Field.ldapServers key with
      | true =>
          rw [isServers, if_pos rfl] at lowKept
          exact walkWithin_keepItem low child lowKept rfl
      | false =>
          rw [isServers, if_neg Bool.false_ne_true] at lowKept
          exact walkWithin_elsewhere low child lowKept rfl
  | _ => cases halike

end KeySpelling

namespace Mapping

variable {i : Nat} {root : Mapping} {name : String}

theorem get?_keepServer :
    (root.keepServer i).get? Field.ldapServers =
      (root.get? Field.ldapServers).map (Node.keepItem i) :=
  get?_mapUnder root

theorem get?_keepServer_of_ne (hdifferent : name ≠ Field.ldapServers) :
    (root.keepServer i).get? name = root.get? name :=
  get?_mapUnder_of_ne hdifferent root

theorem keepServer_set (value : Node) :
    (root.set Field.ldapServers value).keepServer i =
      (root.keepServer i).set Field.ldapServers (value.keepItem i) :=
  mapUnder_set root value

theorem keepServer_set_of_ne (hdifferent : name ≠ Field.ldapServers) (value : Node) :
    (root.set name value).keepServer i = (root.keepServer i).set name value :=
  mapUnder_set_of_ne hdifferent root value

end Mapping

section

variable {i : Nat} {root new : Mapping}

theorem mapServers_keepServer {f : Mapping → Except ConfigError Mapping}
    (hchanging : Node.mapServers f root = .ok new) :
    Node.mapServers f (root.keepServer i) = .ok (new.keepServer i) := by
  rw [Node.mapServers, Mapping.modify_eq, Mapping.get?_keepServer]
  rcases Mapping.modify_eq_ok hchanging with ⟨absent, rfl⟩ | ⟨servers, after, found, eq, rfl⟩
  · rw [absent]
    rfl
  · rw [found, Mapping.keepServer_set]
    refine Except.map_eq_ok.mpr ⟨after.keepItem i, ?_, rfl⟩
    cases servers with
    | sequence servers =>
        obtain ⟨changed, each, rfl⟩ := Except.map_eq_ok.mp eq
        exact Except.map_eq_ok.mpr ⟨changed[i]?.toList,
          Except.mapM_eq_ok.mpr (forall₂_toList_getElem? (Except.mapM_eq_ok.mp each) i), rfl⟩
    | _ =>
        cases eq
        rfl

theorem mapObjectTrees_keepServer {f : Owner → Node → Except ConfigError Node} {changed : Node}
    (hchanging : (Node.mapping root).mapObjectTrees f = .ok changed) :
    ∃ new, changed = .mapping new ∧
      (Node.mapping (root.keepServer i)).mapObjectTrees f =
        .ok (.mapping (Mapping.keepServer i new)) := by
  obtain ⟨_, new, isRoot, making, rfl⟩ := Node.mapRoot_eq_ok.mp hchanging
  cases isRoot
  obtain ⟨between, sharing, serving⟩ := Except.bind_eq_ok.mp making
  refine ⟨new, rfl, Node.mapRoot_eq_ok.mpr ⟨_, _, rfl, Except.bind_eq_ok.mpr
    ⟨between.keepServer i, ?_, mapServers_keepServer serving⟩, rfl⟩⟩
  rw [Mapping.modify_eq, Mapping.get?_keepServer_of_ne (by decide)]
  rcases Mapping.modify_eq_ok sharing with ⟨absent, rfl⟩ | ⟨object, after, found, eq, rfl⟩
  · rw [absent]
  · rw [found, Mapping.keepServer_set_of_ne (by decide)]
    exact Except.map_eq_ok.mpr ⟨after, eq, rfl⟩

theorem replicate_keepServer {changed : Node}
    (hsharing : SharedObject.replicate (.mapping root) = .ok changed) :
    ∃ new, changed = .mapping new ∧
      SharedObject.replicate (.mapping (root.keepServer i)) =
        .ok (.mapping (Mapping.keepServer i new)) := by
  obtain ⟨_, new, isRoot, giving, rfl⟩ := Node.mapRoot_eq_ok.mp hsharing
  cases isRoot
  refine ⟨new, rfl, Node.mapRoot_eq_ok.mpr ⟨_, _, rfl, ?_, rfl⟩⟩
  rw [Mapping.get?_keepServer_of_ne (by decide)]
  cases own : root.get? Field.object with
  | none =>
      rw [own] at giving
      cases giving
      rfl
  | some shared =>
      rw [own] at giving
      exact mapServers_keepServer giving

end

end DirectoryMetrics
