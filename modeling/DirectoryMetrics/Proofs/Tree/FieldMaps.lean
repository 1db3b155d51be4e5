import DirectoryMetrics.Proofs.Tree.KeptServer

namespace DirectoryMetrics

/-! Changes to a field wherever a reader finds it: under whatever tags the mapping and its keys are.
What looks at other fields sees nothing of them, and a change to one field goes before or after a
change to another. -/

namespace Mapping

variable {isField : Node → Bool} {g : Node → Node}

theorem get?_mapUnder_eq (name : String) (m : Mapping) :
    (m.mapUnder isField g).get? name =
      (m.get? name).map fun value => if isField (.text name) then g value else value := by
  induction m with
  | nil => rfl
  | cons entry rest ih =>
      obtain ⟨key, value⟩ := entry
      rw [mapUnder_cons, get?_cons, get?_cons, ih]
      split
      · rename_i isName
        rw [isKey_iff] at isName
        rw [isName]
        rfl
      · rfl

theorem get?_mapUnder_of_not {name : String} (hnotField : ¬isField (.text name) = true)
    (m : Mapping) : (m.mapUnder isField g).get? name = m.get? name := by
  simp only [get?_mapUnder_eq, if_neg hnotField, Option.map_id']

theorem modify_mapUnder {ε : Type} {name : String} {f f' : Node → Except ε Node}
    (hthrough : ∀ value, f' (if isField (.text name) then g value else value) =
      (f value).map fun new => if isField (.text name) then g new else new) (m : Mapping) :
    (m.mapUnder isField g).modify name f' = (m.modify name f).map (mapUnder isField g) := by
  induction m with
  | nil => rfl
  | cons entry rest ih =>
      obtain ⟨key, value⟩ := entry
      rw [mapUnder_cons, modify, modify]
      by_cases isName : isKey name key = true
      · rw [if_pos isName, if_pos isName]
        rw [isKey_iff] at isName
        rw [isName, hthrough]
        cases f value <;> rfl
      · rw [if_neg isName, if_neg isName, ih]
        cases modify name f rest <;> rfl

theorem modify_mapUnder_of_not {ε : Type} {name : String} {f : Node → Except ε Node}
    (hnotField : ¬isField (.text name) = true) (m : Mapping) :
    (m.mapUnder isField g).modify name f = (m.modify name f).map (mapUnder isField g) := by
  refine modify_mapUnder (fun value => ?_) m
  simp only [if_neg hnotField]
  cases f value <;> rfl

theorem mapUnder_of_modify {ε : Type} {name : String} {f : Node → Except ε Node}
    {m changed : Mapping} (hname : isField (.text name) = true)
    (hmodified : m.modify name f = .ok changed)
    (hsame : ∀ value new, f value = .ok new → g new = g value) :
    changed.mapUnder isField g = m.mapUnder isField g := by
  induction m generalizing changed with
  | nil =>
      cases hmodified
      rfl
  | cons entry rest ih =>
      obtain ⟨key, value⟩ := entry
      rw [modify] at hmodified
      split at hmodified
      · rename_i isKey
        rw [isKey_iff] at isKey
        obtain ⟨new, changing, rfl⟩ := Except.map_eq_ok.mp hmodified
        simp only [mapUnder_cons, isKey, hname, if_pos, hsame value new changing]
      · obtain ⟨later, changing, rfl⟩ := Except.map_eq_ok.mp hmodified
        rw [mapUnder_cons, mapUnder_cons, ih changing]

end Mapping

namespace Node

def mapMapping (f : Mapping → Mapping) : Node → Node
  | .mapping m => .mapping (f m)
  | .tagged tag content => .tagged tag (content.mapMapping f)
  | node => node

/-- Changes the values under the keys that a reader takes for a name. -/
def mapField (name : String) (g : Node → Node) : Node → Node :=
  mapMapping (Mapping.mapUnder (fun key => Mapping.isKey name key.untag) g)

def mapItems (g : Node → Node) : Node → Node
  | .sequence items => .sequence (items.map g)
  | .tagged tag content => .tagged tag (content.mapItems g)
  | node => node

theorem untag_mapMapping (f : Mapping → Mapping) : ∀ node : Node,
    (node.mapMapping f).untag = node.untag.mapMapping f
  | .tagged _ content => untag_mapMapping f content
  | .null | .bool _ | .int _ | .float _ | .text _ | .sequence _ | .mapping _ => rfl

theorem untag_mapItems (g : Node → Node) : ∀ node : Node,
    (node.mapItems g).untag = node.untag.mapItems g
  | .tagged _ content => untag_mapItems g content
  | .null | .bool _ | .int _ | .float _ | .text _ | .sequence _ | .mapping _ => rfl

theorem mapping?_mapMapping (f : Mapping → Mapping) : ∀ node : Node,
    (node.mapMapping f).mapping? = node.mapping?.map f
  | .tagged _ content => mapping?_mapMapping f content
  | .null | .bool _ | .int _ | .float _ | .text _ | .sequence _ | .mapping _ => rfl

theorem sequence?_mapItems (g : Node → Node) : ∀ node : Node,
    (node.mapItems g).sequence? = node.sequence?.map (List.map g)
  | .tagged _ content => sequence?_mapItems g content
  | .null | .bool _ | .int _ | .float _ | .text _ | .sequence _ | .mapping _ => rfl

theorem mapMapping_eq_null (f : Mapping → Mapping) (node : Node) :
    node.mapMapping f = .null ↔ node = .null := by
  cases node <;> simp [mapMapping]

theorem entriesHaveTag_mapUnder {isField : Node → Bool} {g : Node → Node}
    (htags : ∀ value, (g value).hasTag = value.hasTag) (m : Mapping) :
    entriesHaveTag (m.mapUnder isField g) = entriesHaveTag m := by
  induction m with
  | nil => rfl
  | cons entry rest ih =>
      obtain ⟨key, value⟩ := entry
      rw [Mapping.mapUnder_cons, entriesHaveTag, entriesHaveTag, ih]
      split
      · rw [htags]
      · rfl

theorem hasTag_mapField {g : Node → Node} (htags : ∀ value, (g value).hasTag = value.hasTag)
    (name : String) (node : Node) : (node.mapField name g).hasTag = node.hasTag := by
  cases node with
  | mapping m => exact entriesHaveTag_mapUnder htags m
  | _ => rfl

theorem field?_mapField (name other : String) (g : Node → Node) (node : Node) :
    (node.mapField name g).field? other =
      (node.field? other).map fun value => if other = name then g value else value := by
  rw [field?, field?, mapField, mapping?_mapMapping]
  cases node.mapping? with
  | none => rfl
  | some m =>
      have hisName : Mapping.isKey name (Node.text other).untag = decide (other = name) :=
        beq_eq_decide other name
      simp only [Option.map_some, Option.bind_some, Mapping.get?_mapUnder_eq, hisName,
        decide_eq_true_eq]

theorem field?_mapField_of_ne {name other : String} (hdifferent : other ≠ name) (g : Node → Node)
    (node : Node) : (node.mapField name g).field? other = node.field? other := by
  simp only [field?_mapField, if_neg hdifferent, Option.map_id']

theorem modifyMapping?_mapMapping {ε : Type} {k : Mapping → Mapping}
    {f f' : Mapping → Except ε Mapping} (hthrough : ∀ m, f' (k m) = (f m).map k) : ∀ node : Node,
    (node.mapMapping k).modifyMapping? f' =
      (node.modifyMapping? f).map fun changed => changed.map (mapMapping k)
  | .mapping m => by
      rw [mapMapping, modifyMapping?, modifyMapping?, hthrough]
      cases f m <;> rfl
  | .tagged tag content => by
      rw [mapMapping, modifyMapping?, modifyMapping?, modifyMapping?_mapMapping hthrough content]
      cases content.modifyMapping? f with
      | none => rfl
      | some changed => cases changed <;> rfl
  | .null | .bool _ | .int _ | .float _ | .text _ | .sequence _ => rfl

theorem mapRoot_mapMapping {k : Mapping → Mapping} {f f' : Mapping → Except ConfigError Mapping}
    (hthrough : ∀ m, f' (k m) = (f m).map k) (tree : Node) :
    (tree.mapMapping k).mapRoot f' = (tree.mapRoot f).map (mapMapping k) := by
  rw [mapRoot, mapRoot, modifyMapping?_mapMapping hthrough]
  cases tree.modifyMapping? f <;> rfl

end Node

theorem mapM_map_through {ε α : Type} {h : α → α} {f f' : α → Except ε α}
    (hthrough : ∀ x, f' (h x) = (f x).map h) (xs : List α) :
    (xs.map h).mapM f' = (xs.mapM f).map (List.map h) := by
  induction xs with
  | nil => rfl
  | cons x rest ih =>
      rw [List.map_cons, List.mapM_cons, List.mapM_cons, hthrough, ih]
      cases f x with
      | error e => rfl
      | ok y => cases rest.mapM f <;> rfl

theorem Node.mapServers_mapUnder {k : Mapping → Mapping}
    {f f' : Mapping → Except ConfigError Mapping} (hthrough : ∀ m, f' (k m) = (f m).map k)
    (root : Mapping) :
    mapServers f' (root.mapUnder (fun key => Mapping.isKey Field.ldapServers key.untag)
        (mapItems (mapMapping k))) =
      (mapServers f root).map (Mapping.mapUnder
        (fun key => Mapping.isKey Field.ldapServers key.untag) (mapItems (mapMapping k))) := by
  have hchanges (server : Node) :
      ((server.mapMapping k).modifyMapping? f').getD (.ok (server.mapMapping k)) =
        ((server.modifyMapping? f).getD (.ok server)).map (mapMapping k) := by
    rw [modifyMapping?_mapMapping hthrough]
    cases server.modifyMapping? f <;> rfl
  have hisServers : Mapping.isKey Field.ldapServers (Node.text Field.ldapServers).untag = true := by
    decide
  refine Mapping.modify_mapUnder (fun value => ?_) root
  rw [hisServers, if_pos rfl]
  cases value with
  | sequence items =>
      rw [mapItems]
      simp only []
      rw [mapM_map_through hchanges]
      cases items.mapM fun (server : Node) => (server.modifyMapping? f).getD (.ok server) <;> rfl
  | _ => rfl

namespace Node

variable {f : Mapping → Except ConfigError Mapping} {k : Mapping → Mapping}

theorem mapMapping_withMapping {m new : Mapping} (hsame : k new = k m) : ∀ {node : Node},
    node.mapping? = some m → (node.withMapping new).mapMapping k = node.mapMapping k
  | .tagged tag _, held => congrArg (Node.tagged tag) (mapMapping_withMapping hsame held)
  | .mapping _, rfl => congrArg Node.mapping hsame

theorem mapMapping_of_mapRoot {tree changed : Node} (hchanging : tree.mapRoot f = .ok changed)
    (hsame : ∀ m new, f m = .ok new → k new = k m) : changed.mapMapping k = tree.mapMapping k := by
  obtain ⟨root, new, isRoot, eq, rfl⟩ := mapRoot_eq_ok.mp hchanging
  exact mapMapping_withMapping (hsame root new eq) isRoot

theorem mapMapping_of_changeServer {server changed : Node}
    (hchanging : (server.modifyMapping? f).getD (.ok server) = .ok changed)
    (hsame : ∀ m new, f m = .ok new → k new = k m) :
    changed.mapMapping k = server.mapMapping k := by
  rw [changeServer_eq] at hchanging
  split at hchanging
  · cases hchanging
    rfl
  · rename_i m held
    obtain ⟨new, eq, rfl⟩ := Except.map_eq_ok.mp hchanging
    exact mapMapping_withMapping (hsame m new eq) held

theorem mapUnder_of_mapServers {root changed : Mapping}
    (hchanging : mapServers f root = .ok changed) (hsame : ∀ m new, f m = .ok new → k new = k m) :
    changed.mapUnder (fun key => Mapping.isKey Field.ldapServers key.untag)
        (mapItems (mapMapping k)) =
      root.mapUnder (fun key => Mapping.isKey Field.ldapServers key.untag)
        (mapItems (mapMapping k)) := by
  refine Mapping.mapUnder_of_modify (by decide) hchanging fun value new hchanging => ?_
  cases value with
  | sequence servers =>
      obtain ⟨after, each, rfl⟩ := Except.map_eq_ok.mp hchanging
      refine congrArg Node.sequence ?_
      have hrelated := Except.mapM_eq_ok.mp each
      clear hchanging each
      induction hrelated with
      | nil => rfl
      | cons head tail ih =>
          rw [List.map_cons, List.map_cons, mapMapping_of_changeServer head hsame, ih]
  | _ =>
      cases hchanging
      rfl

end Node

end DirectoryMetrics
