import DirectoryMetrics.Proofs.Configuration.Preparation
import DirectoryMetrics.Proofs.Configuration.Reading
import DirectoryMetrics.Proofs.Tree.KeptServer
import DirectoryMetrics.Proofs.Tree.ObjectTrees

namespace DirectoryMetrics

/-! A configuration with one of its servers: how it is prepared, and how its settings are read. What
its servers have in common is the shared object tree, and each of them has a copy of that. -/

/-- A configuration has a shared object tree, and a copy of it is in every server that there was
none in. -/
structure Node.Copied (before : List Mapping) (tree shared : Node) : Prop where
  found : tree.field? Field.object = some shared
  copies : List.Forall₂ (fun was is => Mapping.get? Field.object was = none →
    Mapping.get? Field.object is = some shared) before tree.listedServers

section

variable {before : List Mapping} {tree changed shared : Node}
  {f : Owner → Node → Except ConfigError Node}

theorem Node.Copied.mapObjectTrees (hcopied : tree.Copied before shared)
    (hchanging : tree.mapObjectTrees f = .ok changed)
    (hanyOwner : ∀ owner owner' object after, f owner object = .ok after →
      f owner' object = .ok after) :
    ∃ after, changed.Copied before after := by
  obtain ⟨root, new, between, isRoot, isNew, sharing, others⟩ := mapObjectTrees_fields hchanging
  have hfound := hcopied.found
  rw [field?_of_mapping? isRoot] at hfound
  obtain ⟨after, changingShared, foundAfter⟩ := Mapping.modify_of_get? sharing hfound
  refine ⟨after, ?_, ?_⟩
  · rw [field?_of_mapping? isNew, others _ (by decide), foundAfter]
  · refine forall₂_comp ?_ hcopied.copies (mapObjectTrees_listed hchanging)
    intro was is isAfter copy hchanging absent
    obtain ⟨after', changingCopy, foundCopy⟩ := Mapping.modify_of_get? hchanging (copy absent)
    have hsame := hanyOwner none is.serverName? shared after changingShared
    rw [changingCopy] at hsame
    cases hsame
    exact foundCopy

theorem SharedObject.copied_replicate {servers : List Mapping}
    (halike : List.Forall₂ (fun was is => Mapping.get? Field.object was = none →
      Mapping.get? Field.object is = none) servers tree.listedServers)
    (hfound : tree.field? Field.object = some shared) (hsharing : replicate tree = .ok changed) :
    changed.Copied servers shared := by
  rcases replicate_cases hsharing with ⟨absent, _⟩ | ⟨_, held, foundAfter, given⟩
  · rw [hfound] at absent
    cases absent
  · rw [hfound] at held
    cases held
    refine ⟨foundAfter, ?_⟩
    rw [given, List.forall₂_map_right_iff]
    refine halike.imp fun was is none absent => ?_
    rw [giveTo_get?, none absent]
    rfl

end

theorem ObjectDn.walk_anyOwner {root : String} {owner owner' : Owner} {suffix : Suffix}
    {object placed : Node} (hplacing : object.walk (visit root owner) suffix = .ok placed) :
    object.walk (visit root owner') suffix = .ok placed := by
  refine Node.walkWithin_elsewhere (visit_annotates root owner).shallow ?_ (Nat.le_refl _) hplacing
    (Nat.le_refl _) rfl
  intro place place' parent m result _ visiting
  rw [visit] at visiting ⊢
  split at visiting
  · rename_i queryable
    rw [if_pos queryable]
    cases below : own? root parent m with
    | some own =>
        rw [below] at visiting
        exact visiting
    | none =>
        rw [below] at visiting
        cases visiting
  · rename_i notQueryable
    rw [if_neg notQueryable]
    exact visiting

namespace Preparation

theorem standard_run_keepServer {tree normalized prepared : Node} (i : Nat)
    (hnormalizing : KeySpelling.normalize (ε := ConfigError) tree = .ok normalized)
    (huntagged : normalized.hasTag = false) (hrunning : Pipeline.standard.run tree = .ok prepared) :
    ∃ root, prepared = .mapping root ∧
      Pipeline.standard.run (tree.keepServer i) =
        .ok (.mapping (Mapping.keepServer i root)) := by
  obtain ⟨moved, shared, placed, moving, sharing, placing, annotating⟩ :=
    standard_run_eq_ok hnormalizing hrunning
  obtain ⟨root, rfl⟩ := root_of_mapObjectTrees huntagged moving
  obtain ⟨movedRoot, rfl, moves⟩ := mapObjectTrees_keepServer (i := i) moving
  obtain ⟨sharedRoot, rfl, shares⟩ := replicate_keepServer (i := i) sharing
  rw [ObjectDn.annotate] at placing
  obtain ⟨placedRoot, rfl, places⟩ := mapObjectTrees_keepServer (i := i) placing
  obtain ⟨preparedRoot, rfl, annotates⟩ := mapObjectTrees_keepServer (i := i) annotating
  refine ⟨preparedRoot, rfl, standard_run_iff.mpr ⟨_, _, _, _,
    KeySpelling.normalize_keepServer hnormalizing, moves, shares, ?_, annotates⟩⟩
  rw [ObjectDn.annotate, Node.field?_of_mapping? rfl, Mapping.get?_keepServer_of_ne (by decide)]
  exact places

/-- Every server that has no object tree of its own ends up with what becomes of the shared one. -/
theorem standard_run_copied {tree normalized prepared object : Node}
    (hnormalizing : KeySpelling.normalize (ε := ConfigError) tree = .ok normalized)
    (hrunning : Pipeline.standard.run tree = .ok prepared)
    (hfound : normalized.field? Field.object = some object) :
    ∃ shared, prepared.Copied normalized.listedServers shared := by
  obtain ⟨moved, replicated, placed, moving, sharing, placing, annotating⟩ :=
    standard_run_eq_ok hnormalizing hrunning
  obtain ⟨root, new, between, isRoot, isNew, movingShared, others⟩ :=
    Node.mapObjectTrees_fields moving
  rw [Node.field?_of_mapping? isRoot] at hfound
  obtain ⟨movedObject, _, foundMoved⟩ := Mapping.modify_of_get? movingShared hfound
  rw [← others _ (by decide), ← Node.field?_of_mapping? isNew] at foundMoved
  have halike := (Node.mapObjectTrees_listed moving).imp
    (S := fun was is => Mapping.get? Field.object was = none → Mapping.get? Field.object is = none)
    fun was is changing absent => by
      rw [Mapping.modify_eq, absent] at changing
      cases changing
      exact absent
  have hcopied := SharedObject.copied_replicate halike foundMoved sharing
  rw [ObjectDn.annotate] at placing
  obtain ⟨_, places⟩ := hcopied.mapObjectTrees placing fun _ _ _ _ => ObjectDn.walk_anyOwner
  rw [MetricPath.annotate] at annotating
  exact places.mapObjectTrees annotating fun _ _ _ _ same => same

end Preparation

namespace Reader

section

variable {σ : Type} {fields : List (Field σ)} {name : String} {g : Node → Node} (keep : σ → σ)

theorem entries_mapUnder {m : Mapping} (huntagged : ∀ entry ∈ m, entry.1.hasTag = false)
    (heach : ∀ field ∈ fields, ∀ value state next, field.read value state = .ok next →
      field.read (if field.name == name then g value else value) (keep state) = .ok (keep next))
    {seen seen' : List String} {state state' : σ}
    (hreading : entries (fieldKey fields) seen state m = .ok (state', seen')) :
    entries (fieldKey fields) seen (keep state) (m.mapUnder (Mapping.isKey name) g) =
      .ok (keep state', seen') := by
  induction m generalizing seen state with
  | nil =>
      cases hreading
      rfl
  | cons entry rest ih =>
      obtain ⟨key, value⟩ := entry
      rw [List.forall_mem_cons] at huntagged
      obtain ⟨text, rfl, ⟨absent, hreading⟩ | ⟨field, next, found, unseen, readField, hreading⟩⟩ :=
        entries_cons_eq_ok huntagged.1 hreading
      · rw [Mapping.mapUnder_cons, entries_of_unknown (fieldKey_eq_ok.mpr ⟨text, rfl, absent⟩)]
        exact ih huntagged.2 hreading
      · have hisText : (field.name == text) = true := by simpa using List.find?_some found
        obtain rfl : field.name = text := beq_iff_eq.mp hisText
        have hreadKept := heach field (List.mem_of_find?_eq_some found) value state next readField
        rw [Mapping.mapUnder_cons, entries_of_known (fieldKey_eq_ok.mpr ⟨_, rfl, found⟩) unseen]
        exact Except.bind_eq_ok.mpr ⟨keep next, hreadKept, ih huntagged.2 hreading⟩

theorem record_mapUnder {kind : String} {start state : σ} {required : List String} {m : Mapping}
    (huntagged : ∀ entry ∈ m, entry.1.hasTag = false)
    (heach : ∀ field ∈ fields, ∀ value state next, field.read value state = .ok next →
      field.read (if field.name == name then g value else value) (keep state) = .ok (keep next))
    (hreading : record kind fields start required (.mapping m) = .ok state) :
    record kind fields (keep start) required (.mapping (m.mapUnder (Mapping.isKey name) g)) =
      .ok (keep state) := by
  rw [record_mapping, ofEntries] at hreading ⊢
  obtain ⟨⟨after, seen⟩, readEntries, hreading⟩ := Except.bind_eq_ok.mp hreading
  refine Except.bind_eq_ok.mpr
    ⟨(keep after, seen), entries_mapUnder keep huntagged heach readEntries, ?_⟩
  simp only at hreading ⊢
  split at hreading
  · cases hreading
  · cases hreading
    rfl

variable {keep}

theorem field_read_keep {α : Type} {other : String} {read : Reader α} {put : α → σ → σ}
    (hdifferent : other ≠ name)
    (hkeeps : ∀ value state, keep (put value state) = put value (keep state)) (node : Node)
    (state next : σ) (hreading : (field other read put).read node state = .ok next) :
    (field other read put).read (if (field other read put).name == name then g node else node)
      (keep state) = .ok (keep next) := by
  have hotherName : ((field other read put).name == name) = false := by
    simpa [field] using hdifferent
  obtain ⟨value, readValue, rfl⟩ := field_read_eq_ok hreading
  rw [hotherName]
  exact Except.map_eq_ok.mpr ⟨value, readValue, (hkeeps value state).symm⟩

end

theorem list_keepItem {α : Type} {read : Reader α} {node : Node} {found : List α} (i : Nat)
    (hreading : list read node = .ok found) :
    list read (node.keepItem i) = .ok found[i]?.toList := by
  rw [list] at hreading ⊢
  rw [Node.untag_keepItem]
  generalize node.untag = node at hreading
  cases node with
  | sequence items =>
      exact Except.mapM_eq_ok.mpr (forall₂_toList_getElem? (Except.mapM_eq_ok.mp hreading) i)
  | null =>
      cases hreading
      rfl
  | _ => cases hreading

end Reader

namespace Settings

def keepServer (i : Nat) (settings : Settings) : Settings :=
  { settings with servers := settings.servers[i]?.toList }

theorem Reading.settings_keepServer {root : Mapping} {read : Settings} (i : Nat)
    (huntagged : ∀ entry ∈ root, entry.1.hasTag = false)
    (hreading : settings (.mapping root) = .ok read) :
    settings (.mapping (root.keepServer i)) = .ok (read.keepServer i) := by
  refine Reader.record_mapUnder (keepServer i) huntagged ?_ hreading
  simp only [settingsFields, List.forall_mem_cons]
  refine ⟨fun value state next readServers => ?_,
    Reader.field_read_keep (by decide) fun _ _ => rfl,
    Reader.field_read_keep (by decide) fun _ _ => rfl,
    Reader.field_read_keep (by decide) fun _ _ => rfl,
    Reader.field_read_keep (by decide) fun _ _ => rfl,
    Reader.field_read_keep (by decide) fun _ _ => rfl,
    Reader.field_read_keep (by decide) fun _ _ => rfl, by simp⟩
  obtain ⟨servers, readList, rfl⟩ := Reader.field_read_eq_ok readServers
  exact Except.map_eq_ok.mpr ⟨servers[i]?.toList, Reader.list_keepItem i readList, rfl⟩

theorem ofTree_keepServer {root : Mapping} {read : Settings} (i : Nat)
    (huntagged : ∀ entry ∈ root, entry.1.hasTag = false)
    (hreading : ofTree (.mapping root) = .ok read) :
    ofTree (.mapping (root.keepServer i)) = .ok (read.keepServer i) := by
  have hreadKept := Reading.settings_keepServer i huntagged (ofTree_eq_ok hreading)
  rw [ofTree, ofTree_eq_ok hreading] at hreading
  rw [ofTree, hreadKept]
  simp only [pure_bind] at hreading ⊢
  split at hreading
  · cases hreading
  · rename_i positive
    obtain ⟨_, checking, _⟩ := Except.bind_eq_ok.mp hreading
    have hchecks := Except.forM_eq_ok.mp checking
    refine (if_neg positive).trans (Except.bind_eq_ok.mpr ⟨(), Except.forM_eq_ok.mpr ?_, rfl⟩)
    intro server member
    exact hchecks server (List.mem_of_getElem? (Option.mem_toList.mp member))

end Settings

end DirectoryMetrics
