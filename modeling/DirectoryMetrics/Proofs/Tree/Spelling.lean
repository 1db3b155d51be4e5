import DirectoryMetrics.Proofs.Tree.Disambiguation
import DirectoryMetrics.Tree.KeySpelling

namespace DirectoryMetrics

namespace Mapping

variable {P Q : Node → Prop}

theorem forall_mem_insert {key value : Node} {m : Mapping}
    (hheld : ∀ entry ∈ m, P entry.1 ∧ Q entry.2) (hnewKey : P key) (hnewValue : Q value) :
    ∀ entry ∈ m.insert key value, P entry.1 ∧ Q entry.2 := by
  induction m with
  | nil => simpa [insert] using ⟨hnewKey, hnewValue⟩
  | cons entry rest ih =>
      obtain ⟨known, old⟩ := entry
      rw [List.forall_mem_cons] at hheld
      rw [insert]
      split
      · exact List.forall_mem_cons.mpr ⟨⟨hheld.1.1, hnewValue⟩, hheld.2⟩
      · exact List.forall_mem_cons.mpr ⟨hheld.1, ih hheld.2⟩

theorem forall_mem_ofEntries {entries : List (Node × Node)}
    (hheld : ∀ entry ∈ entries, P entry.1 ∧ Q entry.2) :
    ∀ entry ∈ ofEntries entries, P entry.1 ∧ Q entry.2 := by
  unfold ofEntries
  have hempty : ∀ entry ∈ ([] : Mapping), P entry.1 ∧ Q entry.2 := by simp
  generalize ([] : Mapping) = m at hempty
  induction entries generalizing m with
  | nil => exact hempty
  | cons entry rest ih =>
      rw [List.forall_mem_cons] at hheld
      exact ih hheld.2 _ (forall_mem_insert hempty hheld.1.1 hheld.1.2)

theorem DistinctKeys.of_keys_eq {m m' : Mapping} (hkeys : m'.map Prod.fst = m.map Prod.fst)
    (hdistinct : m.DistinctKeys) : m'.DistinctKeys := by
  have honKeys : ∀ entries : Mapping, entries.DistinctKeys ↔
      (entries.map Prod.fst).Pairwise fun a b => (a == b) = false := fun entries => by
    rw [List.pairwise_map]
    rfl
  rw [honKeys] at hdistinct ⊢
  rwa [hkeys]

theorem DistinctKeys.insert {m : Mapping} (hdistinct : m.DistinctKeys) (key value : Node) :
    (m.insert key value).DistinctKeys := by
  induction m with
  | nil => exact List.pairwise_singleton _ _
  | cons entry rest ih =>
      obtain ⟨known, old⟩ := entry
      rw [DistinctKeys, List.pairwise_cons] at hdistinct
      rw [Mapping.insert]
      split
      · exact List.pairwise_cons.mpr hdistinct
      · rename_i different
        refine List.pairwise_cons.mpr ⟨?_, ih hdistinct.2⟩
        have hkeys : ∀ entry ∈ Mapping.insert key value rest, (known == entry.1) = false ∧ True :=
          forall_mem_insert (P := fun later => (known == later) = false) (Q := fun _ => True)
            (fun entry member => ⟨hdistinct.1 entry member, trivial⟩) (by simpa using different)
            trivial
        exact fun entry member => (hkeys entry member).1

theorem ofEntries_distinctKeys (entries : List (Node × Node)) :
    (ofEntries entries).DistinctKeys := by
  unfold ofEntries
  have hempty : DistinctKeys [] := List.Pairwise.nil
  generalize ([] : Mapping) = m at hempty
  induction entries generalizing m with
  | nil => exact hempty
  | cons entry rest ih => exact ih _ (hempty.insert entry.1 entry.2)

end Mapping

namespace Node

theorem hasTag_mapping {m : Mapping} :
    (Node.mapping m).hasTag = false ↔
      ∀ entry ∈ m, entry.1.hasTag = false ∧ entry.2.hasTag = false := by
  rw [hasTag]
  induction m with
  | nil => simp [entriesHaveTag]
  | cons entry rest ih =>
      obtain ⟨key, value⟩ := entry
      rw [entriesHaveTag, Bool.or_eq_false_iff, Bool.or_eq_false_iff, ih, List.forall_mem_cons]

theorem hasTag_sequence {items : List Node} :
    (Node.sequence items).hasTag = false ↔ ∀ item ∈ items, item.hasTag = false := by
  rw [hasTag]
  induction items with
  | nil => simp [itemsHaveTag]
  | cons item rest ih =>
      rw [itemsHaveTag, Bool.or_eq_false_iff, ih, List.forall_mem_cons]

mutual
theorem untagged_keys : ∀ node : Node, node.hasTag = false →
    ∀ m ∈ node.mappings, ∀ entry ∈ m, entry.1.hasTag = false
  | .mapping m, untagged => by
      rw [mappings, List.forall_mem_cons]
      refine ⟨fun entry member => (hasTag_mapping.mp untagged entry member).1, ?_⟩
      exact entries_untagged_keys m untagged
  | .sequence items, untagged => items_untagged_keys items untagged
  | .null, _ | .bool _, _ | .int _, _ | .float _, _ | .text _, _ | .tagged _ _, _ => by
      simp [mappings]

theorem entries_untagged_keys : ∀ m : List (Node × Node), entriesHaveTag m = false →
    ∀ m' ∈ entriesMappings m, ∀ entry ∈ m', entry.1.hasTag = false
  | [], _ => by simp [entriesMappings]
  | (key, value) :: rest, untagged => by
      rw [entriesHaveTag, Bool.or_eq_false_iff, Bool.or_eq_false_iff] at untagged
      rw [entriesMappings, List.forall_mem_append]
      exact ⟨untagged_keys value untagged.1.2, entries_untagged_keys rest untagged.2⟩

theorem items_untagged_keys : ∀ items : List Node, itemsHaveTag items = false →
    ∀ m ∈ itemsMappings items, ∀ entry ∈ m, entry.1.hasTag = false
  | [], _ => by simp [itemsMappings]
  | item :: rest, untagged => by
      rw [itemsHaveTag, Bool.or_eq_false_iff] at untagged
      rw [itemsMappings, List.forall_mem_append]
      exact ⟨untagged_keys item untagged.1, items_untagged_keys rest untagged.2⟩
end

theorem orderly_of_distinctKeys {tree : Node} (huntagged : tree.hasTag = false)
    (hdistinct : ∀ m ∈ tree.mappings, m.DistinctKeys) : tree.Orderly := fun m inside =>
  ⟨fun field _ => (hdistinct m inside).holdsOnce field, untagged_keys tree huntagged m inside⟩

end Node

namespace KeySpelling

theorem mem_normalizeEntries {P Q : Node → Prop} {m : Mapping}
    (hheld : ∀ entry ∈ m, P (normalizeKey entry.1) ∧ Q entry.2) :
    ∀ entry ∈ normalizeEntries m, P entry.1 ∧ Q entry.2 := by
  apply Mapping.forall_mem_ofEntries
  intro entry member
  obtain ⟨before, inside, rfl⟩ := List.mem_map.mp member
  exact hheld before inside

theorem visit_shallow {ε : Type} : (visit (ε := ε)).Shallow := by
  intro place parent m visited own visiting
  have hlow := Node.entriesHeight_le_iff.mp (Nat.le_refl (Node.entriesHeight m))
  cases visiting
  split
  · exact Nat.le_refl _
  · rw [Node.entriesHeight_le_iff]
    have hlowAfter := mem_normalizeEntries (P := fun _ => True) (m := m)
      (Q := fun value => value.height ≤ Node.entriesHeight m)
      fun entry member => ⟨trivial, hlow entry member⟩
    exact fun entry member => (hlowAfter entry member).2

theorem normalizeKey_untagged {key : Node} (huntagged : key.hasTag = false) :
    (normalizeKey key).hasTag = false := by
  cases key with
  | text key => rfl
  | _ => exact huntagged

theorem normalize_untagged {ε : Type} {tree normalized : Node}
    (hnormalizing : normalize (ε := ε) tree = .ok normalized) (huntagged : tree.hasTag = false) :
    normalized.hasTag = false := by
  refine Node.walkWithin_induct visit_shallow
    (motive := fun _ _ node walked => node.hasTag = false → walked.hasTag = false)
    ?_ ?_ ?_ tree.height .root .settings tree normalized (Nat.le_refl _) hnormalizing huntagged
  · intro place parent node noMapping noSequence huntagged
    exact huntagged
  · intro place parent m visited own walked visiting alike children huntagged
    rw [Node.hasTag_mapping] at huntagged ⊢
    have hvisitedUntagged : ∀ entry ∈ visited,
        entry.1.hasTag = false ∧ entry.2.hasTag = false := by
      cases visiting
      split
      · exact huntagged
      · exact mem_normalizeEntries (P := fun key => key.hasTag = false)
          (Q := fun value => value.hasTag = false) fun entry member =>
          ⟨normalizeKey_untagged (huntagged entry member).1, (huntagged entry member).2⟩
    refine forall_mem_of_forall₂ (P := fun entry => entry.1.hasTag = false ∧ entry.2.hasTag = false)
      (((List.forall₂_and_left _ _).mpr ⟨hvisitedUntagged, children⟩).imp ?_)
    intro before after ⟨huntagged, same, child⟩
    exact ⟨same ▸ huntagged.1, child huntagged.2⟩
  · intro place parent items walked children huntagged
    rw [Node.hasTag_sequence] at huntagged ⊢
    refine forall_mem_of_forall₂ (P := fun item => item.hasTag = false)
      (((List.forall₂_and_left _ _).mpr ⟨huntagged, children⟩).imp ?_)
    intro item after ⟨huntagged, index, child⟩
    exact child huntagged

theorem normalize_distinctKeys {ε : Type} {tree normalized : Node}
    (hnormalizing : normalize (ε := ε) tree = .ok normalized)
    (hdistinct : ∀ m ∈ tree.mappings, m.DistinctKeys) :
    ∀ m ∈ normalized.mappings, m.DistinctKeys := by
  refine Node.walk_forall_mappings visit_shallow
    (fun m m' alike hdistinct => hdistinct.of_keys_eq alike.keys_eq) ?_ hnormalizing hdistinct
  intro place parent m visited own visiting hdistinct
  rw [Node.forall_mem_mappings] at hdistinct ⊢
  cases visiting
  split
  · exact hdistinct
  · refine ⟨Mapping.ofEntries_distinctKeys _, ?_⟩
    have hbelow := mem_normalizeEntries (P := fun _ => True) (m := m)
      (Q := fun value => ∀ m' ∈ value.mappings, Mapping.DistinctKeys m')
      fun entry member => ⟨trivial, hdistinct.2 entry member⟩
    exact fun entry member => (hbelow entry member).2

theorem normalize_orderly {ε : Type} {tree normalized : Node}
    (hnormalizing : normalize (ε := ε) tree = .ok normalized) (huntagged : tree.hasTag = false)
    (hdistinct : ∀ m ∈ tree.mappings, m.DistinctKeys) : normalized.Orderly :=
  Node.orderly_of_distinctKeys (normalize_untagged hnormalizing huntagged)
    (normalize_distinctKeys hnormalizing hdistinct)

end KeySpelling

end DirectoryMetrics
