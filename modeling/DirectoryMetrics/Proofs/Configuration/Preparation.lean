import DirectoryMetrics.Configuration.Pipeline
import DirectoryMetrics.Proofs.Tree.ServerEntries
import DirectoryMetrics.Proofs.Tree.Spelling

namespace DirectoryMetrics

namespace Preparation

def dnRoot (root : Mapping) : String := (root.text? Field.dnRoot).getD ""

def Prepares (root : String) (before after : Node) : Prop :=
  ∃ owner moved placed, before.walk (ChildSlots.visit (ε := ConfigError)) () = .ok moved ∧
    moved.walk (ObjectDn.visit root owner) ⟨root, false⟩ = .ok placed ∧
    placed.walk (MetricPath.visit (ε := ConfigError)) "" = .ok after

theorem standard_run_iff {tree prepared : Node} :
    Pipeline.standard.run tree = .ok prepared ↔
      ∃ normalized moved shared placed,
        KeySpelling.normalize (ε := ConfigError) tree = .ok normalized ∧
        ChildSlots.rename normalized = .ok moved ∧ SharedObject.replicate moved = .ok shared ∧
        ObjectDn.annotate shared = .ok placed ∧ MetricPath.annotate placed = .ok prepared := by
  simp only [Pipeline.run, Pipeline.standard, List.foldlM_cons, List.foldlM_nil, Pass.run]
  constructor
  · intro running
    obtain ⟨normalized, normalizing, running⟩ := Except.bind_eq_ok.mp running
    obtain ⟨moved, moving, running⟩ := Except.bind_eq_ok.mp running
    obtain ⟨shared, sharing, running⟩ := Except.bind_eq_ok.mp running
    obtain ⟨placed, placing, running⟩ := Except.bind_eq_ok.mp running
    obtain ⟨_, annotating, returned⟩ := Except.bind_eq_ok.mp running
    cases returned
    exact ⟨normalized, moved, shared, placed, normalizing, moving, sharing, placing, annotating⟩
  · rintro ⟨normalized, moved, shared, placed, normalizing, moving, sharing, placing, annotating⟩
    simp only [Except.bind_eq_ok]
    exact ⟨normalized, normalizing, moved, moving, shared, sharing, placed, placing, prepared,
      annotating, rfl⟩

theorem standard_run_eq_ok {tree normalized prepared : Node}
    (hnormalizing : KeySpelling.normalize (ε := ConfigError) tree = .ok normalized)
    (hrunning : Pipeline.standard.run tree = .ok prepared) :
    ∃ moved shared placed, ChildSlots.rename normalized = .ok moved ∧
      SharedObject.replicate moved = .ok shared ∧ ObjectDn.annotate shared = .ok placed ∧
      MetricPath.annotate placed = .ok prepared := by
  obtain ⟨_, moved, shared, placed, eq, passes⟩ := standard_run_iff.mp hrunning
  cases hnormalizing.symm.trans eq
  exact ⟨moved, shared, placed, passes⟩

theorem root_of_mapObjectTrees {f : Owner → Node → Except ConfigError Node} {tree changed : Node}
    (huntagged : tree.hasTag = false) (hchanging : tree.mapObjectTrees f = .ok changed) :
    ∃ root, tree = .mapping root := by
  cases tree with
  | mapping root => exact ⟨root, rfl⟩
  | tagged tag content => simp [Node.hasTag] at huntagged
  | _ => cases hchanging

theorem plainServers_of_untagged {root : Mapping} (huntagged : (Node.mapping root).hasTag = false) :
    root.PlainServers := by
  intro servers found server member tag content eq
  rw [Node.hasTag_mapping] at huntagged
  have hinside := (huntagged _ (Mapping.mem_of_get? found)).2
  rw [Node.hasTag_sequence] at hinside
  have := hinside server member
  rw [eq] at this
  simp [Node.hasTag] at this

theorem standard_run_change {tree normalized prepared : Node}
    (hnormalizing : KeySpelling.normalize (ε := ConfigError) tree = .ok normalized)
    (huntagged : normalized.hasTag = false)
    (hrunning : Pipeline.standard.run tree = .ok prepared) :
    ∃ root changed, normalized = .mapping root ∧ prepared = .mapping changed ∧
      RootChange (fun _ _ => True)
        (fun before after =>
          Option.Rel (Prepares (dnRoot root)) (before.or (Mapping.get? Field.object root)) after)
        root changed := by
  obtain ⟨moved, shared, placed, moving, sharing, placing, annotating⟩ :=
    standard_run_eq_ok hnormalizing hrunning
  obtain ⟨root, rfl⟩ := root_of_mapObjectTrees huntagged moving
  have hplain := plainServers_of_untagged huntagged
  obtain ⟨movedRoot, rfl, moves⟩ := mapObjectTrees_change hplain moving
  obtain ⟨sharedRoot, rfl, shares⟩ := replicate_change (moves.plainServers hplain) sharing
  rw [ObjectDn.annotate] at placing
  obtain ⟨placedRoot, rfl, places⟩ := mapObjectTrees_change
    (shares.plainServers (moves.plainServers hplain)) placing
  obtain ⟨preparedRoot, rfl, annotates⟩ := mapObjectTrees_change
    (places.plainServers (shares.plainServers (moves.plainServers hplain))) annotating
  refine ⟨root, preparedRoot, rfl, rfl, ?_⟩
  have hsameDnRoot : (((Node.mapping sharedRoot).field? Field.dnRoot).bind Node.text?).getD "" =
      dnRoot root := by
    have hunmoved := moves.others Field.dnRoot (by decide) (by decide)
    have hunshared := shares.others Field.dnRoot (by decide) (by decide)
    rw [dnRoot, Mapping.text?, ← hunmoved, ← hunshared]
    rfl
  rw [hsameDnRoot] at places
  have hgiven := moves.comp shares
    (S := fun _ _ => True)
    (Q := fun before after => Changed (fun _ object => object.walk ChildSlots.visit ())
      (before.or (Mapping.get? Field.object root)) after)
    (fun _ _ _ _ _ => trivial)
    (fun before between after own eq => by rw [eq]; exact own.or moves.object)
  have hlocated := hgiven.comp places
    (S := fun _ _ => True)
    (Q := fun before after =>
      Option.Rel
        (fun before after => ∃ owner moved,
          before.walk (ChildSlots.visit (ε := ConfigError)) () = .ok moved ∧
            moved.walk (ObjectDn.visit (dnRoot root) owner) ⟨dnRoot root, false⟩ = .ok after)
        (before.or (Mapping.get? Field.object root)) after)
    (fun _ _ _ _ _ => trivial)
    (fun _ _ _ => optionRel_comp fun before between after moves places => by
      obtain ⟨_, moving⟩ := moves
      obtain ⟨owner, placing⟩ := places
      exact ⟨owner, between, moving, placing⟩)
  exact hlocated.comp annotates (fun _ _ _ _ _ => trivial)
    (fun _ _ _ => optionRel_comp fun before between after places annotates => by
      obtain ⟨owner, moved, moving, placing⟩ := places
      obtain ⟨_, annotating⟩ := annotates
      exact ⟨owner, moved, between, moving, placing, annotating⟩)

end Preparation

end DirectoryMetrics
