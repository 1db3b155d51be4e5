import DirectoryMetrics.Proofs.Configuration.Idempotence
import DirectoryMetrics.Proofs.Configuration.MetricNames
import DirectoryMetrics.Proofs.Tree.Relocation

namespace DirectoryMetrics

namespace Preparation

open ChildSlots

theorem exists_rename {tree : Node} {root : Mapping} (hroot : tree.mapping? = some root) :
    ∃ moved, ChildSlots.rename tree = .ok moved := by
  obtain ⟨_, moving⟩ := MetricPath.rename_isOk root
  rw [ChildSlots.rename, Node.mapObjectTrees] at moving ⊢
  obtain ⟨_, new, same, making, rfl⟩ := Node.mapRoot_eq_ok.mp moving
  cases same
  exact ⟨_, Node.mapRoot_eq_ok.mpr ⟨root, new, hroot, making, rfl⟩⟩

theorem clear_of_run {tree prepared : Node}
    (hrunning : Pipeline.standard.run tree = .ok prepared) :
    prepared.Objects fun object => ∀ m ∈ object.mappings, Clear m := by
  obtain ⟨normalized, moved, shared, placed, _, moving, sharing, placing, annotating⟩ :=
    standard_run_iff.mp hrunning
  have hatRest := objects_atRest (shared_clear moving sharing) placing annotating
  exact hatRest.mono fun _ rest => rest.clear

def NamesNoField (m : Mapping) : Prop :=
  ∀ field, field = Field.object ∨ field = Field.metric →
    ∀ children : Mapping, m.get? field = some (.mapping children) →
      ∀ name ∈ Field.reserved, children.get? name = none

theorem children_relocated {tree : Node} {root : Mapping} (hroot : tree.mapping? = some root)
    (hnameable : tree.Objects fun object => ∀ m ∈ object.mappings, m.Nameable) :
    (∃ moved, ChildSlots.rename tree = .ok moved ∧
      List.Forall₂ (fun before after => before.1 = after.1 ∧ Relocates .node before.2 after.2)
        tree.ownedObjects moved.ownedObjects) ∧
      ∀ prepared, Pipeline.standard.run tree = .ok prepared →
        prepared.Objects fun object => ∀ m ∈ object.mappings, NamesNoField m := by
  constructor
  · obtain ⟨moved, moving⟩ := exists_rename hroot
    refine ⟨moved, moving, ((List.forall₂_and_left _ _).mpr
      ⟨hnameable.forall_mem_owned, Node.mapObjectTrees_ownedObjects moving⟩).imp ?_⟩
    rintro before after ⟨hnameable, same, walking⟩
    exact ⟨same, relocates_of_walk walking hnameable⟩
  · intro prepared running
    refine (clear_of_run running).mono fun object clear m inside field isField children found => ?_
    exact (clear m inside field isField children found).get?_eq_none

def collidingObject : Node :=
  .mapping
    [(.text "rdn", .text "cn=Monitor"),
      (.text "object", .mapping
        [(.text "metric", .mapping
            [(.text "metric", .mapping
              [(.text "child1", .null), (.text "unit", .mapping [(.text "unit", .text "ms")]),
                (.text "name", .int 1)])]),
          (.int 1, .mapping []), (.bool true, .mapping []),
          (.text "child2", .mapping []), (.text "name", .mapping [(.text "name", .text "own")])])]

def colliding : Node := .mapping [(.text "object", collidingObject)]

theorem colliding_relocated : ∃ moved, ChildSlots.rename colliding = .ok moved ∧
    keyNames moved = [["object"], ["rdn", "object"],
      ["child1", "1", "true", "child2", "child3"], ["metric", "name"],
      ["child1", "child2", "child3"], ["unit", "name"], [], [], [], ["name"]] ∧
    List.Forall₂ (fun before after => before.1 = after.1 ∧ Relocates .node before.2 after.2)
      colliding.ownedObjects moved.ownedObjects := by
  have hnameable : colliding.Objects fun object => ∀ m ∈ object.mappings, m.Nameable := by
    constructor
    · rintro object found
      cases found
      have hdistinct : ∀ m ∈ collidingObject.mappings, m.DistinctKeys := by
        simp only [Mapping.DistinctKeys]
        decide +kernel
      have hnamed : collidingObject.mappings.all
          (fun m => m.all fun entry => entry.1.keyName?.isSome) = true := by decide +kernel
      simp only [List.all_eq_true] at hnamed
      exact fun m inside => ⟨hdistinct m inside, hnamed m inside⟩
    · intro server listed
      cases listed
  obtain ⟨moved, moving, related⟩ := (children_relocated rfl hnameable).1
  have hnames : (ChildSlots.rename colliding).toOption.map keyNames = some
      [["object"], ["rdn", "object"],
      ["child1", "1", "true", "child2", "child3"], ["metric", "name"],
      ["child1", "child2", "child3"], ["unit", "name"], [], [], [], ["name"]] := by decide +kernel
  rw [moving] at hnames
  exact ⟨moved, moving, Option.some.inj hnames, related⟩

end Preparation

end DirectoryMetrics
