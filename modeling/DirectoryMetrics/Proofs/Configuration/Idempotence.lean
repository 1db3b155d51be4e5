import DirectoryMetrics.Proofs.Configuration.Preparation
import DirectoryMetrics.Proofs.Tree.ObjectTrees
import DirectoryMetrics.Proofs.Tree.SteadyNames

namespace DirectoryMetrics

namespace Preparation

open KeySpelling ChildSlots

/-- What the later passes leave of an object tree below a root. -/
structure AtRest (root : String) (object : Node) : Prop where
  clear : ∀ m ∈ object.mappings, Clear m
  placed : ∀ owner, (ObjectDn.visit root owner).Rests none ⟨root, false⟩ object
  named : (MetricPath.visit (ε := ConfigError)).Rests none "" object

theorem objects_atRest {shared placed prepared : Node}
    (hclear : shared.Objects fun object => ∀ m ∈ object.mappings, Clear m)
    (hplacing : ObjectDn.annotate shared = .ok placed)
    (hannotating : MetricPath.annotate placed = .ok prepared) :
    prepared.Objects (AtRest (((shared.field? Field.dnRoot).bind Node.text?).getD "")) := by
  rw [ObjectDn.annotate] at hplacing
  generalize ((shared.field? Field.dnRoot).bind Node.text?).getD "" = root at hplacing ⊢
  have hlocated : placed.Objects fun object => (∀ m ∈ object.mappings, Clear m) ∧
      ∀ owner, (ObjectDn.visit root owner).Rests none ⟨root, false⟩ object := by
    refine hclear.mapObjectTrees (fun owner object after hclear walking => ?_) hplacing
    exact ⟨(ObjectDn.visit_annotates root owner).walk_clear (by decide) (by decide) walking hclear,
      fun other => ObjectDn.rests_of_walk walking⟩
  refine hlocated.mapObjectTrees ?_ hannotating
  rintro owner object after ⟨hclear, rests⟩ walking
  exact ⟨MetricPath.visit_annotates.walk_clear (by decide) (by decide) walking hclear,
    fun owner => MetricPath.objectDn_rests walking (rests owner), MetricPath.rests_of_walk walking⟩

theorem shared_clear {normalized moved shared : Node}
    (hmoving : ChildSlots.rename normalized = .ok moved)
    (hsharing : SharedObject.replicate moved = .ok shared) :
    shared.Objects fun object => ∀ m ∈ object.mappings, Clear m :=
  SharedObject.objects_replicate hsharing
    ((Node.objects_trivial normalized).mapObjectTrees
      (fun _ _ _ _ walking => walk_clear walking) hmoving)

/-- A configuration that all passes but the first leave as it is. -/
structure Settled (tree : Node) : Prop where
  moved : ChildSlots.rename tree = .ok tree
  shared : SharedObject.replicate tree = .ok tree
  placed : ObjectDn.annotate tree = .ok tree
  named : MetricPath.annotate tree = .ok tree

theorem settled_of_run {tree prepared : Node}
    (hrunning : Pipeline.standard.run tree = .ok prepared) :
    Settled prepared := by
  obtain ⟨normalized, moved, shared, placed, _, moving, sharing, placing, annotating⟩ :=
    standard_run_iff.mp hrunning
  obtain ⟨root, isRoot⟩ := Node.mapping?_of_mapObjectTrees annotating
  have rest := objects_atRest (shared_clear moving sharing) placing annotating
  rw [ObjectDn.annotate] at placing
  have hdnRoot : prepared.field? Field.dnRoot = shared.field? Field.dnRoot :=
    (Node.mapObjectTrees_field?_of_ne annotating (by decide) (by decide)).trans
      (Node.mapObjectTrees_field?_of_ne placing (by decide) (by decide))
  have hsupplied : prepared.Supplied :=
    ((SharedObject.supplied_replicate sharing).mapObjectTrees placing).mapObjectTrees annotating
  refine ⟨Node.mapObjectTrees_fixed isRoot (rest.mono fun object rest owner => ?_),
    SharedObject.replicate_of_supplied isRoot hsupplied, ?_,
    Node.mapObjectTrees_fixed isRoot (rest.mono fun object rest owner => rest.named.walk)⟩
  · exact (rests_of_clear object.height (Nat.le_refl _) rest.clear none).walk
  · rw [ObjectDn.annotate, hdnRoot]
    exact Node.mapObjectTrees_fixed isRoot
      (rest.mono fun object rest owner => (rest.placed owner).walk)

section

variable {f : Mapping → Except ConfigError Mapping} {tree changed : Node}

theorem spelled_mapRoot
    (heach : ∀ root new, tree = .mapping root → f root = .ok new →
      Spelled .settings (.mapping root) → Spelled .settings (.mapping new))
    (hchanging : tree.mapRoot f = .ok changed) (hspelled : Spelled .settings tree) :
    Spelled .settings changed := by
  obtain ⟨root, new, isRoot, making, rfl⟩ := Node.mapRoot_eq_ok.mp hchanging
  cases tree with
  | mapping m =>
      cases isRoot
      exact heach root new rfl making hspelled
  | tagged tag content => exact .leaf (by simp [Node.withMapping]) (by simp [Node.withMapping])
  | _ => cases isRoot

theorem spelled_mapServers {Q : Mapping → Prop} {root new : Mapping}
    (heach : ∀ m new, Q m → f m = .ok new → Spelled .settings (.mapping m) →
      Spelled .settings (.mapping new))
    (hholds : ∀ servers, root.get? Field.ldapServers = some (.sequence servers) →
      ∀ m, .mapping m ∈ servers → Q m)
    (hserving : Node.mapServers f root = .ok new) (hspelled : Spelled .settings (.mapping root)) :
    Spelled .settings (.mapping new) := by
  rcases Mapping.modify_eq_ok hserving with ⟨_, rfl⟩ | ⟨listed, after, found, eq, rfl⟩
  · exact hspelled
  · have below : Spelled .settings listed := by
      cases hspelled with
      | leaf noMapping _ => exact absurd rfl (noMapping root)
      | mapping _ _ below => exact below _ (Mapping.mem_of_get? found)
    refine hspelled.set rfl ?_
    show Spelled .settings after
    cases listed with
    | sequence servers =>
        obtain ⟨changed, serversChanging, rfl⟩ := Except.map_eq_ok.mp eq
        cases below with
        | leaf _ noSequence => exact absurd rfl (noSequence servers)
        | sequence below =>
            have hplain : ∀ server ∈ servers, Spelled .settings server ∧ ∀ m, server = .mapping m →
              Q m :=
              fun server member => ⟨below server member, fun m eq => hholds _ found m (eq ▸ member)⟩
            refine .sequence (forall_mem_of_forall₂ (P := Spelled .settings)
              (((List.forall₂_and_left _ _).mpr ⟨hplain, Except.mapM_eq_ok.mp serversChanging⟩).imp
                ?_))
            rintro server after ⟨⟨hspelled, hholds⟩, changing⟩
            rw [Node.changeServer_eq] at changing
            cases server with
            | mapping m =>
                obtain ⟨new, making, rfl⟩ := Except.map_eq_ok.mp changing
                exact heach m new (hholds m rfl) making hspelled
            | tagged tag content =>
                split at changing
                · cases changing
                  exact hspelled
                · obtain ⟨new, _, rfl⟩ := Except.map_eq_ok.mp changing
                  exact .leaf (by simp [Node.withMapping]) (by simp [Node.withMapping])
            | _ =>
                cases changing
                exact hspelled
    | _ =>
        cases eq
        exact below

theorem spelled_object {m : Mapping} (hspelled : Spelled .settings (.mapping m)) {object : Node}
    (hown : m.get? Field.object = some object) : Spelled .node object := by
  cases hspelled with
  | leaf noMapping _ => exact absurd rfl (noMapping m)
  | mapping _ _ below => exact below _ (Mapping.mem_of_get? hown)

structure PlainObjects (P : Node → Prop) (root : Mapping) : Prop where
  shared : ∀ object, root.get? Field.object = some object → P object
  own : ∀ servers, root.get? Field.ldapServers = some (.sequence servers) →
    ∀ m, .mapping m ∈ servers → ∀ object, Mapping.get? Field.object m = some object → P object

theorem spelled_mapObjectTrees {P : Node → Prop} {f : Owner → Node → Except ConfigError Node}
    (heach : ∀ owner object new, P object → f owner object = .ok new → Spelled .node object →
      Spelled .node new)
    (hholds : ∀ root, tree = .mapping root → PlainObjects P root)
    (hchanging : tree.mapObjectTrees f = .ok changed) (hspelled : Spelled .settings tree) :
    Spelled .settings changed := by
  have object {owner : Owner} {m new : Mapping}
      (hholds : ∀ object, m.get? Field.object = some object → P object)
      (hchanging : m.modify Field.object (f owner) = .ok new)
      (hspelled : Spelled .settings (.mapping m)) : Spelled .settings (.mapping new) := by
    rcases Mapping.modify_eq_ok hchanging with ⟨_, rfl⟩ | ⟨object, after, own, eq, rfl⟩
    · exact hspelled
    · exact hspelled.set rfl (heach _ _ _ (hholds object own) eq (spelled_object hspelled own))
  refine spelled_mapRoot (fun root new isRoot making hspelled => ?_) hchanging hspelled
  obtain ⟨between, sharing, serving⟩ := Except.bind_eq_ok.mp making
  have hplain := hholds root isRoot
  have hothers := (modify_object_changed sharing).2.1 Field.ldapServers (by decide)
  refine spelled_mapServers (Q := fun m => ∀ object, m.get? Field.object = some object → P object)
    (fun m new hholds hchanging hspelled => object hholds hchanging hspelled)
    (fun servers found => ?_)
    serving (object hplain.shared sharing hspelled)
  rw [hothers] at found
  exact hplain.own servers found

theorem spelled_replicate (hsharing : SharedObject.replicate tree = .ok changed)
    (hspelled : Spelled .settings tree) : Spelled .settings changed := by
  refine spelled_mapRoot (fun root new _ giving hspelled => ?_) hsharing hspelled
  cases own : Mapping.get? Field.object root with
  | none =>
      rw [own] at giving
      cases giving
      exact hspelled
  | some shared =>
      rw [own] at giving
      refine spelled_mapServers (Q := fun _ => True) (fun m new _ given spelledServer => ?_)
        (fun _ _ _ _ => trivial) giving hspelled
      cases given
      rw [SharedObject.giveTo]
      split
      · exact spelledServer
      · rename_i without
        rw [← Mapping.set_of_get?_eq_none (by simpa [Mapping.has] using without)]
        exact spelledServer.set rfl (spelled_object hspelled own)

theorem plainObjects_of_isSteady {loose : Bool} {root : Mapping}
    (hsteady : isSteady .settings loose (.mapping root) = true) :
    PlainObjects (fun object => isSteady .node false object = true) root := by
  have hbelow {loose : Bool} {m : Mapping} (hsteady : isSteady .settings loose (.mapping m) = true)
      {object : Node} (own : m.get? Field.object = some object) :
      isSteady .node false object = true :=
    ((isSteady_mapping.mp hsteady) _ (Mapping.mem_of_get? own)).2
  refine ⟨fun object own => hbelow hsteady own, fun servers found m member object own => ?_⟩
  have hlisted := ((isSteady_mapping.mp hsteady) _ (Mapping.mem_of_get? found)).2
  exact hbelow ((isSteady_sequence.mp hlisted) _ member) own

theorem spelled_of_run {normalized prepared : Node} (hspelled : Spelled .settings normalized)
    (hsteady : isSteady .settings false normalized = true)
    (hnormalizing : normalize (ε := ConfigError) tree = .ok normalized)
    (hrunning : Pipeline.standard.run tree = .ok prepared) : Spelled .settings prepared := by
  obtain ⟨moved, shared, placed, moving, sharing, placing, annotating⟩ :=
    standard_run_eq_ok hnormalizing hrunning
  rw [ObjectDn.annotate] at placing
  have hanyObjects (root : Mapping) : PlainObjects (fun _ => True) root :=
    ⟨fun _ _ => trivial, fun _ _ _ _ _ _ => trivial⟩
  have hmovedSpelled : Spelled .settings moved := by
    refine spelled_mapObjectTrees (P := fun object => isSteady .node false object = true)
      (fun owner object new hsteady walking hspelled => ?_) (fun root isRoot => ?_) moving hspelled
    · exact spelled_of_walk walking
        ⟨by decide, hspelled, false, hsteady, fun isNames => by cases isNames⟩
    · exact plainObjects_of_isSteady (isRoot ▸ hsteady)
  have hplacedSpelled := spelled_mapObjectTrees (P := fun _ => True)
    (fun owner object new _ walking hspelled =>
      spelled_of_annotates (ObjectDn.visit_annotates _ owner) rfl walking hspelled)
    (fun root _ => hanyObjects root) placing (spelled_replicate sharing hmovedSpelled)
  exact spelled_mapObjectTrees (P := fun _ => True)
    (fun owner object new _ walking hspelled =>
      spelled_of_annotates MetricPath.visit_annotates rfl walking hspelled)
    (fun root _ => hanyObjects root) annotating hplacedSpelled

end

/-- Preparing a configuration again changes nothing: all passes but the first leave what the first
run made of it, and so does the first if no child of a node in a list had children that lost their
role. -/
theorem run_prepared {tree normalized prepared : Node}
    (hdistinct : ∀ m ∈ tree.mappings, m.DistinctKeys)
    (hascii : ∀ m ∈ tree.mappings, ∀ entry ∈ m, isAsciiKey entry.1 = true)
    (hnormalizing : normalize (ε := ConfigError) tree = .ok normalized)
    (hrunning : Pipeline.standard.run tree = .ok prepared) :
    Settled prepared ∧
      (isSteady .settings false normalized = true →
        Pipeline.standard.run prepared = .ok prepared) := by
  have hsettled := settled_of_run hrunning
  refine ⟨hsettled, fun steady => ?_⟩
  have hspelled := spelled_of_run (spelled_of_normalize hdistinct hascii hnormalizing) steady
    hnormalizing hrunning
  exact standard_run_iff.mpr ⟨prepared, prepared, prepared, prepared, hspelled.normalize,
    hsettled.moved, hsettled.shared, hsettled.placed, hsettled.named⟩

def site : Node :=
  .mapping
    [(.text "ldapServers", .sequence [.mapping [(.text "database", .text "main")]]),
      (.text "dnRoot", .text "o=site"),
      (.text "object", .mapping
        [(.text "rdn", .text "cn=Monitor"),
          (.text "metric", .mapping [(.text "unit", .mapping
            [(.text "attribute", .text "opsDone"), (.text "chosenStatistics", .null)])])])]

def keyNames (tree : Node) : List (List String) := tree.mappings.map (·.filterMap (·.1.keyName?))

theorem site_prepared : ∃ prepared, Pipeline.standard.run site = .ok prepared ∧
    keyNames prepared = [["ldap_servers", "dn_root", "object"], ["database", "object"],
      ["rdn", "metric", "computed_dn", "metric_name"], ["child1"],
      ["attribute", "chosen_statistics", "name", "computed_dn", "metric_name"],
      ["rdn", "metric", "computed_dn", "metric_name"], ["child1"],
      ["attribute", "chosen_statistics", "name", "computed_dn", "metric_name"]] ∧
    Pipeline.standard.run prepared = .ok prepared := by
  have steady : (normalize (ε := ConfigError) site).map (isSteady .settings false) = .ok true := by
    rfl
  obtain ⟨normalized, normalizing, steady⟩ := Except.map_eq_ok.mp steady
  obtain ⟨prepared, running, names⟩ := Except.map_toOption_eq_some.mp
    (show (Pipeline.standard.run site).toOption.map keyNames = some
      [["ldap_servers", "dn_root", "object"], ["database", "object"],
        ["rdn", "metric", "computed_dn", "metric_name"], ["child1"],
        ["attribute", "chosen_statistics", "name", "computed_dn", "metric_name"],
        ["rdn", "metric", "computed_dn", "metric_name"], ["child1"],
        ["attribute", "chosen_statistics", "name", "computed_dn", "metric_name"]]
      by decide +kernel)
  exact ⟨prepared, running, names,
    (run_prepared (by decide +kernel) (by decide +kernel) normalizing running).2 steady⟩

def nested : Node :=
  .mapping [(.text "object", .mapping [(.text "metric", .sequence
    [.mapping [(.text "metric", .mapping [(.text "object", .mapping [(.text "fooBar", .int 1)])])]])])]

theorem nested_respelled :
    (∀ m ∈ nested.mappings, m.DistinctKeys) ∧
      (∀ m ∈ nested.mappings, ∀ entry ∈ m, isAsciiKey entry.1 = true) ∧
      ∃ prepared again, Pipeline.standard.run nested = .ok prepared ∧
        Pipeline.standard.run prepared = .ok again ∧
        keyNames prepared = [["object"], ["metric"], ["metric"], ["child1"], ["fooBar", "name"]] ∧
        keyNames again = [["object"], ["metric"], ["metric"], ["child1"], ["foo_bar", "name"]] ∧
        prepared ≠ again := by
  obtain ⟨again, running, names⟩ := Except.map_toOption_eq_some.mp
    (show ((Pipeline.standard.run nested).bind Pipeline.standard.run).toOption.map keyNames = some
      [["object"], ["metric"], ["metric"], ["child1"], ["foo_bar", "name"]] by decide +kernel)
  obtain ⟨prepared, running, runningAgain⟩ := Except.bind_eq_ok.mp running
  have hbefore : (Pipeline.standard.run nested).toOption.map keyNames = some
      [["object"], ["metric"], ["metric"], ["child1"], ["fooBar", "name"]] := by decide +kernel
  rw [running] at hbefore
  have hnamesBefore : keyNames prepared =
      [["object"], ["metric"], ["metric"], ["child1"], ["fooBar", "name"]] :=
    Option.some.inj hbefore
  refine ⟨by decide +kernel, by decide +kernel, prepared, again, running, runningAgain,
    hnamesBefore,
    names, ?_⟩
  rintro rfl
  rw [hnamesBefore] at names
  exact absurd names (by decide)

end Preparation

end DirectoryMetrics
