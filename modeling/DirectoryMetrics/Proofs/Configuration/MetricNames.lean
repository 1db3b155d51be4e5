import DirectoryMetrics.Proofs.Configuration.Preparation
import DirectoryMetrics.Proofs.Tree.MovedNames

namespace DirectoryMetrics

namespace Node

def objectTrees (tree : Node) : List Node :=
  (tree.field? Field.object).toList ++ tree.serverEntries.filterMap (·.get? Field.object)

theorem serverEntries_mapping (root : Mapping) :
    (Node.mapping root).serverEntries =
      match (root.get? Field.ldapServers).bind Node.sequence? with
      | some items => items.filterMap Node.mapping?
      | none => [] := rfl

theorem mapping?_eq_none {node : Node} (huntagged : node.hasTag = false)
    (hnoMapping : ∀ m, node ≠ .mapping m) : node.mapping? = none := by
  cases node with
  | mapping m => exact absurd rfl (hnoMapping m)
  | tagged tag content => simp [hasTag] at huntagged
  | _ => rfl

theorem sequence?_eq_some {node : Node} {items : List Node} (huntagged : node.hasTag = false)
    (hlisted : node.sequence? = some items) : node = .sequence items := by
  cases node with
  | sequence items =>
      cases hlisted
      rfl
  | tagged tag content => simp [hasTag] at huntagged
  | _ => cases hlisted

theorem objectTrees_orderly {root : Mapping} (huntagged : (Node.mapping root).hasTag = false)
    (horderly : (Node.mapping root).Orderly) :
    ∀ object ∈ (Node.mapping root).objectTrees, object.Orderly := by
  have hunder {m : Mapping} (horderly : (Node.mapping m).Orderly) {field : String} {value : Node}
      (found : m.get? field = some value) : value.Orderly :=
    (Node.orderly_mapping.mp horderly).2 _ (Mapping.mem_of_get? found)
  intro object member
  rw [objectTrees, List.mem_append, Option.mem_toList, List.mem_filterMap] at member
  obtain shared | ⟨server, isEntry, own⟩ := member
  · exact hunder horderly shared
  · rw [serverEntries_mapping] at isEntry
    split at isEntry
    · rename_i items found
      obtain ⟨servers, field, listed⟩ := Option.bind_eq_some_iff.mp found
      have hplain := (hasTag_mapping.mp huntagged _ (Mapping.mem_of_get? field)).2
      obtain rfl := sequence?_eq_some hplain listed
      obtain ⟨entry, listed, isMapping⟩ := List.mem_filterMap.mp isEntry
      have hentryPlain := hasTag_sequence.mp hplain entry listed
      have hentryOrderly := (hunder horderly field).item listed
      cases entry with
      | mapping m =>
          cases isMapping
          exact hunder hentryOrderly own
      | tagged tag content => simp [hasTag] at hentryPlain
      | _ => cases isMapping
    · simp at isEntry

end Node

theorem forall₂_toList {α β : Type} {R : α → β → Prop} {x : Option α} {y : Option β}
    (hrelated : Option.Rel R x y) : List.Forall₂ R x.toList y.toList := by
  cases hrelated with
  | none => exact .nil
  | some hrelated => exact .cons hrelated .nil

theorem RootChange.objectTrees {R : Node → Node → Prop} {before after : Mapping}
    (hchange : RootChange (Option.Rel R) (Option.Rel R) before after)
    (huntagged : (Node.mapping before).hasTag = false) :
    List.Forall₂ R (Node.mapping before).objectTrees (Node.mapping after).objectTrees := by
  refine List.rel_append (forall₂_toList hchange.object) ?_
  have servers := hchange.servers
  rw [Node.serverEntries_mapping, Node.serverEntries_mapping]
  generalize found : before.get? Field.ldapServers = node at servers
  generalize after.get? Field.ldapServers = changed at servers
  cases servers with
  | none => exact .nil
  | @some node changed servers =>
      have plain := (Node.hasTag_mapping.mp huntagged _ (Mapping.mem_of_get? found)).2
      cases servers with
      | sequence items items' changes =>
          have huntaggedItems := Node.hasTag_sequence.mp plain
          have hentries : List.Forall₂
              (fun m m' : Mapping => Option.Rel R (m.get? Field.object) (m'.get? Field.object))
              (items.filterMap Node.mapping?) (items'.filterMap Node.mapping?) := by
            refine List.rel_filterMap ?_ ((List.forall₂_and_left _ _).mpr ⟨huntaggedItems, changes⟩)
            rintro entry entry' ⟨plain, hchange⟩
            cases hchange with
            | server before after _ object _ => exact .some object
            | other _ noMapping =>
                rw [Node.mapping?_eq_none plain noMapping]
                exact .none
          exact List.rel_filterMap (fun _ _ object => object) hentries
      | other _ noSequence =>
          cases node with
          | sequence items => exact absurd rfl (noSequence items)
          | tagged tag content => simp [Node.hasTag] at plain
          | _ => exact .nil

theorem map_eq_map_iff_of_forall₂ {α β γ δ : Type} {R : α → β → Prop} {S : α → γ → Prop}
    {P : α → Prop} {f : β → δ} {g : γ → δ}
    (heach : ∀ x y z, R x y → S x z → (f y = g z ↔ P x)) {xs : List α} {ys : List β} {zs : List γ}
    (hfirst : List.Forall₂ R xs ys) (hsecond : List.Forall₂ S xs zs) :
    ys.map f = zs.map g ↔ ∀ x ∈ xs, P x := by
  induction hfirst generalizing zs with
  | nil =>
      cases hsecond
      simp
  | cons head tail ih =>
      cases hsecond with
      | cons head' tail' =>
          rw [List.map_cons, List.map_cons, List.cons.injEq, heach _ _ _ head head', ih tail',
            List.forall_mem_cons]

namespace MetricPath

/-- The metric names that are written down in an object tree, parents before children. -/
def annotations (object : Node) : List String :=
  object.mappings.filterMap fun m => if m.isQueryable then m.text? Field.metricName else none

def written : Descent Unit String where
  own _ _ _ := ()
  gather _ m := if m.isQueryable then m.text? Field.metricName else none
  hidden _ := []
  childFields := []

theorem annotations_eq {object annotated : Node}
    (hannotating : object.walk (visit (ε := ConfigError)) "" = .ok annotated)
    (honce : ∀ m ∈ object.mappings, m.HoldsOnce Field.metricName) :
    annotations annotated = paths.node false none "" object := by
  have hgathered : annotations annotated = written.node false none () annotated :=
    (written.node_eq_filterMap (fun _ => rfl) rfl (fun _ _ _ => rfl) none () annotated).symm
  rw [hgathered]
  symm
  refine visit_annotates.descent_eq paths written (fun name _ => name) rfl rfl (fun m => rfl)
    ?_ hannotating honce ()
  intro place before m visited own walked visiting alike _
  have hqueryable := visit_annotates.isQueryable visiting alike (by decide) (by decide)
  refine ⟨(visit_own visiting).symm, ?_, rfl⟩
  simp only [paths, written, hqueryable]
  cases asked : m.isQueryable with
  | false => rfl
  | true => exact (visit_annotates.text?_field visiting alike asked).symm

open ChildSlots (everyChild isCollection staysNamed)

/-- What is written down in one object tree, with its children moved and with them where
they are. -/
theorem annotations_agree {object moved movedAfter after : Node} (horderly : object.Orderly)
    (hcollections : everyChild isCollection false object = true)
    (hmoving : object.walk (ChildSlots.visit (ε := ConfigError)) () = .ok moved)
    (hannotatingMoved : moved.walk (visit (ε := ConfigError)) "" = .ok movedAfter)
    (hannotating : object.walk (visit (ε := ConfigError)) "" = .ok after) :
    (annotations movedAfter).length = (annotations after).length ∧
      (annotations movedAfter = annotations after ↔ everyChild staysNamed false object = true) := by
  have honce {tree : Node} (horderly : tree.Orderly) :
      ∀ m ∈ tree.mappings, m.HoldsOnce Field.metricName :=
    fun m inside => (horderly m inside).1 _ (by decide)
  have hmovedOrderly := ChildSlots.walk_orderly hmoving horderly
  have hagree := (ChildSlots.walk_tracks hmoving).own horderly hcollections
  rw [annotations_eq hannotatingMoved (honce hmovedOrderly),
    annotations_eq hannotating (honce horderly)]
  refine ⟨(hagree.length "" "").symm, ?_⟩
  rw [eq_comm]
  exact hagree.eq_iff ""

theorem rename_isOk (root : Mapping) : ∃ tree, ChildSlots.rename (.mapping root) = .ok tree :=
  mapObjectTrees_isOk (fun _ object => object.walk_isOk (fun _ _ _ => ⟨_, rfl⟩) ()) root

/-- Moving the children of a configuration first, every metric name is written down that is
written down without, and they are the same names exactly if no moved child is named by its key. -/
theorem annotate_rename {root : Mapping} (huntagged : (Node.mapping root).hasTag = false)
    (hdistinct : ∀ m ∈ (Node.mapping root).mappings, m.DistinctKeys)
    (hcollections : ∀ object ∈ (Node.mapping root).objectTrees,
      everyChild isCollection false object = true) :
    ∃ moved movedAfter after, ChildSlots.rename (.mapping root) = .ok moved ∧
      annotate moved = .ok movedAfter ∧ annotate (.mapping root) = .ok after ∧
      movedAfter.objectTrees.map (fun object => (annotations object).length) =
        after.objectTrees.map (fun object => (annotations object).length) ∧
      (movedAfter.objectTrees.map annotations = after.objectTrees.map annotations ↔
        ∀ object ∈ (Node.mapping root).objectTrees,
          everyChild staysNamed false object = true) := by
  have orderly :=
    Node.objectTrees_orderly huntagged (Node.orderly_of_distinctKeys huntagged hdistinct)
  have hplain := Preparation.plainServers_of_untagged huntagged
  obtain ⟨_, moving⟩ := rename_isOk root
  obtain ⟨moved, rfl, moves⟩ := mapObjectTrees_change hplain moving
  obtain ⟨_, annotatingMoved⟩ := annotate_isOk moved
  obtain ⟨movedAfter, rfl, movedAnnotates⟩ :=
    mapObjectTrees_change (moves.plainServers hplain) annotatingMoved
  obtain ⟨_, annotating⟩ := annotate_isOk root
  obtain ⟨after, rfl, annotates⟩ := mapObjectTrees_change hplain annotating
  refine ⟨_, _, _, moving, annotatingMoved, annotating, ?_⟩
  have hinTurn (before between after : Option Node) :
      Changed (fun _ object => object.walk ChildSlots.visit ()) before between →
        Changed (fun _ object => object.walk visit "") between after →
        Option.Rel (fun before after => ∃ between,
          before.walk (ChildSlots.visit (ε := ConfigError)) () = .ok between ∧
            between.walk (visit (ε := ConfigError)) "" = .ok after) before after := by
    apply optionRel_comp
    rintro before between after ⟨_, moving⟩ ⟨_, annotating⟩
    exact ⟨between, moving, annotating⟩
  have hknown : ∀ object ∈ (Node.mapping root).objectTrees,
      object.Orderly ∧ everyChild isCollection false object = true :=
    fun object member => ⟨orderly object member, hcollections object member⟩
  have hmovedTrees := (List.forall₂_and_left _ _).mpr
    ⟨hknown, (moves.comp movedAnnotates hinTurn hinTurn).objectTrees huntagged⟩
  have htrees := RootChange.objectTrees
    (R := fun before after => ∃ _ : Owner, before.walk (visit (ε := ConfigError)) "" = .ok after)
    annotates huntagged
  constructor
  · refine (map_eq_map_iff_of_forall₂ (P := fun _ => True) ?_ hmovedTrees htrees).mpr
      fun _ _ => trivial
    rintro object movedAfter after ⟨⟨orderly, hcollections⟩, moved, moving, annotatingMoved⟩
      ⟨_, annotating⟩
    exact iff_true_intro
      (annotations_agree orderly hcollections moving annotatingMoved annotating).1
  · refine map_eq_map_iff_of_forall₂ ?_ hmovedTrees htrees
    rintro object movedAfter after ⟨⟨orderly, hcollections⟩, moved, moving, annotatingMoved⟩
      ⟨_, annotating⟩
    exact (annotations_agree orderly hcollections moving annotatingMoved annotating).2

def monitored : Mapping :=
  [(.text "object", .mapping
      [(.text "rdn", .text "cn=Monitor"),
        (.text "metric", .mapping
          [(.text "description", .mapping [(.text "attribute", .text "opsDone")]),
            (.text "children", .mapping
              [(.text "attribute", .text "waited"), (.text "name", .text "waits")]),
            (.text "reads", .sequence [.mapping [(.text "attribute", .text "readsDone")]])])])]

theorem monitored_annotations :
    ∃ moved movedAfter after, ChildSlots.rename (.mapping monitored) = .ok moved ∧
      annotate moved = .ok movedAfter ∧ annotate (.mapping monitored) = .ok after ∧
      movedAfter.objectTrees.map annotations = after.objectTrees.map annotations ∧
      after.objectTrees.map annotations = [["", "description", "waits", "reads"]] := by
  have hwritten : (annotate (.mapping monitored)).toOption.map (·.objectTrees.map annotations) =
      some [["", "description", "waits", "reads"]] := by decide +kernel
  obtain ⟨moved, movedAfter, after, moving, annotatingMoved, annotating, _, same⟩ :=
    annotate_rename (show (Node.mapping monitored).hasTag = false by decide +kernel)
      (by decide +kernel) (by decide +kernel)
  refine ⟨moved, movedAfter, after, moving, annotatingMoved, annotating,
    same.mpr (by decide +kernel), ?_⟩
  rw [annotating] at hwritten
  exact Option.some.inj hwritten

def listed : Mapping :=
  [(.text "object", .mapping
      [(.text "rdn", .text "cn=Monitor"),
        (.text "metric", .mapping
          [(.text "unit", .sequence
              [.mapping [(.text "attribute", .text "opsDone"), (.text "unit", .text "1")]])])])]

theorem listed_annotations :
    (Node.mapping listed).hasTag = false ∧
      (∀ m ∈ (Node.mapping listed).mappings, m.DistinctKeys) ∧
      (∀ object ∈ (Node.mapping listed).objectTrees,
        everyChild isCollection false object = true) ∧
      (annotate (.mapping listed)).toOption.map (·.objectTrees.map annotations) =
        some [["", "unit"]] ∧
      ((ChildSlots.rename (.mapping listed)).bind annotate).toOption.map
        (·.objectTrees.map annotations) = some [["", "child1"]] := by
  decide +kernel

end MetricPath

end DirectoryMetrics
