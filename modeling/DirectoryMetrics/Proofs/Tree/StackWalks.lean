import DirectoryMetrics.Proofs.Tree.Annotation
import DirectoryMetrics.Proofs.Tree.EndingWalks
import DirectoryMetrics.Proofs.Tree.Expansion
import DirectoryMetrics.Proofs.Tree.PreOrder
import DirectoryMetrics.Proofs.Tree.Spelling
import Mathlib.Data.List.Nodup

namespace DirectoryMetrics

variable {σ ε κ : Type} {visit : StatefulVisitor σ ε κ}

/-- Entries that are no collections are added, or take the place of such. -/
inductive Mapping.Retouched : Mapping → Mapping → Prop where
  | nil : Retouched [] []
  | kept {m m' : Mapping} (entry : Node × Node) (rest : Retouched m m') :
      Retouched (entry :: m) (entry :: m')
  | replaced {m m' : Mapping} (key : Node) {old new : Node} (scalar : old.isCollection = false)
      (scalarNew : new.isCollection = false) (rest : Retouched m m') :
      Retouched ((key, old) :: m) ((key, new) :: m')
  | added {m m' : Mapping} (key : Node) {new : Node} (scalar : new.isCollection = false)
      (rest : Retouched m m') : Retouched m ((key, new) :: m')

theorem Mapping.Retouched.refl (m : Mapping) : m.Retouched m := by
  induction m with
  | nil => exact .nil
  | cons entry _ ih => exact .kept entry ih

theorem Mapping.Retouched.set {m : Mapping} {name : String} {new : Node}
    (hscalar : (m.get? name).all fun old => !old.isCollection)
    (hscalarNew : new.isCollection = false) : m.Retouched (m.set name new) := by
  induction m with
  | nil => exact .added _ hscalarNew .nil
  | cons entry rest ih =>
      obtain ⟨key, value⟩ := entry
      rw [Mapping.get?] at hscalar
      rw [Mapping.set]
      split
      · rename_i here
        rw [if_pos here] at hscalar
        exact .replaced key (Bool.not_eq_true' _ ▸ hscalar) hscalarNew (.refl rest)
      · rename_i elsewhere
        rw [if_neg elsewhere] at hscalar
        exact .kept _ (ih hscalar)

def StatefulVisitor.Retouches (visit : StatefulVisitor σ ε κ) : Prop :=
  ∀ state place inherited m, Mapping.Retouched m (visit state place inherited m).mapping

theorem Node.isCollection_eq_false {node : Node} (hscalar : node.isCollection = false) :
    (∀ m, node ≠ .mapping m) ∧ ∀ items, node ≠ .sequence items := by
  constructor
  · rintro m rfl
    cases hscalar
  · rintro items rfl
    cases hscalar

theorem Node.mappings_of_scalar {node : Node} (hscalar : node.isCollection = false) :
    node.mappings = [] :=
  Node.mappings_eq_nil (isCollection_eq_false hscalar).1 (isCollection_eq_false hscalar).2

theorem Node.height_of_scalar {node : Node} (hscalar : node.isCollection = false) :
    node.height = 0 := by
  cases node <;> first | rfl | cases hscalar

theorem Mapping.Retouched.entriesMappings_eq {m m' : Mapping} (hretouched : m.Retouched m') :
    Node.entriesMappings m' = Node.entriesMappings m := by
  induction hretouched with
  | nil => rfl
  | kept entry _ ih => rw [Node.entriesMappings, Node.entriesMappings, ih]
  | replaced key scalar scalarNew _ ih =>
      rw [Node.entriesMappings, Node.entriesMappings, Node.mappings_of_scalar scalar,
        Node.mappings_of_scalar scalarNew, ih]
  | added key scalar _ ih =>
      rw [Node.entriesMappings, Node.mappings_of_scalar scalar, ih, List.nil_append]

theorem Mapping.Retouched.entriesHeight_eq {m m' : Mapping} (hretouched : m.Retouched m') :
    Node.entriesHeight m' = Node.entriesHeight m := by
  induction hretouched with
  | nil => rfl
  | kept entry _ ih => rw [Node.entriesHeight, Node.entriesHeight, ih]
  | replaced key scalar scalarNew _ ih =>
      rw [Node.entriesHeight, Node.entriesHeight, Node.height_of_scalar scalar,
        Node.height_of_scalar scalarNew, ih]
  | added key scalar _ ih =>
      rw [Node.entriesHeight, Node.height_of_scalar scalar, ih, Nat.zero_max]

theorem StatefulVisitor.Retouches.shallow (hretouches : visit.Retouches) : visit.Shallow := by
  intro state place inherited m after visited own visiting
  have hretouched := hretouches state place inherited m
  rw [visiting] at hretouched
  exact Nat.le_of_eq hretouched.entriesHeight_eq

mutual

/-- A visitor that changes scalars only gets the mappings of a tree as they stand there. -/
theorem Traverses.retouches (hretouches : visit.Retouches) {frame : Frame κ} {state : σ}
    {node : Node} {walked : Walked σ ε κ Node} :
    Traverses visit frame state node walked →
      Reaches walked.visits node.mappings walked.outcome fun v m => v.mapping = m
  | .leaf noMapping noSequence => by
      rw [Node.mappings_eq_nil noMapping noSequence]
      exact ⟨[], [], rfl, .nil, fun _ => rfl⟩
  | .refused _ => ⟨[_], _, rfl, .cons rfl .nil, fun ok => by cases ok⟩
  | .mapping visiting children => by
      rename_i after m visited own below
      have hretouched := hretouches state frame.place frame.inherited m
      rw [visiting] at hretouched
      have hlater := children.retouches hretouches
      rw [Frame.map_snd_children, ← Node.entriesMappings_eq_children,
        hretouched.entriesMappings_eq] at hlater
      exact .cons rfl hlater
  | .sequence children => by
      have hlater := children.retouches hretouches
      rw [Frame.map_snd_children] at hlater
      rw [Node.mappings, Node.itemsMappings_eq_flatMap]
      exact hlater

theorem TraversesAll.retouches (hretouches : visit.Retouches) {state : σ}
    {pending : List (Frame κ × Node)} {walked : Walked σ ε κ (List Node)} :
    TraversesAll visit state pending walked →
      Reaches walked.visits ((pending.map Prod.snd).flatMap Node.mappings) walked.outcome
        fun v m => v.mapping = m
  | .nil => ⟨[], [], rfl, .nil, fun _ => rfl⟩
  | .stopped traverses _ => (traverses.retouches hretouches).stopped _
  | .cons traverses goes others =>
      (traverses.retouches hretouches).append goes (others.retouches hretouches)

end

namespace Node

theorem flatMap_mappings_filter (nodes : List Node) :
    (nodes.filter isCollection).flatMap mappings = nodes.flatMap mappings := by
  induction nodes with
  | nil => rfl
  | cons node rest ih =>
      by_cases collection : node.isCollection = true
      · rw [List.filter_cons_of_pos collection, List.flatMap_cons, List.flatMap_cons, ih]
      · rw [List.filter_cons_of_neg collection, ih, List.flatMap_cons,
          mappings_of_scalar (Bool.not_eq_true _ ▸ collection), List.nil_append]

theorem flatMap_mappings_next? (stack : List Node) :
    stack.flatMap mappings =
      match next? stack with
      | none => []
      | some (m, rest) => m :: rest.flatMap mappings := by
  fun_induction next? stack with
  | case1 => rfl
  | case2 entries rest =>
      dsimp only
      rw [List.flatMap_cons, mappings, entriesMappings_eq_children, List.flatMap_append,
        flatMap_mappings_filter]
      rfl
  | case3 items rest ih =>
      rw [← ih, List.flatMap_append, List.flatMap_cons, mappings, itemsMappings_eq_flatMap]
  | case4 node rest noMapping noSequence ih =>
      rw [← ih, List.flatMap_cons, mappings_eq_nil noMapping noSequence, List.nil_append]

/-- The iterator comes to all mappings of the nodes on its stack, parents before children. -/
theorem iterate_eq_flatMap (stack : List Node) : iterate stack = stack.flatMap mappings := by
  fun_induction iterate stack with
  | case1 stack none =>
      rw [flatMap_mappings_next?, none]
  | case2 stack m rest some ih =>
      rw [flatMap_mappings_next?, some, ih]

theorem iterate_singleton (tree : Node) : iterate [tree] = tree.mappings := by
  rw [iterate_eq_flatMap, List.flatMap_singleton]

end Node

inductive Visitor.OfPass : {κ : Type} → Visitor ConfigError κ → Prop where
  | keySpelling : OfPass KeySpelling.visit
  | childSlots : OfPass ChildSlots.visit
  | objectDn (root : String) (owner : Owner) : OfPass (ObjectDn.visit root owner)
  | metricPath : OfPass MetricPath.visit
  | placeholder (values : Placeholder.Values) (server : String) :
      OfPass (Placeholder.visit values server)

theorem Visitor.OfPass.shallow {visitor : Visitor ConfigError κ} (hpass : visitor.OfPass) :
    visitor.Shallow := by
  cases hpass with
  | keySpelling => exact KeySpelling.visit_shallow
  | childSlots => exact ChildSlots.visit_shallow
  | objectDn root owner => exact (ObjectDn.visit_annotates root owner).shallow
  | metricPath => exact MetricPath.visit_annotates.shallow
  | placeholder values server => exact (Placeholder.visit_separate values server).shallow

namespace Walking

variable {tree : Node} {state : σ} {inherited : κ} {ended : Walked σ ε κ Node}

theorem Ends.ordered (hends : Ends visit (.start tree state inherited) ended) :
    ended.visits.Pairwise fun v v' => v.frame.address < v'.frame.address :=
  (ends_iff_traverses.mp hends).ascending.ordered

theorem Ends.reaches (hends : Ends visit (.start tree state inherited) ended) :
    Reaches ended.visits ended.left.mappings ended.outcome fun v m =>
      ended.left.at? v.frame.address = some (.mapping m) := by
  refine (ends_iff_traverses.mp hends).reaches.imp ?_
  rintro v m ⟨rest, eq, there⟩
  rw [eq]
  exact there

theorem Ends.visited_once (hends : Ends visit (.start tree state inherited) ended)
    (hgoes : ended.outcome = .ok ()) {address : Address} {m : Mapping}
    (hthere : ended.left.at? address = some (.mapping m)) :
    ∃! v, v ∈ ended.visits ∧ v.frame.address = address := by
  obtain ⟨v, inside, eq⟩ := (ends_iff_traverses.mp hends).exists_visit hgoes hthere
  have hapart : (ended.visits.map (·.frame.address)).Nodup := by
    refine List.pairwise_map.mpr (hends.ordered.imp ?_)
    intro v v' less same
    rw [same] at less
    exact List.lt_irrefl _ less
  refine ⟨v, ⟨inside, eq⟩, fun v' ⟨inside', eq'⟩ => ?_⟩
  exact List.inj_on_of_nodup_map hapart inside' inside (eq'.trans eq.symm)

theorem Ends.iterates (hretouches : visit.Retouches)
    (hends : Ends visit (.start tree state inherited) ended) :
    Reaches ended.visits (Node.iterate [tree]) ended.outcome fun v m => v.mapping = m := by
  rw [Node.iterate_singleton]
  exact (ends_iff_traverses.mp hends).retouches hretouches

theorem exists_ends (hsettles : Acc (Below visit) (.root inherited, tree)) (state : σ) :
    ∃ ended, Ends visit (.start tree state inherited) ended := by
  obtain ⟨ended, traverses⟩ := exists_traverses hsettles state
  exact ⟨ended, ends_iff_traverses.mpr traverses⟩

theorem Ends.walk_eq {visitor : Visitor ε κ} (hshallow : visitor.Shallow)
    {ended : Walked Unit ε κ Node}
    (hends : Ends visitor.stateful (.start tree () inherited) ended) :
    tree.walk visitor inherited = ended.outcome.map fun _ => ended.left :=
  (ends_iff_traverses.mp hends).walkWithin hshallow (Nat.le_refl _)

/-- The loop and the recursion for one visitor and one tree. The loop ends where the recursion does
and as it does; so it ends if mappings are not nested without end, as with a visitor that nests none
deeper. The visits go through the mappings that are left in their order, and to all of them, each
once, if no visit ends with an error; a visitor that changes scalars only gets those that the
iterator comes to. -/
structure Recursive (visit : StatefulVisitor σ ε κ) (tree : Node) (state : σ) (inherited : κ) :
    Prop where
  ends_iff : ∀ ended, Ends visit (.start tree state inherited) ended ↔
    Traverses visit (.root inherited) state tree ended
  unique : ∀ ended ended', Ends visit (.start tree state inherited) ended →
    Ends visit (.start tree state inherited) ended' → ended = ended'
  settled : Acc (Below visit) (.root inherited, tree) →
    ∃ ended, Ends visit (.start tree state inherited) ended
  shallow : visit.Shallow → Acc (Below visit) (.root inherited, tree)
  ordered : ∀ ended, Ends visit (.start tree state inherited) ended →
    ended.visits.Pairwise fun v v' => v.frame.address < v'.frame.address
  reaches : ∀ ended, Ends visit (.start tree state inherited) ended →
    Reaches ended.visits ended.left.mappings ended.outcome fun v m =>
      ended.left.at? v.frame.address = some (.mapping m)
  visited_once : ∀ ended, Ends visit (.start tree state inherited) ended → ended.outcome = .ok () →
    ∀ address m, ended.left.at? address = some (.mapping m) →
      ∃! v, v ∈ ended.visits ∧ v.frame.address = address
  iterates : visit.Retouches → ∃ ended, Ends visit (.start tree state inherited) ended ∧
    Reaches ended.visits (Node.iterate [tree]) ended.outcome fun v m => v.mapping = m

/-- Walks with a stack are recursions. Only a visitor that nests mappings without end makes both go
on, and no pass has such a visitor; the walk down to the height of a tree and the list of its
mappings are the loops. -/
theorem walks_recursively :
    (∀ {σ ε κ : Type} (visit : StatefulVisitor σ ε κ) (tree : Node) (state : σ) (inherited : κ),
      Recursive visit tree state inherited) ∧
    (∀ {ε κ : Type} (visitor : Visitor ε κ) (tree : Node) (inherited : κ)
      (ended : Walked Unit ε κ Node), Ends visitor.stateful (.start tree () inherited) ended →
      ended.outcome = .ok () → Acc (Below visitor.stateful) (.root inherited, tree)) ∧
    (∀ {ε κ : Type} (visitor : Visitor ε κ), visitor.Shallow →
      ∀ (tree : Node) (inherited : κ), ∃ ended,
        Ends visitor.stateful (.start tree () inherited) ended ∧
        tree.walk visitor inherited = ended.outcome.map fun _ => ended.left) ∧
    (∀ {κ : Type} (visitor : Visitor ConfigError κ), visitor.OfPass → visitor.Shallow) ∧
    ∀ tree : Node, Node.iterate [tree] = tree.mappings := by
  refine ⟨fun visit tree state inherited => ?_, fun visitor tree inherited ended ends goes => ?_,
    fun visitor shallow tree inherited => ?_, fun _ => Visitor.OfPass.shallow,
    Node.iterate_singleton⟩
  · exact {
      ends_iff := fun _ => ends_iff_traverses
      unique := fun _ _ => Ends.unique
      settled := fun settles => exists_ends settles state
      shallow := fun shallow => shallow.acc _
      ordered := fun _ => Ends.ordered
      reaches := fun _ => Ends.reaches
      visited_once := fun _ ends goes _ _ => ends.visited_once goes
      iterates := fun retouches => by
        obtain ⟨ended, ends⟩ := exists_ends (retouches.shallow.acc _) state
        exact ⟨ended, ends, ends.iterates retouches⟩ }
  · exact acc_of_traverses (ends_iff_traverses.mp ends) goes
  · obtain ⟨ended, ends⟩ := exists_ends (shallow.stateful.acc _) ()
    exact ⟨ended, ends, ends.walk_eq shallow⟩

def numbering : StatefulVisitor Nat Unit Unit := fun count _ _ m =>
  ⟨count + 1, if (m.get? "number").all (!·.isCollection) then m.set "number" (.int count) else m,
    .ok ()⟩

theorem numbering_retouches : numbering.Retouches := by
  intro count _ _ m
  rw [numbering]
  split
  · rename_i scalar
    exact .set scalar rfl
  · exact .refl m

def grove : Node :=
  .mapping [(.text "a", .mapping [
    (.text "b", .mapping [(.text "x", .int 1)]),
    (.text "c", .sequence [.mapping [(.text "d", .mapping [(.text "y", .int 2)])]]),
    (.text "e", .tagged "!t" (.mapping []))])]

theorem numbering_walks_recursively : numbering.Retouches ∧ ∃ ended,
    Ends numbering (.start grove 0 ()) ended ∧ ended.state = 5 ∧
    ended.visits.map (·.frame.address) = [[], [0], [0, 0], [0, 1, 0], [0, 1, 0, 0]] ∧
    Reaches ended.visits (Node.iterate [grove]) ended.outcome fun v m => v.mapping = m := by
  obtain ⟨ended, ends, iterates⟩ :=
    (walks_recursively.1 numbering grove 0 ()).iterates numbering_retouches
  have hrun : ∃ ended', Ends numbering (.start grove 0 ()) ended' ∧ ended'.state = 5 ∧
      ended'.visits.map (·.frame.address) = [[], [0], [0, 0], [0, 1, 0], [0, 1, 0, 0]] :=
    ⟨_, .more rfl (.more rfl (.more rfl (.more rfl (.more rfl (.more rfl (.more rfl
      (.last rfl))))))), rfl, rfl⟩
  obtain ⟨ended', ends', five, addresses⟩ := hrun
  cases ends.unique ends'
  exact ⟨numbering_retouches, ended, ends, five, addresses, iterates⟩

/-- Gives every mapping a mapping of defaults, which is one more mapping to be given one. -/
def nesting : Visitor Unit Unit := fun _ _ m => .ok (m.set "defaults" (.mapping []), ())

mutual

theorem not_traverses_nesting {frame : Frame Unit} {state : Unit} {node : Node}
    {walked : Walked Unit Unit Unit Node} :
    Traverses nesting.stateful frame state node walked → node ≠ .mapping []
  | .leaf hnoMapping _ => hnoMapping []
  | .refused hvisiting => by cases hvisiting
  | .mapping hvisiting hchildren => by
      have hbelow := not_traversesAll_nesting hchildren
      rintro ⟨⟩
      cases hvisiting
      exact hbelow rfl
  | .sequence _ => nofun

theorem not_traversesAll_nesting {state : Unit} {pending : List (Frame Unit × Node)}
    {walked : Walked Unit Unit Unit (List Node)} :
    TraversesAll nesting.stateful state pending walked → pending.map Prod.snd ≠ [.mapping []]
  | .nil => nofun
  | .stopped htraverses _ => fun hpending =>
      not_traverses_nesting htraverses (List.cons.inj hpending).1
  | .cons htraverses _ _ => fun hpending =>
      not_traverses_nesting htraverses (List.cons.inj hpending).1

end

def keyed : Node := .mapping [(.mapping [(.text "fooBar", .int 1)], .int 2)]

/-- Not every visitor comes to an end, and a mapping in a key is not visited. -/
theorem nesting_never_ends :
    (¬∃ ended, Ends nesting.stateful (.start (.mapping []) () ()) ended) ∧
    ∃ ended, Ends (KeySpelling.visit (ε := Unit)).stateful (.start keyed () .settings) ended ∧
      ended.outcome = .ok () ∧ ended.left = keyed ∧
      ended.visits.map (·.mapping) = [[(.mapping [(.text "fooBar", .int 1)], .int 2)]] := by
  constructor
  · rintro ⟨ended, hends⟩
    exact not_traverses_nesting (ends_iff_traverses.mp hends) rfl
  · exact ⟨_, .more rfl (.last rfl), rfl, rfl, rfl⟩

end Walking

end DirectoryMetrics
