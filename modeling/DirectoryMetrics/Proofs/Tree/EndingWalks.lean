import DirectoryMetrics.Proofs.Tree.Recursion

namespace DirectoryMetrics

variable {σ ε κ : Type} {visit : StatefulVisitor σ ε κ}

/-- What a recursion comes to from a node: a child that a visitor leaves, or an item. -/
inductive Below (visit : StatefulVisitor σ ε κ) : Frame κ × Node → Frame κ × Node → Prop where
  | entry {frame : Frame κ} {state after : σ} {m visited : Mapping} {own : κ} {x : Frame κ × Node}
      (visiting : visit state frame.place frame.inherited m = ⟨after, visited, .ok own⟩)
      (inside : x ∈ frame.children own (.mapping visited)) : Below visit x (frame, .mapping m)
  | item {frame : Frame κ} {items : List Node} {x : Frame κ × Node}
      (inside : x ∈ frame.children frame.inherited (.sequence items)) :
      Below visit x (frame, .sequence items)

theorem exists_traversesAll {pending : List (Frame κ × Node)}
    (heach : ∀ x ∈ pending, ∀ state, ∃ walked, Traverses visit x.1 state x.2 walked) (state : σ) :
    ∃ walked, TraversesAll visit state pending walked := by
  induction pending generalizing state with
  | nil => exact ⟨_, .nil⟩
  | cons x rest ih =>
      rw [List.forall_mem_cons] at heach
      obtain ⟨first, traverses⟩ := heach.1 state
      cases outcome : first.outcome with
      | error e => exact ⟨_, .stopped traverses outcome⟩
      | ok =>
          obtain ⟨later, others⟩ := ih heach.2 first.state
          exact ⟨_, .cons traverses outcome others⟩

/-- A recursion ends if nothing is nested below its node without end. -/
theorem exists_traverses {x : Frame κ × Node} (hsettles : Acc (Below visit) x) (state : σ) :
    ∃ walked, Traverses visit x.1 state x.2 walked := by
  induction hsettles generalizing state with
  | intro x _ ih =>
      obtain ⟨frame, node⟩ := x
      cases node with
      | mapping m =>
          rcases visiting : visit state frame.place frame.inherited m with
            ⟨after, visited, e | own⟩
          · exact ⟨_, .refused visiting⟩
          · obtain ⟨below, children⟩ := exists_traversesAll
              (fun x inside => ih x (.entry visiting inside)) after
            exact ⟨_, .mapping visiting children⟩
      | sequence items =>
          obtain ⟨below, children⟩ := exists_traversesAll
            (fun x inside => ih x (.item inside)) state
          exact ⟨_, .sequence children⟩
      | _ => exact ⟨_, .leaf (by simp) (by simp)⟩

mutual

/-- For a visitor without a state there is no other way to end but with an error. -/
theorem acc_of_traverses {visit : Visitor ε κ} {frame : Frame κ} {state : Unit} {node : Node}
    {walked : Walked Unit ε κ Node} :
    Traverses visit.stateful frame state node walked → walked.outcome = .ok () →
      Acc (Below visit.stateful) (frame, node)
  | .leaf noMapping noSequence, _ => by
      refine .intro _ fun x below => ?_
      cases below with
      | entry => exact absurd rfl (noMapping _)
      | item => exact absurd rfl (noSequence _)
  | .mapping visiting children, goes => by
      refine .intro _ fun x below => ?_
      cases below with
      | entry visiting' inside =>
          cases visiting.symm.trans visiting'
          exact acc_of_traversesAll children goes x inside
  | .sequence children, goes => by
      refine .intro _ fun x below => ?_
      cases below with
      | item inside => exact acc_of_traversesAll children goes x inside

theorem acc_of_traversesAll {visit : Visitor ε κ} {state : Unit} {pending : List (Frame κ × Node)}
    {walked : Walked Unit ε κ (List Node)} :
    TraversesAll visit.stateful state pending walked → walked.outcome = .ok () →
      ∀ x ∈ pending, Acc (Below visit.stateful) x
  | .nil, _ => by simp
  | .cons traverses goes others, ends =>
      List.forall_mem_cons.mpr ⟨acc_of_traverses traverses goes, acc_of_traversesAll others ends⟩

end

namespace Visitor

variable {visitor : Visitor ε κ} {state after : Unit} {place : Place} {inherited : κ}
  {m visited : Mapping}

theorem stateful_ok {own : κ}
    (hvisiting : visitor.stateful state place inherited m = ⟨after, visited, .ok own⟩) :
    visitor place inherited m = .ok (visited, own) := by
  unfold stateful at hvisiting
  split at hvisiting
  · rename_i eq
    cases hvisiting
    exact eq
  · cases hvisiting

theorem stateful_error {e : ε}
    (hvisiting : visitor.stateful state place inherited m = ⟨after, visited, .error e⟩) :
    visitor place inherited m = .error e := by
  unfold stateful at hvisiting
  split at hvisiting
  · cases hvisiting
  · rename_i eq
    cases hvisiting
    exact eq

end Visitor

/-- What a visitor leaves of a mapping is not nested deeper than the mapping was. -/
def StatefulVisitor.Shallow (visit : StatefulVisitor σ ε κ) : Prop :=
  ∀ state place inherited m after visited own,
    visit state place inherited m = ⟨after, visited, .ok own⟩ →
      Node.entriesHeight visited ≤ Node.entriesHeight m

theorem Visitor.Shallow.stateful {visit : Visitor ε κ} (hshallow : visit.Shallow) :
    visit.stateful.Shallow := by
  intro state place inherited m after visited own visiting
  exact hshallow _ _ _ _ _ (stateful_ok visiting)

theorem Node.height_lt_of_mem_children {node child : Node} (hinside : child ∈ node.children) :
    child.height < node.height := by
  cases node with
  | mapping entries =>
      obtain ⟨entry, member, rfl⟩ := List.mem_map.mp hinside
      exact Nat.lt_succ_of_le (Node.entriesHeight_le_iff.mp (Nat.le_refl _) entry member)
  | sequence items =>
      exact Nat.lt_succ_of_le (Node.itemsHeight_le_iff.mp (Nat.le_refl _) child hinside)
  | _ => cases hinside

theorem Frame.height_lt_of_mem_children {frame : Frame κ} {own : κ} {node : Node}
    {x : Frame κ × Node} (hinside : x ∈ frame.children own node) : x.2.height < node.height :=
  Node.height_lt_of_mem_children
    (Frame.map_snd_children frame own node ▸ List.mem_map_of_mem hinside)

theorem Frame.children_height_le {frame : Frame κ} {own : κ} {node : Node} {depth : Nat}
    (hbound : node.height ≤ depth + 1) : ∀ x ∈ frame.children own node, x.2.height ≤ depth :=
  fun _ inside => Nat.le_of_lt_succ (Nat.lt_of_lt_of_le (height_lt_of_mem_children inside) hbound)

theorem StatefulVisitor.Shallow.acc (hshallow : visit.Shallow) (x : Frame κ × Node) :
    Acc (Below visit) x := by
  refine Subrelation.accessible ?_ ((InvImage.wf (fun x => x.2.height) Nat.lt_wfRel.wf).apply x)
  intro y x below
  cases below with
  | entry visiting inside =>
      exact Nat.lt_of_lt_of_le (Frame.height_lt_of_mem_children inside)
        (Nat.succ_le_succ (hshallow _ _ _ _ _ _ _ visiting))
  | item inside => exact Frame.height_lt_of_mem_children inside

namespace Node

theorem walkWithin_leaf {visitor : Visitor ε κ} {node : Node} (hnoMapping : ∀ m, node ≠ .mapping m)
    (hnoSequence : ∀ items, node ≠ .sequence items) (depth : Nat) (place : Place) (inherited : κ) :
    walkWithin visitor depth place inherited node = .ok node := by
  cases depth with
  | zero => rw [walkWithin] <;> simp
  | succ depth =>
      cases node with
      | mapping m => exact absurd rfl (hnoMapping m)
      | sequence items => exact absurd rfl (hnoSequence items)
      | _ => rfl

theorem mapM_values (walk : Node × Node → Except ε Node) (entries : Mapping) :
    (entries.mapM fun entry => do return (entry.1, ← walk entry)) =
      (entries.mapM walk).map (List.zipWith (fun entry child => (entry.1, child)) entries) := by
  induction entries with
  | nil => rfl
  | cons entry rest ih =>
      rw [List.mapM_cons, List.mapM_cons, ih]
      cases walk entry with
      | error e => rfl
      | ok child =>
          cases rest.mapM walk with
          | error e => rfl
          | ok children => rfl

def walkChildren (visitor : Visitor ε κ) (depth : Nat) (pending : List (Frame κ × Node)) :
    Except ε (List Node) :=
  pending.mapM fun x => walkWithin visitor depth x.1.place x.1.inherited x.2

theorem walkWithin_mapping_children {visitor : Visitor ε κ} {depth : Nat} {frame : Frame κ}
    {m visited : Mapping} {own : κ}
    (hvisiting : visitor frame.place frame.inherited m = .ok (visited, own)) :
    walkWithin visitor (depth + 1) frame.place frame.inherited (.mapping m) =
      (walkChildren visitor depth (frame.children own (.mapping visited))).map
        (Node.mapping visited).withChildren := by
  have hvalues : walkChildren visitor depth (frame.children own (.mapping visited)) =
      visited.mapM fun entry =>
        walkWithin visitor depth (frame.place.child entry.1) own entry.2 := by
    rw [walkChildren, Frame.children, List.mapM_map]
    conv => rhs; rw [← List.zipIdx_map_fst 0 visited, List.mapM_map]
    rfl
  have hentries : walkWithin visitor (depth + 1) frame.place frame.inherited (.mapping m) =
      (visited.mapM fun entry : Node × Node => do
        return (entry.1, ← walkWithin visitor depth (frame.place.child entry.1) own entry.2)).map
          .mapping := by
    rw [walkWithin, hvisiting]
    exact bind_pure_comp (m := Except ε) _ _
  rw [hentries, mapM_values, hvalues, Except.map_map]
  rfl

theorem walkWithin_sequence_children {visitor : Visitor ε κ} {depth : Nat} {frame : Frame κ}
    {items : List Node} :
    walkWithin visitor (depth + 1) frame.place frame.inherited (.sequence items) =
      (walkChildren visitor depth (frame.children frame.inherited (.sequence items))).map
        .sequence := by
  rw [walkWithin, walkChildren, Frame.children, List.mapM_map]
  exact bind_pure_comp _ _

end Node

mutual

theorem Traverses.walkWithin {visitor : Visitor ε κ} (hshallow : visitor.Shallow) {depth : Nat}
    {frame : Frame κ} {state : Unit} {node : Node} {walked : Walked Unit ε κ Node} :
    Traverses visitor.stateful frame state node walked → node.height ≤ depth →
      Node.walkWithin visitor depth frame.place frame.inherited node =
        walked.outcome.map fun _ => walked.left
  | .leaf noMapping noSequence, _ => Node.walkWithin_leaf noMapping noSequence _ _ _
  | .refused visiting, bound => by
      obtain ⟨depth, rfl⟩ := Nat.exists_eq_add_of_le' (Nat.le_of_add_left_le bound)
      rw [Node.walkWithin, Visitor.stateful_error visiting]
      rfl
  | .mapping visiting children, bound => by
      obtain ⟨depth, rfl⟩ := Nat.exists_eq_add_of_le' (Nat.le_of_add_left_le bound)
      have visiting := Visitor.stateful_ok visiting
      have hlow := Nat.le_trans (Nat.succ_le_succ (hshallow _ _ _ _ _ visiting)) bound
      rw [Node.walkWithin_mapping_children visiting,
        children.walkChildren hshallow (Frame.children_height_le hlow), Except.map_map]
  | .sequence children, bound => by
      obtain ⟨depth, rfl⟩ := Nat.exists_eq_add_of_le' (Nat.le_of_add_left_le bound)
      rw [Node.walkWithin_sequence_children,
        children.walkChildren hshallow (Frame.children_height_le bound), Except.map_map]

theorem TraversesAll.walkChildren {visitor : Visitor ε κ} (hshallow : visitor.Shallow) {depth : Nat}
    {state : Unit} {pending : List (Frame κ × Node)} {walked : Walked Unit ε κ (List Node)} :
    TraversesAll visitor.stateful state pending walked → (∀ x ∈ pending, x.2.height ≤ depth) →
      Node.walkChildren visitor depth pending = walked.outcome.map fun _ => walked.left
  | .nil, _ => rfl
  | .stopped traverses stops, low => by
      rw [List.forall_mem_cons] at low
      rw [Node.walkChildren, List.mapM_cons, traverses.walkWithin hshallow low.1, stops]
      rfl
  | .cons traverses goes others, low => by
      rw [List.forall_mem_cons] at low
      have hlater := others.walkChildren hshallow low.2
      rw [Node.walkChildren] at hlater
      rw [Node.walkChildren, List.mapM_cons, traverses.walkWithin hshallow low.1, goes, hlater]
      rename_i first below
      cases below.outcome <;> rfl

end

end DirectoryMetrics
