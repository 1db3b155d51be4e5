import DirectoryMetrics.Proofs.Tree.Recursion
import DirectoryMetrics.Proofs.Tree.Visits

namespace DirectoryMetrics

variable {σ ε κ : Type} {visit : StatefulVisitor σ ε κ}

theorem Address.append_cons_lt {address rest rest' : Address} {index index' : Nat}
    (hless : index < index') : address ++ index :: rest < address ++ index' :: rest' :=
  List.append_left_lt (List.cons_lt_cons_iff.mpr (.inl hless))

theorem Address.lt_append_cons (address rest : Address) (index : Nat) :
    address < address ++ index :: rest := by
  have hlonger : address ++ [] < address ++ index :: rest :=
    List.append_left_lt (List.nil_lt_cons _ _)
  rwa [List.append_nil] at hlonger

structure Ascending (address : Address) (index : Nat) (visits : List (Visit κ)) : Prop where
  below : ∀ v ∈ visits, ∃ i rest, index ≤ i ∧ v.frame.address = address ++ i :: rest
  ordered : visits.Pairwise fun v v' => v.frame.address < v'.frame.address

structure AscendingFrom (address : Address) (visits : List (Visit κ)) : Prop where
  below : ∀ v ∈ visits, address <+: v.frame.address
  ordered : visits.Pairwise fun v v' => v.frame.address < v'.frame.address

theorem AscendingFrom.child {address : Address} {index : Nat} {visits : List (Visit κ)}
    (hascending : AscendingFrom (address ++ [index]) visits) : Ascending address index visits where
  below v inside := by
    obtain ⟨rest, eq⟩ := hascending.below v inside
    exact ⟨index, rest, Nat.le_refl _, by rw [← eq, List.append_assoc, List.singleton_append]⟩
  ordered := hascending.ordered

theorem AscendingFrom.append {address : Address} {index : Nat} {visits later : List (Visit κ)}
    (hfirst : AscendingFrom (address ++ [index]) visits)
    (hothers : Ascending address (index + 1) later) :
    Ascending address index (visits ++ later) where
  below v inside := by
    rcases List.mem_append.mp inside with inside | inside
    · exact hfirst.child.below v inside
    · obtain ⟨i, rest, later, eq⟩ := hothers.below v inside
      exact ⟨i, rest, Nat.le_of_succ_le later, eq⟩
  ordered := by
    refine List.pairwise_append.mpr ⟨hfirst.ordered, hothers.ordered, fun v inside v' inside' => ?_⟩
    obtain ⟨rest, eq⟩ := hfirst.below v inside
    obtain ⟨i, rest', later, eq'⟩ := hothers.below v' inside'
    rw [← eq, eq', List.append_assoc]
    exact Address.append_cons_lt later

mutual

theorem Traverses.ascending {frame : Frame κ} {state : σ} {node : Node}
    {walked : Walked σ ε κ Node} :
    Traverses visit frame state node walked → AscendingFrom frame.address walked.visits
  | .leaf _ _ => ⟨by simp, .nil⟩
  | .refused _ => ⟨by simp, List.pairwise_singleton _ _⟩
  | .mapping _ children => by
      have hlater := children.ascending (Frame.numbered_children _ _ _)
      constructor
      · rw [List.forall_mem_cons]
        refine ⟨List.prefix_refl _, fun v inside => ?_⟩
        obtain ⟨i, rest, -, eq⟩ := hlater.below v inside
        exact ⟨_, eq.symm⟩
      · refine List.pairwise_cons.mpr ⟨fun v inside => ?_, hlater.ordered⟩
        obtain ⟨i, rest, -, eq⟩ := hlater.below v inside
        rw [eq]
        exact Address.lt_append_cons _ _ _
  | .sequence children => by
      have hlater := children.ascending (Frame.numbered_children _ _ _)
      refine ⟨fun v inside => ?_, hlater.ordered⟩
      obtain ⟨i, rest, -, eq⟩ := hlater.below v inside
      exact ⟨_, eq.symm⟩

theorem TraversesAll.ascending {state : σ} {pending : List (Frame κ × Node)}
    {walked : Walked σ ε κ (List Node)} {address : Address} {index : Nat} :
    TraversesAll visit state pending walked → Frame.Numbered address index pending →
      Ascending address index walked.visits
  | .nil, _ => ⟨by simp, .nil⟩
  | .stopped traverses _, numbered => (numbered.1 ▸ traverses.ascending).child
  | .cons traverses _ others, numbered =>
      (numbered.1 ▸ traverses.ascending).append (others.ascending numbered.2)

end

/-- The visits of a walk are to the first mappings of what it leaves, and to all of them if no error
stops it. -/
def Reaches (visits : List (Visit κ)) (mappings : List Mapping) (outcome : Except ε Unit)
    (here : Visit κ → Mapping → Prop) : Prop :=
  ∃ reached later, mappings = reached ++ later ∧ List.Forall₂ here visits reached ∧
    (outcome = .ok () → later = [])

namespace Reaches

variable {visits visits' : List (Visit κ)} {ms ms' : List Mapping} {outcome : Except ε Unit}
  {here there : Visit κ → Mapping → Prop}

theorem imp (hsame : ∀ v m, here v m → there v m) (hreaches : Reaches visits ms outcome here) :
    Reaches visits ms outcome there := by
  obtain ⟨reached, later, eq, each, whole⟩ := hreaches
  exact ⟨reached, later, eq, each.imp hsame, whole⟩

theorem cons {v : Visit κ} {m : Mapping} (hfirst : here v m)
    (hreaches : Reaches visits ms outcome here) : Reaches (v :: visits) (m :: ms) outcome here := by
  obtain ⟨reached, later, rfl, each, whole⟩ := hreaches
  exact ⟨m :: reached, later, rfl, .cons hfirst each, whole⟩

theorem append {first : Except ε Unit} (hreaches : Reaches visits ms first here)
    (hgoes : first = .ok ()) (hothers : Reaches visits' ms' outcome here) :
    Reaches (visits ++ visits') (ms ++ ms') outcome here := by
  obtain ⟨reached, later, rfl, each, whole⟩ := hreaches
  obtain ⟨reached', later', rfl, each', whole'⟩ := hothers
  cases whole hgoes
  exact ⟨reached ++ reached', later', by simp, List.rel_append each each', whole'⟩

theorem stopped {e : ε} (hreaches : Reaches visits ms outcome here)
    (unvisited : List Mapping) : Reaches visits (ms ++ unvisited) (.error e) here := by
  obtain ⟨reached, later, rfl, each, -⟩ := hreaches
  exact ⟨reached, later ++ unvisited, List.append_assoc _ _ _, each, fun ok => by cases ok⟩

end Reaches

theorem Node.entriesMappings_eq_children (entries : Mapping) :
    Node.entriesMappings entries = (Node.mapping entries).children.flatMap Node.mappings := by
  rw [Node.entriesMappings_eq_flatMap, Node.children, List.flatMap_map]

theorem Node.children_eq_nil {node : Node} (hnoMapping : ∀ m, node ≠ .mapping m)
    (hnoSequence : ∀ items, node ≠ .sequence items) : node.children = [] := by
  cases node with
  | mapping m => exact absurd rfl (hnoMapping m)
  | sequence items => exact absurd rfl (hnoSequence items)
  | _ => rfl

theorem TraversesAll.children_withChildren {frame : Frame κ} {own : κ} {state : σ} {node : Node}
    {below : Walked σ ε κ (List Node)}
    (hchildren : TraversesAll visit state (frame.children own node) below) :
    (node.withChildren below.left).children = below.left := by
  refine Node.children_withChildren ?_
  rw [hchildren.length, ← Frame.map_snd_children frame own, List.length_map]

theorem Node.mappings_eq_nil {node : Node} (hnoMapping : ∀ m, node ≠ .mapping m)
    (hnoSequence : ∀ items, node ≠ .sequence items) : node.mappings = [] := by
  cases node with
  | mapping m => exact absurd rfl (hnoMapping m)
  | sequence items => exact absurd rfl (hnoSequence items)
  | _ => rfl

mutual

theorem Traverses.reaches {frame : Frame κ} {state : σ} {node : Node} {walked : Walked σ ε κ Node} :
    Traverses visit frame state node walked →
      Reaches walked.visits walked.left.mappings walked.outcome fun v m =>
        ∃ rest, v.frame.address = frame.address ++ rest ∧
          walked.left.at? rest = some (.mapping m)
  | .leaf noMapping noSequence => by
      rw [Node.mappings_eq_nil noMapping noSequence]
      exact ⟨[], [], rfl, .nil, fun _ => rfl⟩
  | .refused _ =>
      ⟨[_], _, rfl, .cons ⟨[], (List.append_nil _).symm, rfl⟩ .nil, fun ok => by cases ok⟩
  | .mapping _ children => by
      have hinside := children.children_withChildren
      rw [Node.withChildren] at hinside ⊢
      rw [Node.mappings, Node.entriesMappings_eq_children, hinside]
      refine .cons ⟨[], (List.append_nil _).symm, rfl⟩
        ((children.reaches (Frame.numbered_children _ _ _)).imp ?_)
      rintro v m ⟨i, rest, eq, there⟩
      refine ⟨i :: rest, by rw [eq, Nat.zero_add], ?_⟩
      rw [Node.at?, hinside]
      exact there
  | .sequence children => by
      rename_i items below
      rw [Node.mappings, Node.itemsMappings_eq_flatMap]
      refine (children.reaches (Frame.numbered_children _ _ _)).imp ?_
      rintro v m ⟨i, rest, eq, there⟩
      exact ⟨i :: rest, by rw [eq, Nat.zero_add], there⟩

theorem TraversesAll.reaches {state : σ} {pending : List (Frame κ × Node)}
    {walked : Walked σ ε κ (List Node)} {address : Address} {index : Nat} :
    TraversesAll visit state pending walked → Frame.Numbered address index pending →
      Reaches walked.visits (walked.left.flatMap Node.mappings) walked.outcome fun v m =>
        ∃ i rest, v.frame.address = address ++ (index + i) :: rest ∧
          walked.left[i]?.bind (·.at? rest) = some (.mapping m)
  | .nil, _ => ⟨[], [], rfl, .nil, fun _ => rfl⟩
  | .stopped traverses _, numbered => by
      refine (traverses.reaches.imp ?_).stopped _
      rintro v m ⟨rest, eq, there⟩
      refine ⟨0, rest, ?_, there⟩
      rw [eq, numbered.1, List.append_assoc]
      rfl
  | .cons traverses goes others, numbered => by
      refine (traverses.reaches.imp ?_).append goes ((others.reaches numbered.2).imp ?_)
      · rintro v m ⟨rest, eq, there⟩
        refine ⟨0, rest, ?_, there⟩
        rw [eq, numbered.1, List.append_assoc]
        rfl
      · rintro v m ⟨i, rest, eq, there⟩
        exact ⟨i + 1, rest, by rw [eq, Nat.add_right_comm, Nat.add_assoc], there⟩

end

mutual

/-- A walk that is not stopped comes to each mapping of what it leaves. -/
theorem Traverses.exists_visit {frame : Frame κ} {state : σ} {node : Node}
    {walked : Walked σ ε κ Node} {rest : Address} {m : Mapping} :
    Traverses visit frame state node walked → walked.outcome = .ok () →
      walked.left.at? rest = some (.mapping m) →
      ∃ v ∈ walked.visits, v.frame.address = frame.address ++ rest
  | .leaf noMapping noSequence, _, there => by
      cases rest with
      | nil => exact absurd (Option.some.inj there) (noMapping m)
      | cons index rest =>
          rw [Node.at?, Node.children_eq_nil noMapping noSequence] at there
          cases there
  | .mapping _ children, goes, there => by
      cases rest with
      | nil => exact ⟨_, List.mem_cons_self, (List.append_nil _).symm⟩
      | cons index rest =>
          rw [Node.at?, children.children_withChildren] at there
          obtain ⟨v, inside, eq⟩ :=
            children.exists_visit (Frame.numbered_children _ _ _) goes there
          exact ⟨v, List.mem_cons_of_mem _ inside, by rw [eq, Nat.zero_add]⟩
  | .sequence children, goes, there => by
      cases rest with
      | nil => cases there
      | cons index rest =>
          obtain ⟨v, inside, eq⟩ :=
            children.exists_visit (Frame.numbered_children _ _ _) goes there
          exact ⟨v, inside, by rw [eq, Nat.zero_add]⟩

theorem TraversesAll.exists_visit {state : σ} {pending : List (Frame κ × Node)}
    {walked : Walked σ ε κ (List Node)} {address rest : Address} {index i : Nat} {m : Mapping} :
    TraversesAll visit state pending walked → Frame.Numbered address index pending →
      walked.outcome = .ok () → walked.left[i]?.bind (·.at? rest) = some (.mapping m) →
      ∃ v ∈ walked.visits, v.frame.address = address ++ (index + i) :: rest
  | .nil, _, _, there => by cases there
  | .cons traverses goes others, numbered, ends, there => by
      cases i with
      | zero =>
          obtain ⟨v, inside, eq⟩ := traverses.exists_visit goes there
          refine ⟨v, List.mem_append_left _ inside, ?_⟩
          rw [eq, numbered.1, List.append_assoc]
          rfl
      | succ i =>
          obtain ⟨v, inside, eq⟩ := others.exists_visit numbered.2 ends there
          exact ⟨v, List.mem_append_right _ inside,
            by rw [eq, Nat.add_right_comm, Nat.add_assoc]⟩

end

end DirectoryMetrics
