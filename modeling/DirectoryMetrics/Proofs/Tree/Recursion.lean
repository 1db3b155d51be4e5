import DirectoryMetrics.Proofs.Tree.Addresses
import DirectoryMetrics.Proofs.Tree.Walk

namespace DirectoryMetrics

/-! Walks with a stack are recursions. For any visitor the loop ends exactly if the recursion does,
and then with the same tree, the same visits in the same order, and the same error. -/

variable {σ ε κ : Type}

mutual

/-- What a recursion makes of a node, parents before children. Nothing that is no collection is
entered, and so nothing under a tag. -/
inductive Traverses (visit : StatefulVisitor σ ε κ) :
    Frame κ → σ → Node → Walked σ ε κ Node → Prop where
  | leaf {frame : Frame κ} {state : σ} {node : Node} (noMapping : ∀ m, node ≠ .mapping m)
      (noSequence : ∀ items, node ≠ .sequence items) :
      Traverses visit frame state node ⟨node, state, [], .ok ()⟩
  | refused {frame : Frame κ} {state after : σ} {m visited : Mapping} {e : ε}
      (visiting : visit state frame.place frame.inherited m = ⟨after, visited, .error e⟩) :
      Traverses visit frame state (.mapping m) ⟨.mapping visited, after, [⟨frame, m⟩], .error e⟩
  | mapping {frame : Frame κ} {state after : σ} {m visited : Mapping} {own : κ}
      {below : Walked σ ε κ (List Node)}
      (visiting : visit state frame.place frame.inherited m = ⟨after, visited, .ok own⟩)
      (children : TraversesAll visit after (frame.children own (.mapping visited)) below) :
      Traverses visit frame state (.mapping m)
        ⟨(Node.mapping visited).withChildren below.left, below.state, ⟨frame, m⟩ :: below.visits,
          below.outcome⟩
  | sequence {frame : Frame κ} {state : σ} {items : List Node} {below : Walked σ ε κ (List Node)}
      (children :
        TraversesAll visit state (frame.children frame.inherited (.sequence items)) below) :
      Traverses visit frame state (.sequence items)
        ⟨.sequence below.left, below.state, below.visits, below.outcome⟩

/-- One node after the other, up to the first error; the nodes after it stay as they are. -/
inductive TraversesAll (visit : StatefulVisitor σ ε κ) :
    σ → List (Frame κ × Node) → Walked σ ε κ (List Node) → Prop where
  | nil {state : σ} : TraversesAll visit state [] ⟨[], state, [], .ok ()⟩
  | stopped {frame : Frame κ} {state : σ} {node : Node} {rest : List (Frame κ × Node)}
      {first : Walked σ ε κ Node} {e : ε} (traverses : Traverses visit frame state node first)
      (stops : first.outcome = .error e) :
      TraversesAll visit state ((frame, node) :: rest)
        ⟨first.left :: rest.map Prod.snd, first.state, first.visits, .error e⟩
  | cons {frame : Frame κ} {state : σ} {node : Node} {rest : List (Frame κ × Node)}
      {first : Walked σ ε κ Node} {later : Walked σ ε κ (List Node)}
      (traverses : Traverses visit frame state node first) (goes : first.outcome = .ok ())
      (others : TraversesAll visit first.state rest later) :
      TraversesAll visit state ((frame, node) :: rest)
        ⟨first.left :: later.left, later.state, first.visits ++ later.visits, later.outcome⟩

end

namespace Frame

def Numbered (address : Address) : Nat → List (Frame κ × Node) → Prop
  | _, [] => True
  | index, (frame, _) :: rest =>
    frame.address = address ++ [index] ∧ Numbered address (index + 1) rest

theorem numbered_map_zipIdx {α : Type} {address : Address} {f : α × Nat → Frame κ × Node}
    (hnumbers : ∀ x index, (f (x, index)).1.address = address ++ [index]) (xs : List α)
    (index : Nat) : Numbered address index ((xs.zipIdx index).map f) := by
  induction xs generalizing index with
  | nil => trivial
  | cons x rest ih =>
      rw [List.zipIdx_cons, List.map_cons]
      exact ⟨hnumbers x index, ih (index + 1)⟩

theorem numbered_children (frame : Frame κ) (own : κ) (node : Node) :
    Numbered frame.address 0 (frame.children own node) := by
  cases node with
  | mapping entries => exact numbered_map_zipIdx (fun _ _ => rfl) entries 0
  | sequence items => exact numbered_map_zipIdx (fun _ _ => rfl) items 0
  | _ => trivial

@[simp] theorem map_snd_children (frame : Frame κ) (own : κ) (node : Node) :
    (frame.children own node).map Prod.snd = node.children := by
  cases node with
  | mapping entries =>
      rw [children, Node.children, List.map_map, ← List.zipIdx_map_fst 0 entries, List.map_map,
        List.zipIdx_map_fst]
      rfl
  | sequence items =>
      rw [children, Node.children, List.map_map]
      exact List.zipIdx_map_fst 0 items
  | _ => rfl

end Frame

theorem TraversesAll.length {visit : StatefulVisitor σ ε κ} {state : σ}
    {pending : List (Frame κ × Node)} {walked : Walked σ ε κ (List Node)} :
    TraversesAll visit state pending walked → walked.left.length = pending.length
  | .nil => rfl
  | .stopped .. => by rw [List.length_cons, List.length_map, List.length_cons]
  | .cons _ _ others => by rw [List.length_cons, List.length_cons, others.length]

variable {visit : StatefulVisitor σ ε κ}

theorem Traverses.of_leaf {frame : Frame κ} {state : σ} {node : Node} {walked : Walked σ ε κ Node}
    (htraverses : Traverses visit frame state node walked) (hnoMapping : ∀ m, node ≠ .mapping m)
    (hnoSequence : ∀ items, node ≠ .sequence items) : walked = ⟨node, state, [], .ok ()⟩ := by
  cases htraverses with
  | leaf => rfl
  | refused => exact absurd rfl (hnoMapping _)
  | mapping => exact absurd rfl (hnoMapping _)
  | sequence => exact absurd rfl (hnoSequence _)

namespace Walking

inductive Round (visit : StatefulVisitor σ ε κ) :
    Walking σ κ → Walking σ κ ⊕ Walked σ ε κ Node → Prop where
  | empty {tree : Node} {state : σ} {visits : List (Visit κ)} :
      Round visit ⟨tree, state, [], visits⟩ (.inr ⟨tree, state, visits, .ok ()⟩)
  | missing {tree : Node} {state : σ} {frame : Frame κ} {rest : List (Frame κ)}
      {visits : List (Visit κ)} (nowhere : tree.at? frame.address = none) :
      Round visit ⟨tree, state, frame :: rest, visits⟩ (.inl ⟨tree, state, rest, visits⟩)
  | leaf {tree node : Node} {state : σ} {frame : Frame κ} {rest : List (Frame κ)}
      {visits : List (Visit κ)} (there : tree.at? frame.address = some node)
      (noMapping : ∀ m, node ≠ .mapping m) (noSequence : ∀ items, node ≠ .sequence items) :
      Round visit ⟨tree, state, frame :: rest, visits⟩ (.inl ⟨tree, state, rest, visits⟩)
  | refused {tree : Node} {state after : σ} {frame : Frame κ} {rest : List (Frame κ)}
      {visits : List (Visit κ)} {m visited : Mapping} {e : ε}
      (there : tree.at? frame.address = some (.mapping m))
      (visiting : visit state frame.place frame.inherited m = ⟨after, visited, .error e⟩) :
      Round visit ⟨tree, state, frame :: rest, visits⟩
        (.inr ⟨tree.putAt frame.address (.mapping visited), after, visits ++ [⟨frame, m⟩],
          .error e⟩)
  | mapping {tree : Node} {state after : σ} {frame : Frame κ} {rest : List (Frame κ)}
      {visits : List (Visit κ)} {m visited : Mapping} {own : κ}
      (there : tree.at? frame.address = some (.mapping m))
      (visiting : visit state frame.place frame.inherited m = ⟨after, visited, .ok own⟩) :
      Round visit ⟨tree, state, frame :: rest, visits⟩
        (.inl ⟨tree.putAt frame.address (.mapping visited), after,
          ((frame.children own (.mapping visited)).filter (·.2.isCollection)).map Prod.fst ++ rest,
          visits ++ [⟨frame, m⟩]⟩)
  | sequence {tree : Node} {state : σ} {frame : Frame κ} {rest : List (Frame κ)}
      {visits : List (Visit κ)} {items : List Node}
      (there : tree.at? frame.address = some (.sequence items)) :
      Round visit ⟨tree, state, frame :: rest, visits⟩
        (.inl ⟨tree, state,
          (frame.children frame.inherited (.sequence items)).map Prod.fst ++ rest, visits⟩)

theorem round_step (visit : StatefulVisitor σ ε κ) (w : Walking σ κ) :
    Round visit w (w.step visit) := by
  obtain ⟨tree, state, stack, visits⟩ := w
  cases stack with
  | nil => exact .empty
  | cons frame rest =>
      cases there : tree.at? frame.address with
      | none =>
          simp only [step, there]
          exact .missing there
      | some node =>
          cases node with
          | mapping m =>
              rcases visiting : visit state frame.place frame.inherited m with
                ⟨after, visited, e | own⟩
              · simp only [step, there, visiting]
                exact .refused there visiting
              · simp only [step, there, visiting]
                exact .mapping there visiting
          | sequence items =>
              simp only [step, there]
              exact .sequence there
          | _ =>
              simp only [step, there]
              exact .leaf there (by simp) (by simp)

theorem Round.step_eq {w : Walking σ κ} {next : Walking σ κ ⊕ Walked σ ε κ Node}
    (hround : Round visit w next) : w.step visit = next := by
  cases hround with
  | empty => rfl
  | missing nowhere => simp only [step, nowhere]
  | leaf there noMapping noSequence =>
      simp only [step, there]
      split
      · rename_i eq
        exact absurd (Option.some.inj eq) (noMapping _)
      · rename_i eq
        exact absurd (Option.some.inj eq) (noSequence _)
      · rfl
  | refused there visiting => simp only [step, there, visiting]
  | mapping there visiting => simp only [step, there, visiting]
  | sequence there => simp only [step, there]

/-- How the loop ends once part of its stack is walked over: with the error met there, or as the
rest of the stack says. -/
def ThenEnds (ends : Walking σ κ → Walked σ ε κ Node → Prop) (outcome : Except ε Unit)
    (w : Walking σ κ) (ended : Walked σ ε κ Node) : Prop :=
  match outcome with
  | .ok () => ends w ended
  | .error e => ended = ⟨w.tree, w.state, w.visits, .error e⟩

/-- The tree after one of several children is walked over, and what is still to come of them. -/
theorem advance {tree parent node : Node} {address : Address} {done rest : List Node}
    (hthere : tree.at? address = some parent) (hchildren : parent.children = done ++ node :: rest)
    (new : Node) :
    ∃ parent' : Node,
      (tree.putAt (address ++ [done.length]) new).at? address = some parent' ∧
      parent'.children = (done ++ [new]) ++ rest ∧
      ∀ later, (tree.putAt (address ++ [done.length]) new).putAt address
          (parent'.withChildren ((done ++ [new]) ++ later)) =
        tree.putAt address (parent.withChildren (done ++ new :: later)) := by
  have hlength : (done ++ new :: rest).length = parent.children.length := by
    rw [hchildren, List.length_append, List.length_append, List.length_cons, List.length_cons]
  rw [Node.putAt_child hthere hchildren]
  refine ⟨parent.withChildren (done ++ new :: rest), Node.at?_putAt hthere _, ?_, fun later => ?_⟩
  · rw [Node.children_withChildren hlength, List.append_assoc]
    rfl
  · rw [Node.putAt_putAt, Node.withChildren_withChildren hlength, List.append_assoc]
    rfl

def Skips (keep : Frame κ × Node → Bool) (pending : List (Frame κ × Node)) : Prop :=
  ∀ x ∈ pending, keep x = false →
    (∀ m, x.2 ≠ .mapping m) ∧ ∀ items, x.2 ≠ .sequence items

theorem skips_isCollection (pending : List (Frame κ × Node)) :
    Skips (·.2.isCollection) pending := by
  rintro ⟨frame, node⟩ _ skipped
  constructor
  · rintro m rfl
    cases skipped
  · rintro items rfl
    cases skipped

theorem skips_none (pending : List (Frame κ × Node)) : Skips (fun _ => true) pending :=
  fun _ _ skipped => by cases skipped

theorem Skips.tail {keep : Frame κ × Node → Bool} {x : Frame κ × Node}
    {rest : List (Frame κ × Node)} (hskips : Skips keep (x :: rest)) : Skips keep rest :=
  fun y inside => hskips y (List.mem_cons_of_mem _ inside)

theorem Skips.of_traverses {keep : Frame κ × Node → Bool} {frame : Frame κ} {state : σ}
    {node : Node} {rest : List (Frame κ × Node)} {walked : Walked σ ε κ Node}
    (hskips : Skips keep ((frame, node) :: rest)) (hskipped : keep (frame, node) = false)
    (htraverses : Traverses visit frame state node walked) :
    walked = ⟨node, state, [], .ok ()⟩ := by
  obtain ⟨noMapping, noSequence⟩ := hskips _ List.mem_cons_self hskipped
  exact htraverses.of_leaf noMapping noSequence

mutual

theorem ends_of_traverses {frame : Frame κ} {state : σ} {node : Node} {walked : Walked σ ε κ Node} :
    Traverses visit frame state node walked →
    ∀ {tree : Node} {rest : List (Frame κ)} {visits : List (Visit κ)} {ended : Walked σ ε κ Node},
      tree.at? frame.address = some node →
      ThenEnds (Ends visit) walked.outcome
        ⟨tree.putAt frame.address walked.left, walked.state, rest, visits ++ walked.visits⟩ ended →
      Ends visit ⟨tree, state, frame :: rest, visits⟩ ended
  | .leaf noMapping noSequence, tree, rest, visits, ended, there, ends => by
      rw [Node.putAt_at? there, List.append_nil] at ends
      exact .more (Round.leaf there noMapping noSequence).step_eq ends
  | .refused visiting, tree, rest, visits, ended, there, ends => by
      cases ends
      exact .last (Round.refused there visiting).step_eq
  | .mapping visiting children, tree, rest, visits, ended, there, ends => by
      refine .more (Round.mapping there visiting).step_eq
        (ends_of_traversesAll children [] (Node.at?_putAt there _)
          (Frame.map_snd_children _ _ _).symm
          (Frame.numbered_children _ _ _) (skips_isCollection _) ?_)
      rw [Node.putAt_putAt, List.append_assoc]
      exact ends
  | .sequence children, tree, rest, visits, ended, there, ends => by
      refine .more (Round.sequence there).step_eq ?_
      have hpushed := ends_of_traversesAll children [] there (Frame.map_snd_children _ _ _).symm
        (Frame.numbered_children _ _ _) (skips_none _) ends
      rwa [List.filter_true] at hpushed

/-- The induction is on the children that are still to come; those that are done stand
before them. -/
theorem ends_of_traversesAll {state : σ} {pending : List (Frame κ × Node)}
    {walked : Walked σ ε κ (List Node)} :
    TraversesAll visit state pending walked →
    ∀ {tree parent : Node} {address : Address} (done : List Node) {rest : List (Frame κ)}
      {visits : List (Visit κ)} {ended : Walked σ ε κ Node} {keep : Frame κ × Node → Bool},
      tree.at? address = some parent → parent.children = done ++ pending.map Prod.snd →
      Frame.Numbered address done.length pending → Skips keep pending →
      ThenEnds (Ends visit) walked.outcome
        ⟨tree.putAt address (parent.withChildren (done ++ walked.left)), walked.state, rest,
          visits ++ walked.visits⟩ ended →
      Ends visit ⟨tree, state, (pending.filter keep).map Prod.fst ++ rest, visits⟩ ended
  | .nil, tree, parent, address, done, rest, visits, ended, keep, there, children, _, _, ends => by
      rw [List.map_nil] at children
      rw [← children, Node.withChildren_children, Node.putAt_at? there, List.append_nil] at ends
      exact ends
  | .stopped traverses stops, tree, parent, address, done, rest, visits, ended, keep, there,
      children, numbered, skips, ends => by
      cases ends
      rw [List.filter_cons_of_pos]
      · refine ends_of_traverses traverses (numbered.1 ▸ Node.at?_child there children) ?_
        rw [stops, numbered.1, Node.putAt_child there children]
        rfl
      · by_contra skipped
        rw [skips.of_traverses (Bool.not_eq_true _ ▸ skipped) traverses] at stops
        cases stops
  | .cons traverses goes others, tree, parent, address, done, rest, visits, ended, keep, there,
      children, numbered, skips, ends => by
      rename_i frame node later first _
      obtain ⟨parent', there', children', finish⟩ := advance there children first.left
      have hnext : Ends visit ⟨tree.putAt (address ++ [done.length]) first.left, first.state,
          (later.filter keep).map Prod.fst ++ rest, visits ++ first.visits⟩ ended := by
        refine ends_of_traversesAll others (done ++ [first.left]) there' children' ?_ skips.tail ?_
        · rw [List.length_append]
          exact numbered.2
        · rw [finish, List.append_assoc]
          exact ends
      by_cases kept : keep (frame, node) = true
      · rw [List.filter_cons_of_pos kept]
        refine ends_of_traverses traverses (numbered.1 ▸ Node.at?_child there children) ?_
        rw [goes, numbered.1]
        exact hnext
      · rw [List.filter_cons_of_neg kept]
        cases skips.of_traverses (Bool.not_eq_true _ ▸ kept) traverses
        rwa [Node.putAt_at? (Node.at?_child there children), List.append_nil] at hnext

end

/-- The frames of a stack are walked over by recursion, one after the other, on one tree. -/
inductive Unwinds (visit : StatefulVisitor σ ε κ) : Walking σ κ → Walked σ ε κ Node → Prop where
  | done {tree : Node} {state : σ} {visits : List (Visit κ)} :
      Unwinds visit ⟨tree, state, [], visits⟩ ⟨tree, state, visits, .ok ()⟩
  | missing {tree : Node} {state : σ} {frame : Frame κ} {rest : List (Frame κ)}
      {visits : List (Visit κ)} {ended : Walked σ ε κ Node}
      (nowhere : tree.at? frame.address = none)
      (unwinds : Unwinds visit ⟨tree, state, rest, visits⟩ ended) :
      Unwinds visit ⟨tree, state, frame :: rest, visits⟩ ended
  | stopped {tree node : Node} {state : σ} {frame : Frame κ} {rest : List (Frame κ)}
      {visits : List (Visit κ)} {walked : Walked σ ε κ Node} {e : ε}
      (there : tree.at? frame.address = some node)
      (traverses : Traverses visit frame state node walked) (stops : walked.outcome = .error e) :
      Unwinds visit ⟨tree, state, frame :: rest, visits⟩
        ⟨tree.putAt frame.address walked.left, walked.state, visits ++ walked.visits, .error e⟩
  | goes {tree node : Node} {state : σ} {frame : Frame κ} {rest : List (Frame κ)}
      {visits : List (Visit κ)} {walked ended : Walked σ ε κ Node}
      (there : tree.at? frame.address = some node)
      (traverses : Traverses visit frame state node walked) (goes : walked.outcome = .ok ())
      (unwinds : Unwinds visit
        ⟨tree.putAt frame.address walked.left, walked.state, rest, visits ++ walked.visits⟩ ended) :
      Unwinds visit ⟨tree, state, frame :: rest, visits⟩ ended

theorem Unwinds.of_traverses {tree node : Node} {state : σ} {frame : Frame κ}
    {rest : List (Frame κ)} {visits : List (Visit κ)} {walked ended : Walked σ ε κ Node}
    (hthere : tree.at? frame.address = some node)
    (htraverses : Traverses visit frame state node walked)
    (hends : ThenEnds (Unwinds visit) walked.outcome
      ⟨tree.putAt frame.address walked.left, walked.state, rest, visits ++ walked.visits⟩ ended) :
    Unwinds visit ⟨tree, state, frame :: rest, visits⟩ ended := by
  cases outcome : walked.outcome with
  | ok =>
      rw [outcome] at hends
      exact .goes hthere htraverses outcome hends
  | error e =>
      rw [outcome] at hends
      cases hends
      exact .stopped hthere htraverses outcome

theorem Unwinds.children {pending : List (Frame κ × Node)} {rest : List (Frame κ)}
    {ended : Walked σ ε κ Node} {address : Address} {keep : Frame κ × Node → Bool}
    {tree parent : Node} {state : σ} {visits : List (Visit κ)} (done : List Node)
    (hunwinds : Unwinds visit
      ⟨tree, state, (pending.filter keep).map Prod.fst ++ rest, visits⟩ ended)
    (hthere : tree.at? address = some parent)
    (hchildren : parent.children = done ++ pending.map Prod.snd)
    (hnumbered : Frame.Numbered address done.length pending) (hskips : Skips keep pending) :
    ∃ walked, TraversesAll visit state pending walked ∧
      ThenEnds (Unwinds visit) walked.outcome
        ⟨tree.putAt address (parent.withChildren (done ++ walked.left)), walked.state, rest,
          visits ++ walked.visits⟩ ended := by
  induction pending generalizing tree parent state visits done with
  | nil =>
      refine ⟨_, .nil, ?_⟩
      rw [List.map_nil] at hchildren
      rw [← hchildren, Node.withChildren_children, Node.putAt_at? hthere, List.append_nil]
      exact hunwinds
  | cons x later ih =>
      obtain ⟨frame, node⟩ := x
      have honwards {first : Walked σ ε κ Node} (traverses : Traverses visit frame state node first)
          (goes : first.outcome = .ok ())
          (hunwinds : Unwinds visit ⟨tree.putAt (address ++ [done.length]) first.left, first.state,
            (later.filter keep).map Prod.fst ++ rest, visits ++ first.visits⟩ ended) :
          ∃ walked, TraversesAll visit state ((frame, node) :: later) walked ∧
            ThenEnds (Unwinds visit) walked.outcome
              ⟨tree.putAt address (parent.withChildren (done ++ walked.left)), walked.state, rest,
                visits ++ walked.visits⟩ ended := by
        obtain ⟨parent', there', children', finish⟩ := advance hthere hchildren first.left
        obtain ⟨walked, others, ends⟩ := ih (done ++ [first.left]) hunwinds there' children'
          (by rw [List.length_append]; exact hnumbered.2) hskips.tail
        rw [finish, List.append_assoc] at ends
        exact ⟨_, .cons traverses goes others, ends⟩
      have hisChild := Node.at?_child hthere hchildren
      by_cases kept : keep (frame, node) = true
      · rw [List.filter_cons_of_pos kept, List.map_cons, List.cons_append] at hunwinds
        cases hunwinds with
        | missing nowhere =>
            rw [hnumbered.1, hisChild] at nowhere
            cases nowhere
        | stopped found traverses stops =>
            rw [hnumbered.1, hisChild] at found
            cases found
            refine ⟨_, .stopped traverses stops, ?_⟩
            rw [hnumbered.1, Node.putAt_child hthere hchildren]
            rfl
        | goes found traverses goes hunwinds =>
            rw [hnumbered.1, hisChild] at found
            cases found
            rw [hnumbered.1] at hunwinds
            exact honwards traverses goes hunwinds
      · rw [List.filter_cons_of_neg kept] at hunwinds
        obtain ⟨noMapping, noSequence⟩ :=
          hskips _ List.mem_cons_self (Bool.not_eq_true _ ▸ kept)
        refine honwards (.leaf noMapping noSequence) rfl ?_
        rw [Node.putAt_at? hisChild, List.append_nil]
        exact hunwinds

theorem unwinds_of_ends {w : Walking σ κ} {ended : Walked σ ε κ Node} (hends : Ends visit w ended) :
    Unwinds visit w ended := by
  induction hends with
  | @last w ended stops =>
      have hround := round_step visit w
      rw [stops] at hround
      cases hround with
      | empty => exact .done
      | refused there visiting => exact .stopped there (.refused visiting) rfl
  | @more w next ended goes hends ih =>
      have hround := round_step visit w
      rw [goes] at hround
      cases hround with
      | missing nowhere => exact .missing nowhere ih
      | leaf there noMapping noSequence =>
          refine .goes there (.leaf noMapping noSequence) rfl ?_
          rw [Node.putAt_at? there, List.append_nil]
          exact ih
      | mapping there visiting =>
          obtain ⟨walked, children, hends⟩ := Unwinds.children [] ih (Node.at?_putAt there _)
            (Frame.map_snd_children _ _ _).symm (Frame.numbered_children _ _ _)
            (skips_isCollection _)
          refine .of_traverses there (.mapping visiting children) ?_
          rw [Node.putAt_putAt, List.append_assoc] at hends
          exact hends
      | sequence there =>
          rename_i frame rest visits items
          rw [← List.filter_true (frame.children frame.inherited (.sequence items))] at ih
          obtain ⟨walked, children, hends⟩ := Unwinds.children [] ih there
            (Frame.map_snd_children _ _ _).symm (Frame.numbered_children _ _ _) (skips_none _)
          exact .of_traverses there (.sequence children) hends

/-- The loop ends as the recursion does, and neither ends without the other. -/
theorem ends_iff_traverses {tree : Node} {state : σ} {inherited : κ} {ended : Walked σ ε κ Node} :
    Ends visit (.start tree state inherited) ended ↔
      Traverses visit (.root inherited) state tree ended := by
  constructor
  · intro ends
    cases unwinds_of_ends ends with
    | missing nowhere => cases nowhere
    | @stopped _ _ _ _ _ _ walked _ there traverses stops =>
        cases there
        obtain ⟨left, after, visits, outcome⟩ := walked
        cases stops
        exact traverses
    | @goes _ _ _ _ _ _ walked _ there traverses goes unwinds =>
        cases there
        cases unwinds
        obtain ⟨left, after, visits, outcome⟩ := walked
        cases goes
        exact traverses
  · intro traverses
    refine ends_of_traverses traverses rfl ?_
    obtain ⟨left, after, visits, error | ok⟩ := ended
    · rfl
    · exact .last rfl

theorem Ends.unique {w : Walking σ κ} {ended ended' : Walked σ ε κ Node}
    (hends : Ends visit w ended)
    (hends' : Ends visit w ended') : ended = ended' := by
  induction hends with
  | last stops =>
      cases hends' with
      | last stops' => exact Sum.inr.inj (stops.symm.trans stops')
      | more goes _ => cases stops.symm.trans goes
  | more goes _ ih =>
      cases hends' with
      | last stops => cases goes.symm.trans stops
      | more goes' hends' =>
          cases Sum.inl.inj (goes.symm.trans goes')
          exact ih hends'

end Walking

end DirectoryMetrics
