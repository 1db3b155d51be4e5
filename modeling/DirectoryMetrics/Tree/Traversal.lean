import DirectoryMetrics.Tree.Walk

namespace DirectoryMetrics

/-!
Walks with a stack. What is still to be walked stands on a stack of frames, the next one on top. A
frame says where in the tree its node is, and the tree changes in place.
-/

/-- Where a node is below another: on each level, how many entries or items stand before it. -/
abbrev Address := List Nat

namespace Node

def isCollection (node : Node) : Bool := node.mapping?.isSome || node.sequence?.isSome

def children : Node → List Node
  | .mapping entries => entries.map Prod.snd
  | .sequence items => items
  | _ => []

def withChildren (children : List Node) : Node → Node
  | .mapping entries => .mapping (List.zipWith (fun entry child => (entry.1, child)) entries children)
  | .sequence _ => .sequence children
  | node => node

def at? : Node → Address → Option Node
  | node, [] => some node
  | node, index :: rest => node.children[index]?.bind (at? · rest)

def putAt : Node → Address → Node → Node
  | _, [], new => new
  | node, index :: rest, new =>
      node.withChildren (node.children.modify index (·.putAt rest new))

end Node

/-- What a visitor leaves: its own state, the mapping, and what is inherited below or why
it stops. -/
structure Visited (σ ε κ : Type) where
  state : σ
  mapping : Mapping
  outcome : Except ε κ

abbrev StatefulVisitor (σ ε κ : Type) := σ → Place → κ → Mapping → Visited σ ε κ

def Visitor.stateful (visit : Visitor ε κ) : StatefulVisitor Unit ε κ := fun _ place inherited m =>
  match visit place inherited m with
  | .ok (visited, own) => ⟨(), visited, .ok own⟩
  | .error e => ⟨(), m, .error e⟩

structure Frame (κ : Type) where
  address : Address
  place : Place
  inherited : κ

namespace Frame

def root (inherited : κ) : Frame κ := ⟨[], .root, inherited⟩

def children (frame : Frame κ) (own : κ) : Node → List (Frame κ × Node)
  | .mapping entries => entries.zipIdx.map fun (entry, index) =>
      (⟨frame.address ++ [index], frame.place.child entry.1, own⟩, entry.2)
  | .sequence items => items.zipIdx.map fun (item, index) =>
      (⟨frame.address ++ [index], frame.place.item index, own⟩, item)
  | _ => []

end Frame

structure Visit (κ : Type) where
  frame : Frame κ
  mapping : Mapping

structure Walked (σ ε κ α : Type) where
  left : α
  state : σ
  visits : List (Visit κ)
  outcome : Except ε Unit

structure Walking (σ κ : Type) where
  tree : Node
  state : σ
  stack : List (Frame κ)
  visits : List (Visit κ)

namespace Walking

def start (tree : Node) (state : σ) (inherited : κ) : Walking σ κ :=
  ⟨tree, state, [.root inherited], []⟩

/-- One round of the loop. A mapping is visited and what it then holds goes on the stack; the items
of a sequence do so with what the sequence inherits. -/
def step (visit : StatefulVisitor σ ε κ) (w : Walking σ κ) : Walking σ κ ⊕ Walked σ ε κ Node :=
  match w.stack with
  | [] => .inr ⟨w.tree, w.state, w.visits, .ok ()⟩
  | frame :: rest =>
      match w.tree.at? frame.address with
      | some (.mapping m) =>
          let visited := visit w.state frame.place frame.inherited m
          let tree := w.tree.putAt frame.address (.mapping visited.mapping)
          let visits := w.visits ++ [⟨frame, m⟩]
          match visited.outcome with
          | .error e => .inr ⟨tree, visited.state, visits, .error e⟩
          | .ok own =>
              let nested := (frame.children own (.mapping visited.mapping)).filter (·.2.isCollection)
              .inl ⟨tree, visited.state, nested.map Prod.fst ++ rest, visits⟩
      | some (.sequence items) =>
          let nested := frame.children frame.inherited (.sequence items)
          .inl { w with stack := nested.map Prod.fst ++ rest }
      | _ => .inl { w with stack := rest }

inductive Ends (visit : StatefulVisitor σ ε κ) : Walking σ κ → Walked σ ε κ Node → Prop where
  | last {w : Walking σ κ} {ended : Walked σ ε κ Node} (stops : w.step visit = .inr ended) :
      Ends visit w ended
  | more {w next : Walking σ κ} {ended : Walked σ ε κ Node} (goes : w.step visit = .inl next)
      (ends : Ends visit next ended) : Ends visit w ended

end Walking

namespace Node

theorem sizeOf_append (before after : List Node) :
    sizeOf (before ++ after) + 1 = sizeOf before + sizeOf after := by
  induction before with
  | nil =>
      rw [List.nil_append, List.nil.sizeOf_spec]
      omega
  | cons node rest ih =>
      rw [List.cons_append, List.cons.sizeOf_spec, List.cons.sizeOf_spec]
      omega

theorem sizeOf_values_le (entries : Mapping) (keep : Node → Bool) :
    sizeOf ((entries.map Prod.snd).filter keep) ≤ sizeOf entries := by
  induction entries with
  | nil => exact Nat.le_refl _
  | cons entry rest ih =>
      rw [List.map_cons, List.filter_cons, List.cons.sizeOf_spec, Prod.mk.sizeOf_spec]
      split
      · rw [List.cons.sizeOf_spec]
        omega
      · omega

/-- The next mapping of the nodes on a stack, and the stack after it. -/
def next? : List Node → Option (Mapping × List Node)
  | [] => none
  | .mapping entries :: rest => some (entries, (entries.map Prod.snd).filter isCollection ++ rest)
  | .sequence items :: rest => next? (items ++ rest)
  | _ :: rest => next? rest
termination_by stack => sizeOf stack
decreasing_by
  · have := sizeOf_append items rest
    rw [List.cons.sizeOf_spec, sequence.sizeOf_spec]
    omega
  · rw [List.cons.sizeOf_spec]
    omega

theorem sizeOf_next? {stack rest : List Node} {m : Mapping}
    (hfound : next? stack = some (m, rest)) : sizeOf rest < sizeOf stack := by
  fun_induction next? stack with
  | case1 => cases hfound
  | case2 entries later =>
      cases hfound
      have hless := sizeOf_values_le m isCollection
      have := sizeOf_append ((m.map Prod.snd).filter isCollection) later
      rw [List.cons.sizeOf_spec, mapping.sizeOf_spec]
      omega
  | case3 items later ih =>
      have := ih hfound
      have := sizeOf_append items later
      rw [List.cons.sizeOf_spec, sequence.sizeOf_spec]
      omega
  | case4 leaf later _ _ ih =>
      have := ih hfound
      rw [List.cons.sizeOf_spec]
      omega

def iterate (stack : List Node) : List Mapping :=
  match _ : next? stack with
  | none => []
  | some (m, rest) => m :: iterate rest
termination_by sizeOf stack
decreasing_by exact sizeOf_next? ‹_›

end Node

end DirectoryMetrics
