import DirectoryMetrics.Proofs.Tree.Walk

namespace DirectoryMetrics

/-! Separate visits. A walk whose visitor hands nothing down visits every mapping of a tree as it
stands there, so it ends exactly if each of those visits does. -/

theorem Node.mappings_of_text? : ∀ {node : Node} {text : String}, node.text? = some text →
    node.mappings = []
  | .text _, _, _ | .tagged _ _, _, _ => rfl

theorem Node.entriesMappings_eq_flatMap (entries : Mapping) :
    Node.entriesMappings entries = entries.flatMap fun entry => entry.2.mappings := by
  induction entries with
  | nil => rfl
  | cons entry rest ih => rw [Node.entriesMappings, ih, List.flatMap_cons]

theorem Node.itemsMappings_eq_flatMap (items : List Node) :
    Node.itemsMappings items = items.flatMap Node.mappings := by
  induction items with
  | nil => rfl
  | cons item rest ih => rw [Node.itemsMappings, ih, List.flatMap_cons]

theorem Mapping.entriesMappings_set {name : String} {held new : Node} {m : Mapping}
    (hfound : m.get? name = some held) (hnothing : held.mappings = [])
    (hnothingNew : new.mappings = []) :
    Node.entriesMappings (m.set name new) = Node.entriesMappings m := by
  induction m with
  | nil => simp [get?] at hfound
  | cons entry rest ih =>
      obtain ⟨key, value⟩ := entry
      rw [get?_cons] at hfound
      rw [set_cons]
      split at hfound
      · rename_i isName
        cases hfound
        rw [if_pos isName, Node.entriesMappings, Node.entriesMappings, hnothing, hnothingNew]
      · rename_i notName
        rw [if_neg notName, Node.entriesMappings, Node.entriesMappings, ih hfound]

/-- A visitor that looks at nothing but the mapping, hands nothing down, and leaves the mappings
below it as they are. -/
structure Visitor.Separate {ε : Type} (visit : Visitor ε Unit) : Prop where
  anywhere : ∀ place m, visit place () m = visit .root () m
  below : ∀ m visited, visit .root () m = .ok (visited, ()) →
    Node.entriesMappings visited = Node.entriesMappings m
  shallow : visit.Shallow

namespace Node

variable {ε : Type} {visit : Visitor ε Unit}

theorem walkWithin_eq_error (hseparate : visit.Separate) {depth : Nat} {place : Place} {node : Node}
    {e : ε} (hfailing : walkWithin visit depth place () node = .error e) :
    ∃ m ∈ node.mappings, visit .root () m = .error e := by
  induction depth generalizing place node with
  | zero => cases hfailing
  | succ depth ih =>
      cases node with
      | mapping m =>
          rw [mappings]
          rw [walkWithin, Except.bind_eq_error] at hfailing
          rcases hfailing with failed | ⟨⟨visited, own⟩, visiting, hfailing⟩
          · exact ⟨m, List.mem_cons_self, by rwa [hseparate.anywhere] at failed⟩
          · rw [Except.bind_eq_error] at hfailing
            rcases hfailing with hfailing | ⟨_, _, returned⟩
            · obtain ⟨entry, member, hfailing⟩ := Except.mapM_eq_error hfailing
              rw [Except.bind_eq_error] at hfailing
              rcases hfailing with hfailing | ⟨_, _, returned⟩
              · obtain ⟨m', inside, failed⟩ := ih hfailing
                refine ⟨m', List.mem_cons_of_mem _ ?_, failed⟩
                rw [hseparate.anywhere] at visiting
                rw [← hseparate.below m visited visiting]
                exact mem_entriesMappings.mpr ⟨entry, member, inside⟩
              · cases returned
            · cases returned
      | sequence items =>
          rw [walkWithin, Except.bind_eq_error] at hfailing
          rcases hfailing with hfailing | ⟨_, _, returned⟩
          · obtain ⟨item, member, hfailing⟩ := Except.mapM_eq_error hfailing
            obtain ⟨m, inside, failed⟩ := ih hfailing
            exact ⟨m, mem_itemsMappings.mpr
              ⟨item.1, List.fst_mem_of_mem_zipIdx member, inside⟩, failed⟩
          · cases returned
      | _ => cases hfailing

theorem walk_visits (hseparate : visit.Separate) {node walked : Node}
    (hwalking : node.walk visit () = .ok walked) :
    ∀ m ∈ node.mappings, ∃ result, visit .root () m = .ok result := by
  refine walkWithin_induct hseparate.shallow
    (motive := fun _ _ node _ => ∀ m ∈ node.mappings, ∃ result, visit .root () m = .ok result)
    ?_ ?_ ?_ node.height .root () node walked (Nat.le_refl _) hwalking
  · intro place _ node noMapping noSequence m inside
    cases node with
    | mapping m => exact absurd rfl (noMapping m)
    | sequence items => exact absurd rfl (noSequence items)
    | _ => simp [mappings] at inside
  · intro place _ m visited own walked visiting _ children
    rw [hseparate.anywhere] at visiting
    rw [mappings, List.forall_mem_cons]
    refine ⟨⟨_, visiting⟩, fun m' inside => ?_⟩
    rw [← hseparate.below m visited visiting] at inside
    obtain ⟨entry, member, inside⟩ := mem_entriesMappings.mp inside
    exact forall_mem_left_of_forall₂ (P := fun entry : Node × Node =>
        ∀ m ∈ entry.2.mappings, ∃ result, visit .root () m = .ok result)
      (children.imp fun _ _ child => child.2) entry member m' inside
  · intro place _ items walked children m inside
    obtain ⟨item, member, inside⟩ := mem_itemsMappings.mp inside
    exact forall_mem_left_of_forall₂ (P := fun item : Node =>
        ∀ m ∈ item.mappings, ∃ result, visit .root () m = .ok result)
      (children.imp fun _ _ ⟨_, child⟩ => child) item member m inside

theorem walk_mappings (hseparate : visit.Separate) {node walked : Node}
    (hwalking : node.walk visit () = .ok walked) :
    List.Forall₂
      (fun m after => ∃ visited, visit .root () m = .ok (visited, ()) ∧ visited.Alike after)
      node.mappings walked.mappings := by
  refine walkWithin_induct hseparate.shallow
    (motive := fun _ _ node walked => List.Forall₂
      (fun m after => ∃ visited, visit .root () m = .ok (visited, ()) ∧ Mapping.Alike visited after)
      node.mappings walked.mappings)
    ?_ ?_ ?_ node.height .root () node walked (Nat.le_refl _) hwalking
  · intro place _ node noMapping noSequence
    cases node with
    | mapping m => exact absurd rfl (noMapping m)
    | sequence items => exact absurd rfl (noSequence items)
    | _ => exact .nil
  · intro place _ m visited own walked visiting alike children
    rw [hseparate.anywhere] at visiting
    rw [mappings, mappings, ← hseparate.below m visited visiting]
    refine .cons ⟨visited, visiting, alike⟩ ?_
    rw [entriesMappings_eq_flatMap, entriesMappings_eq_flatMap]
    exact List.rel_flatMap children fun _ _ child => child.2
  · intro place _ items walked children
    rw [mappings, mappings, itemsMappings_eq_flatMap, itemsMappings_eq_flatMap]
    exact List.rel_flatMap children fun _ _ ⟨_, child⟩ => child

theorem walk_isOk_iff (hseparate : visit.Separate) (node : Node) :
    (∃ walked, node.walk visit () = .ok walked) ↔
      ∀ m ∈ node.mappings, ∃ result, visit .root () m = .ok result := by
  constructor
  · rintro ⟨walked, walking⟩
    exact walk_visits hseparate walking
  · intro visits
    cases walking : node.walk visit () with
    | ok walked => exact ⟨walked, rfl⟩
    | error e =>
        obtain ⟨m, inside, failed⟩ := walkWithin_eq_error hseparate walking
        obtain ⟨result, visiting⟩ := visits m inside
        rw [visiting] at failed
        cases failed

end Node

end DirectoryMetrics
