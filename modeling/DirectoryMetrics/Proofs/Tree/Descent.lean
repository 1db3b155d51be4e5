import DirectoryMetrics.Proofs.Tree.Walk

namespace DirectoryMetrics

/-! Descents. A descent goes through an object tree once, parents before children. It threads what
a mapping hands down to the mappings below it, and gathers at most one thing from each. -/

/-- What a descent does at a mapping: what the mapping hands down, what is gathered from it, which
of its fields are not entered, and which hold the names of children instead of fields. -/
structure Descent (κ β : Type) where
  own : Option String → κ → Mapping → κ
  gather : κ → Mapping → Option β
  hidden : Mapping → List String
  childFields : List String

namespace Descent

variable {κ β : Type}

mutual
/-- Below a node that is nested under a key. A mapping of child names is passed through. -/
def node (d : Descent κ β) (names : Bool) (key : Option String) (above : κ) : Node → List β
  | .mapping m =>
      if names then entries d true [] above m
      else
        (d.gather (d.own key above m) m).toList ++
          entries d false (d.hidden m) (d.own key above m) m
  | .sequence items => itemsOf d key above items
  | _ => []

def entries (d : Descent κ β) (names : Bool) (hidden : List String) (own : κ) :
    List (Node × Node) → List β
  | [] => []
  | (key, value) :: rest =>
      (if hidden.any (Mapping.isKey · key) then []
        else node d (!names && d.childFields.any (Mapping.isKey · key)) key.keyName? own value) ++
        entries d names hidden own rest

def itemsOf (d : Descent κ β) (key : Option String) (above : κ) : List Node → List β
  | [] => []
  | item :: rest => node d false key above item ++ itemsOf d key above rest
end

variable (d : Descent κ β)

def entry (names : Bool) (hidden : List String) (own : κ) (e : Node × Node) : List β :=
  if hidden.any (Mapping.isKey · e.1) then []
  else d.node (!names && d.childFields.any (Mapping.isKey · e.1)) e.1.keyName? own e.2

theorem entries_eq_flatMap (names : Bool) (hidden : List String) (own : κ) (m : Mapping) :
    d.entries names hidden own m = m.flatMap (d.entry names hidden own) := by
  induction m with
  | nil => rfl
  | cons e rest ih =>
      rw [entries, ih]
      rfl

theorem itemsOf_eq_flatMap (key : Option String) (above : κ) (items : List Node) :
    d.itemsOf key above items = items.flatMap (d.node false key above) := by
  induction items with
  | nil => rfl
  | cons item rest ih =>
      rw [itemsOf, ih]
      rfl

theorem node_mapping (key : Option String) (above : κ) (m : Mapping) :
    d.node false key above (.mapping m) =
      (d.gather (d.own key above m) m).toList ++
        m.flatMap (d.entry false (d.hidden m) (d.own key above m)) := by
  rw [node, if_neg Bool.false_ne_true, entries_eq_flatMap]

theorem node_names (key : Option String) (above : κ) (m : Mapping) :
    d.node true key above (.mapping m) = m.flatMap (d.entry true [] above) := by
  rw [node, entries_eq_flatMap]
  rfl

theorem node_sequence (names : Bool) (key : Option String) (above : κ) (items : List Node) :
    d.node names key above (.sequence items) = items.flatMap (d.node false key above) := by
  rw [node, itemsOf_eq_flatMap]

theorem node_leaf {leaf : Node} (hnoMapping : ∀ m, leaf ≠ .mapping m)
    (hnoSequence : ∀ items, leaf ≠ .sequence items) (names : Bool) (key : Option String)
    (above : κ) : d.node names key above leaf = [] := by
  cases leaf with
  | mapping m => exact absurd rfl (hnoMapping m)
  | sequence items => exact absurd rfl (hnoSequence items)
  | _ => rfl

theorem node_names_of_ne {other : Node} (hnoMapping : ∀ m, other ≠ .mapping m)
    (names : Bool) (key : Option String) (above : κ) :
    d.node names key above other = d.node false key above other := by
  cases other with
  | mapping m => exact absurd rfl (hnoMapping m)
  | _ => rfl

def flat (d : Descent κ β) : Descent κ β := { d with childFields := [] }

def look (d : Descent κ β) (key : Option String) (above : κ) (m : Mapping) :
    κ × Option β × List String :=
  (d.own key above m, d.gather (d.own key above m) m, d.hidden m)

theorem flatMap_eq_of_forall₂ {α γ δ : Type} {R : α → γ → Prop} {xs : List α} {ys : List γ}
    {f : α → List δ} {g : γ → List δ} (hrelated : List.Forall₂ R xs ys)
    (hsame : ∀ x y, R x y → f x = g y) : xs.flatMap f = ys.flatMap g := by
  induction hrelated with
  | nil => rfl
  | cons head tail ih => rw [List.flatMap_cons, List.flatMap_cons, hsame _ _ head, ih]

theorem flatMap_entry_set_hidden {names : Bool} {hidden : List String} {own : κ} {field : String}
    (hhidden : field ∈ hidden) (value : Node) (m : Mapping) :
    (m.set field value).flatMap (d.entry names hidden own) =
      m.flatMap (d.entry names hidden own) := by
  have hnothing (held : Node) : d.entry names hidden own (.text field, held) = [] := by
    rw [entry, if_pos]
    rw [List.any_eq_true]
    exact ⟨field, hhidden, by simp⟩
  induction m with
  | nil => simp [Mapping.set, hnothing]
  | cons e rest ih =>
      obtain ⟨key, held⟩ := e
      rw [Mapping.set_cons]
      split
      · rename_i isName
        rw [Mapping.isKey_iff] at isName
        subst isName
        simp [hnothing]
      · rw [List.flatMap_cons, List.flatMap_cons, ih]

theorem flatMap_entry_hide_text {names : Bool} {hidden : List String} {own : κ}
    {field text : String} {m : Mapping} (honce : m.HoldsOnce field)
    (hheld : m.get? field = some (.text text)) :
    m.flatMap (d.entry names (field :: hidden) own) = m.flatMap (d.entry names hidden own) := by
  have hother (e : Node × Node) (notField : Mapping.isKey field e.1 = false) :
      d.entry names (field :: hidden) own e = d.entry names hidden own e := by
    rw [entry, entry, List.any_cons, notField, Bool.false_or]
  induction m with
  | nil => rfl
  | cons e rest ih =>
      obtain ⟨key, value⟩ := e
      rw [List.flatMap_cons, List.flatMap_cons]
      rw [Mapping.get?_cons] at hheld
      cases isField : Mapping.isKey field key with
      | false =>
          rw [isField] at hheld
          rw [hother _ isField, ih honce.of_tail hheld]
      | true =>
          rw [isField] at hheld
          cases hheld
          have habsent := honce.get?_tail isField
          rw [Mapping.get?_eq_none_iff] at habsent
          have hnothing : d.entry names hidden own (key, .text text) = [] := by
            rw [entry]
            split
            · rfl
            · rfl
          have hskipped : d.entry names (field :: hidden) own (key, .text text) = [] := by
            rw [entry, List.any_cons, isField]
            rfl
          rw [hnothing, hskipped]
          exact congrArg _ (List.flatMap_congr fun e member => hother e (habsent e member))

mutual
theorem node_eq_filterMap (htrivial : ∀ m, d.hidden m = []) (hnoNames : d.childFields = [])
    (hnothing : ∀ key above m, d.own key above m = above) (key : Option String) (above : κ) :
    ∀ tree : Node, d.node false key above tree = tree.mappings.filterMap (d.gather above)
  | .mapping m => by
      rw [node, if_neg Bool.false_ne_true, hnothing, htrivial, Node.mappings,
        entries_eq_filterMap htrivial hnoNames hnothing above m, List.filterMap_cons]
      cases d.gather above m <;> rfl
  | .sequence items => by
      rw [node, Node.mappings, itemsOf_eq_filterMap htrivial hnoNames hnothing key above items]
  | .null | .bool _ | .int _ | .float _ | .text _ | .tagged _ _ => rfl

theorem entries_eq_filterMap (htrivial : ∀ m, d.hidden m = []) (hnoNames : d.childFields = [])
    (hnothing : ∀ key above m, d.own key above m = above) (above : κ) :
    ∀ m : List (Node × Node),
      d.entries false [] above m = (Node.entriesMappings m).filterMap (d.gather above)
  | [] => rfl
  | (key, value) :: rest => by
      rw [entries, hnoNames, Node.entriesMappings, List.filterMap_append,
        entries_eq_filterMap htrivial hnoNames hnothing above rest]
      exact congrArg (· ++ _)
        (node_eq_filterMap htrivial hnoNames hnothing key.keyName? above value)

theorem itemsOf_eq_filterMap (htrivial : ∀ m, d.hidden m = []) (hnoNames : d.childFields = [])
    (hnothing : ∀ key above m, d.own key above m = above) (key : Option String) (above : κ) :
    ∀ items : List Node,
      d.itemsOf key above items = (Node.itemsMappings items).filterMap (d.gather above)
  | [] => rfl
  | item :: rest => by
      rw [itemsOf, Node.itemsMappings, List.filterMap_append,
        node_eq_filterMap htrivial hnoNames hnothing key above item,
        itemsOf_eq_filterMap htrivial hnoNames hnothing key above rest]
end

end Descent

end DirectoryMetrics
