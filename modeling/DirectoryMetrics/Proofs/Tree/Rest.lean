import DirectoryMetrics.Proofs.Tree.Annotation

namespace DirectoryMetrics

/-! Walks that come to rest. A visitor that finds in every mapping what it would write there leaves
the tree as it is, wherever in a configuration the tree stands. -/

/-- A visitor leaves every mapping of a node as it is, under a key and with what is handed down. -/
inductive Visitor.Rests {ε κ : Type} (visit : Visitor ε κ) : Option String → κ → Node → Prop where
  | leaf {key : Option String} {inherited : κ} {node : Node} (noMapping : ∀ m, node ≠ .mapping m)
      (noSequence : ∀ items, node ≠ .sequence items) : Rests visit key inherited node
  | mapping {key : Option String} {inherited : κ} {m : Mapping} (own : κ)
      (visits : ∀ place : Place, place.key = key → visit place inherited m = .ok (m, own))
      (below : ∀ entry ∈ m, Rests visit entry.1.keyName? own entry.2) :
      Rests visit key inherited (.mapping m)
  | sequence {key : Option String} {inherited : κ} {items : List Node}
      (below : ∀ item ∈ items, Rests visit key inherited item) :
      Rests visit key inherited (.sequence items)

namespace Visitor.Rests

variable {ε κ : Type} {visit : Visitor ε κ}

theorem walkWithin {key : Option String} {inherited : κ} {node : Node}
    (hrests : visit.Rests key inherited node) (depth : Nat) (place : Place)
    (hunder : place.key = key) :
    Node.walkWithin visit depth place inherited node = .ok node := by
  induction depth generalizing key inherited node place with
  | zero => rfl
  | succ depth ih =>
      cases hrests with
      | leaf noMapping noSequence =>
          cases node with
          | mapping m => exact absurd rfl (noMapping m)
          | sequence items => exact absurd rfl (noSequence items)
          | _ => rfl
      | mapping own visits below =>
          rename_i m
          refine Node.walkWithin_mapping.mpr ⟨m, own, m, visits place hunder, ?_, rfl⟩
          exact List.forall₂_same.mpr fun entry member =>
            ⟨rfl, ih (below entry member) _ (Place.child_key place entry.1)⟩
      | sequence below =>
          rename_i items
          exact Node.walkWithin_of_items (List.forall₂_same.mpr fun item member index =>
            ih (below item member) (place.item index) hunder)

theorem walk {inherited : κ} {node : Node} (hrests : visit.Rests none inherited node) :
    node.walk visit inherited = .ok node :=
  hrests.walkWithin node.height .root rfl

end Visitor.Rests

/-- A walk that ends well ends the same elsewhere, as long as the visits do: with other keys on the
way to its node, and with more or less depth left. -/
theorem Node.walkWithin_elsewhere {ε κ : Type} {visit visit' : Visitor ε κ}
    (hshallow : visit.Shallow)
    (hsame : ∀ place place' inherited m result, place'.key = place.key →
      visit place inherited m = .ok result → visit' place' inherited m = .ok result)
    {depth : Nat} {place : Place} {inherited : κ} {node walked : Node}
    (hbound : node.height ≤ depth)
    (hwalking : walkWithin visit depth place inherited node = .ok walked)
    {depth' : Nat} (hbound' : node.height ≤ depth') {place' : Place}
    (hunder : place'.key = place.key) :
    walkWithin visit' depth' place' inherited node = .ok walked := by
  refine walkWithin_induct hshallow
    (motive := fun place inherited node walked => ∀ depth' place', node.height ≤ depth' →
      place'.key = place.key → walkWithin visit' depth' place' inherited node = .ok walked)
    ?_ ?_ ?_ depth place inherited node walked hbound hwalking depth' place' hbound' hunder
  · intro place inherited node noMapping noSequence depth' place' _ _
    exact (Visitor.Rests.leaf noMapping noSequence).walkWithin depth' place' rfl
  · intro place inherited m visited own walked visiting _ children depth' place' hbound' hunder
    rw [height] at hbound'
    obtain ⟨depth', rfl⟩ := Nat.exists_eq_add_of_le' (Nat.le_trans (Nat.le_add_left 1 _) hbound')
    have low : ∀ entry ∈ visited, entry.2.height ≤ depth' := by
      rw [← entriesHeight_le_iff]
      exact Nat.le_trans (hshallow _ _ _ _ _ visiting) (Nat.le_of_add_le_add_right hbound')
    refine walkWithin_mapping.mpr ⟨visited, own, walked,
      hsame place place' inherited m _ hunder visiting, ?_, rfl⟩
    refine ((List.forall₂_and_left _ _).mpr ⟨low, children⟩).imp ?_
    rintro before after ⟨low, sameKey, child⟩
    exact ⟨sameKey, child depth' _ low (by rw [Place.child_key, Place.child_key])⟩
  · intro place inherited items walked children depth' place' hbound' hunder
    rw [height] at hbound'
    obtain ⟨depth', rfl⟩ := Nat.exists_eq_add_of_le' (Nat.le_trans (Nat.le_add_left 1 _) hbound')
    have low := itemsHeight_le_iff.mp (Nat.le_of_add_le_add_right hbound')
    refine walkWithin_of_items (((List.forall₂_and_left _ _).mpr ⟨low, children⟩).imp ?_)
    rintro item after ⟨low, _, child⟩ index
    exact child depth' (place'.item index) low hunder

theorem Mapping.get?_rel {R : Node → Node → Node → Prop} {before after : Mapping}
    (hrelated : List.Forall₂ (fun b a : Node × Node => b.1 = a.1 ∧ R b.1 b.2 a.2) before after)
    (name : String) : Option.Rel (R (.text name)) (before.get? name) (after.get? name) := by
  induction hrelated with
  | nil => exact .none
  | @cons b a later later' head tail ih =>
      obtain ⟨key, value⟩ := b
      obtain ⟨key', value'⟩ := a
      obtain ⟨same, values⟩ := head
      cases same
      rw [get?_cons, get?_cons]
      split
      · rename_i isName
        rw [isKey_iff] at isName
        cases isName
        exact .some values
      · exact ih

theorem Mapping.set_eq_self_iff {name : String} {value : Node} {m : Mapping} :
    m.set name value = m ↔ m.get? name = some value := by
  refine ⟨fun same => ?_, set_of_get?_eq_some⟩
  rw [← get?_set_self name value m, same]

namespace Visitor

variable {ε κ : Type} {visit visit' : Visitor ε κ} {field : String} {text : κ → String}

/-- What a walk leaves is at rest if a visitor finds in a mapping what it wrote there, whatever
became of the mappings below. -/
theorem rests_of_walk (hshallow : visit.Shallow)
    (hagain : ∀ place inherited m visited own walked, visit place inherited m = .ok (visited, own) →
      Mapping.Alike visited walked → ∀ place' : Place, place'.key = place.key →
      visit' place' inherited walked = .ok (walked, own))
    {inherited : κ} {node walked : Node} (hwalking : node.walk visit inherited = .ok walked) :
    visit'.Rests none inherited walked := by
  refine Node.walkWithin_induct hshallow
    (motive := fun place inherited _ walked => visit'.Rests place.key inherited walked)
    ?_ ?_ ?_ node.height .root inherited node walked (Nat.le_refl _) hwalking
  · intro place inherited node noMapping noSequence
    exact .leaf noMapping noSequence
  · intro place inherited m visited own walked visiting alike children
    refine .mapping own (hagain place inherited m visited own walked visiting alike) ?_
    refine forall_mem_of_forall₂ (P := fun entry => visit'.Rests entry.1.keyName? own entry.2)
      (children.imp ?_)
    rintro before after ⟨same, child⟩
    rwa [Place.child_key, same] at child
  · intro place inherited items walked children
    refine .sequence (forall_mem_of_forall₂ (P := visit'.Rests place.key inherited)
      (children.imp ?_))
    rintro item after ⟨index, child⟩
    exact child

end Visitor

namespace ObjectDn

variable {root : String} {owner other : Owner}

theorem visit_fixed {place : Place} {parent own : Suffix} {m : Mapping} :
    visit root owner place parent m = .ok (m, own) ↔
      (m.isQueryable = false ∧ own = parent) ∨
        (m.isQueryable = true ∧ own? root parent m = some own ∧
          m.get? Field.computedDn = some (.text own.dn)) := by
  rw [visit]
  cases m.isQueryable with
  | false => simp [eq_comm]
  | true =>
      cases own? root parent m with
      | none => simp
      | some suffix =>
          simp only [if_true, Except.ok.injEq, Prod.mk.injEq, Mapping.set_eq_self_iff]
          simp only [Bool.true_eq_false, false_and, true_and, Option.some.injEq, false_or]
          constructor
          · rintro ⟨written, rfl⟩
            exact ⟨rfl, written⟩
          · rintro ⟨rfl, written⟩
            exact ⟨written, rfl⟩

theorem own?_congr {parent : Suffix} {m m' : Mapping}
    (hsame : m'.nonempty? Field.rdn = m.nonempty? Field.rdn) :
    own? root parent m' = own? root parent m := by
  rw [own?, own?, hsame]

theorem rests_of_walk {object placed : Node}
    (hwalking : object.walk (visit root owner) ⟨root, false⟩ = .ok placed) :
    (visit root other).Rests none ⟨root, false⟩ placed := by
  have hannotates := visit_annotates root owner
  refine Visitor.rests_of_walk hannotates.shallow ?_ hwalking
  intro place parent m visited own walked visiting alike place' _
  have hqueryable := hannotates.isQueryable visiting alike (by decide) (by decide)
  rw [visit_fixed, hqueryable, own?_congr (hannotates.nonempty?_of_ne visiting alike (by decide))]
  cases isQueryable : m.isQueryable with
  | false =>
      rw [visit, if_neg (by simp [isQueryable])] at visiting
      cases visiting
      exact .inl ⟨rfl, rfl⟩
  | true =>
      refine .inr ⟨rfl, ?_, hannotates.get?_field visiting alike isQueryable⟩
      rw [visit, if_pos isQueryable] at visiting
      cases below : own? root parent m with
      | none => simp [below] at visiting
      | some suffix =>
          rw [below] at visiting
          cases visiting
          rfl

end ObjectDn

namespace MetricPath

theorem rests_of_walk {object named : Node}
    (hwalking : object.walk (visit (ε := ConfigError)) "" = .ok named) :
    (visit (ε := ConfigError)).Rests none "" named := by
  refine Visitor.rests_of_walk visit_annotates.shallow ?_ hwalking
  intro place before m visited own walked visiting alike place' under
  have hqueryable := visit_annotates.isQueryable visiting alike (by decide) (by decide)
  have hname := ownName_congr under (visit_annotates.text?_of_ne visiting alike (by decide))
  have hhandedDown := visit_own visiting
  rw [visit, hqueryable]
  cases isQueryable : m.isQueryable with
  | false =>
      rw [isQueryable, if_neg Bool.false_ne_true] at hhandedDown
      rw [if_neg Bool.false_ne_true, hhandedDown]
  | true =>
      have hwritten : walked.get? Field.metricName = some (.text own) :=
        visit_annotates.get?_field visiting alike isQueryable
      rw [isQueryable, if_pos rfl] at hhandedDown
      simp only [if_true, hname, ← hhandedDown]
      rw [Mapping.set_of_get?_eq_some hwritten]

theorem objectDn_rests {root : String} {owner : Owner} {placed named : Node}
    {suffix : ObjectDn.Suffix}
    (hwalking : placed.walk (visit (ε := ConfigError)) "" = .ok named)
    (hrests : (ObjectDn.visit root owner).Rests none suffix placed) :
    (ObjectDn.visit root owner).Rests none suffix named := by
  refine Node.walkWithin_induct visit_annotates.shallow
    (motive := fun place _ node walked => ∀ suffix,
      (ObjectDn.visit root owner).Rests place.key suffix node →
      (ObjectDn.visit root owner).Rests place.key suffix walked)
    ?_ ?_ ?_ placed.height .root "" placed named (Nat.le_refl _) hwalking suffix hrests
  · intro place _ node _ _ suffix hrests
    exact hrests
  · intro place before m visited own walked visiting alike children suffix hrests
    cases hrests with
    | leaf noMapping _ => exact absurd rfl (noMapping m)
    | mapping handedDown visits below =>
        have hbelowVisited := visit_annotates.forall_mem visiting
          (P := fun entry => (ObjectDn.visit root owner).Rests entry.1.keyName? handedDown entry.2)
          below fun written => .leaf (by simp) (by simp)
        refine .mapping handedDown (fun place' under => ?_) ?_
        · have hfixed := ObjectDn.visit_fixed.mp (visits place' under)
          rw [ObjectDn.visit_fixed,
            visit_annotates.isQueryable visiting alike (by decide) (by decide),
            ObjectDn.own?_congr (visit_annotates.nonempty?_of_ne visiting alike (by decide))]
          refine hfixed.imp_right fun ⟨queryable, ownSuffix, written⟩ => ⟨queryable, ownSuffix, ?_⟩
          exact alike.get?_text ((visit_annotates.get?_of_ne visiting (by decide)).trans written)
        · refine forall_mem_of_forall₂
            (P := fun entry =>
              (ObjectDn.visit root owner).Rests entry.1.keyName? handedDown entry.2)
            (((List.forall₂_and_left _ _).mpr ⟨hbelowVisited, children⟩).imp ?_)
          rintro entry after ⟨hrests, same, child⟩
          rw [Place.child_key] at child
          rw [← same]
          exact child _ hrests
  · intro place before items walked children suffix hrests
    cases hrests with
    | leaf _ noSequence => exact absurd rfl (noSequence items)
    | sequence below =>
        refine .sequence (forall_mem_of_forall₂
          (P := (ObjectDn.visit root owner).Rests place.key suffix)
          (((List.forall₂_and_left _ _).mpr ⟨below, children⟩).imp ?_))
        rintro item after ⟨hrests, index, child⟩
        exact child suffix hrests

end MetricPath

end DirectoryMetrics
