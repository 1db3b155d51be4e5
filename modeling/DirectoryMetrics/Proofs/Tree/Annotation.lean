import DirectoryMetrics.Proofs.Tree.Descent
import DirectoryMetrics.Proofs.Tree.ServerEntries
import DirectoryMetrics.Tree.MetricPath
import DirectoryMetrics.Tree.ObjectDn

namespace DirectoryMetrics

/-! Annotations. The passes for distinguished names and for metric names write a text into one
field of every queryable mapping. A descent that finds the text there need not thread it. -/

namespace Visitor

variable {ε κ : Type} {visit : Visitor ε κ} {field : String} {text : κ → String}

/-- What a visitor hands down is written into a field of every queryable mapping. -/
def Annotates (visit : Visitor ε κ) (field : String) (text : κ → String) : Prop :=
  ∀ place inherited m visited own, visit place inherited m = .ok (visited, own) →
    visited = if m.isQueryable then m.set field (.text (text own)) else m

namespace Annotates

theorem forall_mem {P : Node × Node → Prop} (hannotates : visit.Annotates field text)
    {place : Place} {inherited own : κ} {m visited : Mapping}
    (hvisiting : visit place inherited m = .ok (visited, own))
    (hheld : ∀ entry ∈ m, P entry) (hofText : ∀ written, P (.text field, .text written)) :
    ∀ entry ∈ visited, P entry := by
  rw [hannotates _ _ _ _ _ hvisiting]
  split
  · exact Mapping.forall_mem_set hheld (hofText _)
  · exact hheld

section Reading

variable {place : Place} {inherited own : κ} {m visited walked : Mapping}
  (hannotates : visit.Annotates field text)
  (hvisiting : visit place inherited m = .ok (visited, own))
  (halike : Mapping.Alike visited walked)

include hannotates hvisiting

theorem get?_of_ne {other : String} (hdifferent : other ≠ field) :
    visited.get? other = m.get? other := by
  rw [hannotates _ _ _ _ _ hvisiting]
  split
  · exact Mapping.get?_set_of_ne hdifferent _ m
  · rfl

include halike

theorem text?_of_ne {other : String} (hdifferent : other ≠ field) :
    walked.text? other = m.text? other := by
  rw [halike.text?, Mapping.text?, hannotates.get?_of_ne hvisiting hdifferent]
  rfl

theorem nonempty?_of_ne {other : String} (hdifferent : other ≠ field) :
    walked.nonempty? other = m.nonempty? other := by
  rw [Mapping.nonempty?, hannotates.text?_of_ne hvisiting halike hdifferent]
  rfl

theorem keyName?_of_ne {other : String} (hdifferent : other ≠ field) :
    (walked.get? other).bind Node.keyName? = (m.get? other).bind Node.keyName? := by
  rw [halike.keyName?, hannotates.get?_of_ne hvisiting hdifferent]

theorem isQueryable (hnotRdn : Field.rdn ≠ field) (hnotAttribute : Field.attributeName ≠ field) :
    walked.isQueryable = m.isQueryable := by
  rw [Mapping.isQueryable, Mapping.declares, Mapping.declares,
    hannotates.nonempty?_of_ne hvisiting halike hnotRdn,
    hannotates.nonempty?_of_ne hvisiting halike hnotAttribute]
  rfl

theorem get?_field (hqueryable : m.isQueryable = true) :
    walked.get? field = some (.text (text own)) := by
  refine halike.get?_text ?_
  rw [hannotates _ _ _ _ _ hvisiting, if_pos hqueryable, Mapping.get?_set_self]

theorem text?_field (hqueryable : m.isQueryable = true) :
    walked.text? field = some (text own) := by
  rw [Mapping.text?, hannotates.get?_field hvisiting halike hqueryable]
  rfl

end Reading

theorem shallow (hannotates : visit.Annotates field text) : visit.Shallow := by
  intro place inherited m visited own visiting
  rw [Node.entriesHeight_le_iff]
  exact hannotates.forall_mem visiting (Node.entriesHeight_le_iff.mp (Nat.le_refl _))
    fun written => by simp [Node.height]

theorem holdsOnce (hannotates : visit.Annotates field text) {name : String}
    {place : Place} {inherited own : κ} {m visited : Mapping}
    (hvisiting : visit place inherited m = .ok (visited, own)) (honce : m.HoldsOnce name) :
    visited.HoldsOnce name := by
  rw [hannotates _ _ _ _ _ hvisiting]
  split
  · exact honce.set field _
  · exact honce

theorem walk_holdsOnce (hannotates : visit.Annotates field text) {name : String} {inherited : κ}
    {node walked : Node} (hwalking : node.walk visit inherited = .ok walked)
    (honce : ∀ m ∈ node.mappings, m.HoldsOnce name) : ∀ m ∈ walked.mappings, m.HoldsOnce name := by
  refine Node.walk_forall_mappings hannotates.shallow
    (fun m m' alike honce => honce.of_keys_eq alike.keys_eq) ?_ hwalking honce
  intro place inherited m visited own visiting honce
  rw [Node.forall_mem_mappings] at honce ⊢
  refine ⟨hannotates.holdsOnce visiting honce.1, hannotates.forall_mem visiting honce.2 ?_⟩
  intro written m inside
  simp [Node.mappings] at inside

theorem flatMap_entry_visited {κ' β : Type} (hannotates : visit.Annotates field text)
    {place : Place} {inherited own : κ} {m visited : Mapping}
    (hvisiting : visit place inherited m = .ok (visited, own)) (honce : m.HoldsOnce field)
    (d : Descent κ' β) (hidden : List String) (above : κ') :
    m.flatMap (d.entry false (if m.isQueryable then field :: hidden else hidden) above) =
      visited.flatMap (d.entry false hidden above) := by
  have honceVisited := hannotates.holdsOnce hvisiting honce
  have hmade := hannotates place inherited m visited own hvisiting
  cases queryable : m.isQueryable with
  | false =>
      rw [queryable, if_neg Bool.false_ne_true] at hmade
      rw [if_neg Bool.false_ne_true, hmade]
  | true =>
      rw [queryable, if_pos rfl] at hmade
      have hwritten : visited.get? field = some (.text (text own)) := by
        rw [hmade, Mapping.get?_set_self]
      rw [if_pos rfl, ← Descent.flatMap_entry_hide_text _ honceVisited hwritten, hmade,
        Descent.flatMap_entry_set_hidden _ (by simp)]

/-- A descent that threads what an annotation writes finds what a descent finds that reads it. -/
theorem descent_eq {κ₁ κ₂ β : Type} (hannotates : visit.Annotates field text)
    (threading : Descent κ₁ β) (reading : Descent κ₂ β) (combine : κ → κ₂ → κ₁)
    (hnoNames : threading.childFields = []) (hnoNames' : reading.childFields = [])
    (hhidden : ∀ m, threading.hidden m =
      if m.isQueryable then field :: reading.hidden m else reading.hidden m)
    (hstep : ∀ place inherited m visited own walked,
      visit place inherited m = .ok (visited, own) → Mapping.Alike visited walked → ∀ rest,
      threading.own place.key (combine inherited rest) m =
          combine own (reading.own place.key rest walked) ∧
        threading.gather (combine own (reading.own place.key rest walked)) m =
          reading.gather (reading.own place.key rest walked) walked ∧
        reading.hidden walked = reading.hidden m)
    {inherited : κ} {node walked : Node} (hwalking : node.walk visit inherited = .ok walked)
    (honce : ∀ m ∈ node.mappings, m.HoldsOnce field) (rest : κ₂) :
    threading.node false none (combine inherited rest) node =
      reading.node false none rest walked := by
  refine Node.walkWithin_induct hannotates.shallow
    (motive := fun place inherited node walked => (∀ m ∈ node.mappings, m.HoldsOnce field) →
      ∀ rest, threading.node false place.key (combine inherited rest) node =
        reading.node false place.key rest walked)
    ?_ ?_ ?_ node.height .root inherited node walked (Nat.le_refl _) hwalking honce rest
  · intro place inherited node noMapping noSequence honce rest
    rw [Descent.node_leaf _ noMapping noSequence, Descent.node_leaf _ noMapping noSequence]
  · intro place inherited m visited own walked visiting alike children honce rest
    obtain ⟨ownEq, gatherEq, hiddenEq⟩ :=
      hstep place inherited m visited own walked visiting alike rest
    rw [Node.forall_mem_mappings] at honce
    rw [Descent.node_mapping, Descent.node_mapping, ownEq, gatherEq, hiddenEq]
    congr 1
    rw [hhidden, hannotates.flatMap_entry_visited visiting honce.1]
    have hbelow : ∀ entry ∈ visited, ∀ m ∈ entry.2.mappings, m.HoldsOnce field :=
      hannotates.forall_mem visiting honce.2 fun written m inside => by
        simp [Node.mappings] at inside
    refine Descent.flatMap_eq_of_forall₂ ((List.forall₂_and_left _ _).mpr ⟨hbelow, children⟩) ?_
    rintro before after ⟨onceBelow, same, child⟩
    rw [Descent.entry, Descent.entry, hnoNames, hnoNames', ← same]
    split
    · rfl
    · simpa using child onceBelow (reading.own place.key rest walked)
  · intro place inherited items walked children honce rest
    have inside : ∀ item ∈ items, ∀ m ∈ item.mappings, m.HoldsOnce field :=
      fun item member m within => honce m (Node.mem_itemsMappings.mpr ⟨item, member, within⟩)
    rw [Descent.node_sequence, Descent.node_sequence]
    refine Descent.flatMap_eq_of_forall₂ ((List.forall₂_and_left _ _).mpr ⟨inside, children⟩) ?_
    rintro item after ⟨onceBelow, index, child⟩
    exact child onceBelow rest

end Annotates

end Visitor

theorem ObjectDn.visit_annotates (root : String) (owner : Owner) :
    (ObjectDn.visit root owner).Annotates Field.computedDn Suffix.dn := by
  intro place parent m visited own visiting
  unfold ObjectDn.visit at visiting
  split at visiting
  · rename_i queryable
    rw [if_pos queryable]
    cases below : own? root parent m with
    | none => simp [below] at visiting
    | some suffix =>
        simp only [below, Except.ok.injEq, Prod.mk.injEq] at visiting
        rw [← visiting.1, visiting.2]
  · rename_i structural
    cases visiting
    rw [if_neg structural]

theorem MetricPath.visit_annotates :
    Visitor.Annotates (ε := ConfigError) MetricPath.visit Field.metricName id := by
  intro place before m visited own visiting
  unfold MetricPath.visit at visiting
  split at visiting
  · rename_i queryable
    cases visiting
    rw [if_pos queryable]
    rfl
  · rename_i structural
    cases visiting
    rw [if_neg structural]

theorem MetricPath.ownName_congr {place place' : Place} {m m' : Mapping}
    (hunder : place'.key = place.key) (hsame : m'.text? Field.name = m.text? Field.name) :
    ownName place' m' = ownName place m := by
  rw [ownName, ownName, hsame, hunder]

theorem MetricPath.visit_own {place : Place} {before own : String} {m visited : Mapping}
    (hvisiting : MetricPath.visit (ε := ConfigError) place before m = .ok (visited, own)) :
    own = if m.isQueryable then join before (ownName place m) else before := by
  rw [MetricPath.visit] at hvisiting
  split at hvisiting
  · rename_i queryable
    rw [if_pos queryable]
    cases hvisiting
    rfl
  · rename_i structural
    rw [if_neg structural]
    cases hvisiting
    rfl

theorem MetricPath.visit_isOk (place : Place) (before : String) (m : Mapping) :
    ∃ result, MetricPath.visit (ε := ConfigError) place before m = .ok result := by
  rw [MetricPath.visit]
  split
  · exact ⟨_, rfl⟩
  · exact ⟨_, rfl⟩

theorem MetricPath.annotate_isOk (root : Mapping) :
    ∃ named, MetricPath.annotate (.mapping root) = .ok named :=
  mapObjectTrees_isOk (fun _ object => object.walk_isOk visit_isOk "") root

end DirectoryMetrics
