import DirectoryMetrics.Proofs.Tree.Annotation
import DirectoryMetrics.Proofs.Tree.Expansion

namespace DirectoryMetrics

/-! Lineages. A queryable node of an object tree stands below the queryable nodes around it, whose
names it carries on; the text of its name is expanded without regard to theirs. -/

/-- A name is that of a node or of one below it. An empty name leaves no trace in the others. -/
def Continues (above below : String) : Prop :=
  above = "" ∨ below = above ∨ ∃ rest, below = above ++ "/" ++ rest

instance (above below : String) : Decidable (Continues above below) :=
  decidable_of_iff
    (above = "" ∨ below = above ∨ (above ++ "/").toList <+: below.toList) <| by
      refine or_congr_right (or_congr_right ⟨?_, ?_⟩)
      · rintro ⟨rest, eq⟩
        refine ⟨String.ofList rest, String.toList_inj.mp ?_⟩
        rw [String.toList_append, String.toList_ofList, eq]
      · rintro ⟨rest, rfl⟩
        exact ⟨rest.toList, String.toList_append.symm⟩

namespace Continues

theorem refl (name : String) : Continues name name := .inr (.inl rfl)

theorem trans {above between below : String} (hfirst : Continues above between)
    (hsecond : Continues between below) : Continues above below := by
  rcases hfirst with empty | rfl | ⟨rest, rfl⟩
  · exact .inl empty
  · exact hsecond
  · rcases hsecond with empty | rfl | ⟨later, rfl⟩
    · have hslash := congrArg String.toList empty
      simp at hslash
    · exact .inr (.inr ⟨rest, rfl⟩)
    · exact .inr (.inr ⟨rest ++ "/" ++ later, by simp only [String.append_assoc]⟩)

theorem join (before own : String) : Continues before (MetricPath.join before own) := by
  rw [MetricPath.join]
  split
  · rename_i empty
    exact .inl (String.isEmpty_iff.mp empty)
  · split
    · exact .refl before
    · exact .inr (.inr ⟨own, rfl⟩)

end Continues

namespace Lineage

def metricName (m : Mapping) : String := (m.text? Field.metricName).getD ""

/-- From each queryable node the queryable nodes outwards, the node itself first. -/
def descent : Descent (List Mapping) (List Mapping) where
  own _ around m := if m.isQueryable then m :: around else around
  gather own m := if m.isQueryable then some own else none
  hidden _ := []
  childFields := []

def ofTree (object : Node) : List (List Mapping) := descent.node false none [] object

theorem node_mapping (key : Option String) (around : List Mapping) (m : Mapping) :
    descent.node false key around (.mapping m) =
      (if m.isQueryable then [m :: around] else []) ++
        m.flatMap fun entry => descent.node false entry.1.keyName?
          (if m.isQueryable then m :: around else around) entry.2 := by
  rw [Descent.node_mapping]
  have hentries : descent.entry false (descent.hidden m) (descent.own key around m) =
      fun entry => descent.node false entry.1.keyName?
        (if m.isQueryable then m :: around else around) entry.2 := rfl
  rw [hentries]
  cases queryable : m.isQueryable with
  | true => simp [descent, queryable]
  | false => simp [descent, queryable]

variable {P : List Mapping → Prop}

theorem forall_mem_node_mapping {key : Option String} {around : List Mapping} {m : Mapping}
    (hown : m.isQueryable = true → P (m :: around))
    (hbelow : ∀ entry ∈ m, ∀ nodes ∈ descent.node false entry.1.keyName?
      (if m.isQueryable then m :: around else around) entry.2, P nodes) :
    ∀ nodes ∈ descent.node false key around (.mapping m), P nodes := by
  intro nodes member
  rw [node_mapping, List.mem_append, List.mem_flatMap] at member
  rcases member with isOwn | ⟨entry, inside, later⟩
  · split at isOwn
    · rename_i queryable
      cases List.mem_singleton.mp isOwn
      exact hown queryable
    · cases isOwn
  · exact hbelow entry inside nodes later

theorem forall_mem_node_sequence {key : Option String} {around : List Mapping} {items : List Node}
    (hbelow : ∀ item ∈ items, ∀ nodes ∈ descent.node false key around item, P nodes) :
    ∀ nodes ∈ descent.node false key around (.sequence items), P nodes := by
  intro nodes member
  rw [Descent.node_sequence, List.mem_flatMap] at member
  obtain ⟨item, inside, later⟩ := member
  exact hbelow item inside nodes later

def Descends (nodes : List Mapping) : Prop :=
  nodes.Pairwise fun node enclosing => Continues (metricName enclosing) (metricName node)

/-- The nodes around a node of the walk have names that the name handed down carries on. -/
theorem descends_of_walk {object named : Node}
    (hwalking : object.walk (MetricPath.visit (ε := ConfigError)) "" = .ok named) :
    ∀ nodes ∈ ofTree named, Descends nodes := by
  have hshallow := MetricPath.visit_annotates.shallow
  refine Node.walkWithin_induct hshallow
    (motive := fun place before _ walked => ∀ around, Descends around →
      (∀ enclosing ∈ around, Continues (metricName enclosing) before) →
      ∀ nodes ∈ descent.node false place.key around walked, Descends nodes)
    ?_ ?_ ?_ object.height .root "" object named (Nat.le_refl _) hwalking [] .nil (by simp)
  · intro place before node noMapping noSequence around _ _
    rw [Descent.node_leaf _ noMapping noSequence]
    simp
  · intro place before m visited own walked visiting alike children around descends carried
    have hhandedDown := MetricPath.visit_own visiting
    have hqueryable : Mapping.isQueryable walked = m.isQueryable :=
      MetricPath.visit_annotates.isQueryable visiting alike (by decide) (by decide)
    have hcarriedOn : ∀ enclosing ∈ around, Continues (metricName enclosing) own := by
      intro enclosing member
      rw [hhandedDown]
      split
      · exact (carried enclosing member).trans (.join before _)
      · exact carried enclosing member
    have hnameOfOwn : m.isQueryable = true → metricName walked = own := by
      intro isQueryable
      rw [metricName, MetricPath.visit_annotates.text?_field visiting alike isQueryable]
      rfl
    have hownDescends : m.isQueryable = true → Descends (walked :: around) := by
      intro isQueryable
      refine List.pairwise_cons.mpr ⟨?_, descends⟩
      rw [hnameOfOwn isQueryable]
      exact hcarriedOn
    refine forall_mem_node_mapping (hqueryable ▸ hownDescends) ?_
    rw [hqueryable]
    refine forall_mem_of_forall₂ (P := fun entry : Node × Node => ∀ nodes ∈ descent.node false
      entry.1.keyName? (if m.isQueryable then walked :: around else around) entry.2,
      Descends nodes) (children.imp ?_)
    rintro entry after ⟨same, child⟩
    rw [← same, ← Place.child_key place entry.1]
    split
    · rename_i isQueryable
      refine child _ (hownDescends isQueryable) (List.forall_mem_cons.mpr ⟨?_, hcarriedOn⟩)
      rw [hnameOfOwn isQueryable]
      exact .refl own
    · exact child _ descends hcarriedOn
  · intro place before items walked children around descends carried
    refine forall_mem_node_sequence (forall_mem_of_forall₂ (P := fun item => ∀ nodes ∈
      descent.node false place.key around item, Descends nodes) (children.imp ?_))
    rintro item after ⟨index, child⟩
    exact child around descends carried

/-- The name of a node on a server, before and after its expansion. -/
def Expanded (values : Placeholder.Values) (server : String) (node final : Mapping) : Prop :=
  Placeholder.expand values (metricName node) server (Placeholder.computedDn node) =
    .ok (metricName final)

theorem flatMap_set_of_nothing {β : Type} {f : Node × Node → List β} {name : String}
    {held new : Node} {m : Mapping} (hfound : m.get? name = some held)
    (hnothing : f (.text name, held) = []) (hnothingNew : f (.text name, new) = []) :
    (m.set name new).flatMap f = m.flatMap f := by
  induction m with
  | nil => simp [Mapping.get?] at hfound
  | cons entry rest ih =>
      obtain ⟨key, value⟩ := entry
      rw [Mapping.get?_cons] at hfound
      rw [Mapping.set_cons]
      split at hfound
      · rename_i isName
        cases hfound
        rw [if_pos isName]
        rw [Mapping.isKey_iff] at isName
        rw [isName, List.flatMap_cons, List.flatMap_cons, hnothing, hnothingNew]
      · rename_i notName
        rw [if_neg notName, List.flatMap_cons, List.flatMap_cons, ih hfound]

section

variable {values : Placeholder.Values} {server : String} {place : Place}
  {m visited walked : Mapping}

theorem expanded_of_visit
    (hvisiting : Placeholder.visit values server place () m = .ok (visited, ()))
    (halike : Mapping.Alike visited walked) :
    Mapping.isQueryable walked = m.isQueryable ∧ Expanded values server m walked := by
  have hname : metricName walked = metricName visited := by
    rw [metricName, halike.text?]
    rfl
  rw [halike.isQueryable, Expanded, hname]
  rcases Placeholder.visit_cases values server place m with
    ⟨absent, eq⟩ | ⟨metric, named, eq⟩
  · rw [eq] at hvisiting
    cases hvisiting
    refine ⟨rfl, ?_⟩
    rw [metricName, absent]
    exact Placeholder.expand_of_not_opens rfl
  · rw [eq, Except.map_eq_ok] at hvisiting
    obtain ⟨expansion, expanding, eq⟩ := hvisiting
    cases eq
    rw [metricName, named, Option.getD_some, expanding]
    split
    · rename_i opened
      refine ⟨?_, ?_⟩
      · simp only [Mapping.isQueryable, Mapping.declares, Mapping.nonempty?, Mapping.text?]
        rw [Mapping.get?_set_of_ne (by decide), Mapping.get?_set_of_ne (by decide)]
      · rw [metricName, Mapping.text?, Mapping.get?_set_self]
        rfl
    · rename_i plain
      refine ⟨rfl, ?_⟩
      rw [Placeholder.expand_of_not_opens (by simpa using plain)] at expanding
      rw [metricName, named, Option.getD_some]
      exact expanding.symm

theorem flatMap_of_visit
    (hvisiting : Placeholder.visit values server place () m = .ok (visited, ()))
    (around : List Mapping) :
    visited.flatMap (fun entry => descent.node false entry.1.keyName? around entry.2) =
      m.flatMap fun entry => descent.node false entry.1.keyName? around entry.2 := by
  rcases Placeholder.visit_cases values server place m with
    ⟨_, eq⟩ | ⟨metric, named, eq⟩
  · rw [eq] at hvisiting
    cases hvisiting
    rfl
  · rw [eq, Except.map_eq_ok] at hvisiting
    obtain ⟨expansion, _, eq⟩ := hvisiting
    cases eq
    split
    · obtain ⟨held, found, isText⟩ := Option.bind_eq_some_iff.mp named
      refine flatMap_set_of_nothing found ?_ rfl
      cases held with
      | mapping m => cases isText
      | sequence items => cases isText
      | _ => rfl
    · rfl

end

theorem ofTree_expanded {values : Placeholder.Values} {server : String} {object resolved : Node}
    (hwalking : object.walk (Placeholder.visit values server) () = .ok resolved) :
    List.Forall₂ (List.Forall₂ (Expanded values server)) (ofTree object) (ofTree resolved) := by
  refine Node.walkWithin_induct (Placeholder.visit_separate values server).shallow
    (motive := fun place _ node walked => ∀ around final,
      List.Forall₂ (Expanded values server) around final →
      List.Forall₂ (List.Forall₂ (Expanded values server))
        (descent.node false place.key around node) (descent.node false place.key final walked))
    ?_ ?_ ?_ object.height .root () object resolved (Nat.le_refl _) hwalking [] [] .nil
  · intro place _ node noMapping noSequence around final _
    rw [Descent.node_leaf _ noMapping noSequence, Descent.node_leaf _ noMapping noSequence]
    exact .nil
  · intro place _ m visited own walked visiting alike children around final expanded
    obtain ⟨queryable, ownExpanded⟩ := expanded_of_visit visiting alike
    rw [node_mapping, node_mapping, queryable, ← flatMap_of_visit visiting]
    have hbelow (around final) (expanded : List.Forall₂ (Expanded values server) around final) :
        List.Forall₂ (List.Forall₂ (Expanded values server))
          (visited.flatMap fun entry => descent.node false entry.1.keyName? around entry.2)
          (walked.flatMap fun entry => descent.node false entry.1.keyName? final entry.2) := by
      refine List.rel_flatMap children ?_
      rintro before after ⟨same, child⟩
      have hwalks := child around final expanded
      rw [Place.child_key, same] at hwalks
      simpa only [same] using hwalks
    split
    · exact List.rel_append (.cons (.cons ownExpanded expanded) .nil)
        (hbelow _ _ (.cons ownExpanded expanded))
    · exact hbelow _ _ expanded
  · intro place _ items walked children around final expanded
    rw [Descent.node_sequence, Descent.node_sequence]
    refine List.rel_flatMap children ?_
    rintro item after ⟨index, child⟩
    exact child around final expanded

end Lineage

end DirectoryMetrics
