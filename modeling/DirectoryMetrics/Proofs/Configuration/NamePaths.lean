import DirectoryMetrics.Proofs.Tree.Context
import DirectoryMetrics.Proofs.Tree.Visits

namespace DirectoryMetrics

namespace MetricPath

def ownNames (ancestry : Ancestry) : List String :=
  ((ancestry.filter fun enclosing => enclosing.2.isQueryable).map fun enclosing =>
    ownName enclosing.1 enclosing.2).reverse.filter fun name => !name.isEmpty

def pathName (ancestry : Ancestry) : String := "/".intercalate (ownNames ancestry)

variable {around : Ancestry} {place : Place} {m m' : Mapping}

theorem ownNames_cons (place : Place) (m : Mapping) (around : Ancestry) :
    ownNames ((place, m) :: around) =
      ownNames around ++
        if m.isQueryable then [ownName place m].filter fun name => !name.isEmpty else [] := by
  rw [ownNames, ownNames, List.filter_cons]
  cases queryable : m.isQueryable with
  | true => simp only [if_true, List.map_cons, List.reverse_cons, List.filter_append]
  | false => simp

theorem ownNames_nonempty (ancestry : Ancestry) : ∀ name ∈ ownNames ancestry, name ≠ "" := by
  intro name member
  simpa using (List.mem_filter.mp member).2

theorem ownNames_congr {place' : Place} (hkey : place'.key = place.key)
    (hqueryable : m'.isQueryable = m.isQueryable)
    (hnamed : m'.text? Field.name = m.text? Field.name) :
    ownNames ((place', m') :: around) = ownNames ((place, m) :: around) := by
  rw [ownNames_cons, ownNames_cons, hqueryable, ownName_congr hkey hnamed]

theorem join_path {names : List String} (hnonempty : ∀ name ∈ names, name ≠ "") (own : String) :
    join ("/".intercalate names) own =
      "/".intercalate (names ++ [own].filter fun name => !name.isEmpty) := by
  rw [join]
  by_cases nothing : names = []
  · subst nothing
    rw [String.intercalate_nil, if_pos (by rfl)]
    cases empty : own.isEmpty with
    | true =>
        rw [String.isEmpty_iff] at empty
        subst empty
        rfl
    | false => simp [empty]
  · rw [if_neg (by simpa using intercalate_ne_empty "/" hnonempty nothing)]
    cases empty : own.isEmpty with
    | true => simp [empty]
    | false => simp [empty, String.intercalate_append_of_ne_nil, nothing]

def handed (place : Place) (before : String) (m : Mapping) : String :=
  if m.isQueryable then join before (ownName place m) else before

theorem handed_path {names : List String} (hnonempty : ∀ name ∈ names, name ≠ "") :
    handed place ("/".intercalate names) m =
      "/".intercalate (names ++
        if m.isQueryable then [ownName place m].filter fun name => !name.isEmpty else []) := by
  rw [handed]
  split
  · rw [join_path hnonempty]
  · rw [List.append_nil]

theorem handed_pathName : handed place (pathName around) m = pathName ((place, m) :: around) := by
  rw [pathName, handed_path (ownNames_nonempty around), pathName, ownNames_cons]

theorem visit_told : Visitor.Told (ε := ConfigError) visit pathName := by
  intro place place' around m visited own walked key visiting alike
  have hhandedDown : own = handed place (pathName around) m := visit_own visiting
  rw [hhandedDown, handed_pathName, pathName, pathName,
    ownNames_congr key (visit_annotates.isQueryable visiting alike (by decide) (by decide))
      (visit_annotates.text?_of_ne visiting alike (by decide))]

theorem annotate_paths {root : Mapping} {named : Node}
    (hnaming : annotate (.mapping root) = .ok named) :
    named.Objects (Node.Annotated Field.metricName pathName) ∧
      named.objectsWithout Field.metricName =
        (Node.mapping root).objectsWithout Field.metricName := by
  have hannotated := Node.annotated_of_mapObjectTrees (fun _ => visit_annotates)
    (fun _ => visit_told) rfl (by decide) (by decide) hnaming
  exact hannotated

def visited (place : Place) (before : String) (m : Mapping) : Mapping :=
  if m.isQueryable then m.set Field.metricName (.text (handed place before m)) else m

theorem visit_eq (place : Place) (before : String) (m : Mapping) :
    visit (ε := ConfigError) place before m =
      .ok (visited place before m, handed place before m) := by
  rw [visit, visited, handed]
  split
  · rfl
  · rfl

theorem handed_alike (halike : Mapping.Alike m m') (above : String) :
    handed place above m' = handed place above m := by
  rw [handed, handed, halike.isQueryable, ownName_congr rfl (halike.text? _)]

abbrev nameWithin (depth : Nat) (place : Place) (above : String) (node : Node) :
    Except ConfigError Node :=
  Node.walkWithin visit depth place above node

theorem nameWithin_mapping {depth : Nat} {above : String} {named : Node} :
    nameWithin (depth + 1) place above (.mapping m) = .ok named ↔
      ∃ entries,
        List.Forall₂
          (fun before after : Node × Node => before.1 = after.1 ∧
            nameWithin depth (place.child before.1) (handed place above m) before.2 = .ok after.2)
          (visited place above m) entries ∧
        named = .mapping entries := by
  rw [nameWithin, Node.walkWithin_mapping]
  constructor
  · rintro ⟨_, _, entries, visiting, children, rfl⟩
    rw [visit_eq] at visiting
    cases visiting
    exact ⟨entries, children, rfl⟩
  · rintro ⟨entries, children, rfl⟩
    exact ⟨_, _, entries, visit_eq place above m, children, rfl⟩

theorem nameWithin_sequence {depth : Nat} {above : String} {items : List Node} {named : Node} :
    nameWithin (depth + 1) place above (.sequence items) = .ok named ↔
      ∃ walked,
        List.Forall₂
          (fun item after => nameWithin depth (place.item item.2) above item.1 = .ok after)
          items.zipIdx walked ∧
        named = .sequence walked :=
  Node.walkWithin_sequence

theorem entries_unique {depth : Nat} {above : String} (entry after after' : Node × Node)
    (hfirst : entry.1 = after.1 ∧
      nameWithin depth (place.child entry.1) above entry.2 = .ok after.2)
    (hsecond : entry.1 = after'.1 ∧
      nameWithin depth (place.child entry.1) above entry.2 = .ok after'.2) : after = after' :=
  Prod.ext (hfirst.1.symm.trans hsecond.1) (Except.ok.inj (hfirst.2.symm.trans hsecond.2))

section

variable {before after : Mapping} {key value value' : Node}
  (halike : Mapping.Alike (before ++ (key, value) :: after) (before ++ (key, value') :: after))
  (place : Place) (above : String)

include halike

theorem visited_overwritten
    (hqueryable : Mapping.isQueryable (before ++ (key, value) :: after) = true)
    (hhere : Mapping.isKey Field.metricName key = true)
    (hfirst : before.get? Field.metricName = none) :
    visited place above (before ++ (key, value') :: after) =
      visited place above (before ++ (key, value) :: after) := by
  rw [visited, visited, halike.isQueryable, if_pos hqueryable, if_pos hqueryable,
    handed_alike halike, Mapping.set_here hhere hfirst, Mapping.set_here hhere hfirst]

theorem visited_kept
    (helsewhere : Mapping.isQueryable (before ++ (key, value) :: after) = true →
      Mapping.isKey Field.metricName key = true → before.get? Field.metricName ≠ none) :
    ∃ before' after', before'.length = before.length ∧
      visited place above (before ++ (key, value) :: after) = before' ++ (key, value) :: after' ∧
      visited place above (before ++ (key, value') :: after) =
        before' ++ (key, value') :: after' := by
  rw [visited, visited, halike.isQueryable, handed_alike halike]
  split
  · rename_i queryable
    obtain ⟨before', after', keys, same⟩ := Mapping.set_elsewhere (helsewhere queryable)
      (.text (handed place above (before ++ (key, value) :: after))) after
    exact ⟨before', after', by simpa using congrArg List.length keys, same value, same value'⟩
  · exact ⟨before, after, rfl, rfl, rfl⟩

theorem nameWithin_entry {depth : Nat} {walked walked' : Node}
    (hwalking : nameWithin (depth + 1) place above (.mapping (before ++ (key, value) :: after)) =
      .ok walked)
    (hwalking' : nameWithin (depth + 1) place above (.mapping (before ++ (key, value') :: after)) =
      .ok walked') :
    if Mapping.isQueryable (before ++ (key, value) :: after) &&
        Mapping.isKey Field.metricName key && !before.has Field.metricName then walked' = walked
    else ∃ left named named' right, left.length = before.length ∧
      walked = .mapping (left ++ (key, named) :: right) ∧
      walked' = .mapping (left ++ (key, named') :: right) ∧
      nameWithin depth (place.child key) (handed place above (before ++ (key, value) :: after))
        value = .ok named ∧
      nameWithin depth (place.child key) (handed place above (before ++ (key, value) :: after))
        value' = .ok named' := by
  obtain ⟨entries, children, rfl⟩ := nameWithin_mapping.mp hwalking
  obtain ⟨entries', children', rfl⟩ := nameWithin_mapping.mp hwalking'
  rw [handed_alike halike] at children'
  split
  · rename_i here
    simp only [Bool.and_eq_true, Bool.not_eq_true', Mapping.has, Option.isSome_eq_false_iff,
      Option.isNone_iff_eq_none] at here
    rw [visited_overwritten halike place above here.1.1 here.1.2 here.2] at children'
    rw [List.right_unique_forall₂' entries_unique children children']
  · rename_i kept
    obtain ⟨left, right, count, same, same'⟩ := visited_kept halike place above
      fun queryable isName absent => kept (by simp [queryable, isName, Mapping.has, absent])
    rw [same] at children
    rw [same'] at children'
    obtain ⟨left', ⟨_, named⟩, ⟨_, named'⟩, right', count', rfl, rfl, ⟨rfl, hwalking⟩,
      ⟨rfl, hwalking'⟩⟩ := forall₂_apart entries_unique children children'
    exact ⟨left', named, named', right', count'.trans count, rfl, rfl, hwalking, hwalking'⟩

end

/-- Two trees that are the same around an address, where walks have left what they make of two nodes
with the names around them. -/
def Apart (around : Ancestry) (node node' : Node) (address : List Nat) (walked walked' : Node) :
    Prop :=
  ∃ (c : Context) (depth : Nat) (place : Place) (below below' : Node),
    c.address = address ∧ walked = c.plug below ∧ walked' = c.plug below' ∧
    node.height ≤ depth ∧
    nameWithin depth place (pathName around) node = .ok below ∧
    nameWithin depth place (pathName around) node' = .ok below'

theorem Apart.entry {node node' walked walked' : Node} {address : List Nat}
    (hapart : Apart around node node' address walked walked') (left : Mapping) (key : Node)
    (right : Mapping) :
    Apart around node node' (left.length :: address) (.mapping (left ++ (key, walked) :: right))
      (.mapping (left ++ (key, walked') :: right)) := by
  obtain ⟨c, depth, place, below, below', rfl, rfl, rfl, bound, walking, walking'⟩ := hapart
  exact ⟨.entry left key c right, depth, place, below, below', rfl, rfl, rfl, bound, walking,
    walking'⟩

theorem Apart.item {node node' walked walked' : Node} {address : List Nat}
    (hapart : Apart around node node' address walked walked') (left right : List Node) :
    Apart around node node' (left.length :: address) (.sequence (left ++ walked :: right))
      (.sequence (left ++ walked' :: right)) := by
  obtain ⟨c, depth, place, below, below', rfl, rfl, rfl, bound, walking, walking'⟩ := hapart
  exact ⟨.item left c right, depth, place, below, below', rfl, rfl, rfl, bound, walking, walking'⟩

/-- Walks of trees that differ in one node come to that node with the names around it, unless they
write over it; around it they leave the same. -/
theorem nameWithin_plug {node node' : Node} (halike : node.Alike node') {c : Context} {depth : Nat}
    {walked walked' : Node} (hbound : (c.plug node).height ≤ depth)
    (hwalking : nameWithin depth place (pathName around) (c.plug node) = .ok walked)
    (hwalking' : nameWithin depth place (pathName around) (c.plug node') = .ok walked') :
    if c.overwritten Field.metricName node then walked' = walked
    else Apart (c.around node around place) node node' c.address walked walked' := by
  -- A level of the context is a step of both walks, and the names around it are the same in both:
  -- what the mappings there have texts for does not depend on the node.
  induction c generalizing depth place around walked walked' with
  | hole => exact ⟨.hole, depth, place, walked, walked', rfl, rfl, rfl, hbound, hwalking, hwalking'⟩
  | entry before key inner after ih =>
      cases depth with
      | zero => simp [Context.plug, Node.height] at hbound
      | succ depth =>
          have hinBound : (inner.plug node).height ≤ depth := by
            simp only [Context.plug, Node.height, Node.entriesHeight_append, Node.entriesHeight]
              at hbound
            omega
          have entry := nameWithin_entry (Context.entry_alike halike before key inner after) place
            (pathName around) hwalking hwalking'
          rw [handed_pathName] at entry
          rw [Context.overwritten, Context.around, Context.address]
          split at entry
          · rename_i here
            rw [if_pos (by rw [here, Bool.true_or]), entry]
          · rename_i elsewhere
            obtain ⟨left, x, x', right, count, rfl, rfl, hwalking, hwalking'⟩ := entry
            have hbelow := ih hinBound hwalking hwalking'
            rw [Bool.eq_false_iff.mpr elsewhere, Bool.false_or]
            split
            · rename_i covered
              rw [if_pos covered] at hbelow
              rw [hbelow]
            · rename_i kept
              rw [if_neg kept] at hbelow
              rw [← count]
              exact hbelow.entry left key right
  | item before inner after ih =>
      cases depth with
      | zero => simp [Context.plug, Node.height] at hbound
      | succ depth =>
          have hinBound : (inner.plug node).height ≤ depth := by
            simp only [Context.plug, Node.height, Node.itemsHeight_append, Node.itemsHeight]
              at hbound
            omega
          rw [Context.plug, nameWithin_sequence, List.zipIdx_append, List.zipIdx_cons]
            at hwalking hwalking'
          obtain ⟨named, children, rfl⟩ := hwalking
          obtain ⟨named', children', rfl⟩ := hwalking'
          obtain ⟨left, x, x', right, count, rfl, rfl, hwalking, hwalking'⟩ := forall₂_apart
            (fun _ _ _ one two => Except.ok.inj (one.symm.trans two)) children children'
          simp only [Nat.zero_add] at hwalking hwalking'
          have hbelow := ih hinBound hwalking hwalking'
          rw [List.length_zipIdx] at count
          rw [Context.overwritten, Context.around, Context.address]
          split
          · rename_i covered
            rw [if_pos covered] at hbelow
            rw [hbelow]
          · rename_i kept
            rw [if_neg kept] at hbelow
            have hapart := hbelow.item left right
            rwa [count] at hapart

def through (names : List String) (part : String) (later : List String) : String :=
  "/".intercalate (names ++ part :: later)

structure Renames (names : List String) (old new : String) (m m' : Mapping) : Prop where
  queryable : m'.isQueryable = m.isQueryable
  named : m.isQueryable = true → ∃ later : List String,
    m.get? Field.metricName = some (.text (through names old later)) ∧
      m'.get? Field.metricName = some (.text (through names new later))

section

variable {around : Ancestry} {place : Place} {m m' : Mapping} {names later : List String}
  {old new part above above' : String} {depth : Nat} {walked walked' : Node}

theorem handed_through (hnonempty : ∀ name ∈ names ++ part :: later, name ≠ "") :
    handed place (through names part later) m =
      through names part (later ++
        if m.isQueryable then [ownName place m].filter fun name => !name.isEmpty else []) := by
  rw [through, handed_path hnonempty, through, List.append_assoc, List.cons_append]

section

variable
  (hbelow : ∀ place node walked walked', node.height ≤ depth →
    nameWithin depth place (through names old later) node = .ok walked →
    nameWithin depth place (through names new later) node = .ok walked' →
    List.Forall₂ (Renames names old new) walked.mappings walked'.mappings)

include hbelow

theorem entries_renames {before before' after after' : Mapping}
    (htexts : before.SameButTexts before')
    (hlow : ∀ entry ∈ before, entry.2.height ≤ depth)
    (hchildren : List.Forall₂
      (fun before after : Node × Node => before.1 = after.1 ∧
        nameWithin depth (place.child before.1) (through names old later) before.2 = .ok after.2)
      before after)
    (hchildren' : List.Forall₂
      (fun before after : Node × Node => before.1 = after.1 ∧
        nameWithin depth (place.child before.1) (through names new later) before.2 = .ok after.2)
      before' after') :
    List.Forall₂ (Renames names old new) (Node.entriesMappings after)
      (Node.entriesMappings after') := by
  rw [Node.entriesMappings_eq_flatMap, Node.entriesMappings_eq_flatMap]
  have hwalks := forall₂_comp
    (P := fun (held after' : Node × Node) => ∃ held' : Node × Node,
      (held.1 = held'.1 ∧ (held.2 = held'.2 ∨ ∃ s t, held.2 = .text s ∧ held'.2 = .text t)) ∧
      held'.1 = after'.1 ∧
        nameWithin depth (place.child held'.1) (through names new later) held'.2 = .ok after'.2)
    (fun _ between _ htexts child => ⟨between, htexts, child⟩) htexts hchildren'
  have hpairs := forall₂_comp
    (P := fun (after after' : Node × Node) =>
      List.Forall₂ (Renames names old new) after.2.mappings after'.2.mappings)
    ?_ ((List.forall₂_and_left _ _).mpr ⟨hlow, hchildren⟩).flip hwalks
  · exact List.rel_flatMap hpairs fun _ _ each => each
  · rintro after held after' ⟨hlow, _, walking⟩ ⟨held', ⟨key, value⟩, _, walking'⟩
    rcases value with same | ⟨s, t, eq, eq'⟩
    · rw [← key, ← same] at walking'
      exact hbelow _ _ _ _ hlow walking walking'
    · have htext := Node.walkWithin_alike walking
      have text' := Node.walkWithin_alike walking'
      rw [eq] at htext
      rw [eq'] at text'
      rw [Node.mappings_of_text? (by rw [htext.text?]; rfl),
        Node.mappings_of_text? (by rw [text'.text?]; rfl)]
      exact .nil

theorem mapping_renames (htexts : m.SameButTexts m') (hqueryable : m'.isQueryable = m.isQueryable)
    (hhandedDown : handed place above m = through names old later)
    (hhandedDown' : handed place above' m' = through names new later)
    (hbound : Node.entriesHeight m ≤ depth)
    (hwalking : nameWithin (depth + 1) place above (.mapping m) = .ok walked)
    (hwalking' : nameWithin (depth + 1) place above' (.mapping m') = .ok walked') :
    List.Forall₂ (Renames names old new) walked.mappings walked'.mappings := by
  obtain ⟨named, children, rfl⟩ := nameWithin_mapping.mp hwalking
  obtain ⟨named', children', rfl⟩ := nameWithin_mapping.mp hwalking'
  have halike : Mapping.Alike (visited place above m) named :=
    children.imp fun _ _ child => ⟨child.1, Node.walkWithin_alike child.2⟩
  have alike' : Mapping.Alike (visited place above' m') named' :=
    children'.imp fun _ _ child => ⟨child.1, Node.walkWithin_alike child.2⟩
  have hvisiting := visit_eq place above m
  have visiting' := visit_eq place above' m'
  have hlow : ∀ entry ∈ visited place above m, entry.2.height ≤ depth :=
    Node.entriesHeight_le_iff.mp (Nat.le_trans (visit_annotates.shallow _ _ _ _ _ hvisiting) hbound)
  have hvisitedTexts : (visited place above m).SameButTexts (visited place above' m') := by
    rw [visited, visited, hqueryable]
    split
    · exact htexts.set _ _ _
    · exact htexts
  have hown := visit_annotates.isQueryable hvisiting halike (by decide) (by decide)
  have own' := visit_annotates.isQueryable visiting' alike' (by decide) (by decide)
  rw [hhandedDown] at children
  rw [hhandedDown'] at children'
  rw [Node.mappings, Node.mappings]
  refine .cons ⟨by rw [hown, own', hqueryable], fun asked => ⟨later, ?_, ?_⟩⟩
    (entries_renames hbelow hvisitedTexts hlow children children')
  · rw [hown] at asked
    rw [visit_annotates.get?_field hvisiting halike asked, hhandedDown]
    rfl
  · rw [hown, ← hqueryable] at asked
    rw [visit_annotates.get?_field visiting' alike' asked, hhandedDown']
    rfl

end

theorem nameWithin_renames (hold_ne : old ≠ "") (hnew_ne : new ≠ "")
    (hnonempty : ∀ name ∈ names, name ≠ "") (hnonemptyLater : ∀ name ∈ later, name ≠ "")
    {node : Node} (hbound : node.height ≤ depth)
    (hwalking : nameWithin depth place (through names old later) node = .ok walked)
    (hwalking' : nameWithin depth place (through names new later) node = .ok walked') :
    List.Forall₂ (Renames names old new) walked.mappings walked'.mappings := by
  have hparts (part : String) (part_ne : part ≠ "") {later : List String}
      (hnonemptyLater : ∀ name ∈ later, name ≠ "") : ∀ name ∈ names ++ part :: later, name ≠ "" :=
    List.forall_mem_append.mpr ⟨hnonempty, List.forall_mem_cons.mpr ⟨part_ne, hnonemptyLater⟩⟩
  induction depth generalizing place later node walked walked' with
  | zero =>
      cases hwalking
      cases hwalking'
      cases walked with
      | mapping entries => simp [Node.height] at hbound
      | sequence items => simp [Node.height] at hbound
      | _ => exact .nil
  | succ depth ih =>
      cases node with
      | mapping entries =>
          rw [Node.height, Nat.add_le_add_iff_right] at hbound
          refine mapping_renames ?_ (.refl entries) rfl
            (handed_through (hparts old hold_ne hnonemptyLater))
            (handed_through (hparts new hnew_ne hnonemptyLater)) hbound hwalking hwalking'
          intro place node walked walked' hbound hwalking hwalking'
          refine ih (List.forall_mem_append.mpr ⟨hnonemptyLater, ?_⟩) hbound hwalking hwalking'
          split
          · intro name member
            simpa using (List.mem_filter.mp member).2
          · simp
      | sequence items =>
          rw [Node.height, Nat.add_le_add_iff_right, Node.itemsHeight_le_iff] at hbound
          obtain ⟨named, children, rfl⟩ := nameWithin_sequence.mp hwalking
          obtain ⟨named', children', rfl⟩ := nameWithin_sequence.mp hwalking'
          have low : ∀ item ∈ items.zipIdx, item.1.height ≤ depth := fun item inside =>
            hbound item.1 (List.fst_mem_of_mem_zipIdx inside)
          rw [Node.mappings, Node.mappings, Node.itemsMappings_eq_flatMap,
            Node.itemsMappings_eq_flatMap]
          have hpairs := forall₂_comp
            (P := fun after after' => List.Forall₂ (Renames names old new) after.mappings
              after'.mappings)
            ?_ ((List.forall₂_and_left _ _).mpr ⟨low, children⟩).flip children'
          · exact List.rel_flatMap hpairs fun _ _ each => each
          · rintro after item after' ⟨low, hwalking⟩ hwalking'
            exact ih hnonemptyLater low hwalking hwalking'
      | _ =>
          cases hwalking
          cases hwalking'
          exact .nil

/-- Configurations that are the same around a node of an object tree. Below it the mappings of the
one are named through a part and those of the other through another part in its place. -/
def RenamedAt (config inner : Context) (names : List String) (old new : String)
    (named renamed : Node) : Prop :=
  ∃ (config' inner' : Context) (below below' : Node),
    config'.address = config.address ∧ inner'.address = inner.address ∧
    named = config'.plug (inner'.plug below) ∧ renamed = config'.plug (inner'.plug below') ∧
    List.Forall₂ (Renames names old new) below.mappings below'.mappings

theorem handed_name (hqueryable : m.isQueryable = true)
    (hheld : m.get? Field.name = some (.text part)) (hpart_ne : part ≠ "")
    (hnonempty : ∀ name ∈ names, name ≠ "") :
    handed place ("/".intercalate names) m = through names part [] := by
  have hown : ownName place m = part := by
    rw [ownName, Mapping.text?, hheld]
    rfl
  rw [handed_path hnonempty, if_pos hqueryable, hown, through,
    List.filter_cons_of_pos (by simpa using hpart_ne), List.filter_nil]

theorem Apart.renames {address : List Nat} (hqueryable : m.isQueryable = true)
    (hheld : m.get? Field.name = some (.text old)) (hold_ne : old ≠ "") (hnew_ne : new ≠ "")
    (hapart : Apart around (.mapping m) (.mapping (m.set Field.name (.text new))) address walked
      walked') :
    ∃ (c : Context) (below below' : Node), c.address = address ∧ walked = c.plug below ∧
      walked' = c.plug below' ∧
      List.Forall₂ (Renames (ownNames around) old new) below.mappings below'.mappings := by
  obtain ⟨c, depth, place, below, below', rfl, rfl, rfl, bound, walking, walking'⟩ := hapart
  refine ⟨c, below, below', rfl, rfl, rfl, ?_⟩
  have hnonempty := ownNames_nonempty around
  have queryable' : (m.set Field.name (.text new)).isQueryable = m.isQueryable :=
    Mapping.isQueryable_congr fun field different => Mapping.get?_set_of_ne different _ m
  cases depth with
  | zero => simp [Node.height] at bound
  | succ depth =>
      exact mapping_renames
        (fun _ _ _ _ bound => nameWithin_renames hold_ne hnew_ne hnonempty (by simp) bound)
        (.of_set hheld new) queryable' (handed_name hqueryable hheld hold_ne hnonempty)
        (handed_name (queryable'.trans hqueryable) (Mapping.get?_set_self _ _ m) hnew_ne hnonempty)
        (Nat.le_of_succ_le_succ bound) walking walking'

theorem annotate_renamed {config inner : Context} {named renamed : Node}
    (hholds : config.HoldsObject) (hqueryable : m.isQueryable = true)
    (hheld : m.get? Field.name = some (.text old)) (hold_ne : old ≠ "") (hnew_ne : new ≠ "")
    (hnaming : annotate (config.plug (inner.plug (.mapping m))) = .ok named)
    (hnaming' : annotate (config.plug (inner.plug (.mapping (m.set Field.name (.text new))))) =
      .ok renamed) :
    if inner.overwritten Field.metricName (.mapping m) then renamed = named
    else RenamedAt config inner (ownNames (inner.around (.mapping m) [] .root)) old new named
      renamed := by
  obtain ⟨config', object, object', address, walking, walking', rfl, rfl⟩ :=
    hholds.mapObjectTrees hnaming hnaming'
  rw [Node.walk] at walking walking'
  rw [inner.plug_height (Mapping.SameButTexts.of_set hheld new).height_eq] at walking'
  have named : pathName [] = "" := rfl
  rw [← named] at walking walking'
  have hapart := nameWithin_plug (.mapping _ _) (Nat.le_refl _) walking walking'
  split
  · rename_i covered
    rw [if_pos covered] at hapart
    rw [hapart]
  · rename_i kept
    rw [if_neg kept] at hapart
    obtain ⟨inner', below, below', address', rfl, rfl, renames⟩ :=
      hapart.renames hqueryable hheld hold_ne hnew_ne
    exact ⟨config', inner', below, below', address, address', rfl, rfl, renames⟩

end

/-- The pass for metric names gives every queryable mapping the path of the own names to it and
changes nothing else. Another name for one mapping is another part in the names of the mappings
below it; everything around it is left as it was. -/
theorem annotate_name_paths :
    (∀ root : Mapping, ∃ named, annotate (.mapping root) = .ok named ∧
      named.Objects (Node.Annotated Field.metricName pathName) ∧
      named.objectsWithout Field.metricName =
        (Node.mapping root).objectsWithout Field.metricName) ∧
      ∀ (config inner : Context) (m : Mapping) (old new : String), config.HoldsObject →
        m.isQueryable = true → m.get? Field.name = some (.text old) → old ≠ "" → new ≠ "" →
        ∃ named renamed,
          annotate (config.plug (inner.plug (.mapping m))) = .ok named ∧
          annotate (config.plug (inner.plug (.mapping (m.set Field.name (.text new))))) =
            .ok renamed ∧
          if inner.overwritten Field.metricName (.mapping m) then renamed = named
          else RenamedAt config inner (ownNames (inner.around (.mapping m) [] .root)) old new named
            renamed := by
  constructor
  · intro root
    obtain ⟨named, naming⟩ := annotate_isOk root
    exact ⟨named, naming, annotate_paths naming⟩
  · intro config inner m old new holds queryable held old_ne new_ne
    have hmade (node : Node) : ∃ named, annotate (config.plug node) = .ok named := by
      cases holds with
      | shared _ => exact annotate_isOk _
      | own _ _ => exact annotate_isOk _
    obtain ⟨named, naming⟩ := hmade (inner.plug (.mapping m))
    obtain ⟨renamed, naming'⟩ := hmade (inner.plug (.mapping (m.set Field.name (.text new))))
    exact ⟨named, renamed, naming, naming',
      annotate_renamed holds queryable held old_ne new_ne naming naming'⟩

def serverObject : Context :=
  .entry [] (.text "ldap_servers")
    (.item [] (.entry [(.text "database", .text "main")] (.text "object") .hole []) []) []

def monitorGroups : Context :=
  .entry [(.text "rdn", .text "cn=Monitor"), (.text "name", .text "monitor")] (.text "groups")
    (.item [.mapping [(.text "rdn", .text "cn=Threads")]] .hole []) []

def waitsGroup : Mapping :=
  [(.text "rdn", .text "cn=Waits"), (.text "name", .text "waits"),
    (.text "reads", .mapping [(.text "attribute", .text "busy")])]

theorem waitsGroup_renamed :
    ∃ named renamed,
      annotate (serverObject.plug (monitorGroups.plug (.mapping waitsGroup))) = .ok named ∧
      annotate (serverObject.plug (monitorGroups.plug
        (.mapping (waitsGroup.set Field.name (.text "delays"))))) = .ok renamed ∧
      RenamedAt serverObject monitorGroups ["monitor"] "waits" "delays" named renamed := by
  obtain ⟨named, renamed, naming, naming', apart⟩ :=
    annotate_name_paths.2 serverObject monitorGroups
    waitsGroup "waits" "delays" (.own rfl rfl) (by decide) rfl (by decide) (by decide)
  have hkept : monitorGroups.overwritten Field.metricName (.mapping waitsGroup) = false := by decide
  have hnames : ownNames (monitorGroups.around (.mapping waitsGroup) [] .root) = ["monitor"] := by
    decide
  rw [hkept, if_neg Bool.false_ne_true, hnames] at apart
  exact ⟨named, renamed, naming, naming', apart⟩

end MetricPath

end DirectoryMetrics
