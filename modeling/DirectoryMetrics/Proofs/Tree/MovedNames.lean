import DirectoryMetrics.Proofs.Tree.Annotation
import DirectoryMetrics.Proofs.Tree.ChildNames

namespace DirectoryMetrics

/-! Metric names of moved children. A child that moves to a slot takes its key along as its name; a
mapping that has a `name` field, and the items of a sequence, take nothing along. The metric names
below an object tree stay the same exactly if no such child is named by its key. -/

/-- Lists that are made of what is above: they have one length, and are equal exactly if
`p` holds. -/
structure Agree {κ β : Type} (p : Prop) (f g : κ → List β) : Prop where
  length : ∀ above above', (f above).length = (g above').length
  eq_iff : ∀ above, f above = g above ↔ p

namespace Agree

variable {κ β : Type} {p q : Prop} {f g f' g' : κ → List β}

theorem congr (hagree : Agree p f g) (hsame : p ↔ q) : Agree q f g :=
  ⟨hagree.length, fun above => (hagree.eq_iff above).trans hsame⟩

theorem nil : Agree True (fun _ : κ => ([] : List β)) fun _ => [] :=
  ⟨fun _ _ => rfl, fun _ => by simp⟩

theorem append (hfirst : Agree p f g) (hsecond : Agree q f' g') :
    Agree (p ∧ q) (fun above => f above ++ f' above) fun above => g above ++ g' above where
  length above above' := by
    rw [List.length_append, List.length_append, hfirst.length above above',
      hsecond.length above above']
  eq_iff above := by
    rw [← hfirst.eq_iff above, ← hsecond.eq_iff above]
    constructor
    · exact fun same => List.append_inj same (hfirst.length above above)
    · rintro ⟨same, same'⟩
      rw [same, same']

theorem flatMap {α γ : Type} {P : α → Prop} {f : α → κ → List β} {g : γ → κ → List β}
    {as : List α} {cs : List γ}
    (hrelated : List.Forall₂ (fun a c => Agree (P a) (f a) (g c)) as cs) :
    Agree (∀ a ∈ as, P a) (fun above => as.flatMap fun a => f a above)
      fun above => cs.flatMap fun c => g c above := by
  induction hrelated with
  | nil => exact nil.congr (by simp)
  | cons head tail ih =>
      simp only [List.flatMap_cons]
      exact (head.append ih).congr List.forall_mem_cons.symm

theorem headed {f g : β → List β} (hbelow : Agree p f g) {own own' : β → β}
    (hsame : ∀ above, own above = own' above ↔ q) :
    Agree (p ∧ q) (fun above => own above :: f (own above))
      fun above => own' above :: g (own' above) where
  length above above' := by
    rw [List.length_cons, List.length_cons, hbelow.length (own above) (own' above')]
  eq_iff above := by
    rw [List.cons.injEq, ← hsame above, and_comm]
    refine and_congr_left fun heads => ?_
    rw [heads]
    exact hbelow.eq_iff (own' above)

end Agree

namespace ChildSlots

mutual
def takesKey : Node → Bool
  | .mapping m => Mapping.isQueryable m && (Mapping.text? Field.name m).isNone
  | .sequence items => itemsTakeKey items
  | _ => false

def itemsTakeKey : List Node → Bool
  | [] => false
  | item :: rest => takesKey item || itemsTakeKey rest
end

theorem takesKey_sequence {items : List Node} :
    takesKey (.sequence items) = true ↔ ∃ item ∈ items, takesKey item = true := by
  rw [takesKey]
  induction items with
  | nil => simp [itemsTakeKey]
  | cons item rest ih => rw [itemsTakeKey, Bool.or_eq_true, ih, List.exists_mem_cons_iff]

def staysNamed (child : Node × Node) : Bool :=
  match reservedName? child.1 with
  | none => true
  | some name => !takesKey (keepName name child.2)

def isCollection (child : Node × Node) : Bool :=
  match child.2 with
  | .mapping _ | .sequence _ => true
  | _ => false

def overwritten (m : Mapping) : List String :=
  if m.isQueryable then [Field.metricName] else []

mutual
/-- Every child below a node passes a check; what will be overwritten is not looked at. -/
def everyChild (check : Node × Node → Bool) (names : Bool) : Node → Bool
  | .mapping m => entriesEveryChild check names (if names then [] else overwritten m) m
  | .sequence items => itemsEveryChild check items
  | _ => true

def entriesEveryChild (check : Node × Node → Bool) (names : Bool) (hidden : List String) :
    List (Node × Node) → Bool
  | [] => true
  | (key, child) :: rest =>
      (!names || check (key, child)) &&
        (hidden.any (Mapping.isKey · key) ||
          everyChild check (!names && childFields.any (Mapping.isKey · key)) child) &&
        entriesEveryChild check names hidden rest

def itemsEveryChild (check : Node × Node → Bool) : List Node → Bool
  | [] => true
  | item :: rest => everyChild check false item && itemsEveryChild check rest
end

variable {check : Node × Node → Bool}

theorem entriesEveryChild_iff {names : Bool} {hidden : List String} {m : Mapping} :
    entriesEveryChild check names hidden m = true ↔
      ∀ entry ∈ m, (names = true → check entry = true) ∧
        (hidden.any (Mapping.isKey · entry.1) = false →
          everyChild check (!names && childFields.any (Mapping.isKey · entry.1)) entry.2 =
            true) := by
  induction m with
  | nil => simp [entriesEveryChild]
  | cons entry rest ih =>
      obtain ⟨key, child⟩ := entry
      rw [entriesEveryChild, Bool.and_eq_true, Bool.and_eq_true, ih, List.forall_mem_cons]
      cases names <;> cases hidden.any (Mapping.isKey · key) <;> simp

theorem everyChild_mapping {m : Mapping} :
    everyChild check false (.mapping m) = true ↔
      ∀ entry ∈ m, (overwritten m).any (Mapping.isKey · entry.1) = false →
        everyChild check (childFields.any (Mapping.isKey · entry.1)) entry.2 = true := by
  rw [everyChild, entriesEveryChild_iff]
  simp

theorem everyChild_names {m : Mapping} :
    everyChild check true (.mapping m) = true ↔
      ∀ child ∈ m, check child = true ∧ everyChild check false child.2 = true := by
  rw [everyChild, entriesEveryChild_iff]
  simp

theorem everyChild_sequence {names : Bool} {items : List Node} :
    everyChild check names (.sequence items) = true ↔
      ∀ item ∈ items, everyChild check false item = true := by
  rw [everyChild]
  induction items with
  | nil => simp [itemsEveryChild]
  | cons item rest ih => rw [itemsEveryChild, Bool.and_eq_true, ih, List.forall_mem_cons]

theorem everyChild_of_ne {node : Node} (hnoMapping : ∀ m, node ≠ .mapping m) (names : Bool) :
    everyChild check names node = everyChild check false node := by
  cases node with
  | mapping m => exact absurd rfl (hnoMapping m)
  | _ => rfl

theorem everyChild_leaf (check : Node × Node → Bool) {node : Node}
    (hnoMapping : ∀ m, node ≠ .mapping m)
    (hnoSequence : ∀ items, node ≠ .sequence items) :
    everyChild check false node = true ∧ takesKey node = false := by
  cases node with
  | mapping m => exact absurd rfl (hnoMapping m)
  | sequence items => exact absurd rfl (hnoSequence items)
  | _ => exact ⟨rfl, rfl⟩

end ChildSlots

namespace MetricPath

/-- The paths of the nodes that can be asked for, parents before children. -/
def paths : Descent String String where
  own key before m :=
    if m.isQueryable then join before (((m.text? Field.name).orElse fun _ => key).getD "")
    else before
  gather own m := if m.isQueryable then some own else none
  hidden := ChildSlots.overwritten
  childFields := []

theorem join_inj {before a b : String} : join before a = join before b ↔ a = b := by
  have hlonger : ∀ c : String, c.isEmpty = false → before ≠ before ++ "/" ++ c := by
    intro c _ same
    have hlengths := congrArg String.length same
    rw [String.length_append, String.length_append] at hlengths
    have hslash : "/".length = 1 := rfl
    omega
  refine ⟨fun same => ?_, congrArg (join before)⟩
  rw [join, join] at same
  cases first : before.isEmpty with
  | true => simpa [first] using same
  | false =>
      cases emptyA : a.isEmpty with
      | true =>
          cases emptyB : b.isEmpty with
          | true =>
              rw [String.isEmpty_iff] at emptyA emptyB
              rw [emptyA, emptyB]
          | false => exact absurd (by simpa [first, emptyA, emptyB] using same) (hlonger b emptyB)
      | false =>
          cases emptyB : b.isEmpty with
          | true =>
            exact absurd (by simpa [first, emptyA, emptyB] using same.symm) (hlonger a emptyA)
          | false => simpa [first, emptyA, emptyB] using same

theorem paths_look_congr {key key' : Option String} {m m' : Mapping}
    (hqueryable : m'.isQueryable = m.isQueryable)
    (hname : ((m'.text? Field.name).orElse fun _ => key') =
      (m.text? Field.name).orElse fun _ => key)
    (above : String) : paths.look key' above m' = paths.look key above m := by
  simp only [Descent.look, paths, ChildSlots.overwritten, hqueryable, hname]

theorem paths_structural {m : Mapping} (hstructural : m.isQueryable = false) (key : Option String)
    (above : String) :
    paths.node false key above (.mapping m) =
      m.flatMap (paths.entry false (ChildSlots.overwritten m) above) := by
  have hown : paths.own key above m = above := by simp [paths, hstructural]
  have hnothing : paths.gather above m = none := by simp [paths, hstructural]
  rw [Descent.node_mapping, hown, hnothing]
  rfl

theorem paths_queryable {m : Mapping} (hqueryable : m.isQueryable = true) (key : Option String)
    (above : String) :
    paths.node false key above (.mapping m) =
      join above (((m.text? Field.name).orElse fun _ => key).getD "") ::
        m.flatMap (paths.entry false (ChildSlots.overwritten m)
          (join above (((m.text? Field.name).orElse fun _ => key).getD ""))) := by
  have hown : paths.own key above m =
      join above (((m.text? Field.name).orElse fun _ => key).getD "") := by
    simp [paths, hqueryable]
  have hgathered (own : String) : paths.gather own m = some own := by simp [paths, hqueryable]
  rw [Descent.node_mapping, hown, hgathered]
  rfl

theorem paths_namesByField : paths.NamesByField where
  alike key above m m' alike := paths_look_congr alike.isQueryable (by rw [alike.text?]) above
  free key above m free := by
    have hstructural := Mapping.isQueryable_of_free free
    simp [Descent.look, paths, ChildSlots.overwritten, hstructural]
  named key above m name absent := by
    rw [← Mapping.set_of_get?_eq_none absent]
    refine paths_look_congr
      (Mapping.isQueryable_congr fun field different => Mapping.get?_set_of_ne different _ m) ?_
        above
    rw [Mapping.text?, Mapping.get?_set_self, Mapping.text?, absent]
    rfl
  ownName key key' above m name found := by
    refine paths_look_congr rfl ?_ above
    rw [Mapping.text?, found]
    rfl

end MetricPath

namespace ChildSlots

open MetricPath

theorem keepName_of_not_keepsName {child : Node} (hlost : keepsName child = false) (name : String) :
    keepName name child = child := by
  cases child with
  | mapping m =>
      rw [keepsName] at hlost
      rw [keepName_mapping, Mapping.has]
      split at hlost
      · cases hlost
      · cases hlost
      · rename_i value found
        rw [found, Option.isSome_some, if_pos rfl]
  | sequence items => rfl
  | _ => cases hlost

theorem paths_keepName (name : String) (above : String) (child : Node) :
    paths.node false (some name) above child =
      paths.node false (some name) above (keepName name child) := by
  cases kept : keepsName child with
  | true => exact node_keepName paths_namesByField kept name _ above
  | false => rw [keepName_of_not_keepsName kept]

theorem everyChild_keepName {check : Node × Node → Bool} (name : String) (child : Node) :
    everyChild check false (keepName name child) = everyChild check false child := by
  cases child with
  | mapping m =>
      rw [keepName_mapping]
      split
      · rfl
      · rename_i unnamed
        have habsent : Mapping.get? Field.name m = none := by simpa [Mapping.has] using unnamed
        have hhidden : overwritten (Mapping.set Field.name (.text name) m) = overwritten m := by
          rw [overwritten,
            Mapping.isQueryable_congr fun field different => Mapping.get?_set_of_ne different _ m]
          rfl
        rw [Bool.eq_iff_iff, everyChild_mapping, everyChild_mapping, hhidden,
          Mapping.set_of_get?_eq_none habsent, List.forall_mem_append]
        refine and_iff_left ?_
        simp [everyChild]
  | tagged tag content =>
      obtain ⟨named, eq⟩ := keepName_tagged name tag content
      rw [eq]
      rfl
  | _ => rfl

theorem isQueryable_of_collections {m : Mapping}
    (hcollections : ∀ child ∈ m, isCollection child = true) : m.isQueryable = false := by
  refine Mapping.isQueryable_of_no_text fun field _ => ?_
  rw [Mapping.text?]
  cases found : Mapping.get? field m with
  | none => rfl
  | some value =>
      have hcollection := hcollections _ (Mapping.mem_of_get? found)
      cases value with
      | mapping m => rfl
      | sequence items => rfl
      | _ => cases hcollection

/-- The paths below a node that is nested under some key, and below what a walk makes of the node.
The node may also be a mapping of children that have moved there. -/
def Tracks (place : Place) (node walked : Node) : Prop :=
  (node.Orderly → everyChild isCollection false node = true → ∀ key,
      Agree (everyChild staysNamed false node = true ∧
          (takesKey node = true → key.getD "" = place.key.getD ""))
        (fun above => paths.node false key above node)
        fun above => paths.node false place.key above walked) ∧
    ∀ m children, node = .mapping m → List.Forall₂ Moved children m →
      (Node.mapping children).Orderly → everyChild isCollection true (.mapping children) = true →
      Agree (everyChild staysNamed true (.mapping children) = true)
        (fun above => paths.node false place.key above (.mapping children))
        fun above => paths.node false place.key above walked

theorem Tracks.own {place : Place} {node walked : Node} (htracks : Tracks place node walked)
    (horderly : node.Orderly) (hcollections : everyChild isCollection false node = true) :
    Agree (everyChild staysNamed false node = true)
      (fun above => paths.node false place.key above node)
      fun above => paths.node false place.key above walked :=
  (htracks.1 horderly hcollections place.key).congr (and_iff_left fun _ => rfl)

theorem Tracks.entry {place : Place} {before after : Node × Node} (hidden : List String)
    (horderly : before.2.Orderly)
    (hcollections : hidden.any (Mapping.isKey · before.1) = false →
      everyChild isCollection (childFields.any (Mapping.isKey · before.1)) before.2 = true)
    (hsame : before.1 = after.1)
    (htracks : Tracks (place.child before.1) (settleUnder childFields before).2 after.2) :
    Agree (hidden.any (Mapping.isKey · before.1) = false →
        everyChild staysNamed (childFields.any (Mapping.isKey · before.1)) before.2 = true)
      (fun own => paths.entry false hidden own before)
      fun own => paths.entry false hidden own after := by
  unfold Descent.entry
  rw [← hsame]
  cases isHidden : hidden.any (Mapping.isKey · before.1) with
  | true => exact Agree.nil.congr (by simp)
  | false =>
      rw [isHidden] at hcollections
      have hinside := hcollections rfl
      have hunnamed : paths.childFields = [] := rfl
      simp only [Bool.false_eq_true, if_false, hunnamed, List.any_nil, Bool.and_false, true_implies]
      rw [settleUnder] at htracks
      cases holds : childFields.any (Mapping.isKey · before.1) with
      | false =>
          rw [holds, if_neg Bool.false_ne_true] at htracks
          rw [holds] at hinside
          simpa using htracks.own horderly hinside
      | true =>
          rw [holds, if_pos rfl] at htracks
          rw [holds] at hinside
          generalize before.2 = node at *
          cases node with
          | mapping children =>
              simpa using htracks.2 _ children rfl (disambiguate_moved children) horderly hinside
          | _ =>
              rw [everyChild_of_ne (by simp)] at hinside ⊢
              simpa [settle] using htracks.own horderly hinside

theorem Tracks.child {place : Place} {before between after : Node × Node}
    (hmoved : Moved before between) (huntagged : before.1.hasTag = false)
    (horderly : before.2.Orderly) (hcollections : everyChild isCollection false before.2 = true)
    (hsame : between.1 = after.1) (htracks : Tracks (place.child between.1) between.2 after.2) :
    Agree (staysNamed before = true ∧ everyChild staysNamed false before.2 = true)
      (fun own => paths.entry false [] own before) fun own => paths.entry false [] own after := by
  have hatEntry (entry : Node × Node) (own : String) :
      paths.entry false [] own entry = paths.node false entry.1.keyName? own entry.2 := rfl
  simp only [hatEntry, ← hsame]
  cases hmoved with
  | stays _ free =>
      have stays : staysNamed before = true := by
        rw [staysNamed, reservedName?_of_free huntagged free]
      simpa [stays] using htracks.own horderly hcollections
  | moves key name found n child =>
      have hisName := reservedName?_eq_some huntagged found
      subst hisName
      have hdiffers : name ≠ slotName n := by
        rintro rfl
        exact slotName_not_mem_reserved n (reservedName?_mem found)
      have hagree := htracks.1 (orderly_keepName horderly name)
        (by rwa [everyChild_keepName]) (some name)
      rw [Place.child_key] at hagree
      have hkeptName : (Node.text name).keyName? = some name := rfl
      simp only [hkeptName, paths_keepName name _ child]
      refine hagree.congr ?_
      rw [everyChild_keepName, and_comm, staysNamed, found]
      simp [Node.keyName?, hdiffers]

theorem mapping_tracks_own {place : Place} {m visited walked : Mapping} {own : Unit}
    (hvisiting : visit (ε := ConfigError) place () m = .ok (visited, own))
    (halike : Mapping.Alike visited walked)
    (hchildren : List.Forall₂
      (fun before after : Node × Node =>
        before.1 = after.1 ∧ Tracks (place.child before.1) before.2 after.2)
      visited walked)
    (horderly : (Node.mapping m).Orderly)
    (hcollections : everyChild isCollection false (.mapping m) = true) (key : Option String) :
    Agree (everyChild staysNamed false (.mapping m) = true ∧
        (takesKey (.mapping m) = true → key.getD "" = place.key.getD ""))
      (fun above => paths.node false key above (.mapping m))
      fun above => paths.node false place.key above (.mapping walked) := by
  have visitedEq := visit_eq_ok (horderly m List.mem_cons_self) hvisiting
  subst visitedEq
  rw [List.forall₂_map_left_iff] at hchildren
  rw [Mapping.Alike, List.forall₂_map_left_iff] at halike
  have hmAlike : Mapping.Alike m walked := by
    refine halike.imp ?_
    rintro before after ⟨same, below⟩
    rw [settleUnder_fst] at same
    exact ⟨same, (settleUnder_alike _ before).trans below⟩
  rw [everyChild_mapping] at hcollections ⊢
  have hinside : ∀ entry ∈ m, entry.2.Orderly ∧
      ((overwritten m).any (Mapping.isKey · entry.1) = false →
        everyChild isCollection (childFields.any (Mapping.isKey · entry.1)) entry.2 = true) :=
    fun entry member => ⟨(Node.orderly_mapping.mp horderly).2 entry member,
      hcollections entry member⟩
  have hentries : List.Forall₂
      (fun before after => Agree
        ((overwritten m).any (Mapping.isKey · before.1) = false →
          everyChild staysNamed (childFields.any (Mapping.isKey · before.1)) before.2 = true)
        (fun own => paths.entry false (overwritten m) own before)
        fun own => paths.entry false (overwritten m) own after) m walked := by
    refine ((List.forall₂_and_left _ _).mpr ⟨hinside, hchildren⟩).imp ?_
    rintro before after ⟨⟨orderlyBelow, collectionsBelow⟩, same, tracks⟩
    rw [settleUnder_fst] at same tracks
    exact tracks.entry (overwritten m) orderlyBelow collectionsBelow same
  have below := Agree.flatMap hentries
  have hsameHidden : overwritten walked = overwritten m := by
    rw [overwritten, hmAlike.isQueryable]
    rfl
  rw [takesKey]
  cases queryable : Mapping.isQueryable m with
  | false =>
      simp only [paths_structural queryable, paths_structural (hmAlike.isQueryable.trans queryable),
        hsameHidden]
      exact below.congr (by simp)
  | true =>
      simp only [paths_queryable queryable, paths_queryable (hmAlike.isQueryable.trans queryable),
        hsameHidden, hmAlike.text?]
      refine below.headed fun above => ?_
      rw [join_inj]
      cases Mapping.text? Field.name m with
      | none => simp
      | some name => simp

theorem mapping_tracks_named {place : Place} {m named visited walked : Mapping} {own : Unit}
    (hvisiting : visit (ε := ConfigError) place () m = .ok (visited, own))
    (halike : Mapping.Alike visited walked)
    (hchildren : List.Forall₂
      (fun before after : Node × Node =>
        before.1 = after.1 ∧ Tracks (place.child before.1) before.2 after.2)
      visited walked)
    (hmoved : List.Forall₂ Moved named m) (horderly : (Node.mapping named).Orderly)
    (hcollections : everyChild isCollection true (.mapping named) = true) :
    Agree (everyChild staysNamed true (.mapping named) = true)
      (fun above => paths.node false place.key above (.mapping named))
      fun above => paths.node false place.key above (.mapping walked) := by
  have hfree := free_of_moved hmoved
  have habsent : ∀ field ∈ Field.reserved, Mapping.get? field m = none := fun field reserved =>
    Mapping.get?_eq_none_iff.mpr fun entry member => hfree entry member field reserved
  have hunvisited : visited = m := by
    cases hvisiting
    rw [disambiguateUnder_of_none (habsent Field.object (by decide)),
      disambiguateUnder_of_none (habsent Field.metric (by decide))]
  subst hunvisited
  rw [everyChild_names] at hcollections ⊢
  have hinside : ∀ entry ∈ named, entry.1.hasTag = false ∧ entry.2.Orderly ∧
      everyChild isCollection false entry.2 = true :=
    fun entry member => ⟨(horderly named List.mem_cons_self).2 entry member,
      (Node.orderly_mapping.mp horderly).2 entry member, (hcollections entry member).2⟩
  have hboth := forall₂_comp
    (P := fun before after => ∃ between, Moved before between ∧ between.1 = after.1 ∧
      Tracks (place.child between.1) between.2 after.2)
    (fun before between after hmoved below => ⟨between, hmoved, below⟩) hmoved hchildren
  have hstructural := isQueryable_of_collections fun child member => (hcollections child member).1
  have hstructuralWalked : Mapping.isQueryable walked = false := by
    rw [halike.isQueryable]
    exact Mapping.isQueryable_of_free habsent
  have hnothingHidden {entries : Mapping} (hstructural : entries.isQueryable = false) :
      overwritten entries = [] := by
    rw [overwritten, hstructural]
    rfl
  simp only [paths_structural hstructural, paths_structural hstructuralWalked,
    hnothingHidden hstructural, hnothingHidden hstructuralWalked]
  apply Agree.flatMap
  refine ((List.forall₂_and_left _ _).mpr ⟨hinside, hboth⟩).imp ?_
  rintro before after ⟨⟨untagged, orderlyBelow, collectionsBelow⟩, between, hmoved, same, tracks⟩
  exact tracks.child hmoved untagged orderlyBelow collectionsBelow same

theorem walk_tracks {object renamed : Node}
    (hwalking : object.walk (visit (ε := ConfigError)) () = .ok renamed) :
    Tracks .root object renamed := by
  refine Node.walkWithin_induct visit_shallow
    (motive := fun place _ node walked => Tracks place node walked)
    ?_ ?_ ?_ object.height .root () object renamed (Nat.le_refl _) hwalking
  · intro place _ node noMapping noSequence
    refine ⟨fun _ _ key => ?_, fun m _ eq => absurd eq (noMapping m)⟩
    obtain ⟨stays, takes⟩ := everyChild_leaf staysNamed noMapping noSequence
    simp only [Descent.node_leaf _ noMapping noSequence, stays, takes]
    exact Agree.nil.congr (by simp)
  · intro place _ m visited own walked visiting alike children
    constructor
    · exact mapping_tracks_own visiting alike children
    · intro _ named eq moved
      cases eq
      exact mapping_tracks_named visiting alike children moved
  · intro place _ items walked children
    refine ⟨fun orderly collections key => ?_, fun m _ eq => by cases eq⟩
    rw [everyChild_sequence] at collections ⊢
    simp only [Descent.node_sequence]
    have hinside : ∀ item ∈ items, item.Orderly ∧ everyChild isCollection false item = true :=
      fun item member => ⟨orderly.item member, collections item member⟩
    have hfound : List.Forall₂
        (fun item after => Agree (everyChild staysNamed false item = true ∧
            (takesKey item = true → key.getD "" = place.key.getD ""))
          (fun above => paths.node false key above item)
          fun above => paths.node false place.key above after) items walked := by
      refine ((List.forall₂_and_left _ _).mpr ⟨hinside, children⟩).imp ?_
      rintro item after ⟨⟨orderlyBelow, collectionsBelow⟩, index, tracks⟩
      exact tracks.1 orderlyBelow collectionsBelow key
    refine (Agree.flatMap hfound).congr ?_
    rw [takesKey_sequence]
    constructor
    · intro all
      refine ⟨fun item member => (all item member).1, ?_⟩
      rintro ⟨item, member, takes⟩
      exact (all item member).2 takes
    · rintro ⟨stay, same⟩ item member
      exact ⟨stay item member, fun takes => same ⟨item, member, takes⟩⟩

end ChildSlots

end DirectoryMetrics
