import DirectoryMetrics.Collection.Compiler
import DirectoryMetrics.Proofs.Tree.Annotation
import DirectoryMetrics.Proofs.Tree.ChildNames

namespace DirectoryMetrics

/-! Statistics by one descent. From the root of an object tree on a node hands down its
distinguished name and the path of its metric, and each node with an attribute gives a statistic.
The passes write down what is handed down, one part after the other. -/

namespace StatisticDescent

structure Above where
  dn : String
  name : String
  deriving DecidableEq, Repr

def ownDn (dn : String) (m : Mapping) : String :=
  match m.nonempty? Field.rdn with
  | some rdn => ObjectDn.join rdn dn
  | none => dn

def ownName (key : Option String) (name : String) (m : Mapping) : String :=
  MetricPath.join name (((m.text? Field.name).orElse fun _ => key).getD "")

def aggregation? (m : Mapping) : Option Aggregation :=
  match Compiler.scalar? Field.aggregation m with
  | none => some default
  | some value => Aggregation.ofName? value

def statistic? (above : Above) (m : Mapping) : Option Statistic :=
  match m.nonempty? Field.attributeName, Compiler.scalar? Field.unit m with
  | some attributeName, some unit =>
      if above.name.isEmpty then none
      else (aggregation? m).map fun aggregation =>
        ⟨above.dn, above.name, attributeName, unit, (m.text? Field.description).getD "",
          aggregation⟩
  | _, _ => none

/-- The descent through an object tree in which the fields of a list are not entered at the nodes
that can be asked for. -/
def avoiding (fields : List String) : Descent Above Statistic where
  own key above m :=
    if m.isQueryable then ⟨ownDn above.dn m, ownName key above.name m⟩ else above
  gather := statistic?
  hidden m := if m.isQueryable then fields else []
  childFields := ChildSlots.childFields

def direct : Descent Above Statistic := avoiding [Field.computedDn, Field.metricName]

def named : Descent String Statistic where
  own key name m := if m.isQueryable then ownName key name m else name
  gather name m := (m.text? Field.computedDn).bind fun dn => statistic? ⟨dn, name⟩ m
  hidden m := if m.isQueryable then [Field.metricName] else []
  childFields := []

def compiled : Descent Unit Statistic where
  own _ above _ := above
  gather _ m :=
    match Compiler.statistic? m with
    | .ok found => found
    | .error _ => none
  hidden _ := []
  childFields := []

theorem isQueryable_of_attribute {m : Mapping} {attributeName : String}
    (hfound : m.nonempty? Field.attributeName = some attributeName) : m.isQueryable = true := by
  rw [Mapping.isQueryable, Mapping.declares, Mapping.declares, hfound]
  simp

theorem statistic?_of_not_queryable {m : Mapping} (hstructural : m.isQueryable = false)
    (above : Above) : statistic? above m = none := by
  rw [statistic?]
  split
  · rename_i attributeName unit found _
    rw [isQueryable_of_attribute found] at hstructural
    cases hstructural
  · rfl

theorem statistic?_of_no_name {above : Above} (hempty : above.name.isEmpty = true) (m : Mapping) :
    statistic? above m = none := by
  rw [statistic?]
  split
  · rw [if_pos hempty]
  · rfl

theorem nonempty_bind_statistic? (dn name : String) (m : Mapping) :
    (((some name).filter fun written => !written.isEmpty).bind fun name =>
      statistic? ⟨dn, name⟩ m) = statistic? ⟨dn, name⟩ m := by
  cases empty : name.isEmpty with
  | false => simp [Option.filter, empty]
  | true =>
      rw [Option.filter_some, empty, statistic?_of_no_name empty]
      rfl

theorem statistic?_congr {m m' : Mapping}
    (hattributeName : m'.nonempty? Field.attributeName = m.nonempty? Field.attributeName)
    (hunit : Compiler.scalar? Field.unit m' = Compiler.scalar? Field.unit m)
    (hdescription : m'.text? Field.description = m.text? Field.description)
    (haggregation : Compiler.scalar? Field.aggregation m' = Compiler.scalar? Field.aggregation m)
    (above : Above) : statistic? above m' = statistic? above m := by
  rw [statistic?, hattributeName, hunit, hdescription, aggregation?, haggregation]
  rfl

theorem compiled_gather (m : Mapping) :
    compiled.gather () m =
      (m.text? Field.computedDn).bind fun dn =>
        (m.nonempty? Field.metricName).bind fun name => statistic? ⟨dn, name⟩ m := by
  simp only [compiled, Compiler.statistic?, statistic?, aggregation?]
  cases m.text? Field.computedDn with
  | none => rfl
  | some dn =>
      cases named : m.nonempty? Field.metricName with
      | none => rfl
      | some name =>
          have hnotEmpty : name.isEmpty = false := by
            simpa using (Option.filter_eq_some_iff.mp named).2
          cases m.nonempty? Field.attributeName with
          | none => rfl
          | some attributeName =>
              cases Compiler.scalar? Field.unit m with
              | none => rfl
              | some unit =>
                  simp only [Option.bind_some, hnotEmpty, if_neg Bool.false_ne_true]
                  cases Compiler.scalar? Field.aggregation m with
                  | none => rfl
                  | some value =>
                      cases known : Aggregation.ofName? value with
                      | none => simp [known]
                      | some aggregation => simp [known]

theorem look_congr {fields : List String} {key key' : Option String} {m m' : Mapping}
    (hrdn : m'.nonempty? Field.rdn = m.nonempty? Field.rdn)
    (hattributeName : m'.nonempty? Field.attributeName = m.nonempty? Field.attributeName)
    (hunit : Compiler.scalar? Field.unit m' = Compiler.scalar? Field.unit m)
    (hdescription : m'.text? Field.description = m.text? Field.description)
    (haggregation : Compiler.scalar? Field.aggregation m' = Compiler.scalar? Field.aggregation m)
    (hname : (m'.text? Field.name).orElse (fun _ => key') =
      (m.text? Field.name).orElse fun _ => key)
    (above : Above) :
    (avoiding fields).look key' above m' = (avoiding fields).look key above m := by
  have hqueryable : m'.isQueryable = m.isQueryable := by
    simp only [Mapping.isQueryable, Mapping.declares, hrdn, hattributeName]
  have hown : (avoiding fields).own key' above m' = (avoiding fields).own key above m := by
    simp only [avoiding, hqueryable, ownDn, hrdn, ownName, hname]
  have hgather := statistic?_congr hattributeName hunit hdescription haggregation
    ((avoiding fields).own key above m)
  have hhidden : (avoiding fields).hidden m' = (avoiding fields).hidden m := by
    simp only [avoiding, hqueryable]
  rw [Descent.look, Descent.look, hown, hhidden]
  exact congrArg (fun found => (_, found, _)) hgather

theorem avoiding_namesByField (fields : List String) : (avoiding fields).NamesByField where
  alike key above m m' alike := by
    refine look_congr (alike.nonempty? _) (alike.nonempty? _) (alike.keyName? _) (alike.text? _)
      (alike.keyName? _) ?_ above
    rw [alike.text?]
  free key above m free := by
    have hstructural := Mapping.isQueryable_of_free free
    simp [Descent.look, avoiding, hstructural, statistic?_of_not_queryable]
  named key above m name absent := by
    have hother (field : String) (different : field ≠ Field.name) :
        Mapping.get? field (m ++ [(.text Field.name, .text name)]) = Mapping.get? field m := by
      rw [← Mapping.set_of_get?_eq_none absent, Mapping.get?_set_of_ne different]
    have hwritten : Mapping.get? Field.name (m ++ [(.text Field.name, .text name)]) =
        some (.text name) := by
      rw [← Mapping.set_of_get?_eq_none absent, Mapping.get?_set_self]
    refine look_congr ?_ ?_ ?_ ?_ ?_ ?_ above
    · rw [Mapping.nonempty?, Mapping.text?, hother _ (by decide)]
      rfl
    · rw [Mapping.nonempty?, Mapping.text?, hother _ (by decide)]
      rfl
    · rw [Compiler.scalar?, hother _ (by decide)]
      rfl
    · rw [Mapping.text?, hother _ (by decide)]
      rfl
    · rw [Compiler.scalar?, hother _ (by decide)]
      rfl
    · rw [Mapping.text?, Mapping.text?, hwritten, absent]
      rfl
  ownName key key' above m name found := by
    refine look_congr rfl rfl rfl rfl rfl ?_ above
    rw [Mapping.text?, found]
    rfl

theorem own?_dn {root : String} {parent own : ObjectDn.Suffix} {m : Mapping}
    (hbelow : ObjectDn.own? root parent m = some own) : own.dn = ownDn parent.dn m := by
  rw [ObjectDn.own?] at hbelow
  rw [ownDn]
  cases found : Mapping.nonempty? Field.rdn m with
  | some rdn =>
      simp only [found] at hbelow ⊢
      cases hbelow
      rfl
  | none =>
      simp only [found] at hbelow ⊢
      split at hbelow
      · cases hbelow
      · cases hbelow
        rfl

theorem visit_dn {root : String} {owner : Owner} {place : Place} {parent own : ObjectDn.Suffix}
    {m visited : Mapping}
    (hvisiting : ObjectDn.visit root owner place parent m = .ok (visited, own)) :
    own.dn = if m.isQueryable then ownDn parent.dn m else parent.dn := by
  rw [ObjectDn.visit] at hvisiting
  split at hvisiting
  · rename_i queryable
    rw [if_pos queryable]
    split at hvisiting
    · rename_i suffix below
      cases hvisiting
      exact own?_dn below
    · cases hvisiting
  · rename_i structural
    rw [if_neg structural]
    cases hvisiting
    rfl

theorem annotateDn_descent_eq {root : String} {owner : Owner} {object placed : Node}
    (hwalking : object.walk (ObjectDn.visit root owner) ⟨root, false⟩ = .ok placed)
    (honce : ∀ m ∈ object.mappings, m.HoldsOnce Field.computedDn) (name : String) :
    direct.flat.node false none ⟨root, name⟩ object = named.node false none name placed := by
  have hannotates := ObjectDn.visit_annotates root owner
  refine hannotates.descent_eq direct.flat named (fun suffix name => ⟨suffix.dn, name⟩) rfl rfl
    ?_ ?_ hwalking honce name
  · intro m
    simp only [direct, Descent.flat, avoiding, named]
    split <;> rfl
  · intro place parent m visited own walked visiting alike name
    have hdn := visit_dn visiting
    have hattributeName := hannotates.nonempty?_of_ne visiting alike
      (show Field.attributeName ≠ Field.computedDn by decide)
    have hnameText := hannotates.text?_of_ne visiting alike
      (show Field.name ≠ Field.computedDn by decide)
    have hqueryable := hannotates.isQueryable visiting alike (by decide) (by decide)
    have hstatistic (above : Above) : statistic? above walked = statistic? above m :=
      statistic?_congr hattributeName
        (hannotates.keyName?_of_ne visiting alike (show Field.unit ≠ Field.computedDn by decide))
        (hannotates.text?_of_ne visiting alike
          (show Field.description ≠ Field.computedDn by decide))
        (hannotates.keyName?_of_ne visiting alike
          (show Field.aggregation ≠ Field.computedDn by decide)) above
    have ownName' : named.own place.key name walked =
        if m.isQueryable then ownName place.key name m else name := by
      simp only [named, hqueryable, ownName, hnameText]
    refine ⟨?_, ?_, ?_⟩
    · rw [ownName', hdn]
      simp only [direct, Descent.flat, avoiding]
      split <;> rfl
    · simp only [direct, Descent.flat, avoiding]
      cases asked : m.isQueryable with
      | false =>
          simp only [named, statistic?_of_not_queryable asked, hstatistic, Option.bind_fun_none]
      | true =>
          have hwritten := hannotates.text?_field visiting alike asked
          simp only [named, hwritten, hstatistic, Option.bind_some]
    · simp only [named, hqueryable]

theorem annotateName_descent_eq {object annotated : Node}
    (hwalking : object.walk (MetricPath.visit (ε := ConfigError)) "" = .ok annotated)
    (honce : ∀ m ∈ object.mappings, m.HoldsOnce Field.metricName) :
    named.node false none "" object = compiled.node false none () annotated := by
  have hannotates := MetricPath.visit_annotates
  refine hannotates.descent_eq named compiled (fun name _ => name) rfl rfl ?_ ?_ hwalking honce ()
  · intro m
    simp only [named, compiled]
  · intro place before m visited own walked visiting alike _
    refine ⟨?_, ?_, rfl⟩
    · rw [MetricPath.visit_own visiting]
      rfl
    · have hattributeName := hannotates.nonempty?_of_ne visiting alike
        (show Field.attributeName ≠ Field.metricName by decide)
      have hdn := hannotates.text?_of_ne visiting alike
        (show Field.computedDn ≠ Field.metricName by decide)
      have hstatistic (above : Above) : statistic? above walked = statistic? above m :=
        statistic?_congr hattributeName
          (hannotates.keyName?_of_ne visiting alike (show Field.unit ≠ Field.metricName by decide))
          (hannotates.text?_of_ne visiting alike
            (show Field.description ≠ Field.metricName by decide))
          (hannotates.keyName?_of_ne visiting alike
            (show Field.aggregation ≠ Field.metricName by decide)) above
      rw [show compiled.own place.key () walked = () from rfl, compiled_gather, hdn]
      simp only [named, hstatistic]
      cases asked : m.isQueryable with
      | false => simp [statistic?_of_not_queryable asked]
      | true =>
          have hwritten := hannotates.text?_field visiting alike asked
          rw [Mapping.nonempty?, hwritten]
          simp only [id_eq, nonempty_bind_statistic?]

/-- The statistics of a prepared object tree are those of one descent through the tree before. -/
theorem direct_eq_filterMap {root : String} {owner : Owner} {object renamed placed annotated : Node}
    (horderly : object.Orderly) (hkept : ChildSlots.namesKept false object = true)
    (hmoving : object.walk (ChildSlots.visit (ε := ConfigError)) () = .ok renamed)
    (hplacing : renamed.walk (ObjectDn.visit root owner) ⟨root, false⟩ = .ok placed)
    (hannotating : placed.walk (MetricPath.visit (ε := ConfigError)) "" = .ok annotated) :
    direct.node false none ⟨root, ""⟩ object =
      annotated.mappings.filterMap (compiled.gather ()) := by
  have hrenamedOrderly := ChildSlots.walk_orderly hmoving horderly
  have honceDn : ∀ m ∈ renamed.mappings, m.HoldsOnce Field.computedDn := fun m inside =>
    (hrenamedOrderly m inside).1 _ (by decide)
  have honceName : ∀ m ∈ placed.mappings, m.HoldsOnce Field.metricName :=
    (ObjectDn.visit_annotates root owner).walk_holdsOnce hplacing fun m inside =>
      (hrenamedOrderly m inside).1 _ (by decide)
  calc direct.node false none ⟨root, ""⟩ object
      = direct.flat.node false none ⟨root, ""⟩ renamed :=
        ChildSlots.walk_descent_eq (avoiding_namesByField _) rfl hmoving horderly hkept _
    _ = named.node false none "" placed := annotateDn_descent_eq hplacing honceDn ""
    _ = compiled.node false none () annotated := annotateName_descent_eq hannotating honceName
    _ = annotated.mappings.filterMap (compiled.gather ()) :=
        Descent.node_eq_filterMap _ (fun _ => rfl) rfl (fun _ _ _ => rfl) none () annotated

end StatisticDescent

end DirectoryMetrics
