import DirectoryMetrics.Proofs.Collection.Compilation
import Mathlib.Data.List.Flatten

namespace DirectoryMetrics

theorem Statistic.measure_eq {directory : Directory} {s : Statistic} {m : Measurement Float}
    (hmeasured : s.measurement? directory = some m) : m.measure = s.metricName := by
  rw [measurement?, collect] at hmeasured
  cases answered : (directory s.dn s.attributeName).bind List.head? with
  | none => simp [answered] at hmeasured
  | some value =>
      cases number : numberOf? value with
      | none => simp [answered, number] at hmeasured
      | some x =>
          simp only [answered, number, Option.some.injEq] at hmeasured
          rw [← hmeasured]

namespace MetricSet

/-- The database that a set is tagged with, and the name of each of its metrics. -/
def rowKeys (set : MetricSet) : List (Option String × String) :=
  set.metricNames.map fun name => (set.tags.get? databaseTag, name)

def measuredRows (connections : Connections) (set : MetricSet) : List (Option String × String) :=
  (set.batch connections).map fun m => (set.tags.get? databaseTag, m.measure)

@[simp] theorem get?_tags (set : MetricSet) :
    set.tags.get? databaseTag = some set.identity.database := by
  rw [tags, Tags.insert, Tags.get?, Sorted.lookup_put, if_pos rfl]

theorem nodup_rowKeys {set : MetricSet} : set.rowKeys.Nodup ↔ set.metricNames.Nodup := by
  rw [rowKeys, List.nodup_map_iff]
  intro a b same
  exact (Prod.mk.inj same).2

theorem disjoint_rowKeys {a b : MetricSet} :
    a.rowKeys.Disjoint b.rowKeys ↔
      (a.identity.database = b.identity.database → a.metricNames.Disjoint b.metricNames) := by
  constructor
  · intro disjoint same name inA inB
    apply disjoint (List.mem_map_of_mem inA)
    rw [get?_tags, same, ← get?_tags b]
    exact List.mem_map_of_mem inB
  · intro disjoint key inA inB
    obtain ⟨name, named, rfl⟩ := List.mem_map.mp inA
    obtain ⟨name', named', same⟩ := List.mem_map.mp inB
    rw [get?_tags, get?_tags, Prod.mk.injEq, Option.some.injEq] at same
    exact disjoint same.1.symm named (same.2 ▸ named')

theorem measuredRows_sublist (connections : Connections) (set : MetricSet) :
    (set.measuredRows connections).Sublist set.rowKeys := by
  have hmeasures : ((set.batch connections).map (·.measure)).Sublist set.metricNames := by
    rw [batch, metricNames]
    induction set.statistics with
    | nil => exact .slnil
    | cons s rest ih =>
        cases measured : s.measurement? (connections set.handle) with
        | none =>
            rw [List.filterMap_cons_none measured]
            exact ih.cons _
        | some m =>
            rw [List.filterMap_cons_some measured, List.map_cons, List.map_cons,
              Statistic.measure_eq measured]
            exact ih.cons_cons _
  have hkeyed := hmeasures.map fun name => (set.tags.get? databaseTag, name)
  rw [List.map_map] at hkeyed
  exact hkeyed

end MetricSet

namespace Compiler

theorem statisticsFrom_nodup {database : String} {seen : List String} {ms : List Mapping}
    {found : List Statistic} (hflattening : statisticsFrom database seen ms = .ok found) :
    (found.map (·.metricName)).Nodup ∧ ∀ s ∈ found, s.metricName ∉ seen := by
  induction ms generalizing seen found with
  | nil =>
      cases hflattening
      simp
  | cons m rest ih =>
      rw [statisticsFrom] at hflattening
      obtain ⟨statistic, _, hflattening⟩ := Except.bind_eq_ok.mp hflattening
      cases statistic with
      | none => exact ih hflattening
      | some s =>
          simp only at hflattening
          split at hflattening
          · cases hflattening
          · rename_i unseen
            rw [List.contains_iff_mem] at unseen
            obtain ⟨later, flatteningRest, returned⟩ := Except.bind_eq_ok.mp hflattening
            cases returned
            obtain ⟨distinct, fresh⟩ := ih flatteningRest
            rw [List.map_cons, List.nodup_cons, List.forall_mem_cons]
            refine ⟨⟨fun member => ?_, distinct⟩, unseen, fun other member again => ?_⟩
            · obtain ⟨other, inLater, same⟩ := List.mem_map.mp member
              exact fresh other inLater (same ▸ List.mem_cons_self)
            · exact fresh other member (List.mem_cons_of_mem _ again)

theorem restrict_sublist (chosen : Option (List String)) (found : List Statistic) :
    (restrict chosen found).Sublist found := by
  cases chosen with
  | none => exact .refl found
  | some names => exact List.filter_sublist

theorem serverPlan_nodup {index : Nat} {server : Server} {plan : ServerPlan}
    (hplanning : serverPlan index server = .ok plan) :
    (plan.statistics.map (·.metricName)).Nodup := by
  obtain ⟨database, all, flattening, choosing, _⟩ := serverPlan_eq_ok hplanning
  rw [choose_eq_ok choosing]
  exact ((restrict_sublist server.chosenStatistics all).map _).nodup
    (statisticsFrom_nodup flattening).1

end Compiler

namespace Backend

variable {α : Type}

theorem compile_nodup_metricNames {tree : Node} {backend after : Backend α}
    {sets : List MetricSet} (haccepted : (compile tree).run.run backend = (.ok sets, after)) :
    ∀ set ∈ sets, set.metricNames.Nodup := by
  obtain ⟨plans, views, planned, rfl⟩ := compile_eq_ok haccepted
  obtain ⟨settings, _, planning⟩ := Compiler.plans_eq_ok planned
  have heach : ∀ plan ∈ plans, (plan.statistics.map (·.metricName)).Nodup := by
    refine forall_mem_of_forall₂ (planning.imp fun server plan made => ?_)
    obtain ⟨index, made⟩ := made
    exact Compiler.serverPlan_nodup made
  intro set member
  have hinStatistics := List.mem_map_of_mem (f := fun set => set.statistics) member
  rw [connectAll_statistics] at hinStatistics
  obtain ⟨plan, inPlans, same⟩ := List.mem_map.mp hinStatistics
  rw [MetricSet.metricNames, ← same]
  exact heach plan inPlans

/-- Each row has one statistic exactly if no two entries of one database share the name of a
metric, and then no tick has two measurements for a row. Within an entry no name is there twice. -/
theorem compile_nodup_rowKeys {tree : Node} {backend after : Backend α} {sets : List MetricSet}
    (haccepted : (compile tree).run.run backend = (.ok sets, after)) :
    (∀ set ∈ sets, set.rowKeys.Nodup) ∧
      ((sets.flatMap MetricSet.rowKeys).Nodup ↔ sets.Pairwise fun a b =>
        a.identity.database = b.identity.database → a.metricNames.Disjoint b.metricNames) ∧
      ((sets.flatMap MetricSet.rowKeys).Nodup → ∀ connections : Connections,
        (sets.flatMap (MetricSet.measuredRows connections)).Nodup) := by
  have heach : ∀ set ∈ sets, set.rowKeys.Nodup := fun set member =>
    MetricSet.nodup_rowKeys.mpr (compile_nodup_metricNames haccepted set member)
  refine ⟨heach, ?_, fun distinct connections => ?_⟩
  · rw [List.nodup_flatMap, and_iff_right heach]
    exact List.Pairwise.iff fun _ _ => MetricSet.disjoint_rowKeys
  · refine (List.Sublist.flatMap_right sets fun set _ => ?_).nodup distinct
    exact set.measuredRows_sublist connections

def paired (first second : String) : Node :=
  let entry (database dn : String) : Node :=
    .mapping
      [(.text "database", .text database),
        (.text "connection", .mapping [(.text "server_uri", .text "ldap://one")]),
        (.text "object", .mapping
          [(.text "computed_dn", .text dn), (.text "metric_name", .text "ops"),
            (.text "attribute", .text "opsDone"), (.text "unit", .int 1)])]
  .mapping
    [(.text "ldap_servers", .sequence [entry first "cn=Monitor", entry second "cn=Backend"])]

theorem paired_nodup_rowKeys : ∃ sets after,
    (compile (paired "first" "second")).run.run collecting = (.ok sets, after) ∧
      sets.map (·.identity.database) = ["first", "second"] ∧
      (sets.flatMap MetricSet.rowKeys).Nodup := by
  have hmade : ((compile (paired "first" "second")).run.run collecting).1.toOption.map
      (fun sets => sets.map (·.identity.database)) = some ["first", "second"] := by
    decide +kernel
  obtain ⟨sets, after, accepted, databases⟩ := exists_eq_ok_of_map_toOption hmade
  have hapart : sets.Pairwise fun a b => a.identity.database ≠ b.identity.database := by
    rw [← List.pairwise_map, databases]
    decide
  exact ⟨sets, after, accepted, databases, (compile_nodup_rowKeys accepted).2.1.mpr
    (hapart.imp fun different same => absurd same different)⟩

/-- The second entry is of the database of the first one. -/
theorem paired_share_row : ∃ sets after,
    (compile (paired "first" "first")).run.run collecting = (.ok sets, after) ∧
      sets.flatMap MetricSet.rowKeys = [(some "first", "ops"), (some "first", "ops")] :=
  exists_eq_ok_of_map_toOption (by decide +kernel)

end Backend

end DirectoryMetrics
