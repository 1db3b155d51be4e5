import DirectoryMetrics.Proofs.Collection.MetricRows
import DirectoryMetrics.Proofs.Collection.Replacement
import DirectoryMetrics.Proofs.Metrics.Series

namespace DirectoryMetrics

namespace Store

variable {α : Type}

theorem get?_of_isRegistered {store : Store α} {view : View}
    (hregistered : store.isRegistered view = true) :
    ∃ entry, store.get? view.name = some entry ∧ entry.view = view := by
  rw [isRegistered_eq, decide_eq_true_eq] at hregistered
  exact Option.map_eq_some_iff.mp hregistered

variable [SeriesKey] [Quantity α]

theorem Reachable.mirrored {store : Store α} (hreachable : store.Reachable) {name : String}
    {entry : StoreEntry α} (hfound : store.get? name = some entry) : entry.Mirrored := by
  obtain ⟨history, rfl⟩ := History.exists_of_reachable hreachable
  exact history.mirrored _ (Sorted.mem_of_lookup hfound)

theorem warnings_eq_nil {batch : Batch α} {store : Store α}
    (hknown : ∀ m ∈ batch, ∃ entry, store.get? m.measure = some entry ∧ entry.Mirrored)
    (tags : Tags) : store.warnings batch tags = [] := by
  induction batch generalizing store with
  | nil => rfl
  | cons m rest ih =>
      rw [List.forall_mem_cons] at hknown
      obtain ⟨⟨entry, found, mirrored⟩, later⟩ := hknown
      have hfirst : warning? tags store m = none := by
        rw [warning?, found]
        simp only [mirrored.exported_eq]
      rw [warnings, hfirst]
      apply ih
      intro m' member
      obtain ⟨entry', found', mirrored'⟩ := later m' member
      rw [get?_record, found']
      split
      · exact ⟨_, rfl, mirrored'.record tags m.value⟩
      · exact ⟨_, rfl, mirrored'⟩

end Store

def Statistic.value? (directory : Directory) (s : Statistic) : Option Float :=
  ((directory s.dn s.attributeName).bind List.head?).bind numberOf?

theorem Statistic.measurement?_eq (directory : Directory) (s : Statistic) :
    s.measurement? directory = (s.value? directory).map fun x => ⟨s.metricName, x⟩ := by
  rw [measurement?, collect, value?]
  cases (directory s.dn s.attributeName).bind List.head? with
  | none => rfl
  | some value =>
      simp only [Option.bind_some]
      cases numberOf? value with
      | none => rfl
      | some x => rfl

namespace MetricSet

theorem valuesOf_batch (connections : Connections) (set : MetricSet) (name : String) :
    (set.batch connections).valuesOf name =
      (set.statistics.filter fun s => s.metricName == name).filterMap
        (Statistic.value? (connections set.handle)) := by
  rw [batch, Batch.valuesOf]
  induction set.statistics with
  | nil => rfl
  | cons s rest ih =>
      rw [List.filterMap_cons, Statistic.measurement?_eq]
      cases value : s.value? (connections set.handle) with
      | none =>
          rw [Option.map_none, ih, List.filter_cons]
          split
          · rw [List.filterMap_cons, value]
          · rfl
      | some x =>
          simp only [Option.map_some, List.filter_cons]
          split
          · rw [List.map_cons, ih, List.filterMap_cons, value]
          · exact ih

theorem valuesOf_batch_eq_nil {connections : Connections} {set : MetricSet} {name : String}
    (hwithout : ∀ s ∈ set.statistics, s.metricName = name →
      s.value? (connections set.handle) = none) :
    (set.batch connections).valuesOf name = [] := by
  rw [valuesOf_batch, List.filterMap_eq_nil_iff]
  intro s member
  obtain ⟨inStatistics, named⟩ := List.mem_filter.mp member
  exact hwithout s inStatistics (beq_iff_eq.mp named)

theorem filter_metricName {set : MetricSet} (hdistinct : set.metricNames.Nodup) {s : Statistic}
    (hmember : s ∈ set.statistics) :
    (set.statistics.filter fun other => other.metricName == s.metricName) = [s] := by
  have hnodup : set.statistics.Nodup := hdistinct.of_map
  apply List.perm_singleton.mp
  rw [List.perm_ext_iff_of_nodup (hnodup.filter _) (List.nodup_singleton s)]
  intro other
  rw [List.mem_filter, List.mem_singleton, beq_iff_eq]
  constructor
  · rintro ⟨inside, same⟩
    exact List.inj_on_of_nodup_map hdistinct inside hmember same
  · rintro rfl
    exact ⟨hmember, rfl⟩

theorem restrict_tags (set : MetricSet) :
    set.tags.restrict [databaseTag] = ⟨[(databaseTag, set.identity.database)]⟩ := rfl

section

variable [SeriesKey]

/-- What a collection of a set does to a store: it warns of nothing, writes each number that its
connection gives to the row of its database in the view of its metric, and changes nothing else. -/
structure Delivers (connections : Connections) (set : MetricSet) (store : Store Float) :
    Prop where
  silent : store.warnings (set.batch connections) set.tags = []
  written : ∀ s ∈ set.statistics, ∀ x, s.value? (connections set.handle) = some x → ∃ old new,
    store.get? s.metricName = some old ∧ old.view = s.view ∧
      (set.collect connections store).get? s.metricName = some new ∧ new.view = s.view ∧
      ∀ row, new.rows.lookup row =
        if row = ⟨[(databaseTag, set.identity.database)]⟩ then
          some (s.aggregation.combine ((old.rows.lookup row).getD 0) x)
        else old.rows.lookup row
  others : ∀ name, (∀ s ∈ set.statistics, s.metricName = name →
      s.value? (connections set.handle) = none) →
    (set.collect connections store).get? name = store.get? name

theorem delivers {set : MetricSet} {store : Store Float} (hreachable : store.Reachable)
    (hdistinct : set.metricNames.Nodup)
    (hregistered : ∀ s ∈ set.statistics, store.isRegistered s.view = true)
    (connections : Connections) : set.Delivers connections store where
  silent := by
    apply Store.warnings_eq_nil
    intro m member
    obtain ⟨s, inStatistics, measured⟩ := List.mem_filterMap.mp member
    obtain ⟨entry, found, _⟩ := Store.get?_of_isRegistered (hregistered s inStatistics)
    rw [Statistic.measure_eq measured]
    exact ⟨entry, found, hreachable.mirrored found⟩
  written := by
    intro s member x value
    obtain ⟨old, found, same⟩ := Store.get?_of_isRegistered (hregistered s member)
    have hvalues : (set.batch connections).valuesOf s.metricName = [x] := by
      rw [valuesOf_batch, filter_metricName hdistinct member, List.filterMap_cons, value]
      rfl
    refine ⟨old, old.record set.tags x, found, same, ?_, same, ?_⟩
    · rw [collect, Store.get?_commit, hvalues]
      exact congrArg (Option.map _) found
    · intro row
      rw [StoreEntry.lookup_record, same]
      rfl
  others := by
    intro name without
    rw [collect, Store.get?_commit, valuesOf_batch_eq_nil without]
    exact congrFun Option.map_id _

def DeliversEach (store : Store Float) : List (MetricSet × Connections) → Prop
  | [] => True
  | (set, connections) :: rest =>
      set.Delivers connections store ∧ DeliversEach (set.collect connections store) rest

theorem isRegistered_collect (connections : Connections) (set : MetricSet) (store : Store Float)
    (view : View) :
    (set.collect connections store).isRegistered view = store.isRegistered view :=
  Store.isRegistered_commitAll [(set.batch connections, set.tags)] store view

theorem deliversEach {collected : List (MetricSet × Connections)} {store : Store Float}
    (hreachable : store.Reachable) (hdistinct : ∀ one ∈ collected, one.1.metricNames.Nodup)
    (hregistered : ∀ one ∈ collected, ∀ s ∈ one.1.statistics, store.isRegistered s.view = true) :
    DeliversEach store collected := by
  induction collected generalizing store with
  | nil => trivial
  | cons one rest ih =>
      rw [List.forall_mem_cons] at hdistinct hregistered
      refine ⟨delivers hreachable hdistinct.1 hregistered.1 one.2, ?_⟩
      apply ih
      · exact .commit _ _ hreachable
      · exact hdistinct.2
      · intro later member s inStatistics
        rw [isRegistered_collect]
        exact hregistered.2 later member s inStatistics

end

end MetricSet

namespace Backend

variable {α : Type}

theorem compile_registers {tree : Node} {backend after : Backend α} {sets : List MetricSet}
    (haccepted : (compile tree).run.run backend = (.ok sets, after)) :
    ∀ set ∈ sets, ∀ s ∈ set.statistics, after.store.isRegistered s.view = true := by
  obtain ⟨plans, views, new, planned, pending, rfl, _, store⟩ := compile_accepted haccepted
  intro set member s inStatistics
  have hasked : s.view ∈ views :=
    (mem_views_connectAll planned backend.registry).mpr ⟨set, member, s, inStatistics, rfl⟩
  obtain ⟨entry, found, same, _⟩ :=
    Store.get?_registered (Compiler.plans_nodup planned) pending hasked
  rw [store, Store.isRegistered_eq, found, Option.map_some, same, decide_eq_true rfl]

theorem compile_reachable [SeriesKey] [Quantity α] {tree : Node} {backend after : Backend α}
    {sets : List MetricSet} (hreachable : backend.store.Reachable)
    (haccepted : (compile tree).run.run backend = (.ok sets, after)) : after.store.Reachable := by
  obtain ⟨_, views, _, _, _, _, _, store⟩ := compile_accepted haccepted
  rw [store]
  exact .registerViews views hreachable

/-- However often the sets of a configuration are collected, in whatever order and whatever is
answered through their connections, every collection delivers what it measures. -/
theorem compile_delivers [SeriesKey] {tree : Node} {backend after : Backend Float}
    {sets : List MetricSet}
    (hreachable : backend.store.Reachable)
    (haccepted : (compile tree).run.run backend = (.ok sets, after))
    {collected : List (MetricSet × Connections)} (hown : ∀ one ∈ collected, one.1 ∈ sets) :
    MetricSet.DeliversEach after.store collected := by
  apply MetricSet.deliversEach (compile_reachable hreachable haccepted)
  · exact fun one member => compile_nodup_metricNames haccepted one.1 (hown one member)
  · exact fun one member => compile_registers haccepted one.1 (hown one member)

def answering (text : String) : Directory := fun _ _ => some [.text text]

open SeriesHash

def unlikeWatching : Store Float :=
  ((Store.registerViews
      [⟨"ops", "", "1", ["host"], .sum⟩, ⟨"hits", "", "1", [], .count⟩]).run.run .empty).2.commit
    [⟨"ops", 4⟩, ⟨"hits", 1⟩] (Tags.ofPairs [("host", "a")])

theorem watching_delivers : unlikeWatching.Reachable ∧ ∃ sets after,
    (compile watching).run.run ⟨.empty, unlikeWatching, []⟩ = (.ok sets, after) ∧
      sets.map MetricSet.metricNames = [["ops", "waits"]] ∧
      (∀ set ∈ sets, ∀ s ∈ set.statistics, (s.value? (answering "3")).isSome) ∧
      MetricSet.DeliversEach after.store
        ((sets ++ sets).map fun set => (set, fun _ => answering "3")) := by
  have hreachable : unlikeWatching.Reachable := .commit _ _ (.registerViews _ .empty)
  have hmade : ((compile watching).run.run ⟨.empty, unlikeWatching, []⟩).1.toOption.map
      (fun sets => sets.map MetricSet.metricNames) = some [["ops", "waits"]] := by
    decide +kernel
  obtain ⟨sets, after, accepted, names⟩ := exists_eq_ok_of_map_toOption hmade
  refine ⟨hreachable, sets, after, accepted, names, ?_, compile_delivers hreachable accepted ?_⟩
  · intro set _ s _
    have hnumber : (Statistic.numberOf? (.text "3")).isSome := by decide +kernel
    exact hnumber
  · intro one member
    obtain ⟨set, inBoth, rfl⟩ := List.mem_map.mp member
    simpa using inBoth

end Backend

end DirectoryMetrics
