import DirectoryMetrics.Proofs.Collection.Delivery
import DirectoryMetrics.Proofs.Metrics.SingleLabel
import DirectoryMetrics.Proofs.Scheduler.Ticks

namespace DirectoryMetrics

namespace Store

variable {α : Type} [SeriesKey] [Quantity α]

/-- What can become of a store: batches are committed, views are dropped, and configurations are
compiled, be they accepted or not. -/
inductive Becomes (store : Store α) : Store α → Prop where
  | same : store.Becomes store
  | commit (batch : Batch α) (tags : Tags) {later : Store α} (before : store.Becomes later) :
      store.Becomes (later.commit batch tags)
  | retain (keep : List String) {later : Store α} (before : store.Becomes later) :
      store.Becomes (later.retain keep)
  | compile (tree : Node) (registry : Registry) {later : Store α} (before : store.Becomes later) :
      store.Becomes ((Backend.compile tree).run.run ⟨registry, later, []⟩).2.store

omit [SeriesKey] [Quantity α] in
/-- A configuration leaves the store as it is, or registers views whose rows are those
of databases. -/
theorem compile_store (tree : Node) (backend : Backend α) :
    ((Backend.compile tree).run.run backend).2.store = backend.store ∨
      ∃ views new, (∀ view ∈ views, view.tagKeys = [databaseTag]) ∧
        backend.store.pending views = .ok new ∧
        ((Backend.compile tree).run.run backend).2.store =
          new.foldl (fun store entry => store.put entry) backend.store := by
  rcases Backend.compile_cases tree backend with
    ⟨⟨error, run⟩, _⟩ | ⟨plans, views, new, planned, pending, run⟩
  · rw [run]
    exact .inl rfl
  · rw [run]
    refine .inr ⟨views, new, fun view member => ?_, pending, rfl⟩
    obtain ⟨_, _, s, _, rfl⟩ := (Compiler.mem_plans planned).mp member
    rfl

theorem Becomes.reachable {store later : Store α} (hbecomes : store.Becomes later)
    (hreachable : store.Reachable) : later.Reachable := by
  induction hbecomes with
  | same => exact hreachable
  | commit batch tags _ ih => exact .commit batch tags ih
  | retain keep _ ih => exact .retain keep ih
  | @compile tree registry later _ ih =>
      rcases compile_store tree ⟨registry, later, []⟩ with same | ⟨views, new, _, pending, put⟩
      · rw [same]
        exact ih
      · have hregistered : ((Store.registerViews views).run.run later).2 =
            new.foldl (fun store entry => store.put entry) later := by
          rw [run_registerViews, pending]
        rw [put, ← hregistered]
        exact .registerViews views ih

def ByDatabase (names : List String) (store : Store α) : Prop :=
  ∀ entry ∈ store.entries, entry.1 ∈ names → entry.2.view.tagKeys = [databaseTag]

theorem Becomes.byDatabase {names : List String} {store later : Store α}
    (hbecomes : store.Becomes later) (hbyDatabase : store.ByDatabase names) :
    later.ByDatabase names := by
  induction hbecomes with
  | same => exact hbyDatabase
  | commit batch tags _ ih =>
      intro entry member named
      rw [entries_commit] at member
      obtain ⟨old, held, rfl⟩ := List.mem_map.mp member
      rw [StoreEntry.recordAll_view]
      exact ih old held named
  | retain keep _ ih =>
      exact fun entry member => ih entry (List.mem_filter.mp member).1
  | @compile tree registry later _ ih =>
      rcases compile_store tree ⟨registry, later, []⟩ with same | ⟨views, new, all, pending, put⟩
      · rw [same]
        exact ih
      · rw [put]
        intro entry member named
        rcases mem_of_mem_foldl_put member with held | added
        · exact ih entry held named
        · have hmaking := (pending_eq_ok.mp pending).1
          have heach := (List.forall₂_and_left _ _).mpr
            ⟨fun view asked => all view (List.mem_filter.mp asked).1, hmaking⟩
          refine forall_mem_of_forall₂ (P := fun entry : StoreEntry α =>
            entry.view.tagKeys = [databaseTag]) (heach.imp fun view entry made => ?_) _ added
          obtain ⟨family, _, rfl⟩ := newEntry_eq_ok.mp made.2
          exact made.1

/-- Stores with one snapshot. What is exported of them is the same as well if the keys are told
apart that series are found by. -/
structure ShownAlike (keys : List UInt64) (a b : Store Float) : Prop where
  snapshot : a.snapshot = b.snapshot
  text : keys.Nodup → ∀ namespaceName,
    Exposition.text namespaceName a = Exposition.text namespaceName b

end Store

namespace MetricSet

def tick (connections : Connections) (sets : List MetricSet) : List (Batch Float × Tags) :=
  sets.map fun set => (set.batch connections, set.tags)

theorem valuesOf_tick_eq_nil {connections : Connections} {sets : List MetricSet} {name : String}
    (hunnamed : name ∉ sets.flatMap MetricSet.metricNames) :
    ∀ made ∈ tick connections sets, made.1.valuesOf name = [] := by
  intro made hinTick
  obtain ⟨set, hinSets, rfl⟩ := List.mem_map.mp hinTick
  apply valuesOf_batch_eq_nil
  intro s hinStatistics hsame
  have hinSet : name ∈ set.metricNames := List.mem_map.mpr ⟨s, hinStatistics, hsame⟩
  exact absurd (List.mem_flatMap.mpr ⟨set, hinSets, hinSet⟩) hunnamed

variable [SeriesKey]

/-- The keys that the series of some sets are found by, whatever they measure. -/
def seriesKeys (sets : List MetricSet) : List UInt64 :=
  sets.map fun set => SeriesKey.key [set.identity.database]

theorem collectAll_eq (connections : Connections) (store : Store Float) (sets : List MetricSet) :
    collectAll connections store sets = store.commitAll (tick connections sets) := by
  rw [collectAll, Store.commitAll, tick, List.foldl_map]
  rfl

theorem seriesKey_tags {view : View} (hbyDatabase : view.tagKeys = [databaseTag])
    (set : MetricSet) : view.seriesKey set.tags = SeriesKey.key [set.identity.database] := by
  rw [View.seriesKey, hbyDatabase, restrict_tags, StoreEntry.labelValues, hbyDatabase]
  simp [Tags.get?]

theorem commitAll_shownAlike {sets : List MetricSet} {store : Store Float}
    (hreachable : store.Reachable)
    (hbyDatabase : store.ByDatabase (sets.flatMap MetricSet.metricNames))
    (hdistinct : (sets.map (·.identity.database)).Nodup) {connections : Connections}
    {commits : List (Batch Float × Tags)} (hperm : commits.Perm (tick connections sets)) :
    (store.commitAll commits).ShownAlike (seriesKeys sets) (collectAll connections store sets) := by
  rw [collectAll_eq]
  constructor
  case snapshot =>
    refine (Store.commitAll_snapshot hreachable hperm.symm fun entry hmem => ?_).symm
    by_cases hnamed : entry.1 ∈ sets.flatMap MetricSet.metricNames
    · right
      have hsingle := hbyDatabase entry hmem hnamed
      rw [tick, List.pairwise_map]
      refine (List.pairwise_map.mp hdistinct).imp fun hother => ?_
      simpa [hsingle, restrict_tags] using hother
    · exact .inl (valuesOf_tick_eq_nil hnamed)
  case text =>
    intro hkeys namespaceName
    have halike := Store.commitAll_alike hreachable hperm.symm fun entry hmem => by
      by_cases hnamed : entry.1 ∈ sets.flatMap MetricSet.metricNames
      · have hsingle := hbyDatabase entry hmem hnamed
        refine .inr ⟨⟨databaseTag, hsingle⟩, ?_⟩
        rw [tick, List.pairwise_map]
        simp only [seriesKey_tags hsingle]
        exact List.pairwise_map.mp hkeys
      · exact .inl (valuesOf_tick_eq_nil hnamed)
    exact (halike.text (hreachable.commitAll _) (hreachable.commitAll _) namespaceName).symm

/-- However the sets of a tick are collected, the same is shown then. -/
structure AnyOrder (connections : Connections) (sets : List MetricSet) (store : Store Float) :
    Prop where
  orders : ∀ order : List MetricSet, order.Perm sets →
    (collectAll connections store order).ShownAlike (seriesKeys sets)
      (collectAll connections store sets)
  ticks : ∀ (plan : Plan) (start : Nat),
    plan.jobs.map (fun job => (job.batch, job.tags)) = tick connections sets →
      (store.commitAll ((plan.commits start).map fun commit =>
        (commit.2.batch, commit.2.tags))).ShownAlike (seriesKeys sets)
          (collectAll connections store sets)

end MetricSet

namespace Plan

theorem map_snd_commits_perm (plan : Plan) (start : Nat) :
    ((plan.commits start).map Prod.snd).Perm plan.jobs := by
  rw [commits]
  split
  · have hmade := (Sorted.sortBy_perm (fun a b : Nat × Job => decide (a.1 < b.1))
      (plan.jobs.map fun job => (start + job.duration, job))).map Prod.snd
    rw [List.map_map] at hmade
    simpa [sideBySide, Function.comp_def] using hmade
  · rw [map_snd_inTurn]

end Plan

namespace Backend

/-- The sets of an accepted configuration may be collected in any order, if no two of them are of
one database, whatever has become of the store since. What is exported then does not depend on the
order either, unless two of the databases have series of one key. -/
theorem compile_any_order [SeriesKey] {tree : Node} {backend after : Backend Float}
    {sets : List MetricSet} (hreachable : backend.store.Reachable)
    (haccepted : (compile tree).run.run backend = (.ok sets, after))
    (hdistinct : (sets.map (·.identity.database)).Nodup) {store : Store Float}
    (hbecomes : after.store.Becomes store) (connections : Connections) :
    MetricSet.AnyOrder connections sets store := by
  have hcompiled := compile_reachable hreachable haccepted
  have hbyDatabase : after.store.ByDatabase (sets.flatMap MetricSet.metricNames) := by
    intro entry hmem hnamed
    obtain ⟨set, hinSets, hinSet⟩ := List.mem_flatMap.mp hnamed
    obtain ⟨s, hinStatistics, hsameName⟩ := List.mem_map.mp hinSet
    obtain ⟨held, hfound, hsame⟩ := Store.get?_of_isRegistered
      (compile_registers haccepted set hinSets s hinStatistics)
    have hinEntries := hcompiled.sound.get?_of_mem hmem
    rw [← hsameName] at hinEntries
    rw [Option.some.inj (hinEntries.symm.trans hfound), hsame]
    rfl
  have hshown : ∀ commits, commits.Perm (MetricSet.tick connections sets) →
      (store.commitAll commits).ShownAlike (MetricSet.seriesKeys sets)
        (MetricSet.collectAll connections store sets) :=
    fun commits hperm => MetricSet.commitAll_shownAlike (hbecomes.reachable hcompiled)
      (hbecomes.byDatabase hbyDatabase) hdistinct hperm
  refine ⟨fun order hperm => ?_, fun plan start hjobs => ?_⟩
  · rw [MetricSet.collectAll_eq]
    exact hshown _ (hperm.map _)
  · apply hshown
    have hmade := (plan.map_snd_commits_perm start).map fun job => (job.batch, job.tags)
    rw [hjobs, List.map_map] at hmade
    exact hmade

open SeriesHash

/-- Both servers have a row in the same view, and one of them has been collected before. -/
theorem paired_any_order : ∃ sets after,
    (compile (paired "first" "second")).run.run ⟨.empty, .empty, []⟩ = (.ok sets, after) ∧
      sets.map (fun set => (set.identity.database, set.metricNames)) =
        [("first", ["ops"]), ("second", ["ops"])] ∧
      (MetricSet.seriesKeys sets).Nodup ∧
      MetricSet.AnyOrder (fun _ => answering "3") sets
        (after.store.commit [⟨"ops", 1⟩] (Tags.ofPairs [("database", "second")])) := by
  have hmade : ((compile (paired "first" "second")).run.run
      (⟨.empty, .empty, []⟩ : Backend Float)).1.toOption.map (fun sets =>
        sets.map fun set => (set.identity.database, set.metricNames)) =
      some [("first", ["ops"]), ("second", ["ops"])] := by
    decide +kernel
  obtain ⟨sets, after, haccepted, hnames⟩ := exists_eq_ok_of_map_toOption hmade
  have hdatabases : sets.map (·.identity.database) = ["first", "second"] := by
    simpa [Function.comp_def] using congrArg (List.map Prod.fst) hnames
  have hkeys : MetricSet.seriesKeys sets =
      ["first", "second"].map fun database => SeriesKey.key [database] := by
    rw [MetricSet.seriesKeys, ← hdatabases, List.map_map]
    rfl
  refine ⟨sets, after, haccepted, hnames, ?_, ?_⟩
  · rw [hkeys]
    decide +kernel
  · refine compile_any_order .empty haccepted ?_ (.commit _ _ .same) _
    rw [hdatabases]
    decide

def colliding : Node := paired "ldap://ds-x64gk7vf7pvmh" "ldap://ds-tyi7t442fnm7n"

def collectedLabels (store : Store Float) (sets : List MetricSet) : List (List (List String)) :=
  (MetricSet.collectAll (fun _ => answering "3") store sets).families.map fun family =>
    family.series.map (·.labels)

/-- The server that is collected first gives its name to the series of both. -/
theorem colliding_shows_first : ∃ sets after,
    (compile colliding).run.run ⟨.empty, .empty, []⟩ = (.ok sets, after) ∧
      sets.map (·.identity.database) = ["ldap://ds-x64gk7vf7pvmh", "ldap://ds-tyi7t442fnm7n"] ∧
      collectedLabels after.store sets = [[["ldap://ds-x64gk7vf7pvmh"]]] ∧
      collectedLabels after.store sets.reverse = [[["ldap://ds-tyi7t442fnm7n"]]] := by
  have hmade : ((compile colliding).run.run (⟨.empty, .empty, []⟩ : Backend Float)).1.toOption.map
      (fun sets =>
        let store := ((compile colliding).run.run ⟨.empty, .empty, []⟩).2.store
        (sets.map (·.identity.database), collectedLabels store sets,
          collectedLabels store sets.reverse)) =
      some (["ldap://ds-x64gk7vf7pvmh", "ldap://ds-tyi7t442fnm7n"],
        [[["ldap://ds-x64gk7vf7pvmh"]]], [[["ldap://ds-tyi7t442fnm7n"]]]) := by
    decide +kernel
  obtain ⟨sets, after, haccepted, hshown⟩ := exists_eq_ok_of_map_toOption hmade
  rw [haccepted] at hshown
  simp only [Prod.mk.injEq] at hshown
  exact ⟨sets, after, haccepted, hshown⟩

end Backend

end DirectoryMetrics
