import DirectoryMetrics.Proofs.Collection.Reload
import DirectoryMetrics.Proofs.Metrics.Lookup

namespace DirectoryMetrics

namespace Compiler

theorem mem_addViews {database : String} {seen seen' : Seen} {found : List Statistic}
    (hadding : addViews database seen found = .ok seen') {view : View} :
    view ∈ seen'.map Prod.fst ↔ view ∈ seen.map Prod.fst ∨ ∃ s ∈ found, s.view = view := by
  induction found generalizing seen with
  | nil =>
      cases hadding
      simp
  | cons s rest ih =>
      rw [addViews] at hadding
      rw [List.exists_mem_cons_iff]
      split at hadding
      · rw [ih hadding, List.map_append, List.mem_append, List.map_singleton, List.mem_singleton,
          or_assoc, eq_comm]
      · rename_i held first found
        split at hadding
        · rename_i same
          have hinSeen : s.view ∈ seen.map Prod.fst :=
            List.mem_map.mpr ⟨(held, first), List.mem_of_find?_eq_some found, same⟩
          rw [ih hadding, or_left_comm]
          exact (or_iff_right_of_imp fun again => .inl (again ▸ hinSeen)).symm
        · cases hadding

theorem mem_plansFrom {index : Nat} {seen seen' : Seen} {servers : List Server}
    {made : List ServerPlan} (hplanning : plansFrom index seen servers = .ok (made, seen'))
    {view : View} :
    view ∈ seen'.map Prod.fst ↔
      view ∈ seen.map Prod.fst ∨ ∃ plan ∈ made, ∃ s ∈ plan.statistics, s.view = view := by
  induction servers generalizing index seen made with
  | nil =>
      cases hplanning
      simp
  | cons server rest ih =>
      obtain ⟨plan, _, hplanning⟩ := Except.bind_eq_ok.mp hplanning
      obtain ⟨seenNow, adding, hplanning⟩ := Except.bind_eq_ok.mp hplanning
      obtain ⟨⟨later, seenLater⟩, hplanning, returned⟩ := Except.bind_eq_ok.mp hplanning
      cases returned
      rw [ih hplanning, mem_addViews adding, List.exists_mem_cons_iff, or_assoc]

theorem mem_plans {tree : Node} {made : List ServerPlan} {views : List View}
    (hplanning : plans tree = .ok (made, views)) {view : View} :
    view ∈ views ↔ ∃ plan ∈ made, ∃ s ∈ plan.statistics, s.view = view := by
  obtain ⟨settings, _, hplanning⟩ := Except.bind_eq_ok.mp hplanning
  obtain ⟨⟨made', seen⟩, planned, returned⟩ := Except.bind_eq_ok.mp hplanning
  cases returned
  rw [(Sorted.sortBy_perm _ _).mem_iff, mem_plansFrom planned]
  simp

end Compiler

namespace Store

variable {α : Type}

theorem Sound.pending_of_registered {store : Store α} (hsound : store.Sound) {views : List View}
    (hdistinct : (views.map (·.name)).Nodup)
    (hregistered : ∀ view ∈ views, store.isRegistered view = true) :
    store.pending views = .ok [] := by
  have hheld : ∀ view ∈ views, ∃ entry, (view.name, entry) ∈ store.entries ∧ entry.view = view :=
    fun view member => hsound.isRegistered_iff.mp (hregistered view member)
  have hexportable : ∀ view ∈ views, View.Exportable α view := by
    intro view member
    obtain ⟨entry, inEntries, rfl⟩ := hheld view member
    exact hsound.exportable _ inEntries
  have hinside : ∀ name ∈ store.names ++ views.map (·.name), name ∈ store.names := by
    intro name member
    rcases List.mem_append.mp member with inNames | asked
    · exact inNames
    · obtain ⟨view, inViews, rfl⟩ := List.mem_map.mp asked
      obtain ⟨entry, inEntries, _⟩ := hheld view inViews
      exact List.mem_map_of_mem inEntries
  obtain ⟨new, accepted⟩ := (hsound.pending_isOk_iff hdistinct).mpr
    ⟨hexportable, fun a inA b inB => hsound.apart a (hinside a inA) b (hinside b inB)⟩
  have hnone : views.filter (fun view => !store.isRegistered view) = [] :=
    List.filter_eq_nil_iff.mpr fun view member => by simp [hregistered view member]
  have hmaking := (pending_eq_ok.mp accepted).1
  rw [hnone, List.forall₂_nil_left_iff] at hmaking
  rw [accepted, hmaking]

theorem isRegistered_retain {keep : List String} {view : View} (hkept : view.name ∈ keep)
    (store : Store α) : (store.retain keep).isRegistered view = store.isRegistered view := by
  rw [isRegistered_eq, isRegistered_eq, get?_retain, if_pos (List.contains_iff_mem.mpr hkept)]

def retainSets (sets : List MetricSet) (store : Store α) : Store α :=
  store.retain (sets.flatMap MetricSet.metricNames)

theorem Sound.mem_views {store : Store α} (hsound : store.Sound) {view : View} :
    view ∈ store.views ↔ store.isRegistered view = true := by
  rw [hsound.isRegistered_iff]
  constructor
  · intro member
    obtain ⟨⟨name, entry⟩, inEntries, rfl⟩ := List.mem_map.mp member
    have hnamed := hsound.named _ inEntries
    exact ⟨entry, hnamed ▸ inEntries, rfl⟩
  · rintro ⟨entry, inEntries, same⟩
    exact List.mem_map.mpr ⟨_, inEntries, same⟩

theorem Sound.map_name_views {store : Store α} (hsound : store.Sound) :
    store.views.map (·.name) = store.names := by
  rw [views, names, List.map_map]
  exact List.map_congr_left hsound.named

theorem get?_registered {views : List View} {store : Store α} {new : List (StoreEntry α)}
    (hdistinct : (views.map (·.name)).Nodup) (haccepted : store.pending views = .ok new)
    {view : View} (hasked : view ∈ views) :
    ∃ entry, ((Store.registerViews views).run.run store).2.get? view.name = some entry ∧
      entry.view = view ∧
      if store.isRegistered view then store.get? view.name = some entry
      else entry.rows = [] ∧ entry.family.series = [] := by
  have found : views.find? (·.name == view.name) = some view := by
    have hpresent : (views.find? (·.name == view.name)).isSome :=
      List.find?_isSome.mpr ⟨view, hasked, by simp⟩
    obtain ⟨other, found⟩ := Option.isSome_iff_exists.mp hpresent
    have hnamed : other.name = view.name := by simpa using List.find?_some found
    have hmember := List.mem_of_find?_eq_some found
    rw [found, List.inj_on_of_nodup_map hdistinct hmember hasked hnamed]
  rw [get?_registerViews hdistinct haccepted, found]
  cases registered : store.isRegistered view with
  | true =>
      have same := registered
      rw [isRegistered_eq, decide_eq_true_eq, Option.map_eq_some_iff] at same
      obtain ⟨entry, held, same⟩ := same
      exact ⟨entry, by simp [registered, held], same, by simp [held]⟩
  | false =>
      obtain ⟨family, made, entry⟩ := newEntry_of_accepted haccepted hasked registered
      obtain ⟨help, eq⟩ := Family.ofView_eq_ok made
      refine ⟨⟨view, family, []⟩, by simp [registered, entry, Except.toOption], rfl, ?_⟩
      simp [eq]

end Store

namespace Registry

theorem handle?_getOrCreate (registry : Registry) (identity : ServerIdentity) :
    (registry.getOrCreate identity).2.handle? identity.database =
      some (registry.getOrCreate identity).1 := by
  rcases getOrCreate_cases registry identity with ⟨handle, held, eq⟩ | ⟨fresh, eq⟩
  · rw [eq, held]
  · rw [handle?] at fresh
    rw [eq, handle?, List.findIdx?_append, fresh]
    simp [size]

end Registry

namespace Backend

variable {α : Type}

theorem made_prefix_connectAll (registry : Registry) (plans : List Compiler.ServerPlan) :
    registry.made <+: (connectAll registry plans).2.made := by
  induction plans generalizing registry with
  | nil => exact List.prefix_rfl
  | cons plan rest ih =>
      exact (Registry.made_prefix_getOrCreate registry plan.identity).trans (ih _)

theorem connectAll_again {registry later : Registry} {plans : List Compiler.ServerPlan}
    (hgrown : (connectAll registry plans).2.made <+: later.made) :
    connectAll later plans = ((connectAll registry plans).1, later) := by
  induction plans generalizing registry with
  | nil => rfl
  | cons plan rest ih =>
      have hheld : later.handle? plan.identity.database =
          some (registry.getOrCreate plan.identity).1 :=
        Registry.handle?_of_made_prefix ((made_prefix_connectAll _ rest).trans hgrown)
          (Registry.handle?_getOrCreate registry plan.identity)
      have hagain : later.getOrCreate plan.identity =
          ((registry.getOrCreate plan.identity).1, later) := by
        rw [Registry.getOrCreate, hheld]
      rw [connectAll, hagain]
      simp only [ih hgrown]
      rfl

theorem compile_accepted {tree : Node} {backend after : Backend α} {sets : List MetricSet}
    (haccepted : (compile tree).run.run backend = (.ok sets, after)) :
    ∃ plans views new, Compiler.plans tree = .ok (plans, views) ∧
      backend.store.pending views = .ok new ∧ sets = (connectAll backend.registry plans).1 ∧
      after.registry = (connectAll backend.registry plans).2 ∧
      after.store = ((Store.registerViews views).run.run backend.store).2 := by
  rcases compile_cases tree backend with
    ⟨⟨error, run⟩, _⟩ | ⟨plans, views, new, planned, pending, run⟩
  · rw [run] at haccepted
    cases haccepted
  · rw [run] at haccepted
    cases haccepted
    refine ⟨plans, views, new, planned, pending, rfl, rfl, ?_⟩
    rw [Store.run_registerViews, pending]

/-- A configuration that has all its views and connections is compiled without a change. -/
theorem compile_again {tree : Node} {plans : List Compiler.ServerPlan} {views : List View}
    (hplanned : Compiler.plans tree = .ok (plans, views)) {registry : Registry} {later : Backend α}
    (hgrown : (connectAll registry plans).2.made <+: later.registry.made)
    (hsound : later.store.Sound)
    (hregistered : ∀ view ∈ views, later.store.isRegistered view = true) :
    (compile tree).run.run later = (.ok (connectAll registry plans).1, later) := by
  rw [run_compile, hplanned]
  simp only [hsound.pending_of_registered (Compiler.plans_nodup hplanned) hregistered,
    connectAll_again hgrown]
  rfl

theorem mem_views_connectAll {tree : Node} {plans : List Compiler.ServerPlan} {views : List View}
    (hplanned : Compiler.plans tree = .ok (plans, views)) (registry : Registry) {view : View} :
    view ∈ views ↔ ∃ set ∈ (connectAll registry plans).1, ∃ s ∈ set.statistics, s.view = view := by
  have hsame := congrArg (fun lists : List (List Statistic) =>
    ∃ found ∈ lists, ∃ s ∈ found, s.view = view) (connectAll_statistics registry plans)
  simp only [List.mem_map, exists_exists_and_eq_and] at hsame
  rw [Compiler.mem_plans hplanned, hsame]

theorem mem_metricNames_connectAll {tree : Node} {plans : List Compiler.ServerPlan}
    {views : List View} (hplanned : Compiler.plans tree = .ok (plans, views)) (registry : Registry)
    {name : String} :
    name ∈ (connectAll registry plans).1.flatMap MetricSet.metricNames ↔
      name ∈ views.map (·.name) := by
  rw [List.mem_flatMap, List.mem_map]
  constructor
  · rintro ⟨set, member, named⟩
    obtain ⟨s, inStatistics, rfl⟩ := List.mem_map.mp named
    exact ⟨s.view, (mem_views_connectAll hplanned registry).mpr ⟨set, member, s, inStatistics, rfl⟩,
      rfl⟩
  · rintro ⟨view, member, rfl⟩
    obtain ⟨set, inSets, s, inStatistics, rfl⟩ := (mem_views_connectAll hplanned registry).mp member
    exact ⟨set, inSets, List.mem_map_of_mem inStatistics⟩

/-- The entry of a view of a configuration, after it has been compiled and other views dropped. -/
theorem get?_retainSets {store : Store α} (hsound : store.Sound) {tree : Node}
    {plans : List Compiler.ServerPlan} {views : List View} {new : List (StoreEntry α)}
    (hplanned : Compiler.plans tree = .ok (plans, views)) (hpending : store.pending views = .ok new)
    (registry : Registry) {view : View} (hmember : view ∈ views) :
    ∃ entry, (((Store.registerViews views).run.run store).2.retainSets
        (connectAll registry plans).1).get? view.name = some entry ∧ entry.view = view ∧
      if view ∈ store.views then store.get? view.name = some entry
      else entry.rows = [] ∧ entry.family.series = [] := by
  obtain ⟨entry, found, same, origin⟩ :=
    Store.get?_registered (Compiler.plans_nodup hplanned) hpending hmember
  have hkeeps := (mem_metricNames_connectAll hplanned registry).mpr (List.mem_map_of_mem hmember)
  refine ⟨entry, ?_, same, by simpa only [hsound.mem_views] using origin⟩
  rw [Store.retainSets, Store.get?_retain, if_pos (List.contains_iff_mem.mpr hkeeps), found]

theorem mem_views_retainSets {store : Store α} {tree : Node} {plans : List Compiler.ServerPlan}
    {views : List View} (hplanned : Compiler.plans tree = .ok (plans, views)) (registry : Registry)
    (hsound : (store.retainSets (connectAll registry plans).1).Sound)
    (hheld : ∀ view ∈ views, ∃ entry,
      (store.retainSets (connectAll registry plans).1).get? view.name = some entry ∧
        entry.view = view) {view : View} :
    view ∈ (store.retainSets (connectAll registry plans).1).views ↔ view ∈ views := by
  rw [hsound.mem_views, Store.isRegistered_eq, decide_eq_true_eq]
  constructor
  · intro registered
    obtain ⟨entry, found, same⟩ := Option.map_eq_some_iff.mp registered
    have hkeeps : view.name ∈ views.map (·.name) := by
      by_contra dropped
      rw [← mem_metricNames_connectAll hplanned registry, ← List.contains_iff_mem] at dropped
      rw [Store.retainSets, Store.get?_retain, if_neg dropped] at found
      cases found
    obtain ⟨view', member, sameName⟩ := List.mem_map.mp hkeeps
    obtain ⟨entry', found', same'⟩ := hheld view' member
    rw [sameName, found, Option.some.injEq] at found'
    rw [← same, found', same']
    exact member
  · intro member
    obtain ⟨entry, found, same⟩ := hheld view member
    rw [found, Option.map_some, same]

/-- What is there once a configuration has taken the place of another one. -/
structure Replaces [SeriesKey] [Quantity α] (tree : Node) (sets : List MetricSet)
    (before after : Backend α) : Prop where
  distinct : ((after.store.retainSets sets).views.map (·.name)).Nodup
  views : ∀ view, view ∈ (after.store.retainSets sets).views ↔
    ∃ set ∈ sets, ∃ s ∈ set.statistics, s.view = view
  entries : ∀ view ∈ (after.store.retainSets sets).views, ∃ entry,
    (after.store.retainSets sets).get? view.name = some entry ∧ entry.view = view ∧
      if view ∈ before.store.views then before.store.get? view.name = some entry
      else entry.rows = [] ∧ entry.family.series = []
  again : ∀ store ∈ [after.store, after.store.retainSets sets], ∀ commits,
    (compile tree).run.run { after with store := store.commitAll commits } =
      (.ok sets, { after with store := store.commitAll commits })

/-- Once the views of other configurations are dropped, the store has exactly the views of the
statistics. A view that the store had as it is keeps its rows and series, and any other view starts
empty. To compile the configuration again changes nothing, whatever is committed before that. -/
theorem compile_replaces [SeriesKey] [Quantity α] {tree : Node} {backend after : Backend α}
    {sets : List MetricSet} (hreachable : backend.store.Reachable)
    (haccepted : (compile tree).run.run backend = (.ok sets, after)) :
    Replaces tree sets backend after := by
  obtain ⟨plans, views, new, planned, pending, rfl, registry, store⟩ := compile_accepted haccepted
  have hsound : after.store.Sound := store ▸ hreachable.sound.registerViews views
  have hsoundKept : (after.store.retainSets (connectAll backend.registry plans).1).Sound :=
    hsound.retain _
  have hentryOf := fun view (member : view ∈ views) =>
    get?_retainSets hreachable.sound planned pending backend.registry member
  rw [← store] at hentryOf
  have hmem_kept (view : View) :
      view ∈ (after.store.retainSets (connectAll backend.registry plans).1).views ↔
        view ∈ views := by
    refine mem_views_retainSets planned backend.registry hsoundKept fun view member => ?_
    obtain ⟨entry, found, same, _⟩ := hentryOf view member
    exact ⟨entry, found, same⟩
  refine ⟨?_, ?_, fun view member => hentryOf view ((hmem_kept view).mp member), ?_⟩
  · rw [hsoundKept.map_name_views]
    exact hsoundKept.ascending.nodup_keys Sorted.textBefore_strict
  · exact fun view => (hmem_kept view).trans (mem_views_connectAll planned backend.registry)
  · intro store' one commits
    have hsoundOne : store'.Sound := by
      rcases List.mem_pair.mp one with rfl | rfl
      · exact hsound
      · exact hsoundKept
    refine compile_again planned (registry ▸ List.prefix_rfl) (hsoundOne.commitAll commits) ?_
    intro view member
    rw [Store.isRegistered_commitAll]
    have hregistered := hsoundKept.mem_views.mp ((hmem_kept view).mpr member)
    rcases List.mem_pair.mp one with rfl | rfl
    · rw [← hregistered]
      exact (Store.isRegistered_retain ((mem_metricNames_connectAll planned
        backend.registry).mpr (List.mem_map_of_mem member)) after.store).symm
    · exact hregistered

def watching : Node :=
  .mapping
    [(.text "ldap_servers", .sequence
      [.mapping
        [(.text "database", .text "first"),
          (.text "connection", .mapping [(.text "server_uri", .text "ldap://one")]),
          (.text "object", .mapping
            [(.text "computed_dn", .text "cn=Monitor"), (.text "metric_name", .text "ops"),
              (.text "attribute", .text "opsDone"), (.text "unit", .int 1),
              (.text "metric", .mapping
                [(.text "waits", .mapping
                  [(.text "computed_dn", .text "cn=Waiters"), (.text "metric_name", .text "waits"),
                    (.text "attribute", .text "count"), (.text "unit", .int 1)])])])]])]

open SeriesHash

def watchedBefore : Store Int :=
  ((Store.registerViews
      [⟨"ops", "", "1", ["database"], .lastValue⟩, ⟨"waits", "", "1", ["database"], .sum⟩,
        ⟨"hits", "", "1", ["database"], .count⟩]).run.run .empty).2.commit
    [⟨"ops", 4⟩, ⟨"waits", 2⟩, ⟨"hits", 1⟩] (Tags.ofPairs [("database", "first")])

theorem watching_replaces : watchedBefore.Reachable ∧ ∃ sets after,
    (compile watching).run.run ⟨.empty, watchedBefore, []⟩ = (.ok sets, after) ∧
      (after.store.retainSets sets).snapshot.map (fun part => (part.1.name, part.2)) =
        [("ops", [(⟨[("database", "first")]⟩, 4)]), ("waits", [])] ∧
      Replaces watching sets ⟨.empty, watchedBefore, []⟩ after := by
  have hreachable : watchedBefore.Reachable := .commit _ _ (.registerViews _ .empty)
  have hmade : ((compile watching).run.run ⟨.empty, watchedBefore, []⟩).1.toOption.map
      (fun sets => ((((compile watching).run.run ⟨.empty, watchedBefore, []⟩).2.store.retainSets
        sets).snapshot.map fun part => (part.1.name, part.2))) =
      some [("ops", [(⟨[("database", "first")]⟩, 4)]), ("waits", [])] := by
    decide +kernel
  obtain ⟨sets, after, accepted, snapshot⟩ := exists_eq_ok_of_map_toOption hmade
  rw [accepted] at snapshot
  exact ⟨hreachable, sets, after, accepted, snapshot, compile_replaces hreachable accepted⟩

end Backend

end DirectoryMetrics
