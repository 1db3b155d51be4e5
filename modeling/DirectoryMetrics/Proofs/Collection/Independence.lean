import DirectoryMetrics.Proofs.Collection.MetricRows
import DirectoryMetrics.Proofs.Collection.PreparedStatistics
import DirectoryMetrics.Proofs.Collection.Replacement
import DirectoryMetrics.Proofs.Configuration.SingleServer

namespace DirectoryMetrics

namespace Compiler

/-- The index of a server is only in what it is rejected with. -/
theorem serverPlan_anywhere {index : Nat} {server : Server} {plan : ServerPlan}
    (hplanning : serverPlan index server = .ok plan) (index' : Nat) :
    serverPlan index' server = .ok plan := by
  obtain ⟨identity, named, hplanning⟩ := Except.bind_eq_ok.mp hplanning
  refine Except.bind_eq_ok.mpr ⟨identity, ?_, hplanning⟩
  rw [ServerIdentity.ofServer] at named ⊢
  split at named
  · cases named
  · cases named
  · exact named

theorem addViews_isOk {database : String} {found : List Statistic} {seen : Seen}
    (hdistinct : (found.map (·.metricName)).Nodup)
    (hfresh : ∀ s ∈ found, ∀ entry ∈ seen, entry.1.name ≠ s.metricName) :
    ∃ seen', addViews database seen found = .ok seen' := by
  induction found generalizing seen with
  | nil => exact ⟨seen, rfl⟩
  | cons s rest ih =>
      rw [List.map_cons, List.nodup_cons] at hdistinct
      rw [List.forall_mem_cons] at hfresh
      have hunseen : seen.find? (·.1.name == s.metricName) = none :=
        List.find?_eq_none.mpr fun entry member => by simpa using hfresh.1 entry member
      rw [addViews, hunseen]
      refine ih hdistinct.2 fun later member entry inside same => ?_
      rcases List.mem_append.mp inside with before | own
      · exact hfresh.2 later member entry before same
      · rw [List.mem_singleton] at own
        subst own
        exact hdistinct.1 (List.mem_map.mpr ⟨later, member, same.symm⟩)

theorem plans_keepServer {root : Mapping} {made : List ServerPlan} {views : List View}
    {plan : ServerPlan} {i : Nat} (huntagged : ∀ entry ∈ root, entry.1.hasTag = false)
    (hplanning : plans (.mapping root) = .ok (made, views)) (hplanned : made[i]? = some plan) :
    ∃ own, plans (.mapping (root.keepServer i)) = .ok ([plan], own) ∧
      ∀ view ∈ own, view ∈ views := by
  obtain ⟨read, reading, plannings⟩ := plans_eq_ok hplanning
  obtain ⟨server, isServer, index, planningServer⟩ :=
    exists_of_forall₂_getElem? plannings hplanned
  obtain ⟨seen, adding⟩ : ∃ seen, addViews plan.identity.database [] plan.statistics = .ok seen :=
    addViews_isOk (serverPlan_nodup planningServer) (by simp)
  have hplansAlone : plansFrom 0 [] (read.keepServer i).servers = .ok ([plan], seen) := by
    rw [Settings.keepServer, isServer]
    exact Except.bind_eq_ok.mpr ⟨plan, serverPlan_anywhere planningServer 0,
      Except.bind_eq_ok.mpr ⟨seen, adding, rfl⟩⟩
  have hplanningAlone : plans (.mapping (root.keepServer i)) = .ok ([plan],
      Sorted.sortBy (fun a b => Sorted.textBefore a.name b.name) (seen.map Prod.fst)) := by
    refine Except.bind_eq_ok.mpr ⟨read.keepServer i,
      Except.mapError_eq_ok.mpr (Settings.ofTree_keepServer i huntagged reading), ?_⟩
    exact Except.bind_eq_ok.mpr ⟨([plan], seen), hplansAlone, rfl⟩
  refine ⟨_, hplanningAlone, fun view member => ?_⟩
  obtain ⟨plan, inside, s, found, same⟩ := (mem_plans hplanningAlone).mp member
  rw [List.mem_singleton] at inside
  subst inside
  exact (mem_plans hplanning).mpr ⟨plan, List.mem_of_getElem? hplanned, s, found, same⟩

end Compiler

namespace Backend

variable {α : Type}

theorem getElem?_connectAll {registry : Registry} {plans : List Compiler.ServerPlan} {i : Nat}
    {set : MetricSet} (hmade : (connectAll registry plans).1[i]? = some set) :
    plans[i]? = some ⟨set.identity, set.statistics⟩ := by
  have hidentities := congrArg (·[i]?) (connectAll_identities registry plans)
  have hstatistics := congrArg (·[i]?) (connectAll_statistics registry plans)
  simp only [List.getElem?_map, hmade, Option.map_some] at hidentities hstatistics
  obtain ⟨plan, planned, identity⟩ := Option.map_eq_some_iff.mp hidentities.symm
  rw [planned] at hstatistics
  cases plan
  cases identity
  cases hstatistics
  exact planned

theorem compile_keepServer {root : Mapping} {sets : List MetricSet} {after : Backend α} {i : Nat}
    {set : MetricSet} (huntagged : ∀ entry ∈ root, entry.1.hasTag = false)
    (haccepted : (compile (.mapping root)).run.run (⟨.empty, .empty, []⟩ : Backend α) =
      (.ok sets, after)) (hmade : sets[i]? = some set) :
    ∃ alone after', (compile (.mapping (root.keepServer i))).run.run
        (⟨.empty, .empty, []⟩ : Backend α) = (.ok [alone], after') ∧
      alone.identity = set.identity ∧ alone.tags = set.tags ∧
        alone.statistics = set.statistics := by
  rcases compile_cases (.mapping root) (⟨.empty, .empty, []⟩ : Backend α) with
    ⟨⟨error, run⟩, _⟩ | ⟨plans, views, new, planned, pending, run⟩
  · rw [run] at haccepted
    cases haccepted
  · rw [run] at haccepted
    cases haccepted
    obtain ⟨own, plannedAlone, subset⟩ :=
      Compiler.plans_keepServer huntagged planned (getElem?_connectAll hmade)
    obtain ⟨new', pendingAlone⟩ := Store.empty_sound.pending_isOk_of_subset pending
      (Compiler.plans_nodup planned) (Compiler.plans_nodup plannedAlone) subset
    rw [run_compile, plannedAlone]
    simp only [pendingAlone]
    exact ⟨_, _, rfl, rfl, rfl, rfl⟩

theorem compile_length {root : Mapping} {servers : List Node}
    (hlisted : root.get? Field.ldapServers = some (.sequence servers))
    (huntagged : ∀ entry ∈ root, entry.1.hasTag = false) {backend after : Backend α}
    {sets : List MetricSet}
    (haccepted : (compile (.mapping root)).run.run backend = (.ok sets, after)) :
    sets.length = servers.length := by
  obtain ⟨plans, views, planned, rfl⟩ := compile_eq_ok haccepted
  obtain ⟨read, reading, plannings⟩ := Compiler.plans_eq_ok planned
  have hreadings := Settings.Reading.settings_servers huntagged (Settings.ofTree_eq_ok reading)
  rw [hlisted] at hreadings
  have hsameLength := congrArg List.length (connectAll_identities backend.registry plans)
  rw [List.length_map, List.length_map] at hsameLength
  calc (connectAll backend.registry plans).1.length
    _ = plans.length := hsameLength
    _ = read.servers.length := plannings.length_eq.symm
    _ = servers.length := (Except.mapM_eq_ok.mp hreadings).length_eq.symm

/-- Every server of a configuration that is accepted is accepted alone, and compiled to the set that
it has among the others. What becomes of the shared object tree is in every server that had none. -/
theorem servers_independent {tree normalized prepared : Node} (huntagged : tree.hasTag = false)
    (hnormalizing : KeySpelling.normalize (ε := ConfigError) tree = .ok normalized)
    (hrunning : Pipeline.standard.run tree = .ok prepared) {sets : List MetricSet}
    {after : Backend α}
    (haccepted : (compile prepared).run.run (⟨.empty, .empty, []⟩ : Backend α) =
      (.ok sets, after)) {servers : List Node}
    (hlisted : normalized.field? Field.ldapServers = some (.sequence servers)) :
    (∀ i server, servers[i]? = some server →
      ∃ set single alone after', sets[i]? = some set ∧
        Pipeline.standard.run (tree.keepServer i) = .ok single ∧
        (compile single).run.run (⟨.empty, .empty, []⟩ : Backend α) = (.ok [alone], after') ∧
        alone.identity = set.identity ∧ alone.tags = set.tags ∧
        alone.statistics = set.statistics) ∧
      ∀ object, normalized.field? Field.object = some object →
        ∃ shared, prepared.field? Field.object = some shared ∧
          List.Forall₂ (fun before after => Mapping.get? Field.object before = none →
            Mapping.get? Field.object after = some shared)
            normalized.serverEntries prepared.serverEntries := by
  have huntaggedAfter := KeySpelling.normalize_untagged hnormalizing huntagged
  obtain ⟨root, changed, rfl, rfl, change⟩ :=
    Preparation.standard_run_change hnormalizing huntaggedAfter hrunning
  have huntaggedRoot := change.untagged fun entry member =>
    (Node.hasTag_mapping.mp huntaggedAfter entry member).1
  obtain ⟨later, listedAfter, sameLength⟩ := change.listed hlisted
  have hlistedPrepared : (Node.mapping changed).field? Field.ldapServers = some (.sequence later) :=
    listedAfter
  refine ⟨fun i server isServer => ?_, fun object found => ?_⟩
  · have hinside : i < sets.length := by
      rw [compile_length listedAfter huntaggedRoot haccepted, sameLength]
      exact (List.getElem?_eq_some_iff.mp isServer).1
    obtain ⟨_, same, runningAlone⟩ :=
      Preparation.standard_run_keepServer i hnormalizing huntaggedAfter hrunning
    cases same
    have hisSet := List.getElem?_eq_getElem hinside
    obtain ⟨alone, after', acceptedAlone, results⟩ :=
      compile_keepServer huntaggedRoot haccepted hisSet
    exact ⟨sets[i], _, alone, after', hisSet, runningAlone, acceptedAlone, results⟩
  · obtain ⟨shared, copied⟩ := Preparation.standard_run_copied hnormalizing hrunning found
    refine ⟨shared, copied.found, ?_⟩
    rw [Node.serverEntries_eq_listedServers hlisted,
      Node.serverEntries_eq_listedServers hlistedPrepared]
    exact copied.copies

def entryOf (database : String) (own : Mapping) : Node :=
  .mapping
    ([(.text "database", .text database),
      (.text "connection", .mapping [(.text "server_uri", .text "ldap://one")])] ++ own)

def countedBy (metric attributeName : String) : Node :=
  .mapping
    [(.text "rdn", .text "cn=Monitor"),
      (.text "metric", .mapping
        [(.text metric, .mapping
          [(.text "attribute", .text attributeName), (.text "unit", .int 1)])])]

def mixed (spelling : String) : Node :=
  .mapping
    [(.text spelling, .sequence
      [entryOf "first" [], entryOf "second" [(.text "object", countedBy "waits" "waited")],
        entryOf "third" []]),
      (.text "object", countedBy "ops" "opsDone")]

theorem mixed_independent : ∃ prepared sets after,
    Pipeline.standard.run (mixed "ldapServers") = .ok prepared ∧
      (compile prepared).run.run (⟨.empty, .empty, []⟩ : Backend Nat) = (.ok sets, after) ∧
      sets.map (·.metricNames) = [["ops"], ["waits"], ["ops"]] ∧
      (∃ single alone after',
        Pipeline.standard.run ((mixed "ldapServers").keepServer 1) = .ok single ∧
          (compile single).run.run (⟨.empty, .empty, []⟩ : Backend Nat) = (.ok [alone], after') ∧
          alone.metricNames = ["waits"]) ∧
      ∃ shared, prepared.field? Field.object = some shared ∧
        List.Forall₂ (fun before after => Mapping.get? Field.object before = none →
          Mapping.get? Field.object after = some shared)
          (mixed "ldap_servers").serverEntries prepared.serverEntries := by
  have hcompiling : (StatisticDescent.compiledFirst? (mixed "ldapServers")).map
      (List.map (List.map Statistic.metricName)) = some [["ops"], ["waits"], ["ops"]] := by
    decide +kernel
  obtain ⟨found, compiled, names⟩ := Option.map_eq_some_iff.mp hcompiling
  obtain ⟨prepared, sets, after, running, accepted, rfl⟩ :=
    StatisticDescent.compiledFirst?_eq_some compiled
  have hnormalizing : KeySpelling.normalize (ε := ConfigError) (mixed "ldapServers") =
      .ok (mixed "ldap_servers") := by
    rfl
  obtain ⟨each, copies⟩ := servers_independent (by decide +kernel) hnormalizing running accepted rfl
  obtain ⟨set, single, alone, after', isSet, runningAlone, acceptedAlone, _, _, statistics⟩ :=
    each 1 _ rfl
  rw [List.map_map] at names
  have hsecond := congrArg (·[1]?) names
  simp only [List.getElem?_map, isSet, Option.map_some] at hsecond
  refine ⟨prepared, sets, after, running, accepted, names,
    ⟨single, alone, after', runningAlone, acceptedAlone, ?_⟩, copies _ rfl⟩
  rw [MetricSet.metricNames, statistics]
  exact Option.some.inj hsecond

end Backend

end DirectoryMetrics
