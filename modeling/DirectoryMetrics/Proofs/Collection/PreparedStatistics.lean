import DirectoryMetrics.Proofs.Collection.Compilation
import DirectoryMetrics.Proofs.Collection.StatisticDescent
import DirectoryMetrics.Proofs.Configuration.Preparation
import DirectoryMetrics.Proofs.Configuration.Reading

namespace DirectoryMetrics

namespace StatisticDescent

/-- The object tree of a server entry: its own, else the shared one. -/
def objectOf (root server : Mapping) : Node :=
  ((server.get? Field.object).or (root.get? Field.object)).getD .null

def chosen? (server : Mapping) : Option (List String) :=
  match Reader.optional (Reader.list Reader.text)
    ((server.get? "chosen_statistics").getD .null) with
  | .ok names => names
  | .error _ => none

def ofServer (d : Descent Above Statistic) (root server : Mapping) : List Statistic :=
  Compiler.restrict (chosen? server)
    (d.node false none ⟨Preparation.dnRoot root, ""⟩ (objectOf root server))

def ofTree (d : Descent Above Statistic) (tree : Node) : List (List Statistic) :=
  tree.serverEntries.map (ofServer d (tree.mapping?.getD []))

def namesKept (tree : Node) : Bool :=
  tree.serverEntries.all fun server =>
    ChildSlots.namesKept false (objectOf (tree.mapping?.getD []) server)

def compiledFirst? (tree : Node) : Option (List (List Statistic)) :=
  match Pipeline.standard.run tree with
  | .error _ => none
  | .ok prepared =>
      match (Backend.compile prepared).run.run (default : Backend Nat) with
      | (.ok sets, _) => some (sets.map MetricSet.statistics)
      | (.error _, _) => none

theorem compiledFirst?_eq_some {tree : Node} {found : List (List Statistic)}
    (hcompiling : compiledFirst? tree = some found) :
    ∃ prepared sets after, Pipeline.standard.run tree = .ok prepared ∧
      (Backend.compile prepared).run.run (default : Backend Nat) = (.ok sets, after) ∧
      sets.map (·.statistics) = found := by
  rw [compiledFirst?] at hcompiling
  split at hcompiling
  · cases hcompiling
  · rename_i prepared running
    split at hcompiling
    · rename_i sets after compiled
      cases hcompiling
      exact ⟨prepared, sets, after, running, compiled, rfl⟩
    · cases hcompiling

theorem optional_mappings {node : Node} {object : Option Node}
    (hreading : Reader.optional .ok node = .ok object) :
    (object.map Node.mappings).getD [] = node.mappings := by
  cases node with
  | null =>
      cases hreading
      rfl
  | _ =>
      cases hreading
      rfl

theorem direct_prepared {root : String} {object after : Option Node}
    (hprepares : Option.Rel (Preparation.Prepares root) object after)
    (horderly : (object.getD .null).Orderly)
    (hkept : ChildSlots.namesKept false (object.getD .null) = true) :
    direct.node false none ⟨root, ""⟩ (object.getD .null) =
      (after.getD .null).mappings.filterMap (compiled.gather ()) := by
  cases hprepares with
  | none => rfl
  | some prepared =>
      obtain ⟨owner, moved, placed, moving, placing, annotating⟩ := prepared
      exact direct_eq_filterMap horderly hkept moving placing annotating

theorem plan_statistics {root entry after : Mapping} {server : Server} {index : Nat}
    {plan : Compiler.ServerPlan}
    (hothers : ∀ field, field ≠ Field.object → after.get? field = entry.get? field)
    (hprepares : Option.Rel (Preparation.Prepares (Preparation.dnRoot root))
      ((entry.get? Field.object).or (root.get? Field.object)) (after.get? Field.object))
    (huntagged : ∀ e ∈ after, e.1.hasTag = false)
    (horderly : (objectOf root entry).Orderly)
    (hkept : ChildSlots.namesKept false (objectOf root entry) = true)
    (hreading : Settings.Reading.server (.mapping after) = .ok server)
    (hplanning : Compiler.serverPlan index server = .ok plan) :
    plan.statistics = ofServer direct root entry := by
  obtain ⟨database, all, flattening, choosing, _⟩ := Compiler.serverPlan_eq_ok hplanning
  have hobject := Settings.Reading.server_object huntagged hreading
  have hchosen := Settings.Reading.server_chosenStatistics huntagged hreading
  rw [Compiler.statistics, optional_mappings hobject] at flattening
  have hfound : all = direct.node false none ⟨Preparation.dnRoot root, ""⟩ (objectOf root entry) :=
    (Compiler.statisticsFrom_eq_ok flattening).trans (direct_prepared hprepares horderly hkept).symm
  have hnamed : chosen? entry = server.chosenStatistics := by
    rw [chosen?, ← hothers _ (by decide), hchosen]
  rw [Compiler.choose_eq_ok choosing, ofServer, hnamed, hfound]

theorem entry_statistics {root : Mapping} {entry after : Node} {server : Server} {index : Nat}
    {plan : Compiler.ServerPlan}
    (hchange : ServerChange
      (fun before after => Option.Rel (Preparation.Prepares (Preparation.dnRoot root))
        (before.or (Mapping.get? Field.object root)) after) entry after)
    (huntagged : entry.hasTag = false)
    (horderly : ∀ m, entry = .mapping m → (objectOf root m).Orderly)
    (hkept : ∀ m, entry = .mapping m → ChildSlots.namesKept false (objectOf root m) = true)
    (hreading : Settings.Reading.server after = .ok server)
    (hplanning : Compiler.serverPlan index server = .ok plan) :
    ∃ m, entry = .mapping m ∧ plan.statistics = ofServer direct root m := by
  cases hchange with
  | server before after others object untaggedAfter =>
      rw [Node.hasTag_mapping] at huntagged
      exact ⟨before, rfl, plan_statistics others object
        (untaggedAfter fun e member => (huntagged e member).1) (horderly before rfl)
        (hkept before rfl) hreading hplanning⟩
  | other _ noMapping =>
      cases entry with
      | mapping m => exact absurd rfl (noMapping m)
      | tagged tag content => simp [Node.hasTag] at huntagged
      | null =>
          cases hreading
          cases hplanning
      | _ => cases hreading

theorem objectOf_orderly {root server : Mapping} (hrootOrderly : (Node.mapping root).Orderly)
    (hserverOrderly : (Node.mapping server).Orderly) : (objectOf root server).Orderly := by
  rw [Node.orderly_mapping] at hrootOrderly hserverOrderly
  rw [objectOf]
  cases own : server.get? Field.object with
  | some object => exact hserverOrderly.2 _ (Mapping.mem_of_get? own)
  | none =>
      cases shared : root.get? Field.object with
      | some object => exact hrootOrderly.2 _ (Mapping.mem_of_get? shared)
      | none => exact Node.orderly_leaf (by simp) (by simp)

theorem servers_statistics {root : Mapping} {entries after : List Node} {servers : List Server}
    {plans : List Compiler.ServerPlan}
    (hchanges : List.Forall₂
      (ServerChange fun before after => Option.Rel (Preparation.Prepares (Preparation.dnRoot root))
        (before.or (Mapping.get? Field.object root)) after) entries after)
    (hsound : ∀ entry ∈ entries, entry.hasTag = false ∧
      ∀ m, entry = .mapping m → (objectOf root m).Orderly ∧
        ChildSlots.namesKept false (objectOf root m) = true)
    (hreadings : List.Forall₂ (fun after server => Settings.Reading.server after = .ok server)
      after servers)
    (hplannings : List.Forall₂
      (fun server plan => ∃ index, Compiler.serverPlan index server = .ok plan) servers plans) :
    plans.map (·.statistics) = (entries.filterMap Node.mapping?).map (ofServer direct root) := by
  induction hchanges generalizing servers plans with
  | nil =>
      cases hreadings
      cases hplannings
      rfl
  | cons change _ ih =>
      cases hreadings with
      | cons reading hreadings =>
          cases hplannings with
          | cons planning hplannings =>
              obtain ⟨index, planning⟩ := planning
              rw [List.forall_mem_cons] at hsound
              obtain ⟨m, rfl, statistics⟩ := entry_statistics change hsound.1.1
                (fun m eq => (hsound.1.2 m eq).1) (fun m eq => (hsound.1.2 m eq).2) reading planning
              rw [List.map_cons, ih hsound.2 hreadings hplannings, statistics]
              rfl

theorem root_statistics {root changed : Mapping} {servers : List Server}
    {plans : List Compiler.ServerPlan}
    (hchange : Option.Rel
      (ServersChange fun before after =>
        Option.Rel (Preparation.Prepares (Preparation.dnRoot root))
          (before.or (Mapping.get? Field.object root)) after)
      (Mapping.get? Field.ldapServers root) (Mapping.get? Field.ldapServers changed))
    (huntagged : (Node.mapping root).hasTag = false) (horderly : (Node.mapping root).Orderly)
    (hkept : namesKept (.mapping root) = true)
    (hreading : Reader.list Settings.Reading.server
      ((Mapping.get? Field.ldapServers changed).getD .null) = .ok servers)
    (hplannings : List.Forall₂
      (fun server plan => ∃ index, Compiler.serverPlan index server = .ok plan) servers plans) :
    plans.map (·.statistics) = ofTree direct (.mapping root) := by
  have hinside := (Node.orderly_mapping.mp horderly).2
  have huntaggedInside := Node.hasTag_mapping.mp huntagged
  have hentries : (Node.mapping root).serverEntries =
      (((Mapping.get? Field.ldapServers root).bind Node.sequence?).map
        (List.filterMap Node.mapping?)).getD [] := by
    have hfield : (Node.mapping root).field? Field.ldapServers =
        Mapping.get? Field.ldapServers root := rfl
    rw [Node.serverEntries, hfield]
    cases (Mapping.get? Field.ldapServers root).bind Node.sequence? with
    | none => rfl
    | some items => rfl
  rw [namesKept, hentries] at hkept
  rw [ofTree, hentries]
  generalize found : Mapping.get? Field.ldapServers root = before at hchange hkept ⊢
  generalize Mapping.get? Field.ldapServers changed = after at hchange hreading
  cases hchange with
  | none =>
      cases hreading
      cases hplannings
      rfl
  | @some node _ hchange =>
      have hmember := Mapping.mem_of_get? found
      cases hchange with
      | sequence items after changes =>
          refine servers_statistics changes ?_ (Except.mapM_eq_ok.mp hreading) hplannings
          intro entry listed
          refine ⟨Node.hasTag_sequence.mp (huntaggedInside _ hmember).2 entry listed, ?_⟩
          rintro m rfl
          have hisEntry : m ∈ items.filterMap Node.mapping? :=
            List.mem_filterMap.mpr ⟨.mapping m, listed, rfl⟩
          refine ⟨?_, List.all_eq_true.mp hkept m hisEntry⟩
          have hown := (hinside _ hmember).item listed
          exact objectOf_orderly horderly hown
      | other _ noSequence =>
          have hplain := (huntaggedInside _ hmember).2
          cases node with
          | sequence items => exact absurd rfl (noSequence items)
          | tagged tag content => simp [Node.hasTag] at hplain
          | null =>
              cases hreading
              cases hplannings
              rfl
          | _ => cases hreading

/-- The passes and the compiler together find what one descent through the object tree of each
server finds, before any child is renamed and anything is written down. -/
theorem statistics_eq_direct {α : Type} {tree normalized prepared : Node}
    (huntagged : tree.hasTag = false) (hdistinct : ∀ m ∈ tree.mappings, m.DistinctKeys)
    (hnormalizing : KeySpelling.normalize (ε := ConfigError) tree = .ok normalized)
    (hkept : namesKept normalized = true) (hrunning : Pipeline.standard.run tree = .ok prepared)
    {backend after : Backend α} {sets : List MetricSet}
    (haccepted : (Backend.compile prepared).run.run backend = (.ok sets, after)) :
    sets.map (·.statistics) = ofTree direct normalized := by
  have huntaggedAfter := KeySpelling.normalize_untagged hnormalizing huntagged
  have horderly := KeySpelling.normalize_orderly hnormalizing huntagged hdistinct
  obtain ⟨root, changed, rfl, rfl, change⟩ :=
    Preparation.standard_run_change hnormalizing huntaggedAfter hrunning
  obtain ⟨plans, views, planned, rfl⟩ := Backend.compile_eq_ok haccepted
  obtain ⟨settings, reading, plannings⟩ := Compiler.plans_eq_ok planned
  rw [Backend.connectAll_statistics]
  have huntaggedRoot := Node.hasTag_mapping.mp huntaggedAfter
  have hreadings := Settings.Reading.settings_servers
    (change.untagged fun entry member => (huntaggedRoot entry member).1)
    (Settings.ofTree_eq_ok reading)
  exact root_statistics change.servers huntaggedAfter horderly hkept hreadings plannings

def shared : Node :=
  .mapping
    [(.text "dnRoot", .text "o=site"),
      (.text "ldapServers", .sequence
        [.mapping
          [(.text "database", .text "first"),
            (.text "connection", .mapping [(.text "serverUri", .text "ldap://one")])],
        .mapping
          [(.text "database", .text "second"),
            (.text "connection", .mapping [(.text "serverUri", .text "ldap://two")]),
            (.text "chosenStatistics", .sequence [.text "unit/ops"])]]),
      (.text "object", .mapping
        [(.text "rdn", .text "cn=Monitor"),
          (.text "object", .mapping
            [(.text "unit", .mapping
              [(.text "rdn", .text "cn=Unit"),
                (.text "metric", .mapping
                  [(.text "ops", .mapping
                    [(.text "attribute", .text "opsDone"), (.text "unit", .int 1)]),
                  (.text "waits", .mapping
                    [(.text "attribute", .text "waited"), (.text "unit", .int 1)])])])])])]

theorem shared_statistics : ∃ normalized prepared sets after,
    KeySpelling.normalize (ε := ConfigError) shared = .ok normalized ∧
      Pipeline.standard.run shared = .ok prepared ∧
      (Backend.compile prepared).run.run (default : Backend Nat) = (.ok sets, after) ∧
      ofTree direct normalized =
        [[⟨"cn=Unit,cn=Monitor,o=site", "unit/ops", "opsDone", "1", "", .lastValue⟩,
            ⟨"cn=Unit,cn=Monitor,o=site", "unit/waits", "waited", "1", "", .lastValue⟩],
          [⟨"cn=Unit,cn=Monitor,o=site", "unit/ops", "opsDone", "1", "", .lastValue⟩]] := by
  have hcompiling : compiledFirst? shared = some
      [[⟨"cn=Unit,cn=Monitor,o=site", "unit/ops", "opsDone", "1", "", .lastValue⟩,
          ⟨"cn=Unit,cn=Monitor,o=site", "unit/waits", "waited", "1", "", .lastValue⟩],
        [⟨"cn=Unit,cn=Monitor,o=site", "unit/ops", "opsDone", "1", "", .lastValue⟩]] := by
    decide +kernel
  have kept : (KeySpelling.normalize (ε := ConfigError) shared).map namesKept = .ok true := by
    rfl
  obtain ⟨normalized, normalizing, kept⟩ := Except.map_eq_ok.mp kept
  obtain ⟨prepared, sets, after, running, accepted, found⟩ := compiledFirst?_eq_some hcompiling
  refine ⟨normalized, prepared, sets, after, normalizing, running, accepted, ?_⟩
  rw [← found]
  exact (statistics_eq_direct (by decide +kernel) (by decide +kernel) normalizing kept running
    accepted).symm

def overwritten : Node :=
  .mapping
    [(.text "ldapServers", .sequence
        [.mapping
          [(.text "database", .text "first"),
            (.text "connection", .mapping [(.text "serverUri", .text "ldap://one")])]]),
      (.text "object", .mapping
        [(.text "rdn", .text "cn=Monitor"),
          (.text "computedDn", .mapping
            [(.text "attribute", .text "opsDone"), (.text "unit", .int 1),
              (.text "name", .text "ops")])])]

/-- What a node holds where its distinguished name is written is lost, so that a descent that goes
there finds too much. -/
theorem overwritten_statistics : ∃ normalized prepared sets after,
    overwritten.hasTag = false ∧ (∀ m ∈ overwritten.mappings, m.DistinctKeys) ∧
      KeySpelling.normalize (ε := ConfigError) overwritten = .ok normalized ∧
      namesKept normalized = true ∧ Pipeline.standard.run overwritten = .ok prepared ∧
      (Backend.compile prepared).run.run (default : Backend Nat) = (.ok sets, after) ∧
      sets.map (·.statistics) = [[]] ∧
      ofTree (avoiding []) normalized =
        [[⟨"cn=Monitor", "ops", "opsDone", "1", "", .lastValue⟩]] := by
  have hcompiling : compiledFirst? overwritten = some [[]] := by decide +kernel
  have hread : (KeySpelling.normalize (ε := ConfigError) overwritten).map
      (fun tree => (namesKept tree, ofTree (avoiding []) tree)) =
        .ok (true, [[⟨"cn=Monitor", "ops", "opsDone", "1", "", .lastValue⟩]]) := by
    rfl
  obtain ⟨normalized, normalizing, eq⟩ := Except.map_eq_ok.mp hread
  rw [Prod.mk.injEq] at eq
  obtain ⟨prepared, sets, after, running, accepted, found⟩ := compiledFirst?_eq_some hcompiling
  exact ⟨normalized, prepared, sets, after, by decide +kernel, by decide +kernel, normalizing, eq.1,
    running, accepted, found, eq.2⟩

end StatisticDescent

end DirectoryMetrics
