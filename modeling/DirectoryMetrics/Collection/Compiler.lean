import DirectoryMetrics.Collection.MetricSet

namespace DirectoryMetrics

/-!
A prepared configuration is compiled into one metric set for each server. All of it is checked, and
its views are registered together, before the first connection is made for it.
-/

inductive CompileError where
  | config (error : ConfigError)
  | unnamedServer (index : Nat)
  | missingConnection (database : String)
  | duplicateMetric (database metric : String)
  | unknownChosenStatistic (database metric : String)
  | unknownAggregation (metric value : String)
  | view (error : ExportError)
  | conflictingView (metric first second : String)

def CompileError.message : CompileError → String
  | config error => error.message
  | unnamedServer index => s!"Server entry #{index} has neither a database name nor a connection"
  | missingConnection database => s!"Server '{database}' has no connection parameters"
  | duplicateMetric database metric =>
      s!"Metric '{metric}' is declared more than once for server '{database}'"
  | unknownChosenStatistic database metric =>
      s!"Server '{database}' chooses the unknown statistic '{metric}'"
  | unknownAggregation metric value =>
      s!"Metric '{metric}' has the unknown aggregation '{value}', expected one of: " ++
        ", ".intercalate (Aggregation.all.map Aggregation.name)
  | view error => error.message
  | conflictingView metric first second =>
      s!"Metric '{metric}' is defined differently for servers '{first}' and '{second}'"

def ServerIdentity.ofServer (index : Nat) (server : Server) : Except CompileError ServerIdentity :=
  match server.name?, server.connection with
  | none, _ => .error (.unnamedServer index)
  | some database, none => .error (.missingConnection database)
  | some database, some connection => .ok ⟨database, connection⟩

namespace Compiler

def scalar? (field : String) (m : Mapping) : Option String := (m.get? field).bind Node.keyName?

/-- The statistic of a node; none for one that lacks a name, an attribute or a unit. -/
def statistic? (m : Mapping) : Except CompileError (Option Statistic) :=
  match m.text? Field.computedDn, m.nonempty? Field.metricName, m.nonempty? Field.attributeName,
    scalar? Field.unit m with
  | some dn, some metric, some attributeName, some unit =>
      let description := (m.text? Field.description).getD ""
      match scalar? Field.aggregation m with
      | none => .ok (some ⟨dn, metric, attributeName, unit, description, default⟩)
      | some value =>
          match Aggregation.ofName? value with
          | none => .error (.unknownAggregation metric value)
          | some aggregation =>
              .ok (some ⟨dn, metric, attributeName, unit, description, aggregation⟩)
  | _, _, _, _ => .ok none

def statisticsFrom (database : String) (seen : List String) :
    List Mapping → Except CompileError (List Statistic)
  | [] => .ok []
  | m :: rest => do
      match ← statistic? m with
      | none => statisticsFrom database seen rest
      | some s =>
          if seen.contains s.metricName then throw (.duplicateMetric database s.metricName)
          return s :: (← statisticsFrom database (s.metricName :: seen) rest)

/-- The statistics of an object tree, parents before children; no two have one name. -/
def statistics (database : String) (object : Option Node) : Except CompileError (List Statistic) :=
  statisticsFrom database [] ((object.map Node.mappings).getD [])

def choose (database : String) (chosen : Option (List String)) (statistics : List Statistic) :
    Except CompileError (List Statistic) :=
  match chosen with
  | none => .ok statistics
  | some names =>
      match names.find? fun name => !statistics.any (·.metricName == name) with
      | some unknown => .error (.unknownChosenStatistic database unknown)
      | none => .ok (statistics.filter fun s => names.contains s.metricName)

abbrev Seen := List (View × String)

def addViews (database : String) (seen : Seen) : List Statistic → Except CompileError Seen
  | [] => .ok seen
  | s :: rest =>
      match seen.find? (·.1.name == s.metricName) with
      | none => addViews database (seen ++ [(s.view, database)]) rest
      | some (view, first) =>
          if view = s.view then addViews database seen rest
          else .error (.conflictingView s.metricName first database)

structure ServerPlan where
  identity : ServerIdentity
  statistics : List Statistic
  deriving DecidableEq, Repr

def ServerPlan.report (plan : ServerPlan) : List String :=
  s!"{plan.identity.database} at {plan.identity.connection.serverUri}" ::
    plan.statistics.map fun s => s!"  {s.metricName}: {s.attributeName} of {s.dn}"

def serverPlan (index : Nat) (server : Server) : Except CompileError ServerPlan := do
  let identity ← ServerIdentity.ofServer index server
  let all ← statistics identity.database server.object
  return ⟨identity, ← choose identity.database server.chosenStatistics all⟩

def plansFrom (index : Nat) (seen : Seen) :
    List Server → Except CompileError (List ServerPlan × Seen)
  | [] => .ok ([], seen)
  | server :: rest => do
      let plan ← serverPlan index server
      let seen ← addViews plan.identity.database seen plan.statistics
      let (plans, seen) ← plansFrom (index + 1) seen rest
      return (plan :: plans, seen)

def settings (tree : Node) : Except CompileError Settings :=
  (Settings.ofTree tree).mapError .config

/-- What a configuration asks for: a plan for each server, and all views in order. -/
def plans (tree : Node) : Except CompileError (List ServerPlan × List View) := do
  let (plans, seen) ← plansFrom 0 [] (← settings tree).servers
  return (plans, Sorted.sortBy (fun a b => Sorted.textBefore a.name b.name) (seen.map Prod.fst))

end Compiler

/-- What configurations are compiled against, and what has been asked of directories for it. -/
structure Backend (α : Type) where
  registry : Registry
  store : Store α
  asked : List Lookup
  deriving DecidableEq, Repr

namespace Backend

instance : Inhabited (Backend α) := ⟨⟨.empty, .empty, []⟩⟩

/-- A compilation goes on from the state that a failure leaves. -/
abbrev Compilation (α : Type) := ExceptT CompileError (StateM (Backend α))

def connect (identity : ServerIdentity) : Compilation α Nat := do
  let state ← get
  let (handle, registry) := state.registry.getOrCreate identity
  set { state with registry }
  return handle

def registerViews (views : List View) : Compilation α Unit := do
  let state ← get
  let (result, store) := (Store.registerViews views).run state.store
  set { state with store }
  match result with
  | .ok () => return ()
  | .error error => throw (.view error)

def compile (tree : Node) : Compilation α (List MetricSet) := do
  let (plans, views) ← Compiler.plans tree
  registerViews views
  plans.mapM fun plan => do
    return ⟨plan.identity, ← connect plan.identity, plan.statistics⟩

def ask (directories : Directories) (lookup : Lookup) : Compilation α (Option AttributeValue) := do
  modify fun state => { state with asked := state.asked ++ [lookup] }
  return directories.first? lookup

def findValue (directories : Directories) (identities : List ServerIdentity) (lookup : Lookup) :
    Compilation α (Option (Lookup × String)) := do
  match identities.find? (·.database == lookup.database) with
  | none => return none
  | some identity =>
      let _ ← connect identity
      return (← ask directories lookup).map fun value => (lookup, value.display)

def findValues (directories : Directories) (identities : List ServerIdentity) (tree : Node) :
    Compilation α Placeholder.Values := do
  let lookups ← (Placeholder.lookups tree).mapError CompileError.config
  return (← lookups.mapM (findValue directories identities)).filterMap id

def expandNames (directories : Directories) (identities : List ServerIdentity) (tree : Node) :
    Compilation α Node := do
  let values ← findValues directories identities tree
  (Placeholder.resolve values tree).mapError CompileError.config

def identitiesFrom (index : Nat) : List Server → Except CompileError (List ServerIdentity)
  | [] => .ok []
  | server :: rest => do
      let identity ← ServerIdentity.ofServer index server
      return identity :: (← identitiesFrom (index + 1) rest)

def compileConfiguration (directories : Directories) (tree : Node) :
    Compilation α (List MetricSet) := do
  let settings ← Compiler.settings tree
  let identities ← identitiesFrom 0 settings.servers
  if settings.interpolateMetricNames then
    compile (← expandNames directories identities tree)
  else compile tree

end Backend

end DirectoryMetrics
