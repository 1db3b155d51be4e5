import DirectoryMetrics.Collection.Registry
import DirectoryMetrics.Collection.Statistic
import DirectoryMetrics.Metrics.Store

namespace DirectoryMetrics

structure MetricSet where
  identity : ServerIdentity
  /-- The number of the connection that the set is collected through. -/
  handle : Nat
  statistics : List Statistic
  deriving DecidableEq, Repr

namespace MetricSet

def tags (set : MetricSet) : Tags := Tags.empty.insert databaseTag set.identity.database

def metricNames (set : MetricSet) : List String := set.statistics.map (·.metricName)

def queries (set : MetricSet) : List Lookup :=
  set.statistics.map fun s => ⟨set.identity.database, s.dn, s.attributeName⟩

def batch (connections : Connections) (set : MetricSet) : Batch Float :=
  set.statistics.filterMap (Statistic.measurement? (connections set.handle))

def collect [SeriesKey] (connections : Connections) (store : Store Float) (set : MetricSet) :
    Store Float :=
  store.commit (set.batch connections) set.tags

def collectAll [SeriesKey] (connections : Connections) (store : Store Float)
    (sets : List MetricSet) : Store Float :=
  sets.foldl (collect connections) store

def describe (set : MetricSet) : String :=
  "MetricSet \x7b database: " ++ Text.quote set.identity.database ++ ", statistics: [" ++
    ", ".intercalate (set.statistics.map Statistic.describe) ++ "] \x7d"

def describeAll (sets : List MetricSet) : String :=
  "[" ++ ", ".intercalate (sets.map describe) ++ "]"

end MetricSet

end DirectoryMetrics
