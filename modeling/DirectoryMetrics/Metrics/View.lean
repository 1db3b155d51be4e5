import DirectoryMetrics.Metrics.Quantity
import DirectoryMetrics.Metrics.Sorted

namespace DirectoryMetrics

/-- Tags in the order of their keys, each key once. -/
structure Tags where
  pairs : List (String × String)
  deriving DecidableEq, Repr

namespace Tags

def empty : Tags := ⟨[]⟩

def insert (key value : String) (tags : Tags) : Tags :=
  ⟨Sorted.put Sorted.textBefore key value tags.pairs⟩

def ofPairs (pairs : List (String × String)) : Tags :=
  pairs.foldl (fun tags pair => tags.insert pair.1 pair.2) empty

def get? (key : String) (tags : Tags) : Option String := tags.pairs.lookup key

def isEmpty (tags : Tags) : Bool := tags.pairs.isEmpty

def restrict (keys : List String) (tags : Tags) : Tags :=
  ⟨tags.pairs.filter fun pair => keys.contains pair.1⟩

def before (a b : Tags) : Bool := Sorted.pairsBefore a.pairs b.pairs

end Tags

structure Measurement (α : Type) where
  measure : String
  value : α
  deriving DecidableEq, Repr

abbrev Batch (α : Type) := List (Measurement α)

/-- Which measurements a metric combines, and which tags tell its rows apart. -/
structure View where
  name : String
  description : String
  unit : String
  tagKeys : List String
  aggregation : Aggregation
  deriving DecidableEq, Repr

end DirectoryMetrics
