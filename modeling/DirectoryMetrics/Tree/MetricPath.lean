import DirectoryMetrics.Tree.ObjectTree

namespace DirectoryMetrics

namespace MetricPath

def join (before own : String) : String :=
  if before.isEmpty then own else if own.isEmpty then before else before ++ "/" ++ own

def ownName (place : Place) (m : Mapping) : String :=
  ((m.text? Field.name).orElse fun _ => place.key).getD ""

def visit : Visitor ε String := fun place before m =>
  if m.isQueryable then
    let name := join before (ownName place m)
    .ok (m.set Field.metricName (.text name), name)
  else .ok (m, before)

def annotate (tree : Node) : Except ConfigError Node :=
  tree.mapObjectTrees fun _ object => object.walk visit ""

end MetricPath

end DirectoryMetrics
