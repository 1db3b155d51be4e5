import DirectoryMetrics.Tree.ChildSlots
import DirectoryMetrics.Tree.KeySpelling
import DirectoryMetrics.Tree.MetricPath
import DirectoryMetrics.Tree.ObjectDn
import DirectoryMetrics.Tree.Placeholder
import DirectoryMetrics.Tree.SharedObject

namespace DirectoryMetrics

/-!
A configuration is prepared by passes over its tree, each of which gets what the one before it
leaves. The standard passes need no directory; metric names are expanded after them.
-/

inductive Pass where
  | keyNormalization
  | reservedKeyDisambiguation
  | replicatePerServer
  | distinguishedNames
  | metricNames
  | nameInterpolation (values : Placeholder.Values)

namespace Pass

def name : Pass → String
  | .keyNormalization => "key-normalization"
  | .reservedKeyDisambiguation => "reserved-key-disambiguation"
  | .replicatePerServer => "replicate-per-server"
  | .distinguishedNames => "distinguished-names"
  | .metricNames => "metric-names"
  | .nameInterpolation _ => "name-interpolation"

def run : Pass → Node → Except ConfigError Node
  | .keyNormalization => KeySpelling.normalize
  | .reservedKeyDisambiguation => ChildSlots.rename
  | .replicatePerServer => SharedObject.replicate
  | .distinguishedNames => ObjectDn.annotate
  | .metricNames => MetricPath.annotate
  | .nameInterpolation values => Placeholder.resolve values

end Pass

abbrev Pipeline := List Pass

namespace Pipeline

def standard : Pipeline :=
  [.keyNormalization, .reservedKeyDisambiguation, .replicatePerServer, .distinguishedNames,
    .metricNames]

def names (pipeline : Pipeline) : List String := pipeline.map Pass.name

def run (pipeline : Pipeline) (tree : Node) : Except ConfigError Node :=
  pipeline.foldlM (fun tree pass => pass.run tree) tree

def describe (pipeline : Pipeline) : String :=
  "TransformPipeline \x7b passes: " ++ Text.quoteList pipeline.names ++ " \x7d"

end Pipeline

end DirectoryMetrics
