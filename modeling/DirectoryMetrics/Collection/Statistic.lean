import DirectoryMetrics.Collection.Directory
import DirectoryMetrics.Decimal.Reading
import DirectoryMetrics.Metrics.View

namespace DirectoryMetrics

structure Statistic where
  dn : String
  metricName : String
  attributeName : String
  unit : String
  description : String
  aggregation : Aggregation
  deriving DecidableEq, Repr

structure NotNumeric where
  metric : String
  attributeName : String
  value : String
  deriving DecidableEq, Repr

def NotNumeric.message (e : NotNumeric) : String :=
  "Value '" ++ e.value ++ "' of attribute '" ++ e.attributeName ++ "' for metric '" ++ e.metric ++
    "' is not a number"

def databaseTag : String := "database"

namespace Statistic

def view (s : Statistic) : View :=
  ⟨s.metricName, s.description, s.unit, [databaseTag], s.aggregation⟩

def numberOf? (value : AttributeValue) : Option Float :=
  value.text?.bind fun text => Decimal.read? (Text.trimChars text.toList)

def collect (directory : Directory) (s : Statistic) :
    Except NotNumeric (Option (Measurement Float)) :=
  match (directory s.dn s.attributeName).bind List.head? with
  | none => .ok none
  | some value =>
      match numberOf? value with
      | some x => .ok (some ⟨s.metricName, x⟩)
      | none => .error ⟨s.metricName, s.attributeName, value.display⟩

/-- What collecting a statistic adds to a batch: nothing, if it has no value or a wrong one. -/
def measurement? (directory : Directory) (s : Statistic) : Option (Measurement Float) :=
  match s.collect directory with
  | .ok found => found
  | .error _ => none

def describe (s : Statistic) : String :=
  "Statistic \x7b compiled: CompiledStatistic \x7b distinguished_name: " ++ Text.quote s.dn ++
    ", metric_name: " ++ Text.quote s.metricName ++ ", attribute: " ++ Text.quote s.attributeName ++
    ", unit: " ++ Text.quote s.unit ++ ", description: " ++ Text.quote s.description ++
    ", aggregation: " ++ s.aggregation.describe ++ " \x7d \x7d"

end Statistic

end DirectoryMetrics
