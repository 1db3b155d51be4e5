import DirectoryMetrics.Metrics.View

namespace DirectoryMetrics

/-!
Exported families: a view under a name, labels and series that the exposition format allows. A
gauge takes the value of a row; a counter only ever grows, and is reset when the row is lower.
-/

namespace Export

def sanitize (allowed : Char → Bool) (raw : String) : String :=
  let cs := raw.toList.map fun c => if allowed c then c else '_'
  match cs with
  | c :: _ => String.ofList (if c.isDigit then '_' :: cs else cs)
  | [] => ""

def metricName (name : String) : String :=
  sanitize (fun c => c.isAlphanum || c = '_' || c = ':') name

def labelName (key : String) : String :=
  sanitize (fun c => c.isAlphanum || c = '_') key

end Export

inductive ExportFault where
  | emptyHelp
  | badName (name : String)
  | badLabel (name : String)
  | duplicateLabel (name : String)
  | duplicateName
  | cardinality (expected got : Nat)
  deriving DecidableEq, Repr

def ExportFault.message : ExportFault → String
  | emptyHelp => "Error: empty help string"
  | badName name => s!"Error: '{name}' is not a valid metric name"
  | badLabel name => s!"Error: '{name}' is not a valid label name"
  | duplicateLabel name => s!"Error: duplicate variable label name {name}"
  | duplicateName => "Duplicate metrics collector registration attempted"
  | cardinality expected got =>
      s!"Inconsistent label cardinality, expect {expected} label values, but got {got}"

structure ExportError where
  view : String
  fault : ExportFault
  deriving DecidableEq, Repr

def ExportError.message (e : ExportError) : String :=
  s!"View '{e.view}' cannot be exported: " ++ e.fault.message

inductive FamilyKind where
  | gauge
  | counter
  deriving DecidableEq, Repr

def FamilyKind.name : FamilyKind → String
  | .gauge => "gauge"
  | .counter => "counter"

def FamilyKind.of : Aggregation → FamilyKind
  | .lastValue => .gauge
  | .sum | .count => .counter

structure Series (α : Type) where
  labels : List String
  value : α
  deriving DecidableEq, Repr

/-- The number that a series is looked up by, made from its label values. -/
class SeriesKey where
  key : List String → UInt64

structure Family (α : Type) where
  name : String
  help : String
  labelNames : List String
  kind : FamilyKind
  series : List (Series α)
  deriving DecidableEq, Repr

namespace Family

def checkLabels (seen : List String) : List String → Except ExportFault Unit
  | [] => .ok ()
  | label :: rest =>
      if label.isEmpty then .error (.badLabel label)
      else if seen.contains label then .error (.duplicateLabel label)
      else checkLabels (label :: seen) rest

/-- A family without series. A view without a description is described by its name. -/
def ofView (view : View) : Except ExportFault (Family α) := do
  let help := if view.description.isEmpty then view.name else view.description
  let name := Export.metricName view.name
  let labels := view.tagKeys.map Export.labelName
  if help.isEmpty then throw .emptyHelp
  if name.isEmpty then throw (.badName name)
  checkLabels [] labels
  return ⟨name, help, labels, .of view.aggregation, []⟩

def nextValue [Quantity α] (kind : FamilyKind) (current value : α) : α :=
  match kind with
  | .gauge => value
  | .counter =>
      let start := if Quantity.less value current then Quantity.zero else current
      Quantity.add start (Quantity.positivePart (Quantity.sub value start))

/-- The first series with the key of some label values is theirs. -/
def setSeries [SeriesKey] [Quantity α] (kind : FamilyKind) (labels : List String) (value : α) :
    List (Series α) → List (Series α)
  | [] => [⟨labels, nextValue kind Quantity.zero value⟩]
  | s :: rest =>
      if SeriesKey.key s.labels = SeriesKey.key labels then
        { s with value := nextValue kind s.value value } :: rest
      else s :: setSeries kind labels value rest

def set [SeriesKey] [Quantity α] (labels : List String) (value : α) (family : Family α) :
    Except ExportFault (Family α) :=
  if labels.length = family.labelNames.length then
    .ok { family with series := setSeries family.kind labels value family.series }
  else .error (.cardinality family.labelNames.length labels.length)

end Family

end DirectoryMetrics
