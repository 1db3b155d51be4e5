import DirectoryMetrics.Configuration.Settings
import DirectoryMetrics.Metrics.Store
import DirectoryMetrics.Time.Instant

namespace DirectoryMetrics

/-!
What is pushed to a monitoring service: a time series for every row of the store, in requests of at
most two hundred.
-/

structure TimeSeries (α : Type) where
  metricType : String
  labels : Tags
  projectId : String
  /-- Sums and counts go on from a start; a last value has none. -/
  start : Option Instant
  time : Instant
  unit : String
  value : α
  deriving DecidableEq, Repr

inductive Document (α : Type) where
  | text (value : String)
  | number (value : α)
  | list (items : List (Document α))
  | record (fields : List (String × Document α))

namespace TimeSeries

def kind (series : TimeSeries α) : String :=
  if series.start.isSome then "CUMULATIVE" else "GAUGE"

def labelsDocument (labels : Tags) : Document α :=
  .record (labels.pairs.map fun (key, value) => (key, .text value))

def document (series : TimeSeries α) : Document α :=
  let interval :=
    match series.start with
    | some start => [("startTime", Document.text start.text), ("endTime", .text series.time.text)]
    | none => [("endTime", .text series.time.text)]
  .record
    [("metric",
        .record [("type", .text series.metricType), ("labels", labelsDocument series.labels)]),
      ("resource",
        .record
          [("type", .text "global"), ("labels", .record [("project_id", .text series.projectId)])]),
      ("metricKind", .text series.kind), ("valueType", .text "DOUBLE"), ("unit", .text series.unit),
      ("points",
        .list
          [.record
            [("interval", .record interval),
              ("value", .record [("doubleValue", .number series.value)])]])]

end TimeSeries

namespace Push

def seriesPerRequest : Nat := 200

def defaultEndpoint : String := "https://monitoring.googleapis.com"

def trimSlashes (text : String) : String :=
  String.ofList (text.toList.reverse.dropWhile (· = '/')).reverse

def url (options : PushOptions) : String :=
  trimSlashes (options.endpoint.getD defaultEndpoint) ++ "/v3/projects/" ++ options.projectId ++
    "/timeSeries"

def rowSeries (options : PushOptions) (started now : Instant) (view : View) (row : Tags × α) :
    TimeSeries α where
  metricType := trimSlashes options.metricPrefix ++ "/" ++ view.name
  labels := row.1
  projectId := options.projectId
  start := if view.aggregation = .lastValue then none else some started
  time := now
  unit := view.unit
  value := row.2

def series (options : PushOptions) (started now : Instant) (store : Store α) :
    List (TimeSeries α) :=
  store.snapshot.flatMap fun (view, rows) => rows.map (rowSeries options started now view)

/-- Consecutive parts of a list: each is full but the last, which is not empty. -/
def chunksFrom (size : Nat) : (parts : Nat) → List β → List (List β)
  | 0, _ => []
  | _, [] => []
  | parts + 1, xs => xs.take size :: chunksFrom size parts (xs.drop size)

def chunks (size : Nat) (xs : List β) : List (List β) := chunksFrom size xs.length xs

def requests (options : PushOptions) (started now : Instant) (store : Store α) :
    List (List (TimeSeries α)) :=
  chunks seriesPerRequest (series options started now store)

def requestDocument (request : List (TimeSeries α)) : Document α :=
  .record [("timeSeries", .list (request.map TimeSeries.document))]

end Push

end DirectoryMetrics
