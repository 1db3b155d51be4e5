import DirectoryMetrics.Decimal.Style
import DirectoryMetrics.Metrics.Store

namespace DirectoryMetrics

/-!
The text that metrics are pulled as: for each family with series its help, its kind and a line for
each series. Families are in the order of their names and series in that of their label values.
-/

namespace Exposition

def labelPairs (family : Family α) (series : Series α) : List (String × String) :=
  Sorted.sortBy (fun a b => Sorted.textBefore a.1 b.1) (family.labelNames.zip series.labels)

def valuesBefore : List (String × String) → List (String × String) → Bool
  | (_, v) :: rest, (_, w) :: rest' =>
      if v = w then valuesBefore rest rest' else Sorted.textBefore v w
  | _, _ => false

def samples (family : Family α) : List (List (String × String) × α) :=
  Sorted.sortBy (fun a b => valuesBefore a.1 b.1)
    (family.series.map fun series => (labelPairs family series, series.value))

def checkNames (seen : List String) : List (Family α) → Except ExportFault Unit
  | [] => .ok ()
  | family :: rest =>
      if seen.contains family.name then .error .duplicateName
      else checkNames (family.name :: seen) rest

/-- The families that have series, in the order of their names. -/
def gather (store : Store α) : Except ExportFault (List (Family α)) := do
  checkNames [] store.families
  return Sorted.sortBy (fun a b => Sorted.textBefore a.name b.name)
    (store.families.filter fun family => !family.series.isEmpty)

def qualify (namespaceName : String) (name : String) : String :=
  if namespaceName.isEmpty then name else namespaceName ++ "_" ++ name

def escapeChar (quotes : Bool) (c : Char) : List Char :=
  if c = '\\' then ['\\', '\\']
  else if c = '\n' then ['\\', 'n']
  else if quotes && c = '"' then ['\\', '"']
  else [c]

def escape (quotes : Bool) (text : String) : String :=
  String.ofList (text.toList.flatMap (escapeChar quotes))

def labelText (pair : String × String) : String :=
  pair.1 ++ "=\"" ++ escape true pair.2 ++ "\""

def sampleLine (name : String) (labels : List (String × String)) (value : Float) : String :=
  let labelsText :=
    if labels.isEmpty then "" else "\x7b" ++ ",".intercalate (labels.map labelText) ++ "\x7d"
  name ++ labelsText ++ " " ++ DecimalStyle.plain.write value ++ "\n"

def familyText (namespaceName : String) (family : Family Float) : String :=
  let name := qualify namespaceName family.name
  "# HELP " ++ name ++ " " ++ escape false family.help ++ "\n" ++
    "# TYPE " ++ name ++ " " ++ family.kind.name ++ "\n" ++
    String.join ((samples family).map fun (labels, value) => sampleLine name labels value)

def text (namespaceName : String) (store : Store Float) : Except ExportFault String :=
  (gather store).map fun families =>
    String.join (families.map (familyText (Export.metricName namespaceName)))

end Exposition

structure Request where
  method : String
  target : String
  deriving DecidableEq, Repr

structure Response where
  status : Nat
  contentType : Option String
  body : String
  deriving DecidableEq, Repr

namespace Endpoint

def path (target : String) : String :=
  String.ofList (target.toList.takeWhile fun c => c ≠ '?' ∧ c ≠ '#')

def get (namespaceName : String) (store : Store Float) (path : String) : Option Response :=
  if path = "/metrics" then
    match Exposition.text namespaceName store with
    | .ok body => some ⟨200, some "text/plain; version=0.0.4", body⟩
    | .error fault => some ⟨500, some "text/plain; charset=utf-8", fault.message⟩
  else if path = "/healthz" then some ⟨200, some "text/plain; charset=utf-8", "OK"⟩
  else none

def respond (namespaceName : String) (store : Store Float) (request : Request) : Response :=
  match get namespaceName store (path request.target) with
  | none => ⟨404, none, ""⟩
  | some response =>
      match request.method with
      | "GET" => response
      | "HEAD" => { response with body := "" }
      | _ => ⟨405, none, ""⟩

end Endpoint

end DirectoryMetrics
