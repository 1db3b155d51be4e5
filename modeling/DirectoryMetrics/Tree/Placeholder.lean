import DirectoryMetrics.Text.Blank
import DirectoryMetrics.Tree.ObjectTree

namespace DirectoryMetrics

/-!
Placeholders in metric names. `${database}` stands for the name of the server, any other
placeholder for the first value of that attribute on the object of the node. The values are looked
up beforehand, and the text put in for a placeholder is not searched for further ones.
-/

inductive Segment where
  | literal (text : List Char)
  | placeholder (name : List Char)
  deriving DecidableEq, Repr

namespace Segment

def literal? (reversed : List Char) : List Segment :=
  if reversed.isEmpty then [] else [.literal reversed.reverse]

/-- What has been read of the segment that a reader is in, in reverse. -/
inductive Inside where
  | literal (reversed : List Char)
  | placeholder (reversed : List Char)

def splitFrom : Inside → List Char → Option (List Segment)
  | .literal reversed, [] => some (literal? reversed)
  | .placeholder _, [] => none
  | .literal reversed, '$' :: '{' :: rest =>
      (splitFrom (.placeholder []) rest).map (literal? reversed ++ ·)
  | .literal reversed, c :: rest => splitFrom (.literal (c :: reversed)) rest
  | .placeholder reversed, c :: rest =>
      if c = '}' then
        (splitFrom (.literal []) rest).map (.placeholder (Text.trimChars reversed.reverse) :: ·)
      else splitFrom (.placeholder (c :: reversed)) rest

/-- The segments of a name; none if a placeholder does not end. -/
def split? (name : List Char) : Option (List Segment) := splitFrom (.literal []) name

def render : List Segment → List Char
  | [] => []
  | .literal text :: rest => text ++ render rest
  | .placeholder name :: rest => ['$', '{'] ++ name ++ ['}'] ++ render rest

end Segment

structure Lookup where
  database : String
  dn : String
  attributeName : String
  deriving DecidableEq, Repr

namespace Lookup

def before (a b : Lookup) : Bool :=
  if a.database = b.database then
    if a.dn = b.dn then decide (a.attributeName < b.attributeName) else decide (a.dn < b.dn)
  else decide (a.database < b.database)

def insert (lookup : Lookup) : List Lookup → List Lookup
  | [] => [lookup]
  | l :: rest =>
      if lookup = l then l :: rest
      else if lookup.before l then lookup :: l :: rest
      else l :: insert lookup rest

end Lookup

namespace Placeholder

def database : List Char := "database".toList

def segments (metric : String) : Except ConfigError (List Segment) :=
  match Segment.split? metric.toList with
  | some segments => .ok segments
  | none => .error (.unterminatedPlaceholder metric)

def computedDn (m : Mapping) : String := (m.text? Field.computedDn).getD ""

def nodeLookups (server : String) (m : Mapping) : Except ConfigError (List Lookup) :=
  match m.text? Field.metricName with
  | none => .ok []
  | some metric => do
      return (← segments metric).filterMap fun
        | .placeholder name =>
            if name = database ∨ name = [] then none
            else some ⟨server, computedDn m, String.ofList name⟩
        | .literal _ => none

def serverLookups (server : Mapping) : Except ConfigError (List Lookup) :=
  match server.serverName?, server.get? Field.object with
  | some name, some object => do
      return (← object.mappings.mapM (nodeLookups name)).flatten
  | _, _ => .ok []

def lookups (tree : Node) : Except ConfigError (List Lookup) := do
  let all ← tree.serverEntries.mapM serverLookups
  return all.flatten.foldl (fun sorted lookup => lookup.insert sorted) []

/-- Values that have been looked up; the first entry for a lookup counts. -/
abbrev Values := List (Lookup × String)

def expandSegment (values : Values) (metric server dn : String) :
    Segment → Except ConfigError (List Char)
  | .literal text => .ok text
  | .placeholder name =>
      if name = database then .ok server.toList
      else
        match values.lookup ⟨server, dn, String.ofList name⟩ with
        | some value => .ok value.toList
        | none => .error (.unresolvedPlaceholder metric (String.ofList name))

def expand (values : Values) (metric server dn : String) : Except ConfigError String := do
  let parts ← (← segments metric).mapM (expandSegment values metric server dn)
  return String.ofList parts.flatten

def opens : List Char → Bool
  | '$' :: '{' :: _ => true
  | _ :: rest => opens rest
  | [] => false

def visit (values : Values) (server : String) : Visitor ConfigError Unit := fun _ _ m =>
  match (m.text? Field.metricName).filter (opens ·.toList) with
  | none => .ok (m, ())
  | some metric => do
      let name ← expand values metric server (computedDn m)
      return (m.set Field.metricName (.text name), ())

def resolveServer (values : Values) (server : Mapping) : Except ConfigError Mapping :=
  match server.serverName? with
  | none => .ok server
  | some name => server.modify Field.object fun object => object.walk (visit values name) ()

def resolve (values : Values) (tree : Node) : Except ConfigError Node :=
  tree.mapRoot (Node.mapServers (resolveServer values))

end Placeholder

end DirectoryMetrics
