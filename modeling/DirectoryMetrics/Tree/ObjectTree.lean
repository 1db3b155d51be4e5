import DirectoryMetrics.Configuration.Error
import DirectoryMetrics.Tree.Field
import DirectoryMetrics.Tree.Walk

namespace DirectoryMetrics

/-!
Object trees: the shared one at the top of a configuration, and that of each server entry. A change
to a configuration goes through them in this order.
-/

/-- Whose object tree it is: the shared one, or that of an entry whose name may be unknown. -/
abbrev Owner := Option String

def Owner.label : Owner → String
  | some database => s!"ldap_servers[{database}]/object"
  | none => "object"

def joinPath (label path : String) : String :=
  if path.isEmpty then label else label ++ "/" ++ path

namespace Node

def mapRoot (f : Mapping → Except ConfigError Mapping) (tree : Node) : Except ConfigError Node :=
  (tree.modifyMapping? f).getD (.error .notAMapping)

def mapServers (f : Mapping → Except ConfigError Mapping) (root : Mapping) :
    Except ConfigError Mapping :=
  root.modify Field.ldapServers fun
    | .sequence servers =>
        (servers.mapM fun (server : Node) => (server.modifyMapping? f).getD (.ok server)).map .sequence
    | node => .ok node

def mapObjectTrees (f : Owner → Node → Except ConfigError Node) (tree : Node) :
    Except ConfigError Node :=
  tree.mapRoot fun root => do
    let root ← root.modify Field.object (f none)
    mapServers (fun server => server.modify Field.object (f server.serverName?)) root

end Node

end DirectoryMetrics
