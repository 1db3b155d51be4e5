import DirectoryMetrics.Tree.ObjectTree

namespace DirectoryMetrics

namespace SharedObject

def giveTo (shared : Node) (server : Mapping) : Mapping :=
  if server.has Field.object then server else server ++ [(.text Field.object, shared)]

def replicate (tree : Node) : Except ConfigError Node :=
  tree.mapRoot fun root =>
    match root.get? Field.object with
    | none => .ok root
    | some shared => Node.mapServers (fun server => .ok (giveTo shared server)) root

end SharedObject

end DirectoryMetrics
