import DirectoryMetrics.Tree.Node

namespace DirectoryMetrics

namespace Field

def rdn := "rdn"
def name := "name"
def attributeName := "attribute"
def unit := "unit"
def description := "description"
def aggregation := "aggregation"
def object := "object"
def metric := "metric"
def children := "children"
def computedDn := "computed_dn"
def metricName := "metric_name"
def ldapServers := "ldap_servers"
def database := "database"
def connection := "connection"
def serverUri := "server_uri"
def dnRoot := "dn_root"

def reserved : List String :=
  [rdn, name, attributeName, unit, description, aggregation, object, metric, children, computedDn,
    metricName]

end Field

namespace Mapping

def text? (field : String) (m : Mapping) : Option String := (m.get? field).bind Node.text?

def nonempty? (field : String) (m : Mapping) : Option String :=
  (m.text? field).filter (!·.isEmpty)

def declares (field : String) (m : Mapping) : Bool := (m.nonempty? field).isSome

def isQueryable (m : Mapping) : Bool := m.declares Field.rdn || m.declares Field.attributeName

/-- The name of a server: its database, else the address of its connection. -/
def serverName? (server : Mapping) : Option String :=
  (server.nonempty? Field.database).orElse fun _ =>
    (server.get? Field.connection).bind fun connection =>
      connection.mapping?.bind (·.text? Field.serverUri)

end Mapping

namespace Node

def serverEntries (tree : Node) : List Mapping :=
  match (tree.field? Field.ldapServers).bind Node.sequence? with
  | some items => items.filterMap Node.mapping?
  | none => []

end Node

end DirectoryMetrics
