import DirectoryMetrics.Collection.Directory
import DirectoryMetrics.Configuration.Settings

namespace DirectoryMetrics

/-!
The registry of servers. A server name has one connection, made for the first identity that asks for
it; the number of a connection says how many were made before it.
-/

structure ServerIdentity where
  database : String
  connection : Connection
  deriving DecidableEq, Repr

/-- The identities that connections were made for, in order. -/
structure Registry where
  made : List ServerIdentity
  deriving DecidableEq, Repr

namespace Registry

def empty : Registry := ⟨[]⟩

def handle? (database : String) (registry : Registry) : Option Nat :=
  registry.made.findIdx? (·.database == database)

def size (registry : Registry) : Nat := registry.made.length

def getOrCreate (identity : ServerIdentity) (registry : Registry) : Nat × Registry :=
  match registry.handle? identity.database with
  | some handle => (handle, registry)
  | none => (registry.size, ⟨registry.made ++ [identity]⟩)

/-- A connection goes to the server that it was made for. -/
def connections (directories : Directories) (registry : Registry) : Connections :=
  fun handle dn attributeName =>
    (registry.made[handle]?).bind fun identity => directories identity.database dn attributeName

end Registry

end DirectoryMetrics
