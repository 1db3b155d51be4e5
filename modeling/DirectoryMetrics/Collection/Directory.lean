import DirectoryMetrics.Text.Octets
import DirectoryMetrics.Tree.Placeholder

namespace DirectoryMetrics

inductive AttributeValue where
  | text (value : String)
  | binary (octets : List UInt8)
  deriving DecidableEq, Repr

namespace AttributeValue

def text? : AttributeValue → Option String
  | .text value => some value
  | .binary octets => Text.Octets.decode? octets

def display : AttributeValue → String
  | .text value => value
  | .binary octets => Text.Octets.decodeLenient octets

end AttributeValue

/-- The values of an attribute of an object; none if there is no such object or attribute. -/
abbrev Directory := (dn attributeName : String) → Option (List AttributeValue)

abbrev Directories := (database : String) → Directory

/-- What answers through each connection. -/
abbrev Connections := (handle : Nat) → Directory

namespace Directories

def first? (directories : Directories) (lookup : Lookup) : Option AttributeValue :=
  (directories lookup.database lookup.dn lookup.attributeName).bind List.head?

end Directories

end DirectoryMetrics
