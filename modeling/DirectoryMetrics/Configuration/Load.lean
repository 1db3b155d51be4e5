import DirectoryMetrics.Configuration.Settings
import DirectoryMetrics.Text.Octets
import DirectoryMetrics.Yaml.Document

namespace DirectoryMetrics

/-!
Loading a configuration from the content of a file. The text must be one mapping; what is left out of
it has its default.
-/

inductive FileContent where
  | missing
  | unreadable (reason : String)
  | octets (content : List UInt8)
  deriving DecidableEq, Repr

def FileContent.text (path : String) : FileContent → Except ConfigError String
  | missing => .error (.unreadable path "No such file or directory (os error 2)")
  | unreadable reason => .error (.unreadable path reason)
  | octets content =>
      match Text.Octets.decode? content with
      | some text => .ok text
      | none => .error (.unreadable path "stream did not contain valid UTF-8")

namespace Configuration

def readTree (path : String) (file : FileContent) : Except ConfigError Node := do
  let text ← file.text path
  if Text.isEmptyOrBlank text then throw .notAMapping
  let tree ← (Yaml.read text).mapError (.notYaml path)
  if tree.mapping?.isNone then throw .notAMapping
  return tree

def load (path : String) (file : FileContent) : Except ConfigError (Node × Settings) := do
  let tree ← Pipeline.standard.run (← readTree path file)
  return (tree, ← Settings.ofTree tree)

end Configuration

end DirectoryMetrics
