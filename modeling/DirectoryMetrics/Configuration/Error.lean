import DirectoryMetrics.Network.Host
import DirectoryMetrics.Tree.Reader
import DirectoryMetrics.Yaml.Fault

namespace DirectoryMetrics

inductive ConfigError where
  | unreadable (path reason : String)
  | notYaml (path : String) (fault : Yaml.Fault)
  | notAMapping
  | invalid (mismatch : Mismatch)
  | invalidUri (database uri : String) (reason : UriError)
  | period (value reason : String)
  | attributeWithoutObject (path attributeName : String)
  | unresolvedPlaceholder (metric placeholder : String)
  | unterminatedPlaceholder (metric : String)

def ConfigError.message : ConfigError → String
  | unreadable path reason => s!"Failed to read configuration file {path}: {reason}"
  | notYaml path fault => s!"Configuration file {path} is not valid YAML: " ++ fault.message
  | notAMapping => "The configuration must be a mapping at the top level"
  | invalid mismatch => "Invalid configuration: " ++ mismatch.message
  | invalidUri database uri reason =>
      s!"Server '{database}' has an invalid server URI '{uri}': " ++ reason.message
  | period value reason => s!"Invalid period '{value}': {reason}"
  | attributeWithoutObject path attributeName =>
      s!"Node at '{path}' declares attribute '{attributeName}' but no object with an rdn encloses it"
  | unresolvedPlaceholder metric placeholder =>
      s!"Metric '{metric}' uses placeholder '{placeholder}' which could not be resolved"
  | unterminatedPlaceholder metric => s!"Metric '{metric}' contains an unterminated placeholder"

end DirectoryMetrics
