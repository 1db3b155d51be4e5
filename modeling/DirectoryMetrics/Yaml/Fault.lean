namespace DirectoryMetrics.Yaml

inductive Fault where
  | character
  | token
  | structured
  | unknownAnchor
  | wrongScalar (text : String)
  | duplicateKey
  | tooDeep
  | tooManyReferences
  deriving DecidableEq, Repr

def Fault.message : Fault → String
  | character => "a character is not allowed"
  | token => "there is text that begins no token"
  | structured => "it is not exactly one document"
  | unknownAnchor => "a reference comes before its anchor"
  | wrongScalar text => s!"the value '{text}' is out of range or does not have the type of its tag"
  | duplicateKey => "a key is given twice"
  | tooDeep => "it is nested too deep"
  | tooManyReferences => "it is repeated too often"

end DirectoryMetrics.Yaml
