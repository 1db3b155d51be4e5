namespace DirectoryMetrics.Yaml

inductive Token where
  | version (major minor : Nat)
  | handle (name : String) (stem : List UInt8)
  | documentStart
  | documentEnd
  | blockSequence
  | blockMapping
  | blockEnd
  | flowSequence
  | flowSequenceEnd
  | flowMapping
  | flowMappingEnd
  | blockEntry
  | flowEntry
  | key
  | value
  | reference (name : String)
  | anchor (name : String)
  | tag (handle : String) (suffix : List UInt8)
  | scalar (isPlain : Bool) (text : String)
  deriving DecidableEq, Repr

end DirectoryMetrics.Yaml
