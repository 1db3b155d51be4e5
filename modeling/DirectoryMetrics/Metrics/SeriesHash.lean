import DirectoryMetrics.Metrics.Family

namespace DirectoryMetrics

namespace SeriesHash

def prime : UInt64 := 0x100000001b3

def step (hash : UInt64) (octet : UInt8) : UInt64 := (hash ^^^ octet.toUInt64) * prime

def ofOctets (octets : List UInt8) : UInt64 := octets.foldl step 0xcbf29ce484222325

def ofLabels (labels : List String) : UInt64 :=
  ofOctets (labels.flatMap fun label => label.toUTF8.toList)

scoped instance : SeriesKey := ⟨ofLabels⟩

end SeriesHash

end DirectoryMetrics
