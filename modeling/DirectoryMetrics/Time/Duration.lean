import DirectoryMetrics.Decimal.Binary

namespace DirectoryMetrics

structure Duration where
  nanoseconds : Nat
  deriving DecidableEq, Repr

namespace Duration

def perSecond : Nat := 1000000000

def ofSeconds (seconds : Nat) : Duration := ⟨seconds * perSecond⟩

def seconds (d : Duration) : Nat := d.nanoseconds / perSecond

def subsecond (d : Duration) : Nat := d.nanoseconds % perSecond

def isZero (d : Duration) : Bool := d.nanoseconds == 0

def limitSeconds : Nat := Nat.pow 2 64

/-- A number of seconds to the nearest nanosecond, halves to even; none if it is negative, too long
or not a number. -/
def ofFloatSeconds? (seconds : Float) : Option Duration :=
  match Binary.ofFloat? seconds with
  | none => none
  | some x =>
      if x.negative ∧ x.significand ≠ 0 then none
      else
        let (numerator, denominator) := x.scaled perSecond
        let nanoseconds := roundDiv numerator denominator
        if nanoseconds < limitSeconds * perSecond then some ⟨nanoseconds⟩ else none

def fractionText (value places : Nat) : List Char :=
  let digits := (Nat.toDigits 10 value).reverse
  let padded := digits ++ List.replicate (places - digits.length) '0'
  match padded.dropWhile (· = '0') with
  | [] => []
  | kept => '.' :: kept.reverse

/-- The length in the largest unit that it fills: seconds, milli-, micro- or nanoseconds. -/
def describe (d : Duration) : String :=
  let inUnit (unit places : Nat) (name : String) : String :=
    toString (d.nanoseconds / unit) ++ String.ofList (fractionText (d.nanoseconds % unit) places) ++
      name
  if d.nanoseconds ≥ perSecond then inUnit perSecond 9 "s"
  else if d.nanoseconds ≥ 1000000 then inUnit 1000000 6 "ms"
  else if d.nanoseconds ≥ 1000 then inUnit 1000 3 "µs"
  else inUnit 1 0 "ns"

end Duration

end DirectoryMetrics
