import DirectoryMetrics.Decimal.Binary

namespace DirectoryMetrics

/-!
The fewest decimal digits that still read back as the same double. For one digit, two digits and so
on, the two neighbours of the value on that decimal grid are tried in exact arithmetic; the first
grid with a neighbour in the interval that rounds to the double gives the digits.
-/

/-- Stands for `0.coefficient * 10 ^ point`. -/
structure Decimal where
  coefficient : Nat
  point : Int
  deriving DecidableEq, Repr

namespace Decimal

def digits (x : Decimal) : List Char := Nat.toDigits 10 x.coefficient

def tenths (exponent : Int) : Nat × Nat :=
  if exponent ≥ 0 then (Nat.pow 10 exponent.toNat, 1) else (1, Nat.pow 10 (-exponent).toNat)

def below (numerator denominator : Nat) (exponent : Int) : Bool :=
  let (up, down) := tenths exponent
  numerator * down < up * denominator

/-- The least power of ten above a quotient, looked for from an estimate that is never too high. -/
def pointFrom (numerator denominator : Nat) : Nat → Int → Int
  | 0, estimate => estimate
  | tries + 1, estimate =>
      if below numerator denominator estimate then estimate
      else pointFrom numerator denominator tries (estimate + 1)

def point? (numerator denominator : Nat) : Int :=
  let bits : Int := (numerator.log2 : Int) - (denominator.log2 : Int)
  pointFrom numerator denominator 5 (bits * 30103 / 100000 - 1)

inductive Tie where
  | up
  | even
  deriving DecidableEq, Repr

/-- The interval that rounds to a double, in quarters of its last place. -/
structure Interval where
  low : Nat
  value : Nat
  high : Nat
  closed : Bool

def Interval.of (x : Binary) : Interval :=
  let m := x.significand
  let below := if m = Nat.pow 2 52 ∧ x.exponent > -1074 then 1 else 2
  ⟨4 * m - below, 4 * m, 4 * m + 2, m % 2 == 0⟩

def Interval.contains (i : Interval) (unit denominator candidate : Nat) : Bool :=
  let c := candidate * denominator
  if i.closed then i.low * unit ≤ c && c ≤ i.high * unit
  else i.low * unit < c && c < i.high * unit

/-- The neighbour of `count` digits that reads back, the nearer one if both do. -/
def candidate? (tie : Tie) (i : Interval) (exponent point : Int) (count : Nat) : Option Nat :=
  let (up, down) := tenths (count - point)
  let (twos, halves) :=
    if exponent ≥ 0 then (Nat.pow 2 exponent.toNat, 1) else (1, Nat.pow 2 (-exponent).toNat)
  let unit := up * twos
  let denominator := down * halves
  let floor := i.value * unit / denominator
  let lower := i.contains unit denominator floor
  let upper := i.contains unit denominator (floor + 1)
  if lower && upper then
    let twice := 2 * (i.value * unit - floor * denominator)
    if twice < denominator ∨ (twice = denominator ∧ tie = .even ∧ floor % 2 = 0) then some floor
    else some (floor + 1)
  else if lower then some floor
  else if upper then some (floor + 1)
  else none

def search (tie : Tie) (i : Interval) (exponent point : Int) : (tries count : Nat) → Decimal
  | 0, count => ⟨(candidate? tie i exponent point count).getD 0, point⟩
  | tries + 1, count =>
      match candidate? tie i exponent point count with
      | some c => if c = Nat.pow 10 count then ⟨1, point + 1⟩ else ⟨c, point⟩
      | none => search tie i exponent point tries (count + 1)

/-- Seventeen digits are always enough. -/
def shortest (tie : Tie) (x : Binary) : Decimal :=
  let (numerator, denominator) := x.scaled 1
  search tie (Interval.of x) (x.exponent - 2) (point? numerator denominator) 16 1

end Decimal

end DirectoryMetrics
