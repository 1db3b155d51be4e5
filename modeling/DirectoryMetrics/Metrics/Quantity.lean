namespace DirectoryMetrics

/-!
What aggregation needs of measured values. Measured values are doubles; whole numbers stand for the
part of them whose arithmetic is exact.
-/

class Quantity (α : Type) where
  zero : α
  one : α
  add : α → α → α
  sub : α → α → α
  less : α → α → Bool

namespace Quantity

instance : Quantity Float where
  zero := 0
  one := 1
  add := (· + ·)
  sub := (· - ·)
  less a b := decide (a < b)

instance : Quantity Int where
  zero := 0
  one := 1
  add := (· + ·)
  sub := (· - ·)
  less a b := decide (a < b)

def positivePart [Quantity α] (x : α) : α := if less zero x then x else zero

end Quantity

inductive Aggregation where
  | lastValue
  | sum
  | count
  deriving DecidableEq, Repr, Inhabited

namespace Aggregation

def name : Aggregation → String
  | .lastValue => "last_value"
  | .sum => "sum"
  | .count => "count"

def all : List Aggregation := [.lastValue, .sum, .count]

def ofName? (name : String) : Option Aggregation := all.find? (·.name == name)

def combine [Quantity α] (kind : Aggregation) (row value : α) : α :=
  match kind with
  | .lastValue => value
  | .sum => Quantity.add row value
  | .count => Quantity.add row Quantity.one

def describe : Aggregation → String
  | .lastValue => "LastValue"
  | .sum => "Sum"
  | .count => "Count"

end Aggregation

end DirectoryMetrics
