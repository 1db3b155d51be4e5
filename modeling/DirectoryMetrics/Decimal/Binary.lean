namespace DirectoryMetrics

structure Binary where
  negative : Bool
  significand : Nat
  exponent : Int
  deriving DecidableEq, Repr

namespace Binary

def signBit (bits : Nat) : Bool := bits / Nat.pow 2 63 % 2 == 1

def exponentField (bits : Nat) : Nat := bits / Nat.pow 2 52 % Nat.pow 2 11

def fraction (bits : Nat) : Nat := bits % Nat.pow 2 52

def ofFloat? (x : Float) : Option Binary :=
  let bits := x.toBits.toNat
  match exponentField bits with
  | 0 => some ⟨signBit bits, fraction bits, -1074⟩
  | field + 1 =>
      if field + 1 = 2047 then none
      else some ⟨signBit bits, Nat.pow 2 52 + fraction bits, (field : Int) - 1074⟩

/-- The magnitude times `factor`, as a numerator and a denominator. -/
def scaled (x : Binary) (factor : Nat) : Nat × Nat :=
  if x.exponent ≥ 0 then (x.significand * factor * Nat.pow 2 x.exponent.toNat, 1)
  else (x.significand * factor, Nat.pow 2 (-x.exponent).toNat)

end Binary

/-- The quotient rounded to the nearest whole number, a half to the even neighbour. -/
def roundDiv (numerator denominator : Nat) : Nat :=
  let quotient := numerator / denominator
  let twice := 2 * (numerator % denominator)
  if twice > denominator ∨ (twice = denominator ∧ quotient % 2 = 1) then quotient + 1 else quotient

end DirectoryMetrics
