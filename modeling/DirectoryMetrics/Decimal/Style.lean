import DirectoryMetrics.Decimal.Shortest

namespace DirectoryMetrics

/-!
How a double is written: where positional digits end and an exponent begins, whether a whole number
keeps its point, and the names of the values that have no digits.
-/

structure DecimalStyle where
  /-- Points outside this range are written with an exponent; no range means never. -/
  positional : Option (Int × Int)
  keepsPoint : Bool
  notANumber : String
  infinity : String
  tie : Decimal.Tie

namespace DecimalStyle

/-- Plain text never uses an exponent and drops the point of a whole number. -/
def plain : DecimalStyle := ⟨none, false, "NaN", "inf", .up⟩

def described : DecimalStyle := ⟨none, true, "NaN", "inf", .up⟩

/-- Numbers of a configuration tree are written as its file format spells them. -/
def tree : DecimalStyle := ⟨some (-4, 16), true, ".nan", ".inf", .even⟩

end DecimalStyle

namespace Decimal

def zeros (count : Int) : List Char := List.replicate count.toNat '0'

def positionalText (x : Decimal) (keepsPoint : Bool) : List Char :=
  let digits := x.digits
  let whole := if keepsPoint then ['.', '0'] else []
  if x.point ≤ 0 then ['0', '.'] ++ zeros (-x.point) ++ digits
  else if x.point ≥ digits.length then digits ++ zeros (x.point - digits.length) ++ whole
  else digits.take x.point.toNat ++ ['.'] ++ digits.drop x.point.toNat

def exponentText (x : Decimal) : List Char :=
  let exponent := ['e'] ++ (toString (x.point - 1)).toList
  match x.digits with
  | [] => exponent
  | [d] => d :: exponent
  | d :: more => d :: '.' :: more ++ exponent

def text (x : Decimal) (style : DecimalStyle) : List Char :=
  match style.positional with
  | none => x.positionalText style.keepsPoint
  | some (low, high) =>
      if low ≤ x.point ∧ x.point ≤ high then x.positionalText style.keepsPoint
      else x.exponentText

end Decimal

def DecimalStyle.magnitude (style : DecimalStyle) (x : Binary) : List Char :=
  if x.significand = 0 then if style.keepsPoint then ['0', '.', '0'] else ['0']
  else (Decimal.shortest style.tie x).text style

def DecimalStyle.write (style : DecimalStyle) (x : Float) : String :=
  match Binary.ofFloat? x with
  | some b => String.ofList ((if b.negative then ['-'] else []) ++ style.magnitude b)
  | none =>
      if x.isNaN then style.notANumber
      else if x < 0 then "-" ++ style.infinity
      else style.infinity

end DirectoryMetrics
