import DirectoryMetrics.Decimal.Reading
import DirectoryMetrics.Text.Octets
import DirectoryMetrics.Tree.Node
import DirectoryMetrics.Yaml.Fault
import DirectoryMetrics.Yaml.Grammar

namespace DirectoryMetrics.Yaml

/-!
What scalars stand for. A plain one may be nothing, a flag or a number; a standard tag asks for one of
these, and any other standard tag for text.
-/

namespace Scalar

def isNull (text : String) : Bool := ["null", "Null", "NULL", "~"].contains text

def flag? (text : String) : Option Bool :=
  if ["true", "True", "TRUE"].contains text then some true
  else if ["false", "False", "FALSE"].contains text then some false
  else none

/-- Digits after a leading zero, which are no number. -/
def isPadded (cs : List Char) : Bool :=
  match (Decimal.splitSign cs).2 with
  | '0' :: c :: rest => (c :: rest).all Char.isDigit
  | _ => false

def magnitude? : List Char → Option Nat
  | '0' :: 'x' :: digits => Decimal.readNat? 16 digits
  | '0' :: 'o' :: digits => Decimal.readNat? 8 digits
  | '0' :: 'b' :: digits => Decimal.readNat? 2 digits
  | digits => if isPadded digits then none else Decimal.readNat? 10 digits

def whole? (cs : List Char) : Option Int :=
  let (negative, digits) := Decimal.splitSign cs
  (magnitude? digits).map fun n => if negative then -(n : Int) else n

/-- A whole number is kept if it fits in 64 bits, with or without a sign. One that fits only in 128
is refused, and a longer one is read as a fraction. -/
def integer? (text : String) : Except Fault (Option Int) :=
  match whole? text.toList with
  | none => .ok none
  | some n =>
      if -Int.pow 2 63 ≤ n ∧ n < Int.pow 2 64 then .ok (some n)
      else if -Int.pow 2 127 ≤ n ∧ n < Int.pow 2 128 then .error (.wrongScalar text)
      else .ok none

def infinite? (text : String) : Option Float :=
  if [".inf", ".Inf", ".INF", "+.inf", "+.Inf", "+.INF"].contains text then some (1.0 / 0.0)
  else if ["-.inf", "-.Inf", "-.INF"].contains text then some (-1.0 / 0.0)
  else if [".nan", ".NaN", ".NAN"].contains text then some (0.0 / 0.0)
  else none

/-- A number that is not finite must be written with a point in front of a word. -/
def float? (text : String) : Option Float :=
  (infinite? text).orElse fun _ =>
    (Decimal.read? text.toList).filter Float.isFinite

def plain (text : String) : Except Fault Node := do
  if text.isEmpty || isNull text then return .null
  if let some flag := flag? text then return .bool flag
  if let some n ← integer? text then return .int n
  if isPadded text.toList then return .text text
  match float? text with
  | some x => return .float x
  | none => return .text text

def untagged (isPlain : Bool) (text : String) : Except Fault Node :=
  if isPlain then plain text else .ok (.text text)

def required (text : String) : Option Node → Except Fault Node
  | some node => .ok node
  | none => .error (.wrongScalar text)

def standard (type text : String) : Except Fault Node := do
  match type with
  | "null" => required text (if isNull text then some .null else none)
  | "bool" => required text ((flag? text).map .bool)
  | "int" => required text ((← integer? text).map .int)
  | "float" => required text ((float? text).map .float)
  | _ => return .text text

end Scalar

/-- A tag of the author's own; a single mark is a name by itself. -/
def ownTag? : List UInt8 → Option String
  | [] => none
  | mark :: rest =>
      if mark ≠ '!'.toNat.toUInt8 then none
      else if rest.isEmpty then some "!"
      else Text.Octets.decode? rest

def tagged (tag : Option (List UInt8)) (node : Node) : Node :=
  match tag.bind ownTag? with
  | some name => .tagged name node
  | none => node

def standardType? (tag : List UInt8) : Option String :=
  if Handles.standardStem.isPrefixOf tag then
    Text.Octets.decode? (tag.drop Handles.standardStem.length)
  else none

def Scalar.resolve (tag : Option (List UInt8)) (isPlain : Bool) (text : String) :
    Except Fault Node :=
  match tag with
  | none => untagged isPlain text
  | some octets =>
      if octets.head? = some '!'.toNat.toUInt8 then
        (untagged isPlain text).map (tagged tag)
      else
        match standardType? octets with
        | some type => standard type text
        | none => .ok (.text text)

end DirectoryMetrics.Yaml
