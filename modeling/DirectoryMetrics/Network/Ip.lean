import DirectoryMetrics.Decimal.Reading
import DirectoryMetrics.Text.Blank

namespace DirectoryMetrics

/-!
Internet addresses and their canonical text. An address of the sixth version is eight groups; two
colons stand for one or more groups of zero, and its last two groups may be written as an address of
the fourth version.
-/

inductive Ip where
  | v4 (octets : List Nat)
  | v6 (groups : List Nat)
  deriving DecidableEq, Repr

namespace Ip

/-- One to three digits without a leading zero, at most 255. -/
def readOctet? (digits : List Char) : Option Nat := do
  let n ← Decimal.readNat? 10 digits
  if n ≤ 255 ∧ digits.length ≤ 3 ∧ (digits.head? ≠ some '0' ∨ digits.length = 1) then some n else none

def readV4? (text : List Char) : Option (List Nat) := do
  let octets ← (Text.splitOn '.' text).mapM readOctet?
  if octets.length = 4 then some octets else none

def readGroup? (digits : List Char) : Option Nat :=
  if digits.length ≤ 4 then Decimal.readNat? 16 digits else none

/-- Groups between colons; the last may be four octets, which are two groups. -/
def readGroups? : List (List Char) → Option (List Nat)
  | [] => some []
  | [last] =>
      match readV4? last with
      | some [a, b, c, d] => some [256 * a + b, 256 * c + d]
      | _ => (readGroup? last).map ([·])
  | group :: rest => do
      let g ← readGroup? group
      let gs ← readGroups? rest
      some (g :: gs)

def splitAtGap? : List Char → Option (List Char × List Char)
  | ':' :: ':' :: rest => some ([], rest)
  | c :: rest => (splitAtGap? rest).map fun (before, after) => (c :: before, after)
  | [] => none

def readSide? (text : List Char) : Option (List Nat) :=
  if text.isEmpty then some [] else readGroups? (Text.splitOn ':' text)

def readV6? (text : List Char) : Option (List Nat) :=
  match splitAtGap? text with
  | none => do
      let groups ← readGroups? (Text.splitOn ':' text)
      if groups.length = 8 then some groups else none
  | some (before, after) => do
      if before.contains '.' then none
      else
        let front ← readSide? before
        let back ← readSide? after
        if front.length + back.length ≤ 7 then
          some (front ++ List.replicate (8 - (front.length + back.length)) 0 ++ back)
        else none

def read? (text : String) : Option Ip :=
  ((readV4? text.toList).map Ip.v4).orElse fun _ => (readV6? text.toList).map Ip.v6

def hexText (n : Nat) : String := String.ofList (Nat.toDigits 16 n)

/-- The first of the longest runs of zeros, as its place and its length. -/
def longestGap (groups : List Nat) : Nat × Nat :=
  let run (place : Nat) : Nat := ((groups.drop place).takeWhile (· = 0)).length
  (List.range groups.length).foldl
    (fun best place => if run place > best.2 then (place, run place) else best) (0, 0)

def v4Text (octets : List Nat) : String := ".".intercalate (octets.map toString)

def v6Text (groups : List Nat) : String :=
  match groups with
  | [0, 0, 0, 0, 0, 0xffff, high, low] =>
      "::ffff:" ++ v4Text [high / 256, high % 256, low / 256, low % 256]
  | _ =>
      let side (part : List Nat) : String := ":".intercalate (part.map hexText)
      let (place, length) := longestGap groups
      if length > 1 then side (groups.take place) ++ "::" ++ side (groups.drop (place + length))
      else side groups

def text : Ip → String
  | .v4 octets => v4Text octets
  | .v6 groups => v6Text groups

end Ip

end DirectoryMetrics
