namespace DirectoryMetrics.Punycode

/-!
The letters-and-digits form of international labels, decoded. The text before the last hyphen is
plain; after it come variable-length numbers, each of which says where to insert which character.
-/

def digit? (c : Char) : Option Nat :=
  if 'a' ≤ c ∧ c ≤ 'z' then some (c.toNat - 97)
  else if 'A' ≤ c ∧ c ≤ 'Z' then some (c.toNat - 65)
  else if c.isDigit then some (c.toNat - 22)
  else none

def threshold (place bias : Nat) : Nat := min 26 (max 1 (place - bias))

def shrink : Nat → Nat → Nat → Nat
  | 0, place, _ => place
  | tries + 1, place, delta =>
      if delta > 455 then shrink tries (place + 36) (delta / 35)
      else place + 36 * delta / (delta + 38)

def adapt (delta points : Nat) (first : Bool) : Nat :=
  let delta := if first then delta / 700 else delta / 2
  let delta := delta + delta / points
  shrink delta 0 delta

def readNumber? (bias : Nat) (value weight place : Nat) : List Char → Option (Nat × List Char)
  | [] => none
  | c :: rest => do
      let digit ← digit? c
      let value := value + digit * weight
      let t := threshold place bias
      if value ≥ Nat.pow 2 32 then none
      else if digit < t then some (value, rest)
      else readNumber? bias value (weight * (36 - t)) (place + 36) rest

def insertAll : (tries : Nat) → (code index bias : Nat) → List Char → List Char → Option (List Char)
  | 0, _, _, _, output, input => if input.isEmpty then some output else none
  | tries + 1, code, index, bias, output, input =>
      if input.isEmpty then some output
      else do
        let (delta, rest) ← readNumber? bias 0 1 36 input
        let points := output.length + 1
        let position := index + delta
        let code := code + position / points
        if code ≥ 0x110000 ∨ (0xd800 ≤ code ∧ code < 0xe000) then none
        else
          let place := position % points
          let output := output.take place ++ Char.ofNat code :: output.drop place
          insertAll tries code (place + 1) (adapt delta points (index == 0)) output rest

/-- The position of the last hyphen splits the plain text off. -/
def splitPlain (label : List Char) : List Char × List Char :=
  let tail := (label.reverse.takeWhile (· ≠ '-')).reverse
  if tail.length = label.length then ([], label)
  else (label.take (label.length - tail.length - 1), tail)

def decode? (label : List Char) : Option (List Char) :=
  let (plain, coded) := splitPlain label
  insertAll coded.length 128 0 72 plain coded

end DirectoryMetrics.Punycode
