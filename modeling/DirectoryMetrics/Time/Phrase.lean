import DirectoryMetrics.Text.Blank
import DirectoryMetrics.Text.Quoted
import DirectoryMetrics.Time.Duration

namespace DirectoryMetrics

/-!
Lengths of time in words, such as `1h 30m` or `1.5 days`: numbers, each followed by a unit. Blanks
between the digits of a number do not end it. A reader goes over the characters once, and its state
says what it is inside of.
-/

inductive TimeUnit where
  | nanosecond | microsecond | millisecond | second | minute | hour | day | week | month | year
  deriving DecidableEq, Repr

namespace TimeUnit

def ofName? : String → Option TimeUnit
  | "nanos" | "nsec" | "ns" => some .nanosecond
  | "usec" | "us" | "µs" => some .microsecond
  | "millis" | "msec" | "ms" => some .millisecond
  | "seconds" | "second" | "secs" | "sec" | "s" => some .second
  | "minutes" | "minute" | "min" | "mins" | "m" => some .minute
  | "hours" | "hour" | "hrs" | "hr" | "h" => some .hour
  | "days" | "day" | "d" => some .day
  | "weeks" | "week" | "wk" | "wks" | "w" => some .week
  | "months" | "month" | "M" => some .month
  | "years" | "year" | "yr" | "yrs" | "y" => some .year
  | _ => none

/-- What one unit is counted in: nanoseconds or seconds, and how many of them. -/
inductive Measure where
  | nanoseconds (count : Nat)
  | seconds (count : Nat)

/-- A year has 365.25 days and a month 30.44. -/
def measure : TimeUnit → Measure
  | .nanosecond => .nanoseconds 1
  | .microsecond => .nanoseconds 1000
  | .millisecond => .nanoseconds 1000000
  | .second => .seconds 1
  | .minute => .seconds 60
  | .hour => .seconds 3600
  | .day => .seconds 86400
  | .week => .seconds 604800
  | .month => .seconds 2630016
  | .year => .seconds 31557600

/-- Parts of a unit are counted in nanoseconds up to a minute; a nanosecond has no parts. -/
def partMeasure? : TimeUnit → Option Measure
  | .nanosecond => none
  | .second => some (.nanoseconds 1000000000)
  | .minute => some (.nanoseconds 60000000000)
  | unit => some unit.measure

end TimeUnit

inductive PhraseError where
  | empty
  | numberExpected (offset : Nat)
  | invalidCharacter (offset : Nat)
  | unitNeeded (number : Nat)
  | unknownUnit (unit : String)
  | overflow
  deriving DecidableEq, Repr

def PhraseError.message : PhraseError → String
  | .empty => "value was empty"
  | .numberExpected offset => s!"expected number at {offset}"
  | .invalidCharacter offset => s!"invalid character at {offset}"
  | .unitNeeded number =>
      s!"time unit needed, for example {number}sec or {number}ms"
  | .unknownUnit unit =>
      "unknown time unit " ++ Text.quote unit ++ ", supported units: ns, us/µs, ms, sec, min, " ++
        "hours, days, weeks, months, years (and few variations)"
  | .overflow =>
      "number is too large or cannot be represented without a lack of precision " ++
        "(values below 1ns are not supported)"

namespace Duration

/-- The digits after a point: `numerator / denominator`, a power of ten below. -/
structure Part where
  numerator : Nat
  denominator : Nat
  deriving DecidableEq, Repr

inductive PhraseState where
  | start
  | between
  | number (n : Nat)
  | part (n : Nat) (part : Part) (offset : Nat)
  | unit (n : Nat) (part : Option Part) (letters : List Char)

def isUnitLetter (c : Char) : Bool := c.isAlpha || c = 'µ'

def word (n : Nat) : Except PhraseError Nat :=
  if n < Nat.pow 2 64 then .ok n else .error .overflow

def appendDigit (n : Nat) (c : Char) : Except PhraseError Nat :=
  word (10 * n + (c.toNat - 48))

def plus (d : Duration) (amount : TimeUnit.Measure) : Except PhraseError Duration := do
  let sum ←
    match amount with
    | .nanoseconds n => do
        let _ ← word (d.subsecond + n)
        pure (d.nanoseconds + n)
    | .seconds n => pure (d.nanoseconds + n * perSecond)
  let _ ← word (sum / perSecond)
  pure ⟨sum⟩

def exactly (n : Nat) (part : Part) : Except PhraseError Nat := do
  let n ← word n
  if n % part.denominator = 0 then pure (n / part.denominator) else .error .overflow

def plusPart (d : Duration) (unit : TimeUnit) (part : Part) : Except PhraseError Duration :=
  match unit.partMeasure? with
  | none => .error .overflow
  | some (.nanoseconds count) => do
      d.plus (.nanoseconds (← exactly (part.numerator * count) part))
  | some (.seconds count) => do
      d.plus (.seconds (← exactly (part.numerator * count) part))

def plusPhrase (d : Duration) (n : Nat) (part : Option Part) (letters : List Char) :
    Except PhraseError Duration :=
  match TimeUnit.ofName? (String.ofList letters) with
  | none => .error (if letters.isEmpty then .unitNeeded n else .unknownUnit (String.ofList letters))
  | some unit => do
      let whole ←
        match unit.measure with
        | .nanoseconds count => d.plus (.nanoseconds (← word (n * count)))
        | .seconds count => d.plus (.seconds (← word (n * count)))
      match part with
      | none => pure whole
      | some part => whole.plusPart unit part

def readPhraseFrom (sum : Duration) (offset : Nat) :
    PhraseState → List Char → Except PhraseError Duration
  | .start, [] => .error .empty
  | .between, [] => .ok sum
  | .number n, [] => sum.plusPhrase n none []
  | .part n part mark, [] =>
      if part.denominator = 1 then .error (.invalidCharacter mark)
      else sum.plusPhrase n (some part) []
  | .unit n part letters, [] => sum.plusPhrase n part letters
  | state, c :: rest => do
      let next := offset + c.utf8Size
      match state with
      | .start | .between =>
          if c.isDigit then readPhraseFrom sum next (.number (c.toNat - 48)) rest
          else if Text.isBlank c then readPhraseFrom sum next state rest
          else .error (.numberExpected offset)
      | .number n =>
          if c.isDigit then readPhraseFrom sum next (.number (← appendDigit n c)) rest
          else if Text.isBlank c then readPhraseFrom sum next state rest
          else if isUnitLetter c then readPhraseFrom sum next (.unit n none [c]) rest
          else if c = '.' then readPhraseFrom sum next (.part n ⟨0, 1⟩ offset) rest
          else .error (.invalidCharacter offset)
      | .part n part mark =>
          if c.isDigit then
            let numerator ← appendDigit part.numerator c
            let denominator ← word (10 * part.denominator)
            readPhraseFrom sum next (.part n ⟨numerator, denominator⟩ next) rest
          else if Text.isBlank c then readPhraseFrom sum next (.part n part next) rest
          else if isUnitLetter c && part.denominator ≠ 1 then
            readPhraseFrom sum next (.unit n (some part) [c]) rest
          else .error (.invalidCharacter mark)
      | .unit n part letters =>
          if c.isDigit then
            readPhraseFrom (← sum.plusPhrase n part letters) next (.number (c.toNat - 48)) rest
          else if Text.isBlank c then
            readPhraseFrom (← sum.plusPhrase n part letters) next .between rest
          else if isUnitLetter c then readPhraseFrom sum next (.unit n part (letters ++ [c])) rest
          else .error (.invalidCharacter offset)

/-- A lone zero needs no unit. -/
def readPhrase (text : String) : Except PhraseError Duration :=
  if text = "0" then .ok ⟨0⟩ else readPhraseFrom ⟨0⟩ 0 .start text.toList

end Duration

end DirectoryMetrics
