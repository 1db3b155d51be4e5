import DirectoryMetrics.Decimal.Reading
import DirectoryMetrics.Yaml.Folding

namespace DirectoryMetrics.Yaml

/-!
Quoted scalars. Between single quotes a quote is written twice; between double quotes a backslash
begins an escape. A marker of a document must not stand in either.
-/

namespace Quotation

abbrev Found := String × Place × List Char

def single (text : List Char) (gap : Gap) (p : Place) : List Char → Option Found
  | [] => none
  | '\'' :: '\'' :: rest => single ('\'' :: (gap.folded ++ text)) .empty (p.skip 2) rest
  | c :: rest =>
      if isSpace c || isBreak c then single text (gap.push c) (p.after c) rest
      else if isMarker p (c :: rest) then none
      else if c = '\'' then some (String.ofList (gap.folded ++ text).reverse, p.next, rest)
      else single (c :: (gap.folded ++ text)) .empty p.next rest

def escaped? : Char → Option Char
  | '0' => some '\x00'
  | 'a' => some '\x07'
  | 'b' => some '\x08'
  | 't' | '\t' => some '\t'
  | 'n' => some '\n'
  | 'v' => some '\x0b'
  | 'f' => some '\x0c'
  | 'r' => some '\r'
  | 'e' => some '\x1b'
  | ' ' => some ' '
  | '"' => some '"'
  | '/' => some '/'
  | '\\' => some '\\'
  | 'N' => some '\u0085'
  | '_' => some '\u00a0'
  | 'L' => some '\u2028'
  | 'P' => some '\u2029'
  | _ => none

def codeLength? : Char → Option Nat
  | 'x' => some 2
  | 'u' => some 4
  | 'U' => some 8
  | _ => none

def charOf? (code : Nat) : Option Char :=
  if h : code.isValidChar then some (Char.ofNatAux code h) else none

/-- Where a reader is in an escape: after the backslash, or in a code with some digits to come. -/
inductive Escape where
  | outside
  | begun
  | code (digits value : Nat)
  deriving DecidableEq, Repr

/-- Reads on after the opening quote, with the text so far in reverse. An escaped line end stands
for nothing. -/
def double (text : List Char) (gap : Gap) (escape : Escape) (p : Place) : List Char → Option Found
  | [] => none
  | c :: rest =>
      match escape with
      | .begun =>
          if isBreak c then double text (.lines [] []) .outside p.newLine rest
          else
            match escaped? c, codeLength? c with
            | some plain, _ => double (plain :: text) .empty .outside p.next rest
            | none, some digits => double text .empty (.code digits 0) p.next rest
            | none, none => none
      | .code digits value =>
          match Decimal.digitIn? 16 c with
          | none => none
          | some digit =>
              let value := 16 * value + digit
              if 1 < digits then double text .empty (.code (digits - 1) value) p.next rest
              else
                match charOf? value with
                | some plain => double (plain :: text) .empty .outside p.next rest
                | none => none
      | .outside =>
          if isSpace c || isBreak c then double text (gap.push c) .outside (p.after c) rest
          else if isMarker p (c :: rest) then none
          else if c = '"' then some (String.ofList (gap.folded ++ text).reverse, p.next, rest)
          else if c = '\\' then double (gap.folded ++ text) .empty .begun p.next rest
          else double (c :: (gap.folded ++ text)) .empty .outside p.next rest

def read? (quote : Char) (p : Place) (cs : List Char) : Option Found :=
  if quote = '"' then double [] .empty .outside p cs else single [] .empty p cs

end Quotation

end DirectoryMetrics.Yaml
