namespace DirectoryMetrics.Text

/-!
Text as octets. A run of octets falls into pieces: each is one character, or a longest beginning of
a character that the octets after it do not complete. Strict decoding asks for characters only;
lenient decoding shows one replacement character for every other piece.
-/

namespace Octets

/-- A character begun and not complete: what the next octet may be, and how many are missing. -/
structure Pending where
  missing : Nat
  low : Nat
  high : Nat
  value : Nat
  deriving DecidableEq, Repr

inductive Lead where
  | whole (c : Char)
  | begins (pending : Pending)
  | stray

def lead (octet : Nat) : Lead :=
  if octet < 0x80 then .whole (Char.ofNat octet)
  else if octet < 0xc2 then .stray
  else if octet < 0xe0 then .begins ⟨0, 0x80, 0xbf, octet - 0xc0⟩
  else if octet = 0xe0 then .begins ⟨1, 0xa0, 0xbf, 0⟩
  else if octet = 0xed then .begins ⟨1, 0x80, 0x9f, 0xd⟩
  else if octet < 0xf0 then .begins ⟨1, 0x80, 0xbf, octet - 0xe0⟩
  else if octet = 0xf0 then .begins ⟨2, 0x90, 0xbf, 0⟩
  else if octet < 0xf4 then .begins ⟨2, 0x80, 0xbf, octet - 0xf0⟩
  else if octet = 0xf4 then .begins ⟨2, 0x80, 0x8f, 4⟩
  else .stray

def afterLead (octet : Nat) : List (Option Char) × Option Pending :=
  match lead octet with
  | .whole c => ([some c], none)
  | .begins pending => ([], some pending)
  | .stray => ([none], none)

def step (pending : Option Pending) (octet : Nat) : List (Option Char) × Option Pending :=
  match pending with
  | none => afterLead octet
  | some p =>
      if p.low ≤ octet ∧ octet ≤ p.high then
        let value := p.value * 64 + octet % 64
        match p.missing with
        | 0 => ([some (Char.ofNat value)], none)
        | missing + 1 => ([], some ⟨missing, 0x80, 0xbf, value⟩)
      else
        let (pieces, next) := afterLead octet
        (none :: pieces, next)

def piecesFrom (pending : Option Pending) : List UInt8 → List (Option Char)
  | [] => if pending.isSome then [none] else []
  | octet :: rest =>
      let (pieces, next) := step pending octet.toNat
      pieces ++ piecesFrom next rest

def pieces (octets : List UInt8) : List (Option Char) :=
  piecesFrom none octets

def decode? (octets : List UInt8) : Option String :=
  ((pieces octets).mapM id).map String.ofList

def decodeLenient (octets : List UInt8) : String :=
  String.ofList ((pieces octets).map (·.getD (Char.ofNat 0xfffd)))

end Octets

end DirectoryMetrics.Text
