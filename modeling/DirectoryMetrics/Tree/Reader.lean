import DirectoryMetrics.Text.Quoted
import DirectoryMetrics.Tree.Node

namespace DirectoryMetrics

/-!
Typed reading of configuration trees. A reader takes a node to a value or to the first thing that
does not fit; the fields of a record are read in the order that they have in the tree.
-/

inductive Mismatch where
  | wrongType (found : Node) (expected : String)
  | wrongValue (found : Node) (expected : String)
  | wrongLength (length : Nat) (expected : String)
  | missingField (name : String)
  | duplicateField (name : String)
  | unknownVariant (name : String) (known : List String)
  | noVariant (name : String)
  | unsupportedTag
  | badAddress
  | badPeriod (value reason : String)
  | badTimeout (value : String)

namespace Mismatch

def describe : Node → String
  | .null => "unit value"
  | .bool flag => s!"boolean `{flag}`"
  | .int value => s!"integer `{value}`"
  | .float value => "floating point `" ++ DecimalStyle.described.write value ++ "`"
  | .text value => "string " ++ Text.quote value
  | .sequence _ => "sequence"
  | .mapping _ => "map"
  | .tagged _ _ => "enum"

def alternatives (known : List String) : String :=
  " or ".intercalate (known.map fun name => s!"`{name}`")

def message : Mismatch → String
  | wrongType found expected => "invalid type: " ++ describe found ++ ", expected " ++ expected
  | wrongValue found expected => "invalid value: " ++ describe found ++ ", expected " ++ expected
  | wrongLength length expected => s!"invalid length {length}, expected {expected}"
  | missingField name => s!"missing field `{name}`"
  | duplicateField name => s!"duplicate field `{name}`"
  | unknownVariant name known => s!"unknown variant `{name}`, expected " ++ alternatives known
  | noVariant name => s!"data did not match any variant of untagged enum {name}"
  | unsupportedTag => "untagged and internally tagged enums do not support enum input"
  | badAddress => "invalid IP address syntax"
  | badPeriod value reason => s!"invalid period '{value}': {reason}"
  | badTimeout value => s!"invalid timeout '{value}'"

end Mismatch

abbrev Reader (α : Type) := Node → Except Mismatch α

namespace Reader

def text : Reader String := fun node =>
  match node.untag with
  | .text value => .ok value
  | found => .error (.wrongType found "a string")

def flag : Reader Bool := fun node =>
  match node.untag with
  | .bool value => .ok value
  | found => .error (.wrongType found "a boolean")

def number : Reader Float := fun node =>
  match node.untag with
  | .int value => .ok (Float.ofInt value)
  | .float value => .ok value
  | found => .error (.wrongType found "f64")

def portNumber : Reader Nat := fun node =>
  match node.untag with
  | .int value =>
      if 0 ≤ value ∧ value < 65536 then .ok value.toNat
      else .error (.wrongValue (.int value) "u16")
  | found => .error (.wrongType found "u16")

/-- A null that is not under a tag stands for nothing. -/
def optional (read : Reader α) : Reader (Option α)
  | .null => .ok none
  | node => (read node).map some

def list (read : Reader α) : Reader (List α) := fun node =>
  match node.untag with
  | .sequence items => items.mapM read
  | .null => .ok []
  | found => .error (.wrongType found "a sequence")

/-- One of some names; a tag may name it as well, and then it is on a null. -/
def variant (known : List (String × α)) : Reader α := fun node => do
  let find (name : String) : Except Mismatch α :=
    match known.lookup name with
    | some value => .ok value
    | none => .error (.unknownVariant name (known.map Prod.fst))
  match node with
  | .text name => find name
  | .tagged tag content =>
      let value ← find tag
      match content.untag with
      | .null => .ok value
      | found => .error (.wrongType found "unit")
  | found => .error (.wrongType found "a Value::Tagged enum")

/-- A field of a record: its name, and how its value changes what has been read so far. -/
structure Field (σ : Type) where
  name : String
  read : Node → σ → Except Mismatch σ

def field (name : String) (read : Reader α) (put : α → σ → σ) : Field σ :=
  ⟨name, fun node state => (read node).map fun value => put value state⟩

/-- Reads the entries of a record in order; those that are of no field are skipped. -/
def entries (keyOf : Reader (Option (Field σ))) (seen : List String) (state : σ) :
    Mapping → Except Mismatch (σ × List String)
  | [] => .ok (state, seen)
  | (key, value) :: rest => do
      match ← keyOf key with
      | none => entries keyOf seen state rest
      | some field => do
          if seen.contains field.name then throw (.duplicateField field.name)
          entries keyOf (field.name :: seen) (← field.read value state) rest

def ofEntries (keyOf : Reader (Option (Field σ))) (start : σ) (required : List String)
    (mapping : Mapping) : Except Mismatch σ := do
  let (state, seen) ← entries keyOf [] start mapping
  match required.find? (!seen.contains ·) with
  | some name => throw (.missingField name)
  | none => return state

def fieldKey (fields : List (Field σ)) : Reader (Option (Field σ)) := fun key =>
  match key.untag with
  | .text name => .ok (fields.find? (·.name == name))
  | found => .error (.wrongType found "field identifier")

def record (kind : String) (fields : List (Field σ)) (start : σ) (required : List String) :
    Reader σ := fun node =>
  match node.untag with
  | .mapping mapping => ofEntries (fieldKey fields) start required mapping
  | .null => ofEntries (fieldKey fields) start required []
  | found => .error (.wrongType found ("struct " ++ kind))

/-- A key of plain options: a name or a position. -/
def plainKey (fields : List (Field σ)) : Reader (Option (Field σ))
  | .text name => .ok (fields.find? (·.name == name))
  | .int value =>
      if 0 ≤ value then .ok fields[value.toNat]?
      else .error (.wrongType (.int value) "field identifier")
  | found => .error (.wrongType found "field identifier")

def plainItems (state : σ) : List (Field σ) → List Node → Except Mismatch σ
  | field :: fields, item :: items => do plainItems (← field.read item state) fields items
  | _, _ => .ok state

def plainRecord (kind : String) (fields : List (Field σ)) (start : σ) (required : List String) :
    Reader σ
  | .mapping mapping => ofEntries (plainKey fields) start required mapping
  | .sequence items => do
      let state ← plainItems start fields items
      if items.length > fields.length then
        throw (.wrongLength items.length s!"{fields.length} elements in sequence")
      match (fields.drop items.length).findIdx? fun field => required.contains field.name with
      | some place =>
          throw (.wrongLength (items.length + place)
            s!"struct {kind} with {fields.length} elements")
      | none => return state
  | found => .error (.wrongType found ("struct " ++ kind))

def nextOf (first second : String) : Mapping → Except Mismatch (Option (String × Node × Mapping))
  | [] => .ok none
  | (key, value) :: rest =>
      match key.untag with
      | .text name =>
          if name = first ∨ name = second then .ok (some (name, value, rest))
          else nextOf first second rest
      | found =>
          .error (.wrongType found
            (Text.quote first ++ ", " ++ Text.quote second ++ ", or other ignored fields"))

/-- A record that has a name and, before or after it, what the name says how to read. -/
def adjacent (kind name content : String) (readName : Reader κ) (read : Bool → κ → Reader α) :
    Reader α := fun node => do
  let mapping ←
    match node.untag with
    | .mapping mapping => pure mapping
    | .null => pure []
    | found => throw (.wrongType found ("adjacently tagged enum " ++ kind))
  match ← nextOf name content mapping with
  | none => throw (.missingField name)
  | some (first, value, rest) =>
      if first = name then
        let variant ← readName value
        match ← nextOf name content rest with
        | none => throw (.missingField content)
        | some (second, value, rest) =>
            if second = name then throw (.duplicateField name)
            finish (← read false variant value) rest
      else
        if value.hasTag then throw .unsupportedTag
        match ← nextOf name content rest with
        | none => throw (.missingField name)
        | some (second, later, rest) =>
            if second = content then throw (.duplicateField content)
            let variant ← readName later
            finish (← read true variant value) rest
where
  finish (result : α) (rest : Mapping) : Except Mismatch α := do
    match ← nextOf name content rest with
    | none => return result
    | some (again, _, _) => throw (.duplicateField again)

end Reader

end DirectoryMetrics
