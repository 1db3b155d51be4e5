import DirectoryMetrics.Yaml.Form
import DirectoryMetrics.Yaml.Token

namespace DirectoryMetrics.Yaml

/-- What handles of tags stand for; the first entry for a handle counts. -/
abbrev Handles := List (String × List UInt8)

namespace Handles

def standardStem : List UInt8 := "tag:yaml.org,2002:".toUTF8.toList

def standard : Handles := [("!", "!".toUTF8.toList), ("!!", standardStem)]

def tag? (handles : Handles) (handle : String) (suffix : List UInt8) : Option (List UInt8) :=
  if handle.isEmpty then some suffix else (handles.lookup handle).map (· ++ suffix)

end Handles

namespace Grammar

def marks? (handles : Handles) : List Token → Option (Marks String × List Token)
  | .anchor name :: .tag handle suffix :: rest => do
      return (⟨some name, ← handles.tag? handle suffix⟩, rest)
  | .tag handle suffix :: .anchor name :: rest => do
      return (⟨some name, ← handles.tag? handle suffix⟩, rest)
  | .anchor name :: rest => some (⟨some name, none⟩, rest)
  | .tag handle suffix :: rest => do return (⟨none, ← handles.tag? handle suffix⟩, rest)
  | tokens => some (.none, tokens)

/-- Where a node is: an entry of a mapping may hold a list that is not indented. -/
inductive Position where
  | block
  | blockValue
  | flow
  deriving DecidableEq, Repr

def isAbsent (follows : List Token) : List Token → Bool
  | [] => false
  | token :: _ => follows.contains token

def afterBlockEntry : List Token := [.blockEntry, .blockEnd]

def afterListEntry : List Token := [.blockEntry, .key, .value, .blockEnd]

def afterBlockKey : List Token := [.key, .value, .blockEnd]

mutual
def node? (handles : Handles) :
    (depth : Nat) → Position → List Token → Option (Form String × List Token)
  | 0, _, _ => none
  | _ + 1, _, .reference name :: rest => some (.reference name, rest)
  | depth + 1, position, tokens => do
      let (marks, rest) ← marks? handles tokens
      let inBlock := position ≠ .flow
      match rest with
      | .scalar isPlain text :: rest => some (.scalar marks isPlain text, rest)
      | .flowSequence :: rest => do
          let (items, rest) ← flowItems? handles depth true rest
          return (.sequence marks items, rest)
      | .flowMapping :: rest => do
          let (entries, rest) ← flowEntries? handles depth true rest
          return (.mapping marks entries, rest)
      | .blockSequence :: rest => do
          if !inBlock then none
          let (items, rest) ← blockItems? handles depth rest
          return (.sequence marks items, rest)
      | .blockMapping :: rest => do
          if !inBlock then none
          let (entries, rest) ← blockEntries? handles depth rest
          return (.mapping marks entries, rest)
      | rest => do
          if position = .blockValue && rest.head? = some .blockEntry then
            let (items, rest) ← listItems? handles depth rest
            return (.sequence marks items, rest)
          else if marks = .none then none
          else return (.scalar marks true "", rest)

def slot? (handles : Handles) :
    (depth : Nat) → Position → (follows : List Token) → List Token →
      Option (Form String × List Token)
  | 0, _, _, _ => none
  | depth + 1, position, follows, tokens =>
      if isAbsent follows tokens then some (.empty, tokens)
      else node? handles depth position tokens

def blockItems? (handles : Handles) :
    (depth : Nat) → List Token → Option (List (Form String) × List Token)
  | 0, _ => none
  | depth + 1, .blockEntry :: rest => do
      let (item, rest) ← slot? handles depth .block afterBlockEntry rest
      let (items, rest) ← blockItems? handles depth rest
      return (item :: items, rest)
  | _ + 1, .blockEnd :: rest => some ([], rest)
  | _ + 1, _ => none

/-- The items of a list that is not indented, which ends where they end. -/
def listItems? (handles : Handles) :
    (depth : Nat) → List Token → Option (List (Form String) × List Token)
  | 0, _ => none
  | depth + 1, .blockEntry :: rest => do
      let (item, rest) ← slot? handles depth .block afterListEntry rest
      let (items, rest) ← listItems? handles depth rest
      return (item :: items, rest)
  | _ + 1, tokens => some ([], tokens)

def blockEntries? (handles : Handles) :
    (depth : Nat) → List Token → Option (List (Form String × Form String) × List Token)
  | 0, _ => none
  | depth + 1, .key :: rest => do
      let (key, rest) ← slot? handles depth .blockValue afterBlockKey rest
      let (value, rest) ←
        match rest with
        | .value :: rest => slot? handles depth .blockValue afterBlockKey rest
        | rest => some (.empty, rest)
      let (entries, rest) ← blockEntries? handles depth rest
      return ((key, value) :: entries, rest)
  | _ + 1, .blockEnd :: rest => some ([], rest)
  | _ + 1, _ => none

def flowValue? (handles : Handles) :
    (depth : Nat) → (follows : List Token) → List Token → Option (Form String × List Token)
  | 0, _, _ => none
  | depth + 1, follows, .value :: rest => slot? handles depth .flow follows rest
  | _ + 1, _, rest => some (.empty, rest)

/-- The only entry of a mapping in a list. Where its key is not written, the token after the mark of
the key is skipped. -/
def flowPair? (handles : Handles) :
    (depth : Nat) → List Token → Option (Form String × List Token)
  | 0, _ => none
  | depth + 1, tokens => do
      let (key, rest) ←
        if isAbsent [.value, .flowEntry, .flowSequenceEnd] tokens then
          some (Form.empty, tokens.drop 1)
        else node? handles depth .flow tokens
      let (value, rest) ← flowValue? handles depth [.flowEntry, .flowSequenceEnd] rest
      return (.mapping .none [(key, value)], rest)

/-- The items from one on that need not be there; the first has no comma before it. -/
def flowItems? (handles : Handles) :
    (depth : Nat) → (isFirst : Bool) → List Token → Option (List (Form String) × List Token)
  | 0, _, _ => none
  | _ + 1, _, .flowSequenceEnd :: rest => some ([], rest)
  | depth + 1, false, .flowEntry :: rest => flowItems? handles depth true rest
  | _ + 1, false, _ => none
  | depth + 1, true, .key :: rest => do
      let (item, rest) ← flowPair? handles depth rest
      let (items, rest) ← flowItems? handles depth false rest
      return (item :: items, rest)
  | depth + 1, true, tokens => do
      let (item, rest) ← node? handles depth .flow tokens
      let (items, rest) ← flowItems? handles depth false rest
      return (item :: items, rest)

def flowEntries? (handles : Handles) :
    (depth : Nat) → (isFirst : Bool) → List Token →
      Option (List (Form String × Form String) × List Token)
  | 0, _, _ => none
  | _ + 1, _, .flowMappingEnd :: rest => some ([], rest)
  | depth + 1, false, .flowEntry :: rest => flowEntries? handles depth true rest
  | _ + 1, false, _ => none
  | depth + 1, true, .key :: rest => do
      let (key, rest) ← slot? handles depth .flow [.value, .flowEntry, .flowMappingEnd] rest
      let (value, rest) ← flowValue? handles depth [.flowEntry, .flowMappingEnd] rest
      let (entries, rest) ← flowEntries? handles depth false rest
      return ((key, value) :: entries, rest)
  | depth + 1, true, tokens => do
      let (key, rest) ← node? handles depth .flow tokens
      let (entries, rest) ← flowEntries? handles depth false rest
      return ((key, .empty) :: entries, rest)
end

/-- Directives: one version at most, which is known, and each handle once. -/
def directives? (hasVersion : Bool) (handles : Handles) :
    List Token → Option (Handles × List Token)
  | .version major minor :: rest =>
      if hasVersion || major ≠ 1 || (minor ≠ 1 && minor ≠ 2) then none
      else directives? true handles rest
  | .handle name stem :: rest =>
      if (handles.lookup name).isSome then none
      else directives? hasVersion ((name, stem) :: handles) rest
  | tokens => some (handles, tokens)

def isDirective : Token → Bool
  | .version _ _ => true
  | .handle _ _ => true
  | _ => false

/-- A call needs a token, but for the step from a mark to what it marks. -/
def depthFor (tokens : List Token) : Nat := 3 * tokens.length + 3

def content? (handles : Handles) (tokens : List Token) : Option (Form String × List Token) :=
  match tokens with
  | [] => some (.empty, [])
  | token :: _ =>
      if isDirective token || token = .documentStart || token = .documentEnd then
        some (.empty, tokens)
      else node? handles (depthFor tokens) .block tokens

/-- A document and what is after it; only directives need a mark where it starts. -/
def document? (tokens : List Token) : Option (Form String × List Token) := do
  let (handles, rest) ← directives? false [] tokens
  let handles := handles ++ Handles.standard
  match rest with
  | .documentStart :: rest => content? handles rest
  | rest =>
      if tokens.head?.any isDirective then none
      else node? handles (depthFor rest) .block rest

end Grammar

def Form.ofTokens? (tokens : List Token) : Option (Form String) := do
  if tokens.isEmpty then return .empty
  let (form, rest) ← Grammar.document? tokens
  if rest.all (· = .documentEnd) then return form else none

end DirectoryMetrics.Yaml
