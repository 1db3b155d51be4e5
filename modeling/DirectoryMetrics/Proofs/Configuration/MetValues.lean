import DirectoryMetrics.Proofs.Configuration.Reading

namespace DirectoryMetrics

def FailsWith {ε α : Type} (tells : ε → Prop) (x : Except ε α) : Prop :=
  ∃ e, x = .error e ∧ tells e

namespace FailsWith

variable {ε α β : Type} {tells : ε → Prop} {x : Except ε α}

theorem bind {f : α → Except ε β} (hfails : FailsWith tells x) : FailsWith tells (x >>= f) := by
  obtain ⟨e, rfl, htells⟩ := hfails
  exact ⟨e, rfl, htells⟩

theorem map {f : α → β} (hfails : FailsWith tells x) : FailsWith tells (x.map f) := by
  obtain ⟨e, rfl, htells⟩ := hfails
  exact ⟨e, rfl, htells⟩

theorem bind_ok {y : Except ε β} {f : β → Except ε α} {b : β} (hok : y = .ok b)
    (hfails : FailsWith tells (f b)) : FailsWith tells (y >>= f) := by
  rw [hok]
  exact hfails

end FailsWith

namespace Reader

section Records

variable {σ : Type}

/-- Reading entries meets a value of a name: all before it are read, none of them for its field. -/
inductive MeetsEntry (keyOf : Reader (Option (Field σ))) (name : String) (held : Node → Prop) :
    List String → σ → Mapping → Prop where
  | here {key value : Node} {rest : Mapping} {seen : List String} {state : σ} {field : Field σ}
      (hname : key.untag = .text name) (hkey : keyOf key = .ok (some field))
      (hnew : field.name ∉ seen) (hheld : held value) :
      MeetsEntry keyOf name held seen state ((key, value) :: rest)
  | unknown {key value : Node} {rest : Mapping} {seen : List String} {state : σ}
      (hkey : keyOf key = .ok none) (hrest : MeetsEntry keyOf name held seen state rest) :
      MeetsEntry keyOf name held seen state ((key, value) :: rest)
  | known {key value : Node} {rest : Mapping} {seen : List String} {state next : σ}
      {field : Field σ} (hkey : keyOf key = .ok (some field)) (hnew : field.name ∉ seen)
      (hread : field.read value state = .ok next)
      (hrest : MeetsEntry keyOf name held (field.name :: seen) next rest) :
      MeetsEntry keyOf name held seen state ((key, value) :: rest)

def Field.FailsAt (tells : Mismatch → Prop) (name : String) (held : Node → Prop)
    (field : Field σ) : Prop :=
  field.name = name → ∀ value state, held value → FailsWith tells (field.read value state)

structure KeysOf (fields : List (Field σ)) (keyOf : Reader (Option (Field σ))) : Prop where
  mem : ∀ {key field}, keyOf key = .ok (some field) → field ∈ fields
  name : ∀ {key field text}, keyOf key = .ok (some field) → key.untag = .text text →
    field.name = text

theorem fieldKey_keysOf (fields : List (Field σ)) : KeysOf fields (fieldKey fields) where
  mem hkey := by
    obtain ⟨_, _, hfound⟩ := fieldKey_eq_ok.mp hkey
    exact List.mem_of_find?_eq_some hfound
  name hkey htext := by
    obtain ⟨_, htext', hfound⟩ := fieldKey_eq_ok.mp hkey
    cases htext.symm.trans htext'
    simpa using List.find?_some hfound

theorem plainKey_keysOf (fields : List (Field σ)) : KeysOf fields (plainKey fields) where
  mem {key field} hkey := by
    cases key with
    | text text => exact List.mem_of_find?_eq_some (Except.ok.inj hkey)
    | int place =>
        rw [plainKey] at hkey
        split at hkey
        · exact List.mem_of_getElem? (Except.ok.inj hkey)
        · cases hkey
    | _ => cases hkey
  name {key field text} hkey htext := by
    cases key with
    | text _ =>
        cases htext
        simpa using List.find?_some (Except.ok.inj hkey)
    | tagged _ _ => cases hkey
    | _ => cases htext

variable {tells : Mismatch → Prop} {fields : List (Field σ)} {name : String} {held : Node → Prop}

theorem field_failsAt {α : Type} {other : String} {read : Reader α} {put : α → σ → σ}
    (hreads : ∀ value, held value → FailsWith tells (read value)) :
    (field other read put).FailsAt tells name held :=
  fun _ value _ hheld => (hreads value hheld).map

theorem field_failsAt_of_ne {α : Type} {other : String} {read : Reader α} {put : α → σ → σ}
    (hne : other ≠ name) : (field other read put).FailsAt tells name held :=
  fun hname => absurd hname hne

theorem MeetsEntry.exists {keyOf : Reader (Option (Field σ))} {seen : List String} {state : σ}
    {m : Mapping} (hmeets : MeetsEntry keyOf name held seen state m) : ∃ value, held value := by
  induction hmeets with
  | here _ _ _ hheld => exact ⟨_, hheld⟩
  | unknown _ _ ih => exact ih
  | known _ _ _ _ ih => exact ih

theorem MeetsEntry.fails {keyOf : Reader (Option (Field σ))} (hkeys : KeysOf fields keyOf)
    (heach : ∀ field ∈ fields, field.FailsAt tells name held) {seen : List String} {state : σ}
    {m : Mapping} (hmeets : MeetsEntry keyOf name held seen state m) :
    FailsWith tells (entries keyOf seen state m) := by
  induction hmeets with
  | here hname hkey hnew hheld =>
      rw [entries_of_known hkey hnew]
      exact (heach _ (hkeys.mem hkey) (hkeys.name hkey hname) _ _ hheld).bind
  | unknown hkey _ ih => rwa [entries_of_unknown hkey]
  | known hkey hnew hread _ ih =>
      rw [entries_of_known hkey hnew]
      exact .bind_ok hread ih

def MeetsField (fields : List (Field σ)) (start : σ) (name : String) (held : Node → Prop)
    (node : Node) : Prop :=
  ∃ m, node.untag = .mapping m ∧ MeetsEntry (fieldKey fields) name held [] start m

def MeetsPlainField (fields : List (Field σ)) (start : σ) (name : String) (held : Node → Prop)
    (node : Node) : Prop :=
  ∃ m, node = .mapping m ∧ MeetsEntry (plainKey fields) name held [] start m

variable {start : σ} {node : Node}

theorem not_meetsField : ¬MeetsField fields start name (fun _ => False) node :=
  fun ⟨_, _, hmeets⟩ => hmeets.exists.elim fun _ => id

theorem not_meetsPlainField : ¬MeetsPlainField fields start name (fun _ => False) node :=
  fun ⟨_, _, hmeets⟩ => hmeets.exists.elim fun _ => id

variable (kind : String) (required : List String)
  (heach : ∀ field ∈ fields, field.FailsAt tells name held)

include heach

theorem MeetsField.fails (hmeets : MeetsField fields start name held node) :
    FailsWith tells (record kind fields start required node) := by
  obtain ⟨m, hnode, hmeets⟩ := hmeets
  rw [record, hnode]
  exact (hmeets.fails (fieldKey_keysOf fields) heach).bind

theorem MeetsPlainField.fails (hmeets : MeetsPlainField fields start name held node) :
    FailsWith tells (plainRecord kind fields start required node) := by
  obtain ⟨m, rfl, hmeets⟩ := hmeets
  exact (hmeets.fails (plainKey_keysOf fields) heach).bind

end Records

section Lists

variable {α : Type} {tells : Mismatch → Prop} {read : Reader α} {held : Node → Prop}

inductive MeetsItem (read : Reader α) (held : Node → Prop) : List Node → Prop where
  | here {item : Node} {rest : List Node} (hheld : held item) : MeetsItem read held (item :: rest)
  | read {item : Node} {rest : List Node} {value : α} (hread : read item = .ok value)
      (hrest : MeetsItem read held rest) : MeetsItem read held (item :: rest)

def MeetsListed (read : Reader α) (held : Node → Prop) (node : Node) : Prop :=
  ∃ items, node.untag = .sequence items ∧ MeetsItem read held items

theorem MeetsItem.exists {items : List Node} (hmeets : MeetsItem read held items) :
    ∃ item, held item := by
  induction hmeets with
  | here hheld => exact ⟨_, hheld⟩
  | read _ _ ih => exact ih

theorem not_meetsListed {node : Node} : ¬MeetsListed read (fun _ => False) node :=
  fun ⟨_, _, hmeets⟩ => hmeets.exists.elim fun _ => id

variable (hfails : ∀ node, held node → FailsWith tells (read node))

include hfails

theorem MeetsListed.fails {node : Node} (hmeets : MeetsListed read held node) :
    FailsWith tells (list read node) := by
  obtain ⟨items, hnode, hmeets⟩ := hmeets
  rw [list, hnode]
  clear hnode
  induction hmeets with
  | here hheld =>
      simp only [List.mapM_cons]
      exact (hfails _ hheld).bind
  | read hread _ ih =>
      simp only [List.mapM_cons]
      exact .bind_ok hread ih.bind

theorem optional_fails {node : Node} (hthere : node ≠ .null) (hheld : held node) :
    FailsWith tells (optional read node) := by
  cases node with
  | null => exact absurd rfl hthere
  | _ => exact (hfails _ hheld).map

end Lists

/-- Reading a record that has a name and a content meets its content, which comes after the name or
before it. -/
inductive MeetsContent {κ : Type} (name content : String) (readName : Reader κ)
    (held : Bool → κ → Node → Prop) (node : Node) : Prop where
  | after {m rest later : Mapping} {value found : Node} {variant : κ}
      (hnode : node.untag = .mapping m)
      (hname : nextOf name content m = .ok (some (name, value, rest)))
      (hread : readName value = .ok variant)
      (hcontent : nextOf name content rest = .ok (some (content, found, later)))
      (hheld : held false variant found)
  | before {m rest later : Mapping} {value found : Node} {variant : κ}
      (hnode : node.untag = .mapping m)
      (hcontent : nextOf name content m = .ok (some (content, found, rest)))
      (htags : found.hasTag = false)
      (hname : nextOf name content rest = .ok (some (name, value, later)))
      (hread : readName value = .ok variant) (hheld : held true variant found)

theorem MeetsContent.fails {κ α : Type} {name content : String} {readName : Reader κ}
    {held : Bool → κ → Node → Prop} {read : Bool → κ → Reader α} {node : Node}
    {tells : Mismatch → Prop} (hne : name ≠ content) (kind : String)
    (hfails : ∀ buffered variant value, held buffered variant value →
      FailsWith tells (read buffered variant value))
    (hmeets : MeetsContent name content readName held node) :
    FailsWith tells (adjacent kind name content readName read node) := by
  cases hmeets with
  | after hnode hname hread hcontent hheld =>
      rw [adjacent, hnode]
      refine .bind_ok rfl (.bind_ok hname ?_)
      simp only [if_pos]
      refine .bind_ok hread (.bind_ok hcontent ?_)
      simp only [if_neg hne.symm]
      exact (hfails _ _ _ hheld).bind
  | before hnode hcontent htags hname hread hheld =>
      rw [adjacent, hnode]
      refine .bind_ok rfl (.bind_ok hcontent ?_)
      simp only [if_neg hne.symm, htags]
      refine .bind_ok hname ?_
      simp only [if_neg hne]
      exact .bind_ok hread (hfails _ _ _ hheld).bind

end Reader

end DirectoryMetrics
