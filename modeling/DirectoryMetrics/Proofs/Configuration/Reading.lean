import DirectoryMetrics.Configuration.Settings
import DirectoryMetrics.Proofs.Tree.Mapping
import DirectoryMetrics.Proofs.Tree.Walk

namespace DirectoryMetrics

/-! What the reader of a record makes of one field is what the reader of the field makes of the
value under its name. A field that is left out is read as a null. Readers look at keys through their
tags, so a key under a tag has the place of one that is not. -/

theorem Node.untag_of_hasTag {node : Node} (huntagged : node.hasTag = false) :
    node.untag = node := by
  cases node with
  | tagged tag content => simp [hasTag] at huntagged
  | _ => rfl

namespace Mapping

/-- The value that a reader finds under a name. -/
def read? (name : String) : Mapping → Option Node
  | [] => none
  | (key, value) :: rest => if isKey name key.untag then some value else read? name rest

theorem read?_cons (name : String) (key value : Node) (rest : Mapping) :
    read? name ((key, value) :: rest) =
      if isKey name key.untag then some value else read? name rest := rfl

/-- No key of this name is under a tag. -/
def NamesPlainly (name : String) (m : Mapping) : Prop :=
  ∀ entry ∈ m, isKey name entry.1.untag = true → isKey name entry.1 = true

instance (name : String) (m : Mapping) : Decidable (m.NamesPlainly name) :=
  inferInstanceAs (Decidable (∀ entry ∈ m, _))

theorem namesPlainly_of_untagged {m : Mapping} (huntagged : ∀ entry ∈ m, entry.1.hasTag = false)
    (name : String) : m.NamesPlainly name := fun entry member isName => by
  rwa [Node.untag_of_hasTag (huntagged entry member)] at isName

theorem isKey_untag {name : String} {key : Node} (hname : isKey name key = true) :
    isKey name key.untag = true := by
  rw [isKey_iff] at hname
  rw [hname]
  exact isKey_iff.mpr rfl

theorem NamesPlainly.read?_eq {name : String} {m : Mapping} (hplain : m.NamesPlainly name) :
    m.read? name = m.get? name := by
  induction m with
  | nil => rfl
  | cons entry rest ih =>
      obtain ⟨key, value⟩ := entry
      rw [NamesPlainly, List.forall_mem_cons] at hplain
      rw [read?_cons, get?_cons, ih hplain.2]
      by_cases isName : isKey name key = true
      · rw [if_pos isName, if_pos (isKey_untag isName)]
      · rw [if_neg isName, if_neg fun untagged => isName (hplain.1 untagged)]

theorem get?_eq_none_of_read? {name : String} {m : Mapping} (habsent : m.read? name = none) :
    m.get? name = none := by
  induction m with
  | nil => rfl
  | cons entry rest ih =>
      obtain ⟨key, value⟩ := entry
      rw [read?_cons] at habsent
      split at habsent
      · cases habsent
      · rename_i notName
        rw [get?_cons, if_neg fun isName => notName (isKey_untag isName)]
        exact ih habsent

end Mapping

namespace Reader

section Projection

variable {σ ρ : Type} {fields : List (Field σ)} {name : String} {own : Field σ} (part : σ → ρ)
  (reads : Node → ρ → Prop)

theorem entries_of_unknown {keyOf : Reader (Option (Field σ))} {key value : Node} {rest : Mapping}
    {seen : List String} {state : σ} (hkey : keyOf key = .ok none) :
    entries keyOf seen state ((key, value) :: rest) = entries keyOf seen state rest := by
  rw [entries, hkey]
  rfl

theorem entries_of_known {keyOf : Reader (Option (Field σ))} {key value : Node} {rest : Mapping}
    {seen : List String} {state : σ} {field : Field σ} (hkey : keyOf key = .ok (some field))
    (hnew : field.name ∉ seen) :
    entries keyOf seen state ((key, value) :: rest) =
      field.read value state >>= fun next => entries keyOf (field.name :: seen) next rest := by
  rw [entries, hkey]
  exact if_neg (by simpa using hnew)

theorem fieldKey_eq_ok {key : Node} {named : Option (Field σ)} :
    fieldKey fields key = .ok named ↔
      ∃ text, key.untag = .text text ∧ fields.find? (·.name == text) = named := by
  rw [fieldKey]
  cases key.untag <;> simp

theorem entries_cons_cases {key value : Node} {rest : Mapping} {seen : List String} {state : σ}
    {result : σ × List String}
    (hreading : entries (fieldKey fields) seen state ((key, value) :: rest) = .ok result) :
    ∃ text, key.untag = .text text ∧
      ((fields.find? (·.name == text) = none ∧
        entries (fieldKey fields) seen state rest = .ok result) ∨
        ∃ field next, fields.find? (·.name == text) = some field ∧ text ∉ seen ∧
          field.read value state = .ok next ∧
          entries (fieldKey fields) (text :: seen) next rest = .ok result) := by
  rw [entries] at hreading
  obtain ⟨named, hkey, hreading⟩ := Except.bind_eq_ok.mp hreading
  obtain ⟨text, isText, found⟩ := fieldKey_eq_ok.mp hkey
  refine ⟨text, isText, ?_⟩
  cases named with
  | none => exact .inl ⟨found, hreading⟩
  | some field =>
      have hname : field.name = text := by simpa using List.find?_some found
      simp only [hname] at hreading
      split at hreading
      · cases hreading
      · rename_i unseen
        obtain ⟨next, readField, hreading⟩ := Except.bind_eq_ok.mp hreading
        exact .inr ⟨field, next, found, by simpa using unseen, readField, hreading⟩

theorem entries_cons_eq_ok {key value : Node} {rest : Mapping} {seen : List String} {state : σ}
    {result : σ × List String} (huntagged : key.hasTag = false)
    (hreading : entries (fieldKey fields) seen state ((key, value) :: rest) = .ok result) :
    ∃ text, key = .text text ∧
      ((fields.find? (·.name == text) = none ∧
        entries (fieldKey fields) seen state rest = .ok result) ∨
        ∃ field next, fields.find? (·.name == text) = some field ∧ text ∉ seen ∧
          field.read value state = .ok next ∧
          entries (fieldKey fields) (text :: seen) next rest = .ok result) := by
  obtain ⟨text, isText, cases⟩ := entries_cons_cases hreading
  rw [Node.untag_of_hasTag huntagged] at isText
  exact ⟨text, isText, cases⟩

variable (hknown : fields.find? (·.name == name) = some own)
  (hreadsOwn : ∀ node state next, own.read node state = .ok next → reads node (part next))
  (hothers : ∀ field ∈ fields, field.name ≠ name → ∀ node state next,
    field.read node state = .ok next → part next = part state)

include hothers in
theorem part_of_other {text : String} {field : Field σ} {value : Node} {state next : σ}
    (hfound : fields.find? (·.name == text) = some field) (hdifferent : text ≠ name)
    (hreadField : field.read value state = .ok next) : part next = part state := by
  have hisText : field.name = text := by simpa using List.find?_some hfound
  exact hothers field (List.mem_of_find?_eq_some hfound)
    (by rwa [hisText]) value state next hreadField

include hknown in
theorem entries_seen_absent {m : Mapping} {seen seen' : List String} {state state' : σ}
    (hmember : name ∈ seen)
    (hreading : entries (fieldKey fields) seen state m = .ok (state', seen')) :
    m.read? name = none := by
  induction m generalizing seen state with
  | nil => rfl
  | cons entry rest ih =>
      obtain ⟨key, value⟩ := entry
      obtain ⟨text, isText, ⟨absent, hreading⟩ | ⟨field, next, found, unseen, _, hreading⟩⟩ :=
        entries_cons_cases hreading
      · have hdifferent : text ≠ name := by
          rintro rfl
          rw [hknown] at absent
          cases absent
        simpa [Mapping.read?_cons, isText, hdifferent] using ih hmember hreading
      · have hdifferent : text ≠ name := by
          rintro rfl
          exact unseen hmember
        simpa [Mapping.read?_cons, isText, hdifferent] using
          ih (List.mem_cons_of_mem _ hmember) hreading

include hothers in
theorem entries_absent {m : Mapping} {seen seen' : List String} {state state' : σ}
    (habsent : m.read? name = none)
    (hreading : entries (fieldKey fields) seen state m = .ok (state', seen')) :
    part state' = part state := by
  induction m generalizing seen state with
  | nil =>
      cases hreading
      rfl
  | cons entry rest ih =>
      obtain ⟨key, value⟩ := entry
      rw [Mapping.read?_cons] at habsent
      split at habsent
      · cases habsent
      · rename_i notName
        obtain ⟨text, isText, ⟨_, hreading⟩ | ⟨field, next, found, _, readField, hreading⟩⟩ :=
          entries_cons_cases hreading
        · exact ih habsent hreading
        · have hdifferent : text ≠ name := by simpa [isText] using notName
          exact (ih habsent hreading).trans (part_of_other part hothers found hdifferent readField)

include hknown hreadsOwn hothers in
theorem entries_found {m : Mapping} {seen seen' : List String} {state state' : σ} {value : Node}
    (hthere : m.read? name = some value)
    (hreading : entries (fieldKey fields) seen state m = .ok (state', seen')) :
    reads value (part state') := by
  induction m generalizing seen state with
  | nil => cases hthere
  | cons entry rest ih =>
      obtain ⟨key, held⟩ := entry
      rw [Mapping.read?_cons] at hthere
      obtain ⟨text, isText, ⟨unknown, hreading⟩ | ⟨field, next, found, _, readField, hreading⟩⟩ :=
        entries_cons_cases hreading
      · have hdifferent : text ≠ name := by
          rintro rfl
          rw [hknown] at unknown
          cases unknown
        exact ih (by simpa [isText, hdifferent] using hthere) hreading
      · by_cases isName : text = name
        · subst isName
          rw [hknown] at found
          cases found
          have hlater := entries_absent part hothers
            (entries_seen_absent hknown List.mem_cons_self hreading) hreading
          rw [if_pos (by simp [isText]), Option.some.injEq] at hthere
          rw [hlater, ← hthere]
          exact hreadsOwn held state next readField
        · exact ih (by simpa [isText, isName] using hthere) hreading

include hknown in
/-- A reader finds a key that is not under a tag, since another one of its name would be
too many. -/
theorem entries_get? {m : Mapping} {seen seen' : List String} {state state' : σ} {value : Node}
    (hfound : m.get? name = some value)
    (hreading : entries (fieldKey fields) seen state m = .ok (state', seen')) :
    m.read? name = some value := by
  induction m generalizing seen state with
  | nil => cases hfound
  | cons entry rest ih =>
      obtain ⟨key, held⟩ := entry
      rw [Mapping.get?_cons] at hfound
      split at hfound
      · rename_i isName
        rw [Mapping.read?_cons, if_pos (Mapping.isKey_untag isName), hfound]
      · obtain ⟨text, isText, ⟨absent, hreading⟩ | ⟨field, next, inFields, _, _, hreading⟩⟩ :=
          entries_cons_cases hreading
        · have hdifferent : text ≠ name := by
            rintro rfl
            rw [hknown] at absent
            cases absent
          simpa [Mapping.read?_cons, isText, hdifferent] using ih hfound hreading
        · by_cases isName : text = name
          · subst isName
            have absent := entries_seen_absent hknown List.mem_cons_self hreading
            rw [Mapping.get?_eq_none_of_read? absent] at hfound
            cases hfound
          · simpa [Mapping.read?_cons, isText, isName] using ih hfound hreading

theorem entries_mem_seen {m : Mapping} {seen seen' : List String} {state state' : σ}
    (hfresh : name ∉ seen) (hreading : entries (fieldKey fields) seen state m = .ok (state', seen'))
    (hmember : name ∈ seen') : ∃ value, m.read? name = some value := by
  induction m generalizing seen state with
  | nil =>
      cases hreading
      exact absurd hmember hfresh
  | cons entry rest ih =>
      obtain ⟨key, held⟩ := entry
      obtain ⟨text, isText, ⟨_, hreading⟩ | ⟨field, next, _, _, _, hreading⟩⟩ :=
        entries_cons_cases hreading
      · obtain ⟨value, found⟩ := ih hfresh hreading
        rw [Mapping.read?_cons, found]
        split
        · exact ⟨held, rfl⟩
        · exact ⟨value, rfl⟩
      · by_cases isName : text = name
        · exact ⟨held, by simp [Mapping.read?_cons, isText, isName]⟩
        · obtain ⟨value, found⟩ := ih (by simp [hfresh, Ne.symm isName]) hreading
          exact ⟨value, by simp [Mapping.read?_cons, isText, isName, found]⟩

theorem untag_of_mapping? {node : Node} {m : Mapping} (hheld : node.mapping? = some m) :
    node.untag = .mapping m := by
  rw [Node.mapping?] at hheld
  split at hheld
  · rename_i entries isMapping
    rw [isMapping, Option.some.inj hheld]
  · cases hheld

theorem record_mapping (kind : String) (fields : List (Field σ)) (start : σ)
    (required : List String) (m : Mapping) :
    record kind fields start required (.mapping m) =
      ofEntries (fieldKey fields) start required m := rfl

theorem record_of_mapping? {node : Node} {m : Mapping} (hheld : node.mapping? = some m)
    (kind : String) (fields : List (Field σ)) (start : σ) (required : List String) :
    record kind fields start required node = record kind fields start required (.mapping m) := by
  rw [record_mapping, record, untag_of_mapping? hheld]

theorem record_eq_ok {kind : String} {start state : σ} {required : List String} {m : Mapping}
    (hreading : record kind fields start required (.mapping m) = .ok state) :
    ∃ seen, entries (fieldKey fields) [] start m = .ok (state, seen) ∧
      ∀ name ∈ required, name ∈ seen := by
  rw [record_mapping, ofEntries] at hreading
  obtain ⟨⟨after, seen⟩, readEntries, hreading⟩ := Except.bind_eq_ok.mp hreading
  simp only at hreading
  split at hreading
  · cases hreading
  · rename_i complete
    cases hreading
    exact ⟨seen, readEntries, by simpa using complete⟩

include hknown hreadsOwn hothers in
theorem record_found {kind : String} {start state : σ} {required : List String} {m : Mapping}
    {value : Node} (hthere : m.read? name = some value)
    (hreading : record kind fields start required (.mapping m) = .ok state) :
    reads value (part state) := by
  obtain ⟨seen, readEntries, _⟩ := record_eq_ok hreading
  exact entries_found part reads hknown hreadsOwn hothers hthere readEntries

include hknown hreadsOwn hothers in
theorem record_read {kind : String} {start state : σ} {required : List String} {m : Mapping}
    (hdefault : reads .null (part start))
    (hreading : record kind fields start required (.mapping m) = .ok state) :
    reads ((m.read? name).getD .null) (part state) := by
  cases found : m.read? name with
  | some value => exact record_found part reads hknown hreadsOwn hothers found hreading
  | none =>
      obtain ⟨seen, readEntries, _⟩ := record_eq_ok hreading
      rw [entries_absent part hothers found readEntries]
      exact hdefault

include hknown in
theorem record_get? {kind : String} {start state : σ} {required : List String} {m : Mapping}
    {value : Node} (hfound : m.get? name = some value)
    (hreading : record kind fields start required (.mapping m) = .ok state) :
    m.read? name = some value := by
  obtain ⟨seen, readEntries, _⟩ := record_eq_ok hreading
  exact entries_get? hknown hfound readEntries

theorem record_required {kind : String} {start state : σ} {required : List String} {m : Mapping}
    (hrequired : name ∈ required)
    (hreading : record kind fields start required (.mapping m) = .ok state) :
    ∃ value, m.read? name = some value := by
  obtain ⟨seen, readEntries, complete⟩ := record_eq_ok hreading
  exact entries_mem_seen List.not_mem_nil readEntries (complete name hrequired)

include hknown hreadsOwn hothers in
theorem record_field {kind : String} {start state : σ} {required : List String} {m : Mapping}
    (huntagged : ∀ entry ∈ m, entry.1.hasTag = false) (hdefault : reads .null (part start))
    (hreading : record kind fields start required (.mapping m) = .ok state) :
    reads ((m.get? name).getD .null) (part state) := by
  rw [← (Mapping.namesPlainly_of_untagged huntagged name).read?_eq]
  exact record_read part reads hknown hreadsOwn hothers hdefault hreading

end Projection

theorem field_read_eq_ok {σ α : Type} {name : String} {read : Reader α} {put : α → σ → σ}
    {node : Node} {state next : σ} (hreading : (field name read put).read node state = .ok next) :
    ∃ value, read node = .ok value ∧ next = put value state := by
  obtain ⟨value, readValue, rfl⟩ := Except.map_eq_ok.mp hreading
  exact ⟨value, readValue, rfl⟩

theorem field_keeps {σ α ρ : Type} {name : String} {read : Reader α} {put : α → σ → σ}
    {part : σ → ρ} (hkeeps : ∀ value state, part (put value state) = part state) (node : Node)
    (state next : σ) (hreading : (field name read put).read node state = .ok next) :
    part next = part state := by
  obtain ⟨value, _, rfl⟩ := field_read_eq_ok hreading
  exact hkeeps value state

end Reader

namespace Settings.Reading

theorem server_of_mapping? {node : Node} {m : Mapping} (hheld : node.mapping? = some m) :
    server node = server (.mapping m) :=
  Reader.record_of_mapping? hheld _ _ _ _

theorem connection_of_mapping? {node : Node} {m : Mapping} (hheld : node.mapping? = some m) :
    connection node = connection (.mapping m) :=
  Reader.record_of_mapping? hheld _ _ _ _

section

variable {m : Mapping} {read : Server} (hreading : server (.mapping m) = .ok read)

include hreading

theorem server_database_read :
    Reader.optional Reader.text ((m.read? Field.database).getD .null) = .ok read.database := by
  refine Reader.record_read Server.database
    (fun node database => Reader.optional Reader.text node = .ok database) rfl ?_ ?_ rfl hreading
  · intro node state next readField
    obtain ⟨value, readValue, rfl⟩ := Reader.field_read_eq_ok readField
    exact readValue
  · simp only [serverFields, List.forall_mem_cons]
    exact ⟨fun differs => absurd rfl differs, fun _ => Reader.field_keeps fun _ _ => rfl,
      fun _ => Reader.field_keeps fun _ _ => rfl, fun _ => Reader.field_keeps fun _ _ => rfl,
      by simp⟩

theorem server_connection_read :
    Reader.optional connection ((m.read? Field.connection).getD .null) = .ok read.connection := by
  refine Reader.record_read Server.connection
    (fun node found => Reader.optional connection node = .ok found) rfl ?_ ?_ rfl hreading
  · intro node state next readField
    obtain ⟨value, readValue, rfl⟩ := Reader.field_read_eq_ok readField
    exact readValue
  · simp only [serverFields, List.forall_mem_cons]
    exact ⟨fun _ => Reader.field_keeps fun _ _ => rfl, fun differs => absurd rfl differs,
      fun _ => Reader.field_keeps fun _ _ => rfl, fun _ => Reader.field_keeps fun _ _ => rfl,
      by simp⟩

theorem server_object_read :
    Reader.optional .ok ((m.read? Field.object).getD .null) = .ok read.object := by
  refine Reader.record_read Server.object
    (fun node object => Reader.optional .ok node = .ok object) rfl ?_ ?_ rfl hreading
  · intro node state next readField
    obtain ⟨value, readValue, rfl⟩ := Reader.field_read_eq_ok readField
    exact readValue
  · simp only [serverFields, List.forall_mem_cons]
    exact ⟨fun _ => Reader.field_keeps fun _ _ => rfl, fun _ => Reader.field_keeps fun _ _ => rfl,
      fun _ => Reader.field_keeps fun _ _ => rfl, fun differs => absurd rfl differs, by simp⟩

theorem server_object_get? {object : Node} (hown : m.get? Field.object = some object) :
    Reader.optional .ok object = .ok read.object := by
  have hfound : m.read? Field.object = some object := Reader.record_get? rfl hown hreading
  have hreadObject := server_object_read hreading
  rwa [hfound] at hreadObject

end

theorem connection_serverUri_read {m : Mapping} {read : Connection}
    (hreading : connection (.mapping m) = .ok read) :
    ∃ node, m.read? Field.serverUri = some node ∧ Reader.text node = .ok read.serverUri := by
  obtain ⟨node, there⟩ := Reader.record_required List.mem_cons_self hreading
  refine ⟨node, there, ?_⟩
  refine Reader.record_found Connection.serverUri (fun node uri => Reader.text node = .ok uri) rfl
    ?_ ?_ there hreading
  · intro node state next readField
    obtain ⟨value, readValue, rfl⟩ := Reader.field_read_eq_ok readField
    exact readValue
  · simp only [connectionFields, List.forall_mem_cons]
    exact ⟨fun differs => absurd rfl differs, fun _ => Reader.field_keeps fun _ _ => rfl,
      fun _ => Reader.field_keeps fun _ _ => rfl, fun _ => Reader.field_keeps fun _ _ => rfl,
      fun _ => Reader.field_keeps fun _ _ => rfl, by simp⟩

section

variable {m : Mapping} {read : Server} (huntagged : ∀ entry ∈ m, entry.1.hasTag = false)
  (hreading : server (.mapping m) = .ok read)

include huntagged hreading

theorem server_object :
    Reader.optional .ok ((m.get? Field.object).getD .null) = .ok read.object := by
  rw [← (Mapping.namesPlainly_of_untagged huntagged _).read?_eq]
  exact server_object_read hreading

theorem server_chosenStatistics :
    Reader.optional (Reader.list Reader.text) ((m.get? "chosen_statistics").getD .null) =
      .ok read.chosenStatistics := by
  refine Reader.record_field Server.chosenStatistics
    (fun node chosen => Reader.optional (Reader.list Reader.text) node = .ok chosen)
    rfl ?_ ?_ huntagged rfl hreading
  · intro node state next readField
    obtain ⟨value, readValue, rfl⟩ := Reader.field_read_eq_ok readField
    exact readValue
  · simp only [serverFields, List.forall_mem_cons]
    exact ⟨fun _ => Reader.field_keeps fun _ _ => rfl, fun _ => Reader.field_keeps fun _ _ => rfl,
      fun differs => absurd rfl differs, fun _ => Reader.field_keeps fun _ _ => rfl, by simp⟩

end

theorem settings_servers_read {m : Mapping} {read : Settings}
    (hreading : settings (.mapping m) = .ok read) :
    Reader.list server ((m.read? Field.ldapServers).getD .null) = .ok read.servers := by
  refine Reader.record_read Settings.servers
    (fun node servers => Reader.list server node = .ok servers) rfl ?_ ?_ rfl hreading
  · intro node state next readField
    obtain ⟨value, readValue, rfl⟩ := Reader.field_read_eq_ok readField
    exact readValue
  · simp only [settingsFields, List.forall_mem_cons]
    exact ⟨fun differs => absurd rfl differs, fun _ => Reader.field_keeps fun _ _ => rfl,
      fun _ => Reader.field_keeps fun _ _ => rfl, fun _ => Reader.field_keeps fun _ _ => rfl,
      fun _ => Reader.field_keeps fun _ _ => rfl, fun _ => Reader.field_keeps fun _ _ => rfl,
      fun _ => Reader.field_keeps fun _ _ => rfl, by simp⟩

theorem settings_servers {m : Mapping} {read : Settings}
    (huntagged : ∀ entry ∈ m, entry.1.hasTag = false)
    (hreading : settings (.mapping m) = .ok read) :
    Reader.list server ((m.get? Field.ldapServers).getD .null) = .ok read.servers := by
  rw [← (Mapping.namesPlainly_of_untagged huntagged _).read?_eq]
  exact settings_servers_read hreading

theorem settings_servers_items {tree : Node} {items : List Node} {read : Settings}
    (hlisted : (tree.field? Field.ldapServers).bind Node.sequence? = some items)
    (hreading : settings tree = .ok read) :
    List.Forall₂ (fun item found => server item = .ok found) items read.servers := by
  obtain ⟨servers, there, isList⟩ := Option.bind_eq_some_iff.mp hlisted
  obtain ⟨root, isRoot, there⟩ := Option.bind_eq_some_iff.mp there
  rw [settings, Reader.record_of_mapping? isRoot] at hreading
  have found : root.read? Field.ldapServers = some servers := Reader.record_get? rfl there hreading
  have hreadList := settings_servers_read hreading
  rw [found, Option.getD_some, Reader.list] at hreadList
  rw [Node.sequence?] at isList
  split at isList
  · rename_i items isSequence
    cases isList
    rw [isSequence] at hreadList
    exact Except.mapM_eq_ok.mp hreadList
  · cases isList

end Settings.Reading

theorem Settings.ofTree_eq_ok {tree : Node} {settings : Settings}
    (hreading : Settings.ofTree tree = .ok settings) : Reading.settings tree = .ok settings := by
  rw [ofTree] at hreading
  cases found : Reading.settings tree with
  | error mismatch =>
      rw [found] at hreading
      cases hreading
  | ok read =>
      rw [found] at hreading
      simp only [pure_bind] at hreading
      split at hreading
      · cases hreading
      · obtain ⟨_, _, returned⟩ := Except.bind_eq_ok.mp hreading
        cases returned
        rfl

end DirectoryMetrics
