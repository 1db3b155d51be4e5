import DirectoryMetrics.Proofs.Configuration.MetValues
import DirectoryMetrics.Proofs.Tree.FieldMaps

namespace DirectoryMetrics

theorem Node.untag_ne_tagged {tag : String} {content : Node} : ∀ node : Node,
    node.untag ≠ .tagged tag content
  | .tagged _ inner => untag_ne_tagged inner
  | .null | .bool _ | .int _ | .float _ | .text _ | .sequence _ | .mapping _ => Node.noConfusion

/-! Reading after a change. When the values of one field are changed, what is read is the same but
for what becomes of that field, unless reading meets a value that stops it. -/

/-- What is kept of two results is the same, unless something stops the first one. -/
def Follows {ε α β : Type} (stops : Prop) (keep : α → β) (x y : Except ε α) : Prop :=
  stops ∨ x.map keep = y.map keep

namespace Follows

variable {ε α β γ δ : Type} {stops stops' : Prop} {keep : α → β} {keep' : γ → δ} {x y : Except ε α}

theorem refl (x : Except ε α) : Follows stops keep x x := .inr rfl

theorem of_ok {a b : α} (hsame : keep a = keep b) :
    Follows stops keep (.ok a : Except ε α) (.ok b) :=
  .inr (congrArg Except.ok hsame)

theorem mono (hfollows : Follows stops keep x y) (himp : stops → stops') :
    Follows stops' keep x y :=
  hfollows.imp_left himp

theorem trans {z : Except ε α} (hfirst : Follows stops keep x y)
    (hsecond : Follows stops keep y z) :
    Follows stops keep x z := by
  rcases hfirst with hstops | hsame
  · exact .inl hstops
  · exact hsecond.imp_right hsame.trans

theorem bind {f g : α → Except ε γ} (hfirst : Follows stops keep x y)
    (hnext : ∀ a b, x = .ok a → keep a = keep b → Follows stops keep' (f a) (g b)) :
    Follows stops keep' (x >>= f) (y >>= g) := by
  rcases hfirst with hstops | hsame
  · exact .inl hstops
  · cases x with
    | error e =>
        cases y with
        | error e' =>
            cases hsame
            exact .refl _
        | ok b => cases hsame
    | ok a =>
        cases y with
        | error e' => cases hsame
        | ok b => exact hnext a b rfl (Except.ok.inj hsame)

theorem bind_same {x : Except ε δ} {f : δ → Except ε α} {g : δ → Except ε α}
    (hnext : ∀ a, x = .ok a → Follows stops keep (f a) (g a)) :
    Follows stops keep (x >>= f) (x >>= g) := by
  cases x with
  | error e => exact .refl _
  | ok a => exact hnext a rfl

theorem map {f g : α → γ} (hfirst : Follows stops keep x y)
    (hnext : ∀ a b, keep a = keep b → keep' (f a) = keep' (g b)) :
    Follows stops keep' (x.map f) (y.map g) := by
  have hbound := hfirst.bind fun a b _ hsame =>
    (.of_ok (hnext a b hsame) : Follows stops keep' (.ok (f a)) (.ok (g b)))
  cases x <;> cases y <;> exact hbound

end Follows

namespace Reader

section

variable {σ : Type} {held : Node → Prop} {keep : σ → σ} {name : String} {g : Node → Node}

/-- A field that is read from states of which the same is kept, and from a changed value if it is
the one whose values are changed. -/
def Field.Follows (held : Node → Prop) (keep : σ → σ) (name : String) (g : Node → Node)
    (field : Field σ) : Prop :=
  ∀ value state state', keep state = keep state' →
    (field.read value state).map keep = (field.read value state').map keep ∧
      (field.name = name → DirectoryMetrics.Follows (held value) keep (field.read value state)
        (field.read (g value) state'))

theorem field_follows {α β : Type} {field : String} {read : Reader α} {put : α → σ → σ}
    {keepValue : α → β} (put' : β → σ → σ)
    (hcommutes : ∀ value state, keep (put value state) = put' (keepValue value) (keep state))
    (hreads : field = name →
      ∀ value, Follows (held value) keepValue (read value) (read (g value))) :
    (Reader.field field read put).Follows held keep name g := by
  intro value state state' hsame
  have hputs (a b : α) (hvalues : keepValue a = keepValue b) :
      keep (put a state) = keep (put b state') := by
    rw [hcommutes, hcommutes, hvalues, hsame]
  refine ⟨?_, fun hname => (hreads hname value).map hputs⟩
  simp only [Reader.field, Except.map_map]
  exact congrArg (Except.map · (read value)) (funext fun a => hputs a a rfl)

theorem field_follows_of_ne {α : Type} {field : String} {read : Reader α} {put : α → σ → σ}
    (hne : field ≠ name)
    (hcommutes : ∀ value state, keep (put value state) = put value (keep state)) :
    (Reader.field field read put).Follows held keep name g :=
  field_follows put hcommutes fun hname => absurd hname hne

section

variable {fields : List (Field σ)} {keyOf : Reader (Option (Field σ))} (hkeys : KeysOf fields keyOf)
  (heach : ∀ field ∈ fields, field.Follows held keep name g)

include hkeys heach

theorem value_follows {key : Node} {field : Field σ} (hkey : keyOf key = .ok (some field))
    (value : Node) {state state' : σ} (hsame : keep state = keep state') :
    Follows (key.untag = .text name ∧ held value) keep (field.read value state)
      (field.read (if Mapping.isKey name key.untag then g value else value) state') := by
  have hfollows := heach field (hkeys.mem hkey) value state state' hsame
  split
  · rename_i hname
    rw [Mapping.isKey_iff] at hname
    exact (hfollows.2 (hkeys.name hkey hname)).mono fun hheld => ⟨hname, hheld⟩
  · exact .inr hfollows.1

theorem entries_follows (m : Mapping) (seen : List String) {state state' : σ}
    (hsame : keep state = keep state') :
    Follows (MeetsEntry keyOf name held seen state m) (Prod.map keep id)
      (entries keyOf seen state m)
      (entries keyOf seen state' (m.mapUnder (fun key => Mapping.isKey name key.untag) g)) := by
  induction m generalizing seen state state' with
  | nil => exact .of_ok (congrArg (fun kept => (kept, seen)) hsame)
  | cons entry rest ih =>
      obtain ⟨key, value⟩ := entry
      rw [Mapping.mapUnder_cons, entries, entries]
      refine .bind_same fun named hkey => ?_
      cases named with
      | none => exact (ih seen hsame).mono (.unknown hkey)
      | some field =>
          simp only []
          split
          · exact .refl _
          · rename_i hnew
            replace hnew : field.name ∉ seen := by simpa using hnew
            have hvalue := value_follows hkeys heach hkey value hsame
            refine (hvalue.mono fun hmet => .here hmet.1 hkey hnew hmet.2).bind ?_
            intro next next' hread hsame
            exact (ih _ hsame).mono (.known hkey hnew hread)

theorem ofEntries_follows (start : σ) (required : List String) (m : Mapping) :
    Follows (MeetsEntry keyOf name held [] start m) keep (ofEntries keyOf start required m)
      (ofEntries keyOf start required
        (m.mapUnder (fun key => Mapping.isKey name key.untag) g)) := by
  refine (entries_follows hkeys heach m [] (rfl : keep start = keep start)).bind ?_
  rintro ⟨state, seen⟩ ⟨state', seen'⟩ _ hboth
  obtain ⟨hsame, rfl⟩ : keep state = keep state' ∧ seen = seen' := Prod.mk.inj hboth
  simp only []
  split
  · exact .refl _
  · exact .of_ok hsame

/-- Among entries with changed values only those are met that are met before the change, unless it
is one of the changed values. -/
theorem MeetsEntry.of_mapUnder {other : String} {met : Node → Prop} (hne : other ≠ name)
    (m : Mapping) {seen : List String} {state state' : σ} (hsame : keep state = keep state')
    (hmeets : MeetsEntry keyOf other met seen state'
      (m.mapUnder (fun key => Mapping.isKey name key.untag) g)) :
    MeetsEntry keyOf name held seen state m ∨ MeetsEntry keyOf other met seen state m := by
  induction m generalizing seen state state' with
  | nil => cases hmeets
  | cons entry rest ih =>
      obtain ⟨key, value⟩ := entry
      rw [Mapping.mapUnder_cons] at hmeets
      cases hmeets with
      | here hother hkey hnew hmet =>
          have hnot : ¬Mapping.isKey name key.untag = true := by simpa [hother] using hne
          rw [if_neg hnot] at hmet
          exact .inr (.here hother hkey hnew hmet)
      | unknown hkey hrest => exact (ih hsame hrest).imp (.unknown hkey) (.unknown hkey)
      | known hkey hnew hread hrest =>
          rcases value_follows hkeys heach hkey value hsame with ⟨hname, hheld⟩ | hsame
          · exact .inl (.here hname hkey hnew hheld)
          · rw [hread] at hsame
            obtain ⟨next, hread, hsame⟩ := Except.map_eq_ok.mp hsame
            exact (ih hsame hrest).imp (.known hkey hnew hread) (.known hkey hnew hread)

end

variable {fields : List (Field σ)} (heach : ∀ field ∈ fields, field.Follows held keep name g)

include heach

theorem record_follows (kind : String) (start : σ) (required : List String) (node : Node) :
    Follows (MeetsField fields start name held node) keep (record kind fields start required node)
      (record kind fields start required (node.mapField name g)) := by
  rw [record, record, Node.mapField, Node.untag_mapMapping]
  cases hnode : node.untag with
  | mapping m =>
      exact (ofEntries_follows (fieldKey_keysOf fields) heach start required m).mono
        fun hmeets => ⟨m, hnode, hmeets⟩
  | tagged tag content => exact absurd hnode (Node.untag_ne_tagged node)
  | _ => exact .refl _

theorem plainRecord_follows (kind : String) (start : σ) (required : List String) {node : Node}
    (htags : node.hasTag = false) :
    Follows (MeetsPlainField fields start name held node) keep
      (plainRecord kind fields start required node)
      (plainRecord kind fields start required (node.mapField name g)) := by
  cases node with
  | mapping m =>
      exact (ofEntries_follows (plainKey_keysOf fields) heach start required m).mono
        fun hmeets => ⟨m, rfl, hmeets⟩
  | tagged tag content => simp [Node.hasTag] at htags
  | _ => exact .refl _

theorem MeetsField.of_mapField {other : String} {met : Node → Prop} {start : σ} {node : Node}
    (hne : other ≠ name) (hmeets : MeetsField fields start other met (node.mapField name g)) :
    MeetsField fields start name held node ∨ MeetsField fields start other met node := by
  obtain ⟨_, hnode, hmeets⟩ := hmeets
  rw [Node.mapField, Node.untag_mapMapping] at hnode
  cases huntag : node.untag with
  | mapping m =>
      rw [huntag] at hnode
      cases hnode
      exact (hmeets.of_mapUnder (fieldKey_keysOf fields) heach hne m rfl).imp (⟨m, huntag, ·⟩)
        (⟨m, huntag, ·⟩)
  | tagged tag content => exact absurd huntag (Node.untag_ne_tagged node)
  | _ =>
      rw [huntag] at hnode
      cases hnode

end

theorem optional_of_ne {α : Type} {read : Reader α} {node : Node} (hthere : node ≠ .null) :
    optional read node = (read node).map some := by
  cases node with
  | null => exact absurd rfl hthere
  | _ => rfl

section

variable {α β : Type} {held : Node → Prop} {keep : α → β} {read : Reader α} {g : Node → Node}
  (heach : ∀ node, Follows (held node) keep (read node) (read (g node)))

include heach

theorem items_follows (items : List Node) :
    Follows (MeetsItem read held items) (List.map keep) (items.mapM read)
      ((items.map g).mapM read) := by
  induction items with
  | nil => exact .refl _
  | cons item rest ih =>
      rw [List.map_cons, List.mapM_cons, List.mapM_cons]
      refine ((heach item).mono .here).bind fun value value' hread hsame => ?_
      refine (ih.mono (.read hread)).bind fun values values' _ hsames => .of_ok ?_
      rw [List.map_cons, List.map_cons, hsame, hsames]

theorem list_follows (node : Node) :
    Follows (MeetsListed read held node) (List.map keep) (list read node)
      (list read (node.mapItems g)) := by
  rw [list, list, Node.untag_mapItems]
  cases hnode : node.untag with
  | sequence items => exact (items_follows heach items).mono fun hmeets => ⟨items, hnode, hmeets⟩
  | tagged tag content => exact absurd hnode (Node.untag_ne_tagged node)
  | _ => exact .refl _

theorem optional_follows (hnull : ∀ node, g node = .null ↔ node = .null) (node : Node) :
    Follows (held node) (Option.map keep) (optional read node) (optional read (g node)) := by
  have hsome : Follows (held node) (Option.map keep) ((read node).map some)
      ((read (g node)).map some) :=
    (heach node).map fun a b hsame => congrArg some hsame
  by_cases hnode : node = .null
  · rw [(hnull node).mpr hnode, hnode]
    exact .refl _
  · rwa [optional_of_ne hnode, optional_of_ne fun hnull' => hnode ((hnull node).mp hnull')]

end

section

variable {α β κ : Type} {stops : Prop} {keep : α → β} {g : Node → Node} {name content : String}
  (hne : name ≠ content)

theorem nextOf_mapUnder (first second changed : String) (m : Mapping) :
    nextOf first second (m.mapUnder (fun key => Mapping.isKey changed key.untag) g) =
      (nextOf first second m).map (Option.map fun (found, value, rest) =>
        (found, if found = changed then g value else value,
          Mapping.mapUnder (fun key => Mapping.isKey changed key.untag) g rest)) := by
  induction m with
  | nil => rfl
  | cons entry rest ih =>
      obtain ⟨key, value⟩ := entry
      rw [Mapping.mapUnder_cons, nextOf, nextOf]
      cases key.untag with
      | text text =>
          simp only [Mapping.isKey_text, beq_iff_eq]
          split
          · rfl
          · exact ih
      | _ => rfl

theorem nextOf_eq_some {first second found : String} {m : Mapping} {rest : Node × Mapping}
    (hnext : nextOf first second m = .ok (some (found, rest))) :
    found = first ∨ found = second := by
  induction m with
  | nil => cases hnext
  | cons entry later ih =>
      obtain ⟨key, value⟩ := entry
      rw [nextOf] at hnext
      split at hnext
      · split at hnext
        · rename_i isOne
          cases hnext
          exact isOne
        · exact ih hnext
      · cases hnext

include hne in
theorem nextOf_follows {f f' : Option (String × Node × Mapping) → Except Mismatch α} (m : Mapping)
    (habsent : Follows stops keep (f none) (f' none))
    (hnamed : ∀ value rest, nextOf name content m = .ok (some (name, value, rest)) →
      Follows stops keep (f (some (name, value, rest))) (f' (some (name, value,
        Mapping.mapUnder (fun key => Mapping.isKey content key.untag) g rest))))
    (hheld : ∀ value rest, nextOf name content m = .ok (some (content, value, rest)) →
      Follows stops keep (f (some (content, value, rest))) (f' (some (content, g value,
        Mapping.mapUnder (fun key => Mapping.isKey content key.untag) g rest)))) :
    Follows stops keep (nextOf name content m >>= f)
      (nextOf name content (m.mapUnder (fun key => Mapping.isKey content key.untag) g) >>= f') := by
  rw [nextOf_mapUnder, Except.map_bind]
  refine .bind_same fun found hnext => ?_
  cases found with
  | none => exact habsent
  | some found =>
      obtain ⟨first, value, rest⟩ := found
      rcases nextOf_eq_some hnext with rfl | rfl
      · simpa only [Option.map_some, if_neg hne] using hnamed value rest hnext
      · simpa only [Option.map_some, if_pos] using hheld value rest hnext

theorem finish_follows {x y : Except Mismatch α} (hfollows : Follows stops keep x y)
    (rest : Mapping) :
    Follows stops keep (x >>= fun a => adjacent.finish name content a rest)
      (y >>= fun b => adjacent.finish name content b
        (rest.mapUnder (fun key => Mapping.isKey content key.untag) g)) := by
  refine hfollows.bind fun a b _ hsame => ?_
  rw [adjacent.finish, adjacent.finish, nextOf_mapUnder]
  cases nextOf name content rest with
  | error e => exact .refl _
  | ok found =>
      cases found with
      | none => exact .of_ok hsame
      | some found => exact .refl _

include hne in
theorem adjacent_follows {readName : Reader κ} {read : Bool → κ → Reader α}
    {held : Bool → κ → Node → Prop} (kind : String)
    (htags : ∀ value, (g value).hasTag = value.hasTag)
    (hreads : ∀ buffered variant value, buffered = false ∨ value.hasTag = false →
      Follows (held buffered variant value) keep (read buffered variant value)
        (read buffered variant (g value)))
    (node : Node) :
    Follows (MeetsContent name content readName held node) keep
      (adjacent kind name content readName read node)
      (adjacent kind name content readName read (node.mapField content g)) := by
  rw [adjacent, adjacent, Node.mapField, Node.untag_mapMapping]
  cases hnode : node.untag with
  | tagged tag content => exact absurd hnode (Node.untag_ne_tagged node)
  | mapping m =>
      simp only [Node.mapMapping, pure_bind]
      refine nextOf_follows hne m (.refl _) (fun value rest hname => ?_) fun value rest hfirst => ?_
      · simp only [if_pos]
        refine .bind_same fun variant hread =>
          nextOf_follows hne rest (.refl _) (fun again rest _ => ?_) fun value rest hcontent => ?_
        · simp only [if_pos]
          exact .refl _
        · simp only [if_neg hne.symm]
          exact finish_follows ((hreads false variant value (.inl rfl)).mono
            (.after hnode hname hread hcontent)) rest
      · simp only [if_neg hne.symm, htags]
        split
        · exact .refl _
        · rename_i hplain
          replace hplain : value.hasTag = false := by simpa using hplain
          refine nextOf_follows hne rest (.refl _)
            (fun later rest hname => ?_) fun again rest _ => ?_
          · simp only [if_neg hne]
            exact .bind_same fun variant hread =>
              finish_follows ((hreads true variant value (.inr hplain)).mono
                (.before hnode hfirst hplain hname hread)) rest
          · simp only [if_pos]
            exact .refl _
  | _ => exact .refl _

end

end Reader

namespace Settings

variable {keepServer : Server → Server}
  (hchecks : ∀ server, checkUri (keepServer server) = checkUri server)

include hchecks

theorem forM_checkUri_map (servers : List Server) :
    (servers.map keepServer).forM checkUri = servers.forM checkUri := by
  induction servers with
  | nil => rfl
  | cons server rest ih => rw [List.map_cons, List.forM, List.forM, hchecks, ih]

/-- Settings are checked after they are read; what is kept of them must be enough for that. -/
theorem ofTree_follows {stops : Prop} {keep : Settings → Settings} {tree changed : Node}
    (hreads : Follows stops keep (Reading.settings tree) (Reading.settings changed))
    (hperiods : ∀ settings, (keep settings).period = settings.period)
    (hservers : ∀ settings, (keep settings).servers = settings.servers.map keepServer) :
    Follows stops keep (ofTree tree) (ofTree changed) := by
  refine hreads.imp_right fun hsame => ?_
  rw [ofTree, ofTree]
  cases hfirst : Reading.settings tree with
  | error mismatch =>
      rw [hfirst] at hsame
      rw [Except.map_eq_error.mp hsame.symm]
  | ok settings =>
      rw [hfirst] at hsame
      obtain ⟨settings', hsecond, hkept⟩ := Except.map_eq_ok.mp hsame.symm
      have hperiod : settings.period = settings'.period := by
        rw [← hperiods settings, ← hkept, hperiods]
      have hchecked : settings.servers.forM checkUri = settings'.servers.forM checkUri := by
        rw [← forM_checkUri_map hchecks settings.servers, ← hservers, ← hkept, hservers,
          forM_checkUri_map hchecks]
      rw [hsecond]
      simp only [pure_bind, hperiod, hchecked]
      split
      · rfl
      · cases settings'.servers.forM checkUri with
        | error e => rfl
        | ok _ => exact congrArg Except.ok hkept.symm

end Settings

end DirectoryMetrics
