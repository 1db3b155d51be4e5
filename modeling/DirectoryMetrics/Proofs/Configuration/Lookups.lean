import DirectoryMetrics.Proofs.Metrics.Sorted
import DirectoryMetrics.Proofs.Tree.Expansion
import DirectoryMetrics.Proofs.Tree.ListedServers

namespace DirectoryMetrics

namespace Lookup

theorem mem_insert {lookup other : Lookup} {sorted : List Lookup} :
    other ∈ lookup.insert sorted ↔ other = lookup ∨ other ∈ sorted := by
  induction sorted with
  | nil => simp [insert]
  | cons l rest ih =>
      rw [insert]
      split
      · rename_i same
        subst same
        simp
      · split
        · rw [List.mem_cons]
        · rw [List.mem_cons, ih, List.mem_cons, or_left_comm]

theorem mem_foldl_insert {other : Lookup} {all sorted : List Lookup} :
    other ∈ all.foldl (fun sorted lookup => lookup.insert sorted) sorted ↔
      other ∈ all ∨ other ∈ sorted := by
  induction all generalizing sorted with
  | nil => simp
  | cons lookup rest ih =>
    rw [List.foldl_cons, ih, mem_insert, List.mem_cons, or_left_comm, or_assoc]

theorem before_iff {a b : Lookup} :
    a.before b = true ↔ a.database < b.database ∨ a.database = b.database ∧
      (a.dn < b.dn ∨ a.dn = b.dn ∧ a.attributeName < b.attributeName) := by
  rw [before]
  split
  · rename_i same
    split
    · rename_i sameDn
      simp [same, sameDn]
    · rename_i differs
      simp [same, differs]
  · rename_i differs
    simp [differs]

theorem before_strict : Sorted.Strict before where
  irrefl a := by simp [before]
  trans a b c first second := by
    rw [before_iff] at first second ⊢
    rcases first with less | ⟨same, first⟩
    · rcases second with less' | ⟨same', _⟩
      · exact .inl (lt_trans less less')
      · exact .inl (same' ▸ less)
    · rcases second with less' | ⟨same', second⟩
      · exact .inl (same ▸ less')
      · refine .inr ⟨same.trans same', ?_⟩
        rcases first with less | ⟨sameDn, first⟩
        · rcases second with less' | ⟨sameDn', _⟩
          · exact .inl (lt_trans less less')
          · exact .inl (sameDn' ▸ less)
        · rcases second with less' | ⟨sameDn', second⟩
          · exact .inl (sameDn ▸ less')
          · exact .inr ⟨sameDn.trans sameDn', lt_trans first second⟩
  total a b different notBefore := by
    rw [← Bool.not_eq_true, before_iff] at notBefore
    rw [before_iff]
    rcases lt_trichotomy a.database b.database with less | same | more
    · exact absurd (.inl less) notBefore
    · refine .inr ⟨same.symm, ?_⟩
      rcases lt_trichotomy a.dn b.dn with less | sameDn | more
      · exact absurd (.inr ⟨same, .inl less⟩) notBefore
      · refine .inr ⟨sameDn.symm, ?_⟩
        rcases lt_trichotomy a.attributeName b.attributeName with less | sameName | more
        · exact absurd (.inr ⟨same, .inr ⟨sameDn, less⟩⟩) notBefore
        · cases a
          cases b
          cases same
          cases sameDn
          cases sameName
          exact absurd rfl different
        · exact more
      · exact .inl more
    · exact .inl more

theorem insert_ascending (lookup : Lookup) {sorted : List Lookup}
    (hascending : sorted.Pairwise fun a b => a.before b = true) :
    (lookup.insert sorted).Pairwise fun a b => a.before b = true := by
  induction sorted with
  | nil => exact List.pairwise_singleton _ _
  | cons l rest ih =>
      rw [List.pairwise_cons] at hascending
      rw [insert]
      split
      · exact List.pairwise_cons.mpr hascending
      · rename_i different
        split
        · rename_i less
          refine List.pairwise_cons.mpr ⟨fun other member => ?_, List.pairwise_cons.mpr hascending⟩
          rcases List.mem_cons.mp member with rfl | later
          · exact less
          · exact before_strict.trans _ _ _ less (hascending.1 other later)
        · rename_i notLess
          refine List.pairwise_cons.mpr ⟨fun other member => ?_, ih hascending.2⟩
          rcases mem_insert.mp member with rfl | later
          · exact before_strict.total _ _ different (by simpa using notLess)
          · exact hascending.1 other later

theorem foldl_insert_ascending {all sorted : List Lookup}
    (hascending : sorted.Pairwise fun a b => a.before b = true) :
    (all.foldl (fun sorted lookup => lookup.insert sorted) sorted).Pairwise
      fun a b => a.before b = true := by
  induction all generalizing sorted with
  | nil => exact hascending
  | cons lookup rest ih => exact ih (insert_ascending lookup hascending)

end Lookup

namespace Placeholder

variable {values : Values} {tree : Node} {root : Mapping} {servers : List Node}
  {needed : List Lookup}

def IsNamed (tree : Node) (server : String) (m : Mapping) (metric : String) : Prop :=
  ∃ entry ∈ tree.serverEntries, entry.serverName? = some server ∧
    ∃ object, entry.get? Field.object = some object ∧ m ∈ object.mappings ∧
      m.text? Field.metricName = some metric

theorem mem_nodeLookups {server : String} {m : Mapping} {asked : List Lookup}
    (hasking : nodeLookups server m = .ok asked) {lookup : Lookup} :
    lookup ∈ asked ↔ ∃ metric found name, m.text? Field.metricName = some metric ∧
      Segment.split? metric.toList = some found ∧ .placeholder name ∈ found ∧
      ¬(name = database ∨ name = []) ∧ lookup = ⟨server, computedDn m, String.ofList name⟩ := by
  rw [nodeLookups] at hasking
  cases named : m.text? Field.metricName with
  | none =>
      rw [named] at hasking
      cases hasking
      simp
  | some metric =>
      simp only [named] at hasking
      obtain ⟨found, split, returned⟩ := Except.bind_eq_ok.mp hasking
      cases returned
      have split := segments_eq_ok.mp split
      simp only [Option.some.injEq, exists_and_left, exists_eq_left', split, List.mem_filterMap]
      constructor
      · rintro ⟨segment, member, asked⟩
        cases segment with
        | literal text => cases asked
        | placeholder name =>
            simp only at asked
            split at asked
            · cases asked
            · rename_i needed
              cases asked
              exact ⟨name, member, needed, rfl⟩
      · rintro ⟨name, member, needed, rfl⟩
        exact ⟨.placeholder name, member, if_neg needed⟩

theorem nodeLookups_split {server : String} {m : Mapping} {asked : List Lookup}
    (hasking : nodeLookups server m = .ok asked) {metric : String}
    (hnamed : m.text? Field.metricName = some metric) :
    ∃ found, Segment.split? metric.toList = some found := by
  simp only [nodeLookups, hnamed] at hasking
  obtain ⟨found, split, _⟩ := Except.bind_eq_ok.mp hasking
  exact ⟨found, segments_eq_ok.mp split⟩

theorem serverLookups_nodes {entry : Mapping} {asked : List Lookup}
    (hasking : serverLookups entry = .ok asked) {server : String} {object : Node}
    (hnamed : entry.serverName? = some server) (hown : entry.get? Field.object = some object) :
    (∀ m ∈ object.mappings, ∃ part, nodeLookups server m = .ok part) ∧
      ∀ lookup, lookup ∈ asked ↔
        ∃ m ∈ object.mappings, ∃ part, nodeLookups server m = .ok part ∧ lookup ∈ part := by
  rw [serverLookups, hnamed, hown] at hasking
  obtain ⟨parts, each, returned⟩ := Except.bind_eq_ok.mp hasking
  cases returned
  refine ⟨forall_mem_left_of_forall₂ ((Except.mapM_eq_ok.mp each).imp fun _ part eq => ⟨part, eq⟩),
    fun lookup => ?_⟩
  exact Except.mem_flatten_of_mapM each

theorem serverLookups_named {entry : Mapping} {asked : List Lookup}
    (hasking : serverLookups entry = .ok asked) {lookup : Lookup} (hmember : lookup ∈ asked) :
    ∃ server object, entry.serverName? = some server ∧ entry.get? Field.object = some object := by
  rw [serverLookups] at hasking
  split at hasking
  · rename_i server object named own
    exact ⟨server, object, named, own⟩
  · cases hasking
    cases hmember

theorem lookups_servers (hasking : lookups tree = .ok needed) :
    (∀ entry ∈ tree.serverEntries, ∃ asked, serverLookups entry = .ok asked) ∧
      ∀ lookup, lookup ∈ needed ↔
        ∃ entry ∈ tree.serverEntries, ∃ asked, serverLookups entry = .ok asked ∧
          lookup ∈ asked := by
  obtain ⟨all, each, returned⟩ := Except.bind_eq_ok.mp hasking
  cases returned
  refine ⟨forall_mem_left_of_forall₂
    ((Except.mapM_eq_ok.mp each).imp fun _ asked eq => ⟨asked, eq⟩),
    fun lookup => ?_⟩
  rw [Lookup.mem_foldl_insert, Except.mem_flatten_of_mapM each]
  simp

theorem lookups_ascending (hasking : lookups tree = .ok needed) :
    needed.Pairwise fun a b => a.before b = true := by
  obtain ⟨all, _, returned⟩ := Except.bind_eq_ok.mp hasking
  cases returned
  exact Lookup.foldl_insert_ascending .nil

theorem lookups_split (hasking : lookups tree = .ok needed) {server : String} {m : Mapping}
    {metric : String} (hnamed : IsNamed tree server m metric) :
    ∃ found, Segment.split? metric.toList = some found := by
  obtain ⟨entry, isEntry, named, object, own, inside, metricNamed⟩ := hnamed
  obtain ⟨asked, askingServer⟩ := (lookups_servers hasking).1 entry isEntry
  obtain ⟨part, askingNode⟩ := (serverLookups_nodes askingServer named own).1 m inside
  exact nodeLookups_split askingNode metricNamed

theorem mem_lookups (hasking : lookups tree = .ok needed) {lookup : Lookup} :
    lookup ∈ needed ↔ ∃ server m metric found name, IsNamed tree server m metric ∧
      Segment.split? metric.toList = some found ∧ .placeholder name ∈ found ∧
      ¬(name = database ∨ name = []) ∧ lookup = ⟨server, computedDn m, String.ofList name⟩ := by
  rw [(lookups_servers hasking).2]
  constructor
  · rintro ⟨entry, isEntry, asked, askingServer, member⟩
    obtain ⟨server, object, named, own⟩ := serverLookups_named askingServer member
    obtain ⟨m, inside, part, askingNode, member⟩ :=
      ((serverLookups_nodes askingServer named own).2 lookup).mp member
    obtain ⟨metric, found, name, metricNamed, rest⟩ := (mem_nodeLookups askingNode).mp member
    exact ⟨server, m, metric, found, name,
      ⟨entry, isEntry, named, object, own, inside, metricNamed⟩, rest⟩
  · rintro ⟨server, m, metric, found, name,
      ⟨entry, isEntry, named, object, own, inside, metricNamed⟩, rest⟩
    obtain ⟨asked, askingServer⟩ := (lookups_servers hasking).1 entry isEntry
    have hnodes := serverLookups_nodes askingServer named own
    obtain ⟨part, askingNode⟩ := hnodes.1 m inside
    refine ⟨entry, isEntry, asked, askingServer, ?_⟩
    rw [hnodes.2]
    exact ⟨m, inside, part, askingNode,
      (mem_nodeLookups askingNode).mpr ⟨metric, found, name, metricNamed, rest⟩⟩

end Placeholder

namespace Placeholder

variable {values : Values} {tree : Node} {root : Mapping} {servers : List Node}
  {needed : List Lookup}

theorem resolveServer_isOk_iff {entry : Mapping} :
    (∃ resolved, resolveServer values entry = .ok resolved) ↔
      ∀ server object m metric, entry.serverName? = some server →
        entry.get? Field.object = some object → m ∈ object.mappings →
        m.text? Field.metricName = some metric →
        ∃ name, expand values metric server (computedDn m) = .ok name := by
  rw [resolveServer]
  cases entry.serverName? with
  | none => simp
  | some server =>
      simp only [Mapping.modify_eq]
      cases entry.get? Field.object with
      | none => simp
      | some object =>
          have hvisits := Node.walk_isOk_iff (visit_separate values server) object
          simp only [visit_isOk_iff] at hvisits
          simp only [Except.map_eq_ok, Option.some.injEq]
          constructor
          · rintro ⟨_, walked, walking, _⟩ _ _ m metric rfl rfl inside
            exact hvisits.mp ⟨walked, walking⟩ m inside metric
          · intro each
            obtain ⟨walked, walking⟩ :=
              hvisits.mpr fun m inside metric => each _ _ m metric rfl rfl inside
            exact ⟨_, walked, walking, rfl⟩

theorem resolveServer_eq_error {entry : Mapping} {error : ConfigError}
    (hfailing : resolveServer values entry = .error error) :
    ∃ server object m metric, entry.serverName? = some server ∧
      entry.get? Field.object = some object ∧ m ∈ object.mappings ∧
      m.text? Field.metricName = some metric ∧
      expand values metric server (computedDn m) = .error error := by
  rw [resolveServer] at hfailing
  cases named : entry.serverName? with
  | none =>
      rw [named] at hfailing
      cases hfailing
  | some server =>
      simp only [named, Mapping.modify_eq] at hfailing
      cases own : entry.get? Field.object with
      | none =>
          rw [own] at hfailing
          cases hfailing
      | some object =>
          rw [own, Except.map_eq_error] at hfailing
          obtain ⟨m, inside, failed⟩ :=
            Node.walkWithin_eq_error (visit_separate values server) hfailing
          obtain ⟨metric, metricNamed, failed⟩ := visit_eq_error failed
          exact ⟨server, object, m, metric, rfl, rfl, inside, metricNamed, failed⟩

theorem resolve_isOk_iff (hroot : tree.mapping? = some root)
    (hlisted : root.get? Field.ldapServers = some (.sequence servers)) :
    (∃ resolved, resolve values tree = .ok resolved) ↔
      ∀ server m metric, IsNamed tree server m metric →
        ∃ name, expand values metric server (computedDn m) = .ok name := by
  rw [resolve, Node.mapRoot_mapServers_isOk_iff hroot,
    ← Node.serverEntries_eq_listedServers ((Node.field?_of_mapping? hroot _).trans hlisted)]
  simp only [resolveServer_isOk_iff]
  constructor
  · rintro each server m metric ⟨entry, isEntry, named, object, own, inside, metricNamed⟩
    exact each entry isEntry server object m metric named own inside metricNamed
  · intro each entry isEntry server object m metric named own inside metricNamed
    exact each server m metric ⟨entry, isEntry, named, object, own, inside, metricNamed⟩

theorem resolve_eq_error (hroot : tree.mapping? = some root)
    (hlisted : root.get? Field.ldapServers = some (.sequence servers)) {error : ConfigError}
    (hfailing : resolve values tree = .error error) :
    ∃ server m metric, IsNamed tree server m metric ∧
      expand values metric server (computedDn m) = .error error := by
  obtain ⟨entry, isEntry, failed⟩ := Node.mapRoot_mapServers_eq_error hroot hfailing
  rw [← Node.serverEntries_eq_listedServers ((Node.field?_of_mapping? hroot _).trans hlisted)]
    at isEntry
  obtain ⟨server, object, m, metric, named, own, inside, metricNamed, failed⟩ :=
    resolveServer_eq_error failed
  exact ⟨server, m, metric, ⟨entry, isEntry, named, object, own, inside, metricNamed⟩, failed⟩

/-- Is there nothing between the braces of some placeholder? -/
def hasBlank (metric : String) : Bool :=
  match Segment.split? metric.toList with
  | some found => found.contains (.placeholder [])
  | none => false

theorem hasBlank_eq_false {metric : String} {found : List Segment}
    (hsplit : Segment.split? metric.toList = some found) :
    hasBlank metric = false ↔ .placeholder [] ∉ found := by
  rw [hasBlank, hsplit]
  simp

/-- Where only what is asked for has a value, a name expands exactly if all that it asks for has
one and it has no blank. -/
theorem expand_isOk_iff_of_lookups (hasking : lookups tree = .ok needed)
    (hknown : ∀ entry ∈ values, entry.1 ∈ needed) (server : String) (m : Mapping) {metric : String}
    {found : List Segment} (hsplit : Segment.split? metric.toList = some found) :
    (∃ name, expand values metric server (computedDn m) = .ok name) ↔
      (∀ name, .placeholder name ∈ found → ¬(name = database ∨ name = []) →
        (values.lookup ⟨server, computedDn m, String.ofList name⟩).isSome = true) ∧
        hasBlank metric = false := by
  rw [expand_isOk_iff hsplit, hasBlank_eq_false hsplit]
  constructor
  · intro texts
    refine ⟨fun name inside free => ?_, fun blank => ?_⟩
    · have text := texts _ inside
      rw [not_or] at free
      rwa [segmentText?, if_neg free.1, Option.isSome_map] at text
    · have text := texts _ blank
      rw [segmentText?, if_neg (by decide), Option.isSome_map, List.lookup_isSome_iff] at text
      obtain ⟨entry, inValues, isKey⟩ := text
      have hasked := hknown entry inValues
      rw [← eq_of_beq isKey, mem_lookups hasking] at hasked
      obtain ⟨_, _, _, _, name, _, _, _, free, same⟩ := hasked
      rw [Lookup.mk.injEq, String.ofList_inj] at same
      exact free (.inr same.2.2.symm)
  · rintro ⟨complete, filled⟩ segment inside
    cases segment with
    | literal text => rfl
    | placeholder name =>
        rw [segmentText?]
        split
        · rfl
        · rename_i notDatabase
          rw [Option.isSome_map]
          refine complete name inside ?_
          rintro (isDatabase | rfl)
          · exact notDatabase isDatabase
          · exact filled inside

/-- Values of the lookups that a configuration asks for expand its names exactly if none of them is
missing and no placeholder is blank; otherwise a placeholder is unresolved. -/
theorem resolve_of_lookups (hroot : tree.mapping? = some root)
    (hlisted : root.get? Field.ldapServers = some (.sequence servers))
    (hasking : lookups tree = .ok needed) (hknown : ∀ entry ∈ values, entry.1 ∈ needed) :
    ((∃ resolved, resolve values tree = .ok resolved) ↔
      (∀ lookup ∈ needed, (values.lookup lookup).isSome = true) ∧
        ∀ server m metric, IsNamed tree server m metric → hasBlank metric = false) ∧
      ∀ error, resolve values tree = .error error →
        ∃ metric placeholder, error = .unresolvedPlaceholder metric placeholder := by
  refine ⟨?_, fun error failing => ?_⟩
  · rw [resolve_isOk_iff hroot hlisted]
    constructor
    · intro expands
      refine ⟨fun lookup member => ?_, fun server m metric isNamed => ?_⟩
      · obtain ⟨server, m, metric, found, name, isNamed, split, inside, free, rfl⟩ :=
          (mem_lookups hasking).mp member
        have heach := expand_isOk_iff_of_lookups hasking hknown server m split
        exact (heach.mp (expands server m metric isNamed)).1 name inside free
      · obtain ⟨found, split⟩ := lookups_split hasking isNamed
        have heach := expand_isOk_iff_of_lookups hasking hknown server m split
        exact (heach.mp (expands server m metric isNamed)).2
    · rintro ⟨complete, filled⟩ server m metric isNamed
      obtain ⟨found, split⟩ := lookups_split hasking isNamed
      refine (expand_isOk_iff_of_lookups hasking hknown server m split).mpr
        ⟨fun name inside free => ?_, filled server m metric isNamed⟩
      exact complete _ ((mem_lookups hasking).mpr
        ⟨server, m, metric, found, name, isNamed, split, inside, free, rfl⟩)
  · obtain ⟨server, m, metric, isNamed, failed⟩ := resolve_eq_error hroot hlisted failing
    obtain ⟨found, split⟩ := lookups_split hasking isNamed
    obtain ⟨name, eq⟩ := expand_eq_error split failed
    exact ⟨metric, name, eq⟩

def operations : Mapping :=
  [(.text "metric_name", .text "$\x7bdatabase\x7d/$\x7b cn \x7d/operations"),
    (.text "computed_dn", .text "cn=Monitor")]

def monitored : Mapping :=
  [(.text "ldap_servers", .sequence
      [.mapping [(.text "database", .text "main"), (.text "object", .mapping operations)]])]

theorem monitored_expansion :
    (Node.mapping monitored).mapping? = some monitored ∧
      lookups (.mapping monitored) = .ok [⟨"main", "cn=Monitor", "cn"⟩] ∧
      (∃ resolved,
        resolve [(⟨"main", "cn=Monitor", "cn"⟩, "Monitor")] (.mapping monitored) = .ok resolved) ∧
      ∃ metric placeholder,
        resolve [] (.mapping monitored) = .error (.unresolvedPlaceholder metric placeholder) := by
  have hasking : lookups (.mapping monitored) = .ok [⟨"main", "cn=Monitor", "cn"⟩] := by rfl
  refine ⟨rfl, hasking, ?_, ?_⟩
  · refine (resolve_of_lookups rfl rfl hasking (by decide)).1.mpr ⟨by decide +kernel, ?_⟩
    rintro server m metric ⟨entry, isEntry, _, object, own, inside, named⟩
    cases List.mem_singleton.mp isEntry
    cases own
    cases List.mem_singleton.mp inside
    cases named
    decide +kernel
  · have hnothing :
        ∀ entry ∈ ([] : Values), entry.1 ∈ [(⟨"main", "cn=Monitor", "cn"⟩ : Lookup)] := by
      simp
    have hmissing := resolve_of_lookups rfl rfl hasking hnothing
    cases resolving : resolve [] (.mapping monitored) with
    | ok resolved =>
        have hcomplete := (hmissing.1.mp ⟨resolved, resolving⟩).1 _ (List.mem_singleton.mpr rfl)
        cases hcomplete
    | error error =>
        obtain ⟨metric, placeholder, rfl⟩ := hmissing.2 error resolving
        exact ⟨metric, placeholder, rfl⟩

end Placeholder

end DirectoryMetrics
