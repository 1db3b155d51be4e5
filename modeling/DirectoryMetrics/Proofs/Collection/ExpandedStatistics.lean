import DirectoryMetrics.Proofs.Collection.PreparedStatistics
import DirectoryMetrics.Proofs.Configuration.NameHierarchy
import DirectoryMetrics.Proofs.Tree.ServerEntries

namespace DirectoryMetrics

/-! Statistics and the expansion of names. A statistic stays bound to what it is bound to and gets
the name that its own name stands for, but a node whose name stands for an empty text has no
statistic any more. -/

/-- The statistics that the nodes of an object tree are bound to, parents before children. -/
def boundStatistics (object : Option Node) : List Statistic :=
  ((object.map Node.mappings).getD []).filterMap (StatisticDescent.compiled.gather ())

/-- The statistics that an object tree is compiled to are those that its nodes are bound to. -/
theorem Compiler.statistics_eq_ok {database : String} {object : Option Node}
    {found : List Statistic} (hcompiling : Compiler.statistics database object = .ok found) :
    found = boundStatistics object :=
  Compiler.statisticsFrom_eq_ok hcompiling

theorem boundStatistics_optional {node : Node} {object : Option Node}
    (hreading : Reader.optional .ok node = .ok object) :
    boundStatistics object = boundStatistics (some node) := by
  rw [boundStatistics, StatisticDescent.optional_mappings hreading]
  rfl

namespace StatisticDescent

theorem statistic?_rename {dn name : String} (hnamed : name.isEmpty = false) (other : String)
    (m : Mapping) :
    statistic? ⟨dn, other⟩ m =
      (statistic? ⟨dn, name⟩ m).bind fun s =>
        if other.isEmpty then none else some { s with metricName := other } := by
  rw [statistic?, statistic?]
  split
  · rw [hnamed, if_neg Bool.false_ne_true]
    cases aggregation? m with
    | none => simp
    | some aggregation => rfl
  · rfl

theorem dn_of_statistic? {above : Above} {m : Mapping} {s : Statistic}
    (hfound : statistic? above m = some s) :
    s.dn = above.dn ∧ s.metricName = above.name ∧ above.name.isEmpty = false := by
  rw [statistic?] at hfound
  split at hfound
  · split at hfound
    · cases hfound
    · rename_i named
      obtain ⟨aggregation, _, rfl⟩ := Option.map_eq_some_iff.mp hfound
      exact ⟨rfl, rfl, by simpa using named⟩
  · cases hfound

theorem compiled_gather_eq (m : Mapping) :
    compiled.gather () m =
      (m.text? Field.computedDn).bind fun dn => statistic? ⟨dn, Lineage.metricName m⟩ m := by
  rw [compiled_gather]
  refine congrArg (Option.bind _) (funext fun dn => ?_)
  rw [Mapping.nonempty?, Lineage.metricName]
  cases m.text? Field.metricName with
  | none => exact (statistic?_of_no_name rfl m).symm
  | some name => exact nonempty_bind_statistic? dn name m

end StatisticDescent

namespace Placeholder

variable {values : Values}

def namesNothing (values : Values) (server : Option String) (s : Statistic) : Bool :=
  match nameOn values server s.metricName s.dn with
  | .ok name => name.isEmpty
  | .error _ => false

def renamed? (values : Values) (server : Option String) (s : Statistic) : Option Statistic :=
  match nameOn values server s.metricName s.dn with
  | .ok name => if name.isEmpty then none else some { s with metricName := name }
  | .error _ => none

theorem visit_get?_of_ne {server : String} {m visited : Mapping}
    (hvisiting : visit values server .root () m = .ok (visited, ())) {field : String}
    (hother : field ≠ Field.metricName) : visited.get? field = m.get? field := by
  rcases visit_cases values server .root m with ⟨_, eq⟩ | ⟨metric, _, eq⟩
  · rw [eq] at hvisiting
    cases hvisiting
    rfl
  · rw [eq, Except.map_eq_ok] at hvisiting
    obtain ⟨name, _, eq⟩ := hvisiting
    cases eq
    split
    · exact Mapping.get?_set_of_ne hother _ _
    · rfl

theorem nameOn_of_expanded {server : String} {m after : Mapping} {s : Statistic}
    (hexpanded : Lineage.Expanded values server m after)
    (hbound : StatisticDescent.compiled.gather () m = some s) :
    nameOn values (some server) s.metricName s.dn = .ok (Lineage.metricName after) := by
  rw [StatisticDescent.compiled_gather_eq, Option.bind_eq_some_iff] at hbound
  obtain ⟨dn, placed, found⟩ := hbound
  obtain ⟨sameDn, sameName, _⟩ := StatisticDescent.dn_of_statistic? found
  rw [Lineage.Expanded, computedDn, placed, Option.getD_some] at hexpanded
  rw [sameDn, sameName]
  exact hexpanded

theorem gather_of_visit {server : String} {m visited after : Mapping}
    (hvisiting : visit values server .root () m = .ok (visited, ()))
    (halike : visited.Alike after) :
    StatisticDescent.compiled.gather () after =
      (StatisticDescent.compiled.gather () m).bind (renamed? values (some server)) := by
  have hexpanded := (Lineage.expanded_of_visit hvisiting halike).2
  have htext (field : String) (other : field ≠ Field.metricName) :
      after.text? field = m.text? field := by
    rw [halike.text?, Mapping.text?, visit_get?_of_ne hvisiting other]
    rfl
  have hscalar (field : String) (other : field ≠ Field.metricName) :
      Compiler.scalar? field after = Compiler.scalar? field m := by
    rw [Compiler.scalar?, halike.keyName?, visit_get?_of_ne hvisiting other]
    rfl
  have hattributeName : after.nonempty? Field.attributeName = m.nonempty? Field.attributeName := by
    rw [Mapping.nonempty?, htext _ (by decide)]
    rfl
  have hsame (above : StatisticDescent.Above) :
      StatisticDescent.statistic? above after = StatisticDescent.statistic? above m :=
    StatisticDescent.statistic?_congr hattributeName (hscalar _ (by decide)) (htext _ (by decide))
      (hscalar _ (by decide)) above
  rw [StatisticDescent.compiled_gather_eq, StatisticDescent.compiled_gather_eq,
    htext _ (by decide), Option.bind_assoc]
  cases placed : m.text? Field.computedDn with
  | none => rfl
  | some dn =>
      rw [Option.bind_some, Option.bind_some, hsame]
      cases unnamed : (Lineage.metricName m).isEmpty with
      | true =>
          rw [Lineage.Expanded, String.isEmpty_iff.mp unnamed, expand_of_not_opens rfl] at hexpanded
          rw [← Except.ok.inj hexpanded, StatisticDescent.statistic?_of_no_name rfl,
            StatisticDescent.statistic?_of_no_name unnamed]
          rfl
      | false =>
          rw [StatisticDescent.statistic?_rename unnamed]
          refine Option.bind_congr fun s found => ?_
          have hbound : StatisticDescent.compiled.gather () m = some s := by
            rw [StatisticDescent.compiled_gather_eq, placed, Option.bind_some, found]
          rw [renamed?, nameOn_of_expanded hexpanded hbound]

/-- A statistic before and after, on a server. -/
structure Renamed (values : Values) (server : Option String) (s s' : Statistic) : Prop where
  name : nameOn values server s.metricName s.dn = .ok s'.metricName
  dn : s'.dn = s.dn
  attributeName : s'.attributeName = s.attributeName
  unit : s'.unit = s.unit
  description : s'.description = s.description
  aggregation : s'.aggregation = s.aggregation

/-- The statistics of a server before and after: those whose name does not stand for an empty text
are there in the same order, so that none is gone exactly if there is no other. -/
structure KeepsStatistics (values : Values) (server : Option String)
    (before after : List Statistic) : Prop where
  kept : List.Forall₂ (Renamed values server)
    (before.filter fun s => !namesNothing values server s) after
  complete : after.length = before.length ↔ ∀ s ∈ before, namesNothing values server s = false

theorem keepsStatistics_of_renamed {server : Option String} {before : List Statistic}
    (hnamed : ∀ s ∈ before, ∃ name, nameOn values server s.metricName s.dn = .ok name) :
    KeepsStatistics values server before (before.filterMap (renamed? values server)) := by
  have hkept : List.Forall₂ (Renamed values server)
      (before.filter fun s => !namesNothing values server s)
      (before.filterMap (renamed? values server)) := by
    induction before with
    | nil => exact .nil
    | cons s rest ih =>
        rw [List.forall_mem_cons] at hnamed
        obtain ⟨name, naming⟩ := hnamed.1
        rw [List.filter_cons, List.filterMap_cons, namesNothing, renamed?, naming]
        cases empty : name.isEmpty with
        | true => simpa [empty] using ih hnamed.2
        | false => simpa [empty] using ⟨⟨naming, rfl, rfl, rfl, rfl, rfl⟩, ih hnamed.2⟩
  refine ⟨hkept, ?_⟩
  rw [← hkept.length_eq, List.length_filter_eq_length_iff]
  simp

theorem filterMap_of_forall₂ {α β γ : Type} {f : α → Option γ} {g : β → Option γ} {xs : List α}
    {ys : List β} (heach : List.Forall₂ (fun x y => g y = f x) xs ys) :
    ys.filterMap g = xs.filterMap f := by
  induction heach with
  | nil => rfl
  | cons head _ ih => rw [List.filterMap_cons, List.filterMap_cons, head, ih]

theorem walk_statistics {server : String} {object resolved : Node}
    (hwalking : object.walk (visit values server) () = .ok resolved) :
    KeepsStatistics values (some server)
      (boundStatistics (some object)) (boundStatistics (some resolved)) := by
  have hvisits := Node.walk_mappings (visit_separate values server) hwalking
  have hrenamed : boundStatistics (some resolved) =
      (boundStatistics (some object)).filterMap (renamed? values (some server)) := by
    rw [boundStatistics, boundStatistics, List.filterMap_filterMap]
    exact filterMap_of_forall₂
      (hvisits.imp fun _ _ ⟨_, visiting, alike⟩ => gather_of_visit visiting alike)
  rw [hrenamed]
  refine keepsStatistics_of_renamed fun s bound => ?_
  obtain ⟨m, inside, bound⟩ := List.mem_filterMap.mp bound
  exact forall_mem_left_of_forall₂
    (P := fun m => ∀ s, StatisticDescent.compiled.gather () m = some s →
      ∃ name, nameOn values (some server) s.metricName s.dn = .ok name)
    (hvisits.imp fun m after ⟨_, visiting, alike⟩ _ bound =>
      ⟨_, nameOn_of_expanded (Lineage.expanded_of_visit visiting alike).2 bound⟩)
    m inside s bound

theorem keepsStatistics_self (object : Option Node) :
    KeepsStatistics values none (boundStatistics object) (boundStatistics object) := by
  have named : ∀ s ∈ boundStatistics object, namesNothing values none s = false := by
    intro s bound
    obtain ⟨m, _, bound⟩ := List.mem_filterMap.mp bound
    rw [StatisticDescent.compiled_gather_eq, Option.bind_eq_some_iff] at bound
    obtain ⟨dn, _, found⟩ := bound
    obtain ⟨_, sameName, named⟩ := StatisticDescent.dn_of_statistic? found
    rw [← sameName] at named
    exact named
  refine ⟨?_, iff_of_true rfl named⟩
  rw [List.filter_eq_self.mpr fun s bound => by rw [named s bound]; rfl]
  exact List.forall₂_same.mpr fun s _ => ⟨rfl, rfl, rfl, rfl, rfl, rfl⟩

theorem resolveServer_cases {before after : Mapping}
    (hresolving : resolveServer values before = .ok after) :
    (after = before ∧ (before.serverName? = none ∨ before.get? Field.object = none)) ∨
      ∃ name object final, before.serverName? = some name ∧
        before.get? Field.object = some object ∧ after.get? Field.object = some final ∧
        object.walk (visit values name) () = .ok final := by
  rw [resolveServer] at hresolving
  cases named : before.serverName? with
  | none =>
      rw [named] at hresolving
      cases hresolving
      exact .inl ⟨rfl, .inl rfl⟩
  | some name =>
      simp only [named] at hresolving
      rcases Mapping.modify_eq_ok hresolving with ⟨absent, rfl⟩ | ⟨object, final, own, walking, rfl⟩
      · exact .inl ⟨rfl, .inr absent⟩
      · exact .inr ⟨name, object, final, rfl, own, Mapping.get?_set_self _ _ _, walking⟩

/-- Whose values the names of a server entry stand for. Names are left alone where the list of
servers is under a tag, and where an entry has no name or no object tree. -/
def resolvedFor? (tree : Node) (server : Mapping) : Option String :=
  match tree.field? Field.ldapServers, server.get? Field.object with
  | some (.sequence _), some _ => server.serverName?
  | _, _ => none

theorem resolvedFor?_eq_none {tree : Node} {server : Mapping}
    (halone : (∀ items, tree.field? Field.ldapServers ≠ some (.sequence items)) ∨
      server.serverName? = none ∨ server.get? Field.object = none) :
    resolvedFor? tree server = none := by
  rw [resolvedFor?]
  split
  · rename_i items object listed own
    rcases halone with unlisted | unnamed | absent
    · exact absurd listed (unlisted items)
    · exact unnamed
    · rw [absent] at own
      cases own
  · rfl

theorem resolve_cases {tree resolved : Node} (hresolving : resolve values tree = .ok resolved) :
    (resolved = tree ∧ ∀ items, tree.field? Field.ldapServers ≠ some (.sequence items)) ∨
      ∃ items items', tree.field? Field.ldapServers = some (.sequence items) ∧
        resolved.field? Field.ldapServers = some (.sequence items') ∧
        List.Forall₂ (fun (item : Node) after =>
          (item.modifyMapping? (resolveServer values)).getD (.ok item) = .ok after)
          items items' := by
  obtain ⟨root, new, isRoot, changing, rfl⟩ := Node.mapRoot_eq_ok.mp hresolving
  rw [Node.field?_of_mapping? isRoot,
    Node.field?_of_mapping? (Node.mapping?_withMapping new tree)]
  have hsame (unchanged : new = root) : tree.withMapping new = tree := by
    rw [unchanged, Node.withMapping_of_mapping? isRoot]
  rcases Mapping.modify_eq_ok changing with ⟨absent, unchanged⟩ | ⟨listed, after, found, eq, rfl⟩
  · exact .inl ⟨hsame unchanged, by simp [absent]⟩
  · rw [found, Mapping.get?_set_self]
    cases listed with
    | sequence items =>
        obtain ⟨items', each, rfl⟩ := Except.map_eq_ok.mp eq
        exact .inr ⟨items, items', rfl, rfl, Except.mapM_eq_ok.mp each⟩
    | _ =>
        cases eq
        exact .inl ⟨hsame (Mapping.set_of_get?_eq_some found), by simp⟩

theorem resolve_entries {tree resolved : Node} (hresolving : resolve values tree = .ok resolved) :
    List.Forall₂
      (fun before after => KeepsStatistics values (resolvedFor? tree before)
        (boundStatistics (before.get? Field.object)) (boundStatistics (after.get? Field.object)))
      tree.serverEntries resolved.serverEntries := by
  rcases resolve_cases hresolving with ⟨rfl, unlisted⟩ | ⟨items, items', listed, listed', each⟩
  · refine List.forall₂_same.mpr fun server _ => ?_
    rw [resolvedFor?_eq_none (.inl unlisted)]
    exact keepsStatistics_self _
  · rw [Node.serverEntries, Node.serverEntries, listed, listed']
    refine (Node.changeServer_mapping? each).imp fun before after changing => ?_
    rcases resolveServer_cases changing with
      ⟨rfl, alone⟩ | ⟨name, object, final, named, own, own', walking⟩
    · rw [resolvedFor?_eq_none (.inr alone)]
      exact keepsStatistics_self _
    · rw [resolvedFor?, listed, own, own', named]
      exact walk_statistics walking

theorem server_keepsStatistics {item after : Node} {server server' : Server}
    (hchanging : (item.modifyMapping? (resolveServer values)).getD (.ok item) = .ok after)
    (hreading : Settings.Reading.server item = .ok server)
    (hreading' : Settings.Reading.server after = .ok server') :
    ∃ owner, KeepsStatistics values owner (boundStatistics server.object)
      (boundStatistics server'.object) := by
  rw [Node.changeServer_eq] at hchanging
  cases entry : item.mapping? with
  | none =>
      rw [entry] at hchanging
      cases hchanging
      cases hreading.symm.trans hreading'
      exact ⟨none, keepsStatistics_self _⟩
  | some m =>
      rw [entry] at hchanging
      obtain ⟨new, changed, rfl⟩ := Except.map_eq_ok.mp hchanging
      rw [Settings.Reading.server_of_mapping? entry] at hreading
      rw [Settings.Reading.server_of_mapping? (Node.mapping?_withMapping new item)] at hreading'
      rcases resolveServer_cases changed with
        ⟨rfl, _⟩ | ⟨name, object, final, _, own, own', walking⟩
      · cases hreading.symm.trans hreading'
        exact ⟨none, keepsStatistics_self _⟩
      · rw [boundStatistics_optional (Settings.Reading.server_object_get? hreading own),
          boundStatistics_optional (Settings.Reading.server_object_get? hreading' own')]
        exact ⟨some name, walk_statistics walking⟩

theorem resolve_servers {tree resolved : Node} (hresolving : resolve values tree = .ok resolved)
    {settings settings' : Settings} (hreading : Settings.ofTree tree = .ok settings)
    (hreading' : Settings.ofTree resolved = .ok settings') :
    List.Forall₂
      (fun server server' => ∃ owner, KeepsStatistics values owner
        (boundStatistics (Server.object server)) (boundStatistics (Server.object server')))
      settings.servers settings'.servers := by
  rcases resolve_cases hresolving with ⟨rfl, _⟩ | ⟨items, items', listed, listed', each⟩
  · cases hreading.symm.trans hreading'
    exact List.forall₂_same.mpr fun server _ => ⟨none, keepsStatistics_self _⟩
  · have hreads := Settings.Reading.settings_servers_items
      (by rw [listed]; rfl) (Settings.ofTree_eq_ok hreading)
    have reads' := Settings.Reading.settings_servers_items
      (by rw [listed']; rfl) (Settings.ofTree_eq_ok hreading')
    have hbetween := forall₂_comp (P := fun item server' => ∃ after,
        (Node.modifyMapping? (resolveServer values) item).getD (.ok item) = .ok after ∧
          Settings.Reading.server after = .ok server')
      (fun _ after _ changing read' => ⟨after, changing, read'⟩) each reads'
    exact forall₂_comp
      (fun _ _ _ read ⟨_, changing, read'⟩ => server_keepsStatistics changing read read')
      hreads.flip hbetween

/-- What the expansion of names makes of the statistics of the server entries and of the servers
that are read from them. -/
structure KeepsAllStatistics (values : Values) (tree resolved : Node) : Prop where
  entries : List.Forall₂
    (fun before after => KeepsStatistics values (resolvedFor? tree before)
      (boundStatistics (before.get? Field.object)) (boundStatistics (after.get? Field.object)))
    tree.serverEntries resolved.serverEntries
  servers : ∀ settings settings', Settings.ofTree tree = .ok settings →
    Settings.ofTree resolved = .ok settings' →
    List.Forall₂
      (fun server server' => ∃ owner, KeepsStatistics values owner
        (boundStatistics (Server.object server)) (boundStatistics (Server.object server')))
      settings.servers settings'.servers

theorem resolve_keepsStatistics {tree resolved : Node}
    (hresolving : resolve values tree = .ok resolved) : KeepsAllStatistics values tree resolved :=
  ⟨resolve_entries hresolving, fun _ _ => resolve_servers hresolving⟩

def calledByValue : Node :=
  .mapping
    [(.text "ldapServers", .sequence
      [.mapping
        [(.text "database", .text "main"),
          (.text "object", .mapping
            [(.text "rdn", .text "cn=Monitor"),
              (.text "metric", .sequence
                [.mapping
                  [(.text "name", .text "$\x7bcn\x7d"), (.text "attribute", .text "waits"),
                    (.text "unit", .text "1")],
                  .mapping
                  [(.text "name", .text "$\x7bcn\x7d/threads"),
                    (.text "attribute", .text "threads"), (.text "unit", .text "1"),
                    (.text "aggregation", .text "sum")]])])]])]

def waits (name : String) : Statistic := ⟨"cn=Monitor", name, "waits", "1", "", .lastValue⟩

def threads (name : String) : Statistic := ⟨"cn=Monitor", name, "threads", "1", "", .sum⟩

/-- The statistics of each server entry. -/
def treeStatistics (tree : Node) : List (List Statistic) :=
  tree.serverEntries.map fun entry => boundStatistics (entry.get? Field.object)

def treeStatistics? (values : Values) (tree : Node) :
    Option (List (List Statistic) × List (List Statistic)) :=
  ((Pipeline.standard.run tree).bind fun prepared =>
    (resolve values prepared).map fun resolved => (prepared, resolved)).toOption.map
      (Prod.map treeStatistics treeStatistics)

theorem treeStatistics?_eq_some {tree : Node} {before after : List (List Statistic)}
    (haround : treeStatistics? values tree = some (before, after)) :
    ∃ prepared resolved, Pipeline.standard.run tree = .ok prepared ∧
      resolve values prepared = .ok resolved ∧ treeStatistics prepared = before ∧
      treeStatistics resolved = after := by
  obtain ⟨both, running, eq⟩ := Except.map_toOption_eq_some.mp haround
  obtain ⟨prepared, preparing, rest⟩ := Except.bind_eq_ok.mp running
  obtain ⟨resolved, resolving, rfl⟩ := Except.map_eq_ok.mp rest
  cases eq
  exact ⟨prepared, resolved, preparing, resolving, rfl, rfl⟩

theorem calledByValue_keepsStatistics :
    ∃ prepared resolved, Pipeline.standard.run calledByValue = .ok prepared ∧
      resolve [(⟨"main", "cn=Monitor", "cn"⟩, "Monitor")] prepared = .ok resolved ∧
      KeepsAllStatistics [(⟨"main", "cn=Monitor", "cn"⟩, "Monitor")] prepared resolved ∧
      treeStatistics prepared = [[waits "$\x7bcn\x7d", threads "$\x7bcn\x7d/threads"]] ∧
      treeStatistics resolved = [[waits "Monitor", threads "Monitor/threads"]] := by
  have haround : treeStatistics? [(⟨"main", "cn=Monitor", "cn"⟩, "Monitor")] calledByValue =
      some ([[waits "$\x7bcn\x7d", threads "$\x7bcn\x7d/threads"]],
        [[waits "Monitor", threads "Monitor/threads"]]) := by
    decide +kernel
  obtain ⟨prepared, resolved, running, resolving, before, after⟩ := treeStatistics?_eq_some haround
  exact ⟨prepared, resolved, running, resolving, resolve_keepsStatistics resolving, before, after⟩

/-- An empty value leaves a node without a statistic. -/
theorem calledByValue_drops :
    ∃ prepared resolved, Pipeline.standard.run calledByValue = .ok prepared ∧
      resolve [(⟨"main", "cn=Monitor", "cn"⟩, "")] prepared = .ok resolved ∧
      treeStatistics prepared = [[waits "$\x7bcn\x7d", threads "$\x7bcn\x7d/threads"]] ∧
      treeStatistics resolved = [[threads "/threads"]] := by
  have haround : treeStatistics? [(⟨"main", "cn=Monitor", "cn"⟩, "")] calledByValue =
      some ([[waits "$\x7bcn\x7d", threads "$\x7bcn\x7d/threads"]], [[threads "/threads"]]) := by
    decide +kernel
  exact treeStatistics?_eq_some haround

end Placeholder

end DirectoryMetrics
