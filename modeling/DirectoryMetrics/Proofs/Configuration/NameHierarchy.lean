import DirectoryMetrics.Proofs.Configuration.Preparation
import DirectoryMetrics.Proofs.Tree.Lineage
import DirectoryMetrics.Proofs.Tree.ListedServers

namespace DirectoryMetrics

/-! The hierarchy of metric names. A name carries on the names around it as they are written, and
after its expansion what they stand for on the object that the name is of. -/

namespace Placeholder

/-- What a metric name becomes for an object on a server. The names of a server that cannot be
named itself are left alone. -/
def nameOn (values : Values) (server : Option String) (metric dn : String) :
    Except ConfigError String :=
  match server with
  | none => .ok metric
  | some server => expand values metric server dn

variable {values : Values} {server : Option String}

theorem nameOn_continues {above below dn dn' text name : String}
    (hcontinues : Continues above below) (haboveNamed : nameOn values server above dn' = .ok text)
    (hnamed : nameOn values server below dn = .ok name) :
    ∃ text, nameOn values server above dn = .ok text ∧ Continues text name := by
  cases server with
  | none =>
      cases hnamed
      exact ⟨above, rfl, hcontinues⟩
  | some server =>
      rcases hcontinues with rfl | rfl | ⟨rest, rfl⟩
      · exact ⟨"", expand_of_not_opens rfl, .inl rfl⟩
      · exact ⟨name, hnamed, .refl name⟩
      · obtain ⟨found, split, _⟩ := expand_eq_ok.mp haboveNamed
        obtain ⟨text, later, expanding, rfl⟩ := expand_append split hnamed
        exact ⟨text, expanding, .inr (.inr ⟨later, rfl⟩)⟩

def SameValues (values : Values) (server : Option String) (metric dn dn' : String) : Prop :=
  ∀ name ∈ server, AsksAlike values name metric dn dn'

theorem nameOn_of_sameValues {metric dn dn' name : String}
    (hsame : SameValues values server metric dn dn')
    (hnamed : nameOn values server metric dn = .ok name) :
    nameOn values server metric dn' = .ok name := by
  cases server with
  | none => exact hnamed
  | some server => exact expand_of_asksAlike (hsame server rfl) hnamed

end Placeholder

theorem pairwise_zip {α β : Type} {S : α → α → Prop} {R : α → β → Prop} {xs : List α} {ys : List β}
    (hordered : xs.Pairwise S) (hrelated : List.Forall₂ R xs ys) :
    (xs.zip ys).Pairwise fun earlier later =>
      S earlier.1 later.1 ∧ R earlier.1 earlier.2 ∧ R later.1 later.2 := by
  induction hrelated with
  | nil => exact .nil
  | cons head tail ih =>
      rw [List.pairwise_cons] at hordered
      refine List.pairwise_cons.mpr ⟨fun later member => ?_, ih hordered.2⟩
      exact ⟨hordered.1 _ (List.of_mem_zip member).1, head, (List.forall₂_iff_zip.mp tail).2 member⟩

open Placeholder in
/-- The nodes of a lineage before and after the expansion of their names. -/
structure KeepsHierarchy (values : Values) (server : Option String) (nodes finals : List Mapping) :
    Prop where
  named : List.Forall₂
    (fun node final => nameOn values server (Lineage.metricName node) (computedDn node) =
      .ok (Lineage.metricName final)) nodes finals
  written : Lineage.Descends nodes
  /-- For the object of a node, what is around it is called by what the name of the node starts
  with. -/
  carried : (nodes.zip finals).Pairwise fun node enclosing =>
    ∃ text, nameOn values server (Lineage.metricName enclosing.1) (computedDn node.1) = .ok text ∧
      Continues text (Lineage.metricName node.2)
  kept : (nodes.zip finals).Pairwise fun node enclosing =>
    SameValues values server (Lineage.metricName enclosing.1) (computedDn node.1)
        (computedDn enclosing.1) →
      Continues (Lineage.metricName enclosing.2) (Lineage.metricName node.2)

namespace KeepsHierarchy

open Placeholder

variable {values : Values} {server : Option String} {nodes finals : List Mapping}

theorem of_named (hwritten : Lineage.Descends nodes)
    (hnamed : List.Forall₂
      (fun node final => nameOn values server (Lineage.metricName node) (computedDn node) =
        .ok (Lineage.metricName final)) nodes finals) :
    KeepsHierarchy values server nodes finals where
  named := hnamed
  written := hwritten
  carried := (pairwise_zip hwritten hnamed).imp fun ⟨continues, below, above⟩ =>
    nameOn_continues continues above below
  kept := (pairwise_zip hwritten hnamed).imp fun ⟨continues, below, above⟩ same => by
    obtain ⟨text, aboveNamed, carries⟩ := nameOn_continues continues above below
    cases above.symm.trans (nameOn_of_sameValues same aboveNamed)
    exact carries

end KeepsHierarchy

namespace Placeholder

variable {values : Values} {tree prepared resolved : Node}

/-- A server before and after the expansion of the names in its object tree. -/
def HierarchyKept (values : Values) (before after : Mapping) : Prop :=
  Option.Rel
    (fun object final => List.Forall₂ (KeepsHierarchy values before.serverName?)
      (Lineage.ofTree object) (Lineage.ofTree final))
    (before.get? Field.object) (after.get? Field.object)

theorem resolveServer_keepsHierarchy {before after : Mapping}
    (hwritten : ∀ object, before.get? Field.object = some object →
      ∀ nodes ∈ Lineage.ofTree object, Lineage.Descends nodes)
    (hresolving : resolveServer values before = .ok after) : HierarchyKept values before after := by
  rw [HierarchyKept]
  rw [resolveServer] at hresolving
  cases named : before.serverName? with
  | none =>
      rw [named] at hresolving
      cases hresolving
      cases own : before.get? Field.object with
      | none => exact .none
      | some object =>
          refine .some (List.forall₂_same.mpr fun nodes member => ?_)
          exact .of_named (hwritten object own nodes member) (List.forall₂_same.mpr fun _ _ => rfl)
  | some server =>
      simp only [named] at hresolving
      rcases Mapping.modify_eq_ok hresolving with ⟨absent, rfl⟩ | ⟨object, final, own, walking, rfl⟩
      · rw [absent]
        exact .none
      · rw [own, Mapping.get?_set_self]
        exact .some (((List.forall₂_and_left _ _).mpr
          ⟨hwritten object own, Lineage.ofTree_expanded walking⟩).imp
            fun nodes finals ⟨descends, expanded⟩ => .of_named descends expanded)

theorem descends_of_annotate {placed : Node}
    (hannotating : MetricPath.annotate placed = .ok prepared) :
    ∀ entry ∈ prepared.listedServers, ∀ object, entry.get? Field.object = some object →
      ∀ nodes ∈ Lineage.ofTree object, Lineage.Descends nodes := by
  refine forall_mem_of_forall₂ ((Node.mapObjectTrees_listed hannotating).imp ?_)
  intro before after changing object own
  rcases Mapping.modify_eq_ok changing with ⟨absent, rfl⟩ | ⟨_, named, _, walking, rfl⟩
  · rw [absent] at own
    cases own
  · rw [Mapping.get?_set_self] at own
    cases own
    exact Lineage.descends_of_walk walking

/-- What the standard passes and the expansion of names leave of the hierarchy of names in the
object trees of the servers. -/
theorem resolve_keepsHierarchy (hrunning : Pipeline.standard.run tree = .ok prepared)
    (hresolving : resolve values prepared = .ok resolved) :
    List.Forall₂ (HierarchyKept values) prepared.listedServers resolved.listedServers := by
  obtain ⟨_, _, _, placed, _, _, _, _, annotating⟩ := Preparation.standard_run_iff.mp hrunning
  exact ((List.forall₂_and_left _ _).mpr
    ⟨descends_of_annotate annotating, Node.mapRoot_mapServers_listed hresolving⟩).imp
      fun before after ⟨written, changing⟩ => resolveServer_keepsHierarchy written changing

def lineageNames (tree : Node) : List (List (List String)) :=
  tree.serverEntries.map fun entry =>
    ((entry.get? Field.object).elim [] Lineage.ofTree).map (List.map Lineage.metricName)

def lookedUp : Node :=
  .mapping
    [(.text "ldap_servers", .sequence
      [.mapping
        [(.text "database", .text "main"),
          (.text "object", .mapping
            [(.text "rdn", .text "cn=Monitor"), (.text "name", .text "$\x7bcn\x7d"),
              (.text "object", .mapping
                [(.text "waits", .mapping [(.text "rdn", .text "cn=Waits")])])])]])]

def resolvedNames? (values : Values) (tree : Node) : Option (List (List (List String))) :=
  ((Pipeline.standard.run tree).bind (resolve values)).toOption.map lineageNames

theorem resolvedNames?_eq_some {names : List (List (List String))}
    (hresolving : resolvedNames? values tree = some names) :
    ∃ prepared resolved, Pipeline.standard.run tree = .ok prepared ∧
      resolve values prepared = .ok resolved ∧ lineageNames resolved = names := by
  obtain ⟨resolved, running, eq⟩ := Except.map_toOption_eq_some.mp hresolving
  obtain ⟨prepared, running, hresolving⟩ := Except.bind_eq_ok.mp running
  exact ⟨prepared, resolved, running, hresolving, eq⟩

theorem lookedUp_hierarchy :
    ∃ prepared resolved, Pipeline.standard.run lookedUp = .ok prepared ∧
      resolve [(⟨"main", "cn=Monitor", "cn"⟩, "Monitor"),
        (⟨"main", "cn=Waits,cn=Monitor", "cn"⟩, "Monitor")] prepared = .ok resolved ∧
      List.Forall₂ (HierarchyKept [(⟨"main", "cn=Monitor", "cn"⟩, "Monitor"),
        (⟨"main", "cn=Waits,cn=Monitor", "cn"⟩, "Monitor")]) prepared.listedServers
        resolved.listedServers ∧
      lineageNames resolved = [[["Monitor"], ["Monitor/waits", "Monitor"]]] := by
  have hnamed : resolvedNames? [(⟨"main", "cn=Monitor", "cn"⟩, "Monitor"),
      (⟨"main", "cn=Waits,cn=Monitor", "cn"⟩, "Monitor")] lookedUp =
        some [[["Monitor"], ["Monitor/waits", "Monitor"]]] := by
    decide +kernel
  obtain ⟨prepared, resolved, running, resolving, names⟩ := resolvedNames?_eq_some hnamed
  exact ⟨prepared, resolved, running, resolving, resolve_keepsHierarchy running resolving, names⟩

def unlisted : Node :=
  .mapping
    [(.text "ldap_servers", .tagged "!servers" (.sequence
      [.mapping
        [(.text "database", .text "main"),
          (.text "object", .mapping
            [(.text "rdn", .text "cn=Monitor"), (.text "metric_name", .text "monitor"),
              (.text "object", .mapping
                [(.text "waits", .mapping
                  [(.text "rdn", .text "cn=Waits"), (.text "metric_name", .text "waits")])])])]]))]

/-- With a value for each object, a name goes on from another one than it is below; and no pass
names the nodes of a list that is under a tag. -/
theorem lookedUp_apart :
    (∃ prepared resolved, Pipeline.standard.run lookedUp = .ok prepared ∧
      resolve [(⟨"main", "cn=Monitor", "cn"⟩, "Monitor"),
        (⟨"main", "cn=Waits,cn=Monitor", "cn"⟩, "Waits")] prepared = .ok resolved ∧
      lineageNames resolved = [[["Monitor"], ["Waits/waits", "Monitor"]]] ∧
      ¬Continues "Monitor" "Waits/waits") ∧
    ∃ prepared resolved, Pipeline.standard.run unlisted = .ok prepared ∧
      resolve [] prepared = .ok resolved ∧
      lineageNames resolved = [[["monitor"], ["waits", "monitor"]]] ∧
      ¬Continues "monitor" "waits" := by
  have hnamed : resolvedNames? [(⟨"main", "cn=Monitor", "cn"⟩, "Monitor"),
      (⟨"main", "cn=Waits,cn=Monitor", "cn"⟩, "Waits")] lookedUp =
        some [[["Monitor"], ["Waits/waits", "Monitor"]]] := by
    decide +kernel
  have hunnamed : resolvedNames? [] unlisted = some [[["monitor"], ["waits", "monitor"]]] := by
    decide +kernel
  obtain ⟨prepared, resolved, running, resolving, names⟩ := resolvedNames?_eq_some hnamed
  obtain ⟨preparedTagged, resolvedTagged, runningTagged, resolvingTagged, namesTagged⟩ :=
    resolvedNames?_eq_some hunnamed
  exact ⟨⟨prepared, resolved, running, resolving, names, by decide +kernel⟩, preparedTagged,
    resolvedTagged, runningTagged, resolvingTagged, namesTagged, by decide +kernel⟩

end Placeholder

end DirectoryMetrics
