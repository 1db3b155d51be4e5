import DirectoryMetrics.Proofs.Collection.MetricRows
import DirectoryMetrics.Proofs.Metrics.RegistrationRule
import DirectoryMetrics.Proofs.Tree.Mapping

namespace DirectoryMetrics

/-! Valid configurations. The compiler goes through the servers one after another and stops at the
first thing that is wrong; what it accepts can be said of all servers at once. -/

namespace Compiler

def isBound (m : Mapping) : Bool :=
  (m.text? Field.computedDn).isSome && m.declares Field.metricName &&
    m.declares Field.attributeName && (scalar? Field.unit m).isSome

def bindingOf (m : Mapping) : Statistic where
  dn := (m.text? Field.computedDn).getD ""
  metricName := (m.text? Field.metricName).getD ""
  attributeName := (m.text? Field.attributeName).getD ""
  unit := (scalar? Field.unit m).getD ""
  description := (m.text? Field.description).getD ""
  aggregation := ((scalar? Field.aggregation m).bind Aggregation.ofName?).getD default

/-- An aggregation that is a text, a number or a flag is the name of a kind. -/
def NamesAggregation (m : Mapping) : Prop :=
  ∀ name ∈ scalar? Field.aggregation m, name ∈ Aggregation.all.map Aggregation.name

theorem namesAggregation_iff {m : Mapping} :
    NamesAggregation m ↔
      ∀ name ∈ scalar? Field.aggregation m, ∃ kind, Aggregation.ofName? name = some kind := by
  refine forall_congr' fun name => imp_congr_right fun _ => ?_
  rw [← Option.isSome_iff_exists, Aggregation.ofName?, List.find?_isSome, List.mem_map]
  simp only [beq_iff_eq]

theorem statistic?_of_not_bound {m : Mapping} (hstructural : isBound m = false) :
    statistic? m = .ok none := by
  rw [statistic?]
  split
  · rename_i dn metric attributeName unit hasDn hasMetric hasAttribute hasUnit
    simp [isBound, Mapping.declares, hasDn, hasMetric, hasAttribute, hasUnit] at hstructural
  · rfl

theorem statistic?_of_bound {m : Mapping} (hbound : isBound m = true) {found : Option Statistic} :
    statistic? m = .ok found ↔ NamesAggregation m ∧ found = some (bindingOf m) := by
  simp only [isBound, Bool.and_eq_true, Mapping.declares, Option.isSome_iff_exists] at hbound
  obtain ⟨⟨⟨⟨dn, hasDn⟩, metric, hasMetric⟩, attributeName, hasAttribute⟩, unit, hasUnit⟩ := hbound
  have hmetricText := (Mapping.nonempty?_eq_some.mp hasMetric).1
  have hattributeText := (Mapping.nonempty?_eq_some.mp hasAttribute).1
  rw [namesAggregation_iff, statistic?, bindingOf]
  simp only [hasDn, hasMetric, hasAttribute, hasUnit, hmetricText, hattributeText, Option.getD_some]
  cases aggregation : scalar? Field.aggregation m with
  | none => simp [eq_comm]
  | some value =>
      cases known : Aggregation.ofName? value with
      | none => simp [known]
      | some kind => simp [known, eq_comm]

theorem metricName_bindingOf {m : Mapping} (hbound : isBound m = true) :
    (bindingOf m).metricName ≠ "" := by
  simp only [isBound, Bool.and_eq_true, Mapping.declares, Option.isSome_iff_exists] at hbound
  obtain ⟨⟨⟨_, metric, hasMetric⟩, _⟩, _⟩ := hbound
  obtain ⟨metricText, notEmpty⟩ := Mapping.nonempty?_eq_some.mp hasMetric
  rw [bindingOf, metricText]
  exact notEmpty

/-- The statistics of some nodes can be made if their aggregations are known and no name is there
twice; then they are those of the bound nodes. -/
theorem statisticsFrom_iff {database : String} {seen : List String} {ms : List Mapping}
    {found : List Statistic} :
    statisticsFrom database seen ms = .ok found ↔
      (∀ m ∈ ms.filter isBound, NamesAggregation m) ∧
        found = (ms.filter isBound).map bindingOf ∧
        (found.map (·.metricName)).Nodup ∧ ∀ s ∈ found, s.metricName ∉ seen := by
  -- For any names that are seen, since each bound node adds its own for the nodes after it.
  induction ms generalizing seen found with
  | nil => simp +contextual [statisticsFrom, eq_comm]
  | cons m rest ih =>
      rw [statisticsFrom, Except.bind_eq_ok]
      cases bound : isBound m with
      | false => simp [statistic?_of_not_bound bound, bound, ih]
      | true =>
          simp only [statistic?_of_bound bound, List.filter_cons, bound, if_true,
            List.forall_mem_cons, List.map_cons]
          constructor
          · rintro ⟨_, ⟨known, rfl⟩, flattening⟩
            simp only at flattening
            split at flattening
            · cases flattening
            · rename_i unseen
              rw [List.contains_iff_mem] at unseen
              obtain ⟨later, flatteningRest, returned⟩ := Except.bind_eq_ok.mp flattening
              cases returned
              obtain ⟨each, rfl, distinct, fresh⟩ := ih.mp flatteningRest
              refine ⟨⟨known, each⟩, rfl, ?_, ?_⟩
              · rw [List.map_cons, List.nodup_cons]
                refine ⟨fun member => ?_, distinct⟩
                obtain ⟨other, inLater, same⟩ := List.mem_map.mp member
                exact fresh other inLater (same ▸ List.mem_cons_self)
              · rw [List.forall_mem_cons]
                exact ⟨unseen, fun other member again =>
                  fresh other member (List.mem_cons_of_mem _ again)⟩
          · rintro ⟨⟨known, each⟩, rfl, distinct, fresh⟩
            rw [List.map_cons, List.nodup_cons] at distinct
            rw [List.forall_mem_cons] at fresh
            refine ⟨_, ⟨known, rfl⟩, ?_⟩
            simp only
            rw [if_neg (by simpa using fresh.1)]
            refine Except.bind_eq_ok.mpr ⟨_, ih.mpr ⟨each, rfl, distinct.2, ?_⟩, rfl⟩
            intro other member again
            rcases List.mem_cons.mp again with same | before
            · exact distinct.1 (List.mem_map.mpr ⟨other, member, same⟩)
            · exact fresh.2 other member before

end Compiler

namespace Server

open Compiler

def boundNodes (server : Server) : List Mapping :=
  ((server.object.map Node.mappings).getD []).filter isBound

def bindings (server : Server) : List Statistic := server.boundNodes.map bindingOf

def chosen (server : Server) : List Statistic :=
  restrict server.chosenStatistics server.bindings

structure Valid (server : Server) : Prop where
  named : server.name?.isSome = true
  connected : server.connection.isSome = true
  aggregated : ∀ m ∈ server.boundNodes, NamesAggregation m
  distinct : (server.bindings.map (·.metricName)).Nodup
  known : ∀ names ∈ server.chosenStatistics, ∀ name ∈ names,
    ∃ s ∈ server.bindings, s.metricName = name

theorem nodup_chosen {server : Server} (hvalid : server.Valid) :
    (server.chosen.map (·.metricName)).Nodup :=
  ((restrict_sublist server.chosenStatistics server.bindings).map _).nodup hvalid.distinct

theorem metricName_chosen {server : Server} {s : Statistic} (hmember : s ∈ server.chosen) :
    s.metricName ≠ "" := by
  obtain ⟨m, inNodes, rfl⟩ := List.mem_map.mp ((restrict_sublist _ _).subset hmember)
  exact metricName_bindingOf (List.mem_filter.mp inNodes).2

end Server

namespace Compiler

theorem statistics_iff {database : String} {server : Server} {found : List Statistic} :
    statistics database server.object = .ok found ↔
      (∀ m ∈ server.boundNodes, NamesAggregation m) ∧ found = server.bindings ∧
        (found.map (·.metricName)).Nodup := by
  rw [statistics, statisticsFrom_iff]
  simp [Server.boundNodes, Server.bindings]

theorem choose_iff {database : String} {choice : Option (List String)}
    {all found : List Statistic} :
    choose database choice all = .ok found ↔
      (∀ names ∈ choice, ∀ name ∈ names, ∃ s ∈ all, s.metricName = name) ∧
        found = restrict choice all := by
  cases choice with
  | none => simp [choose, restrict, eq_comm]
  | some names =>
      simp only [choose, restrict, Option.mem_some_iff, forall_eq']
      split
      · rename_i unknown missing
        have asked := List.mem_of_find?_eq_some missing
        have habsent := List.find?_some missing
        simp only [Bool.not_eq_true', List.any_eq_false, beq_iff_eq] at habsent
        constructor
        · intro rejected
          cases rejected
        · rintro ⟨each, -⟩
          obtain ⟨s, member, same⟩ := each unknown asked
          exact absurd same (habsent s member)
      · rename_i nothing
        rw [List.find?_eq_none] at nothing
        have each : ∀ name ∈ names, ∃ s ∈ all, s.metricName = name :=
          fun name asked => by simpa using nothing name asked
        rw [Except.ok.injEq, eq_comm]
        exact ⟨fun same => ⟨each, same⟩, fun both => both.2⟩

theorem ofServer_iff {index : Nat} {server : Server} {identity : ServerIdentity} :
    ServerIdentity.ofServer index server = .ok identity ↔
      server.name? = some identity.database ∧ server.connection = some identity.connection := by
  rw [ServerIdentity.ofServer]
  split
  · rename_i unnamed
    simp [unnamed]
  · rename_i database named unconnected
    simp [unconnected]
  · rename_i database connection named connected
    rw [named, connected, Except.ok.injEq, Option.some.injEq, Option.some.injEq]
    exact ⟨fun same => same ▸ ⟨rfl, rfl⟩, fun ⟨sameName, same⟩ => by rw [sameName, same]⟩

theorem serverPlan_iff {index : Nat} {server : Server} {plan : ServerPlan} :
    serverPlan index server = .ok plan ↔
      server.Valid ∧ server.name? = some plan.identity.database ∧
        server.connection = some plan.identity.connection ∧ plan.statistics = server.chosen := by
  constructor
  · intro planning
    obtain ⟨identity, named, planning⟩ := Except.bind_eq_ok.mp planning
    obtain ⟨all, flattening, planning⟩ := Except.bind_eq_ok.mp planning
    obtain ⟨found, choosing, returned⟩ := Except.bind_eq_ok.mp planning
    cases returned
    obtain ⟨isNamed, isConnected⟩ := ofServer_iff.mp named
    obtain ⟨aggregated, rfl, distinct⟩ := statistics_iff.mp flattening
    obtain ⟨known, rfl⟩ := choose_iff.mp choosing
    refine ⟨⟨?_, ?_, aggregated, distinct, known⟩, isNamed, isConnected, rfl⟩
    · rw [isNamed, Option.isSome_some]
    · rw [isConnected, Option.isSome_some]
  · rintro ⟨valid, named, connected, chosen⟩
    refine Except.bind_eq_ok.mpr ⟨plan.identity, ofServer_iff.mpr ⟨named, connected⟩, ?_⟩
    refine Except.bind_eq_ok.mpr
      ⟨server.bindings, statistics_iff.mpr ⟨valid.aggregated, rfl, valid.distinct⟩, ?_⟩
    refine Except.bind_eq_ok.mpr ⟨server.chosen, choose_iff.mpr ⟨valid.known, rfl⟩, ?_⟩
    rw [← chosen]
    rfl

theorem exists_serverPlan_iff {index : Nat} {server : Server} :
    (∃ plan, serverPlan index server = .ok plan) ↔ server.Valid := by
  constructor
  · rintro ⟨plan, planning⟩
    exact (serverPlan_iff.mp planning).1
  · intro valid
    obtain ⟨database, named⟩ := Option.isSome_iff_exists.mp valid.named
    obtain ⟨connection, connected⟩ := Option.isSome_iff_exists.mp valid.connected
    exact ⟨⟨⟨database, connection⟩, server.chosen⟩,
      serverPlan_iff.mpr ⟨valid, named, connected, rfl⟩⟩

def Consistent (views : List View) : Prop :=
  ∀ v ∈ views, ∀ w ∈ views, v.name = w.name → v = w

theorem consistent_congr {views views' : List View} (hsame : ∀ view, view ∈ views ↔ view ∈ views') :
    Consistent views ↔ Consistent views' := by
  simp only [Consistent, hsame]

theorem Consistent.mono {views views' : List View} (hconsistent : Consistent views')
    (hsubset : views ⊆ views') : Consistent views :=
  fun v inV w inW same => hconsistent v (hsubset inV) w (hsubset inW) same

theorem addViews_isOk_iff {database : String} {seen : Seen} {found : List Statistic}
    (hconsistent : Consistent (seen.map Prod.fst)) :
    (∃ seen', addViews database seen found = .ok seen') ↔
      Consistent (seen.map Prod.fst ++ found.map Statistic.view) := by
  -- A view is compared with the first of its name only; what is seen stays consistent, so that one
  -- stands for all of that name.
  induction found generalizing seen with
  | nil => simpa [addViews] using hconsistent
  | cons s rest ih =>
      rw [addViews]
      split
      · rename_i unseen
        have hother : ∀ view ∈ seen.map Prod.fst, view.name ≠ s.metricName := by
          intro view member
          obtain ⟨entry, inSeen, rfl⟩ := List.mem_map.mp member
          simpa using List.find?_eq_none.mp unseen entry inSeen
        rw [ih, List.map_append, List.append_assoc]
        · rfl
        · rw [List.map_append]
          intro v inV w inW same
          rcases List.mem_append.mp inV with inV | inV
          · rcases List.mem_append.mp inW with inW | inW
            · exact hconsistent v inV w inW same
            · rw [List.mem_singleton.mp inW] at same
              exact absurd same (hother v inV)
          · rcases List.mem_append.mp inW with inW | inW
            · rw [List.mem_singleton.mp inV] at same
              exact absurd same.symm (hother w inW)
            · rw [List.mem_singleton.mp inV, List.mem_singleton.mp inW]
      · rename_i held first isFirst
        have inSeen : held ∈ seen.map Prod.fst :=
          List.mem_map.mpr ⟨(held, first), List.mem_of_find?_eq_some isFirst, rfl⟩
        have hsameName : held.name = s.metricName := by simpa using List.find?_some isFirst
        split
        · rename_i same
          rw [ih hconsistent]
          refine consistent_congr fun view => ?_
          simp only [List.mem_append, List.map_cons, List.mem_cons]
          rw [or_left_comm]
          exact (or_iff_right_of_imp fun again => .inl (by rw [again, ← same]; exact inSeen)).symm
        · rename_i differs
          constructor
          · rintro ⟨_, rejected⟩
            cases rejected
          · intro all
            exact absurd
              (all held (List.mem_append_left _ inSeen) s.view (by simp) hsameName) differs

/-- Servers are planned exactly if each of them is valid and their views agree. -/
theorem plansFrom_isOk_iff {index : Nat} {seen : Seen} {servers : List Server}
    (hconsistent : Consistent (seen.map Prod.fst)) :
    (∃ plans seen', plansFrom index seen servers = .ok (plans, seen')) ↔
      (∀ server ∈ servers, server.Valid) ∧
        Consistent (seen.map Prod.fst ++
          servers.flatMap fun server => server.chosen.map Statistic.view) := by
  induction servers generalizing index seen with
  | nil => simpa [plansFrom] using hconsistent
  | cons server rest ih =>
      rw [List.forall_mem_cons, List.flatMap_cons, ← List.append_assoc]
      have hgoesOn {plan : ServerPlan} {seenNow : Seen}
          (planning : serverPlan index server = .ok plan)
          (adding : addViews plan.identity.database seen plan.statistics = .ok seenNow)
          (view : View) :
          view ∈ seenNow.map Prod.fst ↔
            view ∈ seen.map Prod.fst ++ server.chosen.map Statistic.view := by
        obtain ⟨_, _, _, chosen⟩ := serverPlan_iff.mp planning
        rw [mem_addViews adding, chosen, List.mem_append, List.mem_map (f := Statistic.view)]
      constructor
      · rintro ⟨plans, seen', planning⟩
        obtain ⟨plan, planned, planning⟩ := Except.bind_eq_ok.mp planning
        obtain ⟨seenNow, adding, planning⟩ := Except.bind_eq_ok.mp planning
        obtain ⟨later, planning, _⟩ := Except.bind_eq_ok.mp planning
        obtain ⟨valid, _, _, chosen⟩ := serverPlan_iff.mp planned
        have hagree := (addViews_isOk_iff hconsistent).mp ⟨seenNow, adding⟩
        rw [chosen] at hagree
        obtain ⟨validRest, all⟩ := (ih ((consistent_congr (hgoesOn planned adding)).mpr hagree)).mp
          ⟨later.1, later.2, planning⟩
        refine ⟨⟨valid, validRest⟩, (consistent_congr fun view => ?_).mp all⟩
        rw [List.mem_append, hgoesOn planned adding, ← List.mem_append]
      · rintro ⟨⟨valid, validRest⟩, all⟩
        obtain ⟨plan, planned⟩ := exists_serverPlan_iff.mpr valid
        obtain ⟨_, _, _, chosen⟩ := serverPlan_iff.mp planned
        have hagree := all.mono (List.subset_append_left _ _)
        obtain ⟨seenNow, adding⟩ : ∃ seenNow,
            addViews plan.identity.database seen plan.statistics = .ok seenNow :=
          (addViews_isOk_iff hconsistent).mpr (chosen ▸ hagree)
        obtain ⟨plans, seen', planning⟩ : ∃ plans seen',
            plansFrom (index + 1) seenNow rest = .ok (plans, seen') :=
          (ih ((consistent_congr (hgoesOn planned adding)).mpr hagree)).mpr ⟨validRest,
            (consistent_congr fun view => by
              rw [List.mem_append, hgoesOn planned adding, ← List.mem_append]).mpr all⟩
        exact ⟨plan :: plans, seen', Except.bind_eq_ok.mpr ⟨plan, planned,
          Except.bind_eq_ok.mpr ⟨seenNow, adding,
            Except.bind_eq_ok.mpr ⟨(plans, seen'), planning, rfl⟩⟩⟩⟩

theorem consistent_flatMap {servers : List Server} {f : Server → List View} :
    Consistent (servers.flatMap f) ↔
      (∀ server ∈ servers, Consistent (f server)) ∧
        servers.Pairwise fun a b => ∀ v ∈ f a, ∀ w ∈ f b, v.name = w.name → v = w := by
  induction servers with
  | nil => simp [Consistent]
  | cons server rest ih =>
      rw [List.flatMap_cons, List.forall_mem_cons, List.pairwise_cons]
      constructor
      · intro all
        obtain ⟨own, pairs⟩ := ih.mp (all.mono (List.subset_append_right _ _))
        refine ⟨⟨all.mono (List.subset_append_left _ _), own⟩, fun other member v inV w inW => ?_,
          pairs⟩
        exact all v (List.mem_append_left _ inV) w
          (List.mem_append_right _ (List.mem_flatMap.mpr ⟨other, member, inW⟩))
      · rintro ⟨⟨own, ownRest⟩, across, pairs⟩
        have hlater := ih.mpr ⟨ownRest, pairs⟩
        intro v inV w inW same
        rcases List.mem_append.mp inV with inV | inV
        · rcases List.mem_append.mp inW with inW | inW
          · exact own v inV w inW same
          · obtain ⟨other, member, inW⟩ := List.mem_flatMap.mp inW
            exact across other member v inV w inW same
        · rcases List.mem_append.mp inW with inW | inW
          · obtain ⟨other, member, inV⟩ := List.mem_flatMap.mp inV
            exact (across other member w inW v inV same.symm).symm
          · exact hlater v inV w inW same

def SameView (s t : Statistic) : Prop :=
  s.description = t.description ∧ s.unit = t.unit ∧ s.aggregation = t.aggregation

theorem view_eq_iff {s t : Statistic} :
    s.view = t.view ↔ s.metricName = t.metricName ∧ SameView s t := by
  simp [Statistic.view, SameView]

/-- Servers that can be collected from together. -/
structure Valid (servers : List Server) : Prop where
  each : ∀ server ∈ servers, server.Valid
  agreeing : servers.Pairwise fun a b =>
    ∀ s ∈ a.chosen, ∀ t ∈ b.chosen, s.metricName = t.metricName → SameView s t
  apart : Export.Apart (servers.flatMap fun server => server.chosen.map (·.metricName))

theorem consistent_chosen {servers : List Server} (heach : ∀ server ∈ servers, server.Valid) :
    Consistent (servers.flatMap fun server => server.chosen.map Statistic.view) ↔
      servers.Pairwise fun a b =>
        ∀ s ∈ a.chosen, ∀ t ∈ b.chosen, s.metricName = t.metricName → SameView s t := by
  have hown : ∀ server ∈ servers, Consistent (server.chosen.map Statistic.view) := by
    intro server member v inV w inW same
    obtain ⟨s, inS, rfl⟩ := List.mem_map.mp inV
    obtain ⟨t, inT, rfl⟩ := List.mem_map.mp inW
    rw [List.inj_on_of_nodup_map (Server.nodup_chosen (heach server member)) inS inT same]
  rw [consistent_flatMap, and_iff_right hown]
  refine List.Pairwise.iff fun a b => ?_
  simp only [List.forall_mem_map, view_eq_iff]
  exact ⟨fun all s inS t inT same => (all s inS t inT same).2,
    fun all s inS t inT same => ⟨same, all s inS t inT same⟩⟩

variable {tree : Node} {settings : Settings} {made : List ServerPlan} {views : List View}

theorem plans_isOk_iff (hreading : Settings.ofTree tree = .ok settings) :
    (∃ made views, plans tree = .ok (made, views)) ↔
      (∀ server ∈ settings.servers, server.Valid) ∧
        settings.servers.Pairwise fun a b =>
          ∀ s ∈ a.chosen, ∀ t ∈ b.chosen, s.metricName = t.metricName → SameView s t := by
  have hnothing : Consistent (([] : Seen).map Prod.fst) := by simp [Consistent]
  have hall : (∃ plans seen', plansFrom 0 [] settings.servers = .ok (plans, seen')) ↔ _ :=
    plansFrom_isOk_iff hnothing
  rw [List.map_nil, List.nil_append] at hall
  rw [← and_congr_right consistent_chosen, ← hall]
  constructor
  · rintro ⟨made, views, planning⟩
    obtain ⟨read, reading', planning⟩ := Except.bind_eq_ok.mp planning
    obtain ⟨⟨made', seen⟩, planned, _⟩ := Except.bind_eq_ok.mp planning
    cases hreading.symm.trans (Except.mapError_eq_ok.mp reading')
    exact ⟨made', seen, planned⟩
  · rintro ⟨made, seen, planned⟩
    exact ⟨made, _, Except.bind_eq_ok.mpr ⟨settings, Except.mapError_eq_ok.mpr hreading,
      Except.bind_eq_ok.mpr ⟨(made, seen), planned, rfl⟩⟩⟩

theorem plans_statistics (hreading : Settings.ofTree tree = .ok settings)
    (hplanning : plans tree = .ok (made, views)) :
    made.map (·.statistics) = settings.servers.map Server.chosen := by
  obtain ⟨read, reading', each⟩ := plans_eq_ok hplanning
  cases hreading.symm.trans reading'
  rw [← List.forall₂_eq_eq_eq, List.forall₂_map_left_iff, List.forall₂_map_right_iff]
  exact (each.imp fun server plan ⟨_, planned⟩ => (serverPlan_iff.mp planned).2.2.2).flip

theorem mem_plans_chosen (hreading : Settings.ofTree tree = .ok settings)
    (hplanning : plans tree = .ok (made, views)) {view : View} :
    view ∈ views ↔ ∃ server ∈ settings.servers, ∃ s ∈ server.chosen, s.view = view := by
  have hsame := congrArg (fun lists : List (List Statistic) =>
    ∃ found ∈ lists, ∃ s ∈ found, s.view = view) (plans_statistics hreading hplanning)
  simp only [List.mem_map, exists_exists_and_eq_and] at hsame
  rw [mem_plans hplanning, hsame]

theorem view_exportable {α : Type} {server : Server} {s : Statistic} (hmember : s ∈ server.chosen) :
    View.Exportable α s.view := by
  rw [View.exportable_iff]
  rintro (unnamed | noKey | alike)
  · exact Server.metricName_chosen hmember unnamed
  · simp [Statistic.view, databaseTag] at noKey
  · simp [Statistic.view] at alike

end Compiler

namespace Store

variable {α : Type}

theorem mem_views_first {views : List View} (hdistinct : (views.map (·.name)).Nodup)
    {new : List (StoreEntry α)} (haccepted : (empty : Store α).pending views = .ok new)
    {view : View} :
    view ∈ ((Store.registerViews views).run.run (empty : Store α)).2.views ↔ view ∈ views := by
  have hsound := (empty_sound (α := α)).registerViews views
  rw [hsound.mem_views, isRegistered_eq, decide_eq_true_eq]
  constructor
  · intro registered
    obtain ⟨entry, found, same⟩ := Option.map_eq_some_iff.mp registered
    rw [get?_registerViews hdistinct haccepted] at found
    cases asked : views.find? (·.name == view.name) with
    | none =>
        rw [asked] at found
        cases found
    | some view' =>
        have member := List.mem_of_find?_eq_some asked
        have hsameName : view'.name = view.name := by simpa using List.find?_some asked
        obtain ⟨entry', found', same', _⟩ := get?_registered hdistinct haccepted member
        rw [get?_registerViews hdistinct haccepted, hsameName, found, Option.some.injEq] at found'
        rw [← same, found', same']
        exact member
  · intro member
    obtain ⟨entry, found, same, _⟩ := get?_registered hdistinct haccepted member
    rw [found, Option.map_some, same]

end Store

namespace Backend

variable {α : Type}

def choosing (aggregation : String) : Node :=
  let counter (metric : String) (below : Mapping) : Node :=
    .mapping
      ([(.text "computed_dn", .text "cn=Monitor"), (.text "metric_name", .text metric),
        (.text "attribute", .text "count"), (.text "unit", .int 1),
        (.text "aggregation", .text aggregation)] ++ below)
  let entry (database : String) (own : Mapping) : Node :=
    .mapping
      ([(.text "database", .text database),
        (.text "connection", .mapping [(.text "server_uri", .text "ldap://one")])] ++ own)
  .mapping
    [(.text "ldap_servers", .sequence
      [entry "first" [(.text "object", counter "ops" [])],
        entry "second"
          [(.text "object", counter "o/ps" [(.text "metric", counter "ops" [])]),
            (.text "chosen_statistics", .sequence [.text "ops"])]])]

example : ((compile (choosing "average")).run.run
    (⟨.empty, .empty, []⟩ : Backend Nat)).1.isOk = false := by
  decide +kernel

end Backend

end DirectoryMetrics
