import DirectoryMetrics.Metrics.SeriesHash
import DirectoryMetrics.Proofs.Collection.Connections

namespace DirectoryMetrics

namespace Compiler

theorem addViews_nodup {database : String} {seen seen' : Seen} {found : List Statistic}
    (hadding : addViews database seen found = .ok seen')
    (hdistinct : (seen.map (·.1.name)).Nodup) : (seen'.map (·.1.name)).Nodup := by
  induction found generalizing seen with
  | nil =>
      cases hadding
      exact hdistinct
  | cons s rest ih =>
      rw [addViews] at hadding
      split at hadding
      · rename_i unseen
        refine ih hadding ?_
        rw [List.map_append, List.nodup_append]
        refine ⟨hdistinct, List.nodup_singleton _, fun name member other single same => ?_⟩
        obtain ⟨entry, inSeen, rfl⟩ := List.mem_map.mp member
        rw [List.map_singleton, List.mem_singleton] at single
        have hunlike := List.find?_eq_none.mp unseen entry inSeen
        rw [same, single] at hunlike
        exact hunlike (beq_self_eq_true s.metricName)
      · split at hadding
        · exact ih hadding hdistinct
        · cases hadding

theorem plansFrom_nodup {index : Nat} {seen seen' : Seen} {servers : List Server}
    {made : List ServerPlan} (hplanning : plansFrom index seen servers = .ok (made, seen'))
    (hdistinct : (seen.map (·.1.name)).Nodup) : (seen'.map (·.1.name)).Nodup := by
  induction servers generalizing index seen made with
  | nil =>
      cases hplanning
      exact hdistinct
  | cons server rest ih =>
      obtain ⟨plan, _, hplanning⟩ := Except.bind_eq_ok.mp hplanning
      obtain ⟨seenNow, adding, hplanning⟩ := Except.bind_eq_ok.mp hplanning
      obtain ⟨⟨later, seenLater⟩, hplanning, returned⟩ := Except.bind_eq_ok.mp hplanning
      cases returned
      exact ih hplanning (addViews_nodup adding hdistinct)

theorem plans_nodup {tree : Node} {made : List ServerPlan} {views : List View}
    (hplanning : plans tree = .ok (made, views)) : (views.map (·.name)).Nodup := by
  obtain ⟨settings, _, hplanning⟩ := Except.bind_eq_ok.mp hplanning
  obtain ⟨⟨made', seen⟩, planned, returned⟩ := Except.bind_eq_ok.mp hplanning
  cases returned
  have hdistinct := plansFrom_nodup planned List.nodup_nil
  have hsorted := Sorted.sortBy_perm (fun a b => Sorted.textBefore a.name b.name)
    (seen.map Prod.fst)
  rw [(hsorted.map _).nodup_iff, List.map_map]
  exact hdistinct

def metricNames (tree : Node) : List String :=
  match plans tree with
  | .ok (_, views) => views.map (·.name)
  | .error _ => []

end Compiler

/-- Names join others if they are told apart themselves, and what is exported like one of them is
one of them. -/
theorem Export.apart_append_iff {old new : List String} (hapart : Export.Apart old) :
    Export.Apart (old ++ new) ↔ Export.Apart new ∧
      ∀ a ∈ old, ∀ b ∈ new, Export.metricName a = Export.metricName b → a ∈ new := by
  rw [Export.apart_append, and_iff_right hapart]
  refine and_congr_right fun apartNew => ?_
  constructor
  · intro across a inOld b inNew same
    rw [across a inOld b inNew same]
    exact inNew
  · intro across a inOld b inNew same
    exact apartNew a (across a inOld b inNew same) b inNew same

namespace Backend

variable {α : Type}

theorem compile_isOk_iff {tree : Node} {backend : Backend α} :
    ((compile tree).run.run backend).1.isOk = true ↔
      ∃ plans views, Compiler.plans tree = .ok (plans, views) ∧
        ∃ new, backend.store.pending views = .ok new := by
  rcases compile_cases tree backend with
    ⟨⟨error, run⟩, rejected⟩ | ⟨plans, views, new, planned, pending, run⟩
  · rw [run]
    constructor
    · intro accepted
      cases accepted
    · rintro ⟨plans, views, planned, new, pending⟩
      exact absurd pending (rejected plans views new planned)
  · rw [run]
    exact ⟨fun _ => ⟨plans, views, planned, new, pending⟩, fun _ => rfl⟩

open SeriesHash

def leftBy (metric : String) : Store Int :=
  ((Store.registerViews [⟨metric, "", "1", ["database"], .lastValue⟩]).run.run .empty).2

end Backend

end DirectoryMetrics
