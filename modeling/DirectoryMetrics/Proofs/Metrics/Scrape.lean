import DirectoryMetrics.Metrics.Exposition
import DirectoryMetrics.Proofs.Metrics.Series

namespace DirectoryMetrics

/-! What a scrape gives. No store that comes about is refused, and each view with rows is exported
as a family; whether all its rows are in it depends on their label values. -/

/-- The entries that have rows, in the order that they are exported in. -/
def Store.exported {α : Type} (store : Store α) : List (StoreEntry α) :=
  Sorted.sortBy (fun a b => Sorted.textBefore a.family.name b.family.name)
    ((store.entries.map Prod.snd).filter fun entry => !entry.rows.isEmpty)

namespace Exposition

variable {α : Type}

theorem checkNames_families {seen : List String} {entries : List (StoreEntry α)} :
    checkNames seen (entries.map (·.family)) = .ok () ↔
      Store.checkNames seen entries = .ok () := by
  induction entries generalizing seen with
  | nil => simp [checkNames, Store.checkNames]
  | cons entry rest ih =>
      rw [List.map_cons, checkNames, Store.checkNames]
      split
      · simp
      · exact ih

theorem gather_eq [SeriesKey] {store : Store α}
    (hdistinct : (store.entries.map fun entry => entry.2.family.name).Nodup)
    (hmirrored : ∀ entry ∈ store.entries, entry.2.Mirrored) :
    gather store = .ok (store.exported.map (·.family)) := by
  have hfamilies : store.families = (store.entries.map Prod.snd).map (·.family) := by
    rw [List.map_map]
    rfl
  have hchecked : checkNames [] store.families = .ok () := by
    rw [hfamilies, checkNames_families, Store.checkNames_eq_ok, List.map_map]
    exact ⟨hdistinct, by simp⟩
  have hfilled : store.families.filter (fun family => !family.series.isEmpty) =
      ((store.entries.map Prod.snd).filter fun entry => !entry.rows.isEmpty).map (·.family) := by
    rw [hfamilies, List.filter_map]
    congr 1
    refine List.filter_congr fun entry member => ?_
    obtain ⟨named, held, rfl⟩ := List.mem_map.mp member
    simp [(hmirrored named held).series_isEmpty]
  have hsorted := Sorted.map_sortBy (fun a b : Family α => Sorted.textBefore a.name b.name)
    (fun entry : StoreEntry α => entry.family)
    ((store.entries.map Prod.snd).filter fun entry => !entry.rows.isEmpty)
  rw [gather, hchecked, hfilled, ← hsorted]
  rfl

theorem qualify_lt {namespaceName a b : String} (hless : a < b) :
    qualify namespaceName a < qualify namespaceName b := by
  rw [qualify, qualify]
  split
  · exact hless
  · rw [String.lt_iff_toList_lt] at hless ⊢
    rw [String.toList_append, String.toList_append (s := namespaceName ++ "_")]
    exact List.append_left_lt hless

end Exposition

namespace Store

variable {α : Type}

theorem Sound.nodup_family_names {store : Store α} (hsound : store.Sound) :
    (store.entries.map fun entry => entry.2.family.name).Nodup := by
  have hnames : store.entries.map (fun entry => entry.2.family.name) =
      store.names.map Export.metricName := by
    rw [Store.names, List.map_map]
    exact List.map_congr_left fun entry member => hsound.exported entry member
  rw [hnames, Export.nodup_map_metricName]
  exact ⟨hsound.ascending.nodup_keys Sorted.textBefore_strict, hsound.apart⟩

theorem exported_perm (store : Store α) :
    store.exported.Perm ((store.entries.map Prod.snd).filter fun entry => !entry.rows.isEmpty) :=
  Sorted.sortBy_perm _ _

theorem mem_of_mem_exported {store : Store α} {entry : StoreEntry α}
    (hmember : entry ∈ store.exported) : ∃ name, (name, entry) ∈ store.entries := by
  have hheld := (List.mem_filter.mp (store.exported_perm.mem_iff.mp hmember)).1
  obtain ⟨⟨name, _⟩, inEntries, rfl⟩ := List.mem_map.mp hheld
  exact ⟨name, inEntries⟩

theorem Sound.exported_ascending {store : Store α} (hsound : store.Sound) :
    store.exported.Pairwise fun a b => a.family.name < b.family.name := by
  have hdistinct : (((store.entries.map Prod.snd).filter fun entry =>
      !entry.rows.isEmpty).map (·.family.name)).Nodup := by
    refine (List.filter_sublist.map _).nodup ?_
    rw [List.map_map]
    exact hsound.nodup_family_names
  have hsorted : store.exported.Pairwise fun a b =>
      Sorted.textBefore a.family.name b.family.name = true :=
    Sorted.sortBy_pairwise Sorted.textBefore_strict
      (fun entry : StoreEntry α => entry.family.name) hdistinct
  exact hsorted.imp fun less => by simpa [Sorted.textBefore] using less

end Store

namespace History

section

variable [SeriesKey]

/-- What the endpoint answers a scrape with is the text of the families of these entries. -/
structure Scraped (history : History Float) (namespaceName : String)
    (entries : List (StoreEntry Float)) : Prop where
  answered : Endpoint.respond namespaceName history.store ⟨"GET", "/metrics"⟩ =
    ⟨200, some "text/plain; version=0.0.4",
      String.join (entries.map fun entry =>
        Exposition.familyText (Export.metricName namespaceName) entry.family)⟩
  exported : entries.Perm
    ((history.store.entries.map Prod.snd).filter fun entry => !entry.rows.isEmpty)
  named : ∀ entry ∈ entries, entry.family.name = Export.metricName entry.view.name
  labelled : ∀ entry ∈ entries,
    entry.family.labelNames = entry.view.tagKeys.map Export.labelName
  ascending : (entries.map fun entry =>
    Exposition.qualify (Export.metricName namespaceName) entry.family.name).Pairwise (· < ·)
  lines : ∀ entry ∈ entries, (Exposition.samples entry.family).Perm
    (entry.family.series.map fun s => (Exposition.labelPairs entry.family s, s.value))
  series : ∀ entry ∈ entries, entry.seriesLabels.Nodup ∧ entry.seriesLabels ⊆ entry.labelTuples
  every : ∀ entry ∈ entries, entry.labelTuples ⊆ entry.seriesLabels ↔ entry.ToldApart
  matched : history.Writes View.Supplied → ∀ entry ∈ entries, entry.ToldApart →
    entry.seriesLabels.Perm entry.labelTuples

theorem scraped (history : History Float) (namespaceName : String) :
    history.Scraped namespaceName history.store.exported := by
  have hsound := history.sound
  have mirrored : ∀ entry ∈ history.store.exported, entry.Mirrored := by
    intro entry member
    obtain ⟨name, held⟩ := Store.mem_of_mem_exported member
    exact history.mirrored _ held
  refine ⟨?answered, history.store.exported_perm, ?named, ?labelled, ?ascending,
    fun entry _ => Sorted.sortBy_perm _ _, ?series, ?every, ?matched⟩
  case answered =>
    have hgathered := Exposition.gather_eq hsound.nodup_family_names history.mirrored
    have hpath : Endpoint.path "/metrics" = "/metrics" := by decide
    rw [Endpoint.respond, hpath, Endpoint.get, if_pos rfl, Exposition.text, hgathered]
    simp only [Except.map, List.map_map]
    rfl
  case named =>
    intro entry member
    obtain ⟨name, held⟩ := Store.mem_of_mem_exported member
    rw [hsound.exported _ held, ← hsound.named _ held]
  case labelled => exact fun entry member => (mirrored entry member).labelNames
  case ascending =>
    rw [List.pairwise_map]
    exact hsound.exported_ascending.imp fun less => Exposition.qualify_lt less
  case series =>
    exact fun entry member =>
      ⟨(mirrored entry member).nodup_seriesLabels, (mirrored entry member).seriesLabels_subset⟩
  case every => exact fun entry member => (mirrored entry member).labelTuples_subset_iff
  case matched =>
    intro supplied entry member apart
    obtain ⟨name, held⟩ := Store.mem_of_mem_exported member
    exact (complete supplied _ held).seriesLabels_perm (mirrored entry member) apart

end

open SeriesHash

def merged : History Float :=
  ((start.registered [⟨"waits", "", "1", ["host", "port"], .lastValue⟩])
    |>.committed [⟨"waits", 1⟩] (Tags.ofPairs [("host", "x"), ("port", "yz")]))
    |>.committed [⟨"waits", 2⟩] (Tags.ofPairs [("host", "xy"), ("port", "z")])

theorem merged_loses_row : merged.Writes View.Supplied ∧
    merged.store.exported.map (·.labelTuples) = [[["x", "yz"], ["xy", "z"]]] ∧
    merged.store.exported.map (·.seriesLabels) = [[["x", "yz"]]] := by
  refine ⟨?_, ?_, ?_⟩
  · decide +kernel
  · decide +kernel
  · decide +kernel

end History

end DirectoryMetrics
