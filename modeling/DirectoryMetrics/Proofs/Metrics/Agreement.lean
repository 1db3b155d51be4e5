import DirectoryMetrics.Metrics.TimeSeries
import DirectoryMetrics.Proofs.Metrics.Series

namespace DirectoryMetrics

/-! Rows are pushed as they are, and exported as series. A series shows the value of its row, but a
counter is never below zero. -/

/-- What a series shows for the value of its row: a sum below zero is shown as zero. -/
def Aggregation.shown (kind : Aggregation) (value : Int) : Int :=
  match kind with
  | lastValue | count => value
  | sum => max value 0

theorem Aggregation.shown_nonneg {kind : Aggregation} (hcounter : kind ≠ .lastValue) {value : Int}
    (hcounted : kind = .count → 0 ≤ value) : 0 ≤ kind.shown value := by
  cases kind with
  | lastValue => exact absurd rfl hcounter
  | sum => exact le_max_right value 0
  | count => exact hcounted rfl

/-- What is shown next does not depend on what has been shown before. -/
theorem Family.nextValue_eq {kind : Aggregation} {current value : Int}
    (hnonneg : kind ≠ .lastValue → 0 ≤ current) (hcounted : kind = .count → 0 ≤ value) :
    Family.nextValue (.of kind) current value = kind.shown value := by
  have hcounter : 0 ≤ current → Family.nextValue .counter current value = max value 0 := by
    intro hnonneg
    simp only [Family.nextValue, Quantity.positivePart, Quantity.less, Quantity.zero,
      Quantity.add, Quantity.sub, decide_eq_true_eq]
    split <;> split <;> omega
  cases kind with
  | lastValue => rfl
  | sum => exact hcounter (hnonneg (by decide))
  | count => exact (hcounter (hnonneg (by decide))).trans (max_eq_left (hcounted rfl))

theorem Push.series_rows {α : Type} (options : PushOptions) (started now : Instant)
    (store : Store α) :
    (Push.series options started now store).map (fun pushed => (pushed.labels, pushed.value)) =
      store.snapshot.flatMap Prod.snd := by
  rw [Push.series, List.map_flatMap]
  refine List.flatMap_congr fun part _ => ?_
  rw [List.map_map]
  exact List.map_id _

namespace StoreEntry

variable [SeriesKey]

instance {α : Type} (entry : StoreEntry α) : Decidable entry.ToldApart :=
  inferInstanceAs (Decidable (∀ a ∈ entry.labelTuples, ∀ b ∈ entry.labelTuples, _ → a = b))

theorem ToldApart.of_record {α : Type} [Quantity α] {tags : Tags} {value : α}
    {entry : StoreEntry α} (hapart : (entry.record tags value).ToldApart) : entry.ToldApart :=
  fun a inA b inB same =>
    hapart a (mem_labelTuples_record.mpr (.inr inA)) b (mem_labelTuples_record.mpr (.inr inB)) same

structure InStep (entry : StoreEntry Int) : Prop where
  mirrored : entry.Mirrored
  complete : entry.Complete
  counted : entry.view.aggregation = .count → ∀ row ∈ entry.rows, 0 ≤ row.2
  nonneg : entry.view.aggregation ≠ .lastValue → ∀ s ∈ entry.family.series, 0 ≤ s.value
  shown : entry.ToldApart → ∀ row ∈ entry.rows, ∀ s ∈ entry.family.series,
    s.labels = labelValues entry.view row.1 → s.value = entry.view.aggregation.shown row.2

theorem inStep_of_ofView {view : View} {family : Family Int}
    (hmade : Family.ofView view = .ok family) : (StoreEntry.mk view family []).InStep := by
  obtain ⟨help, same⟩ := Family.ofView_eq_ok hmade
  refine ⟨mirrored_of_ofView hmade, complete_nil view family, ?_, ?_, ?_⟩
  · simp
  · simp [same]
  · simp

theorem InStep.combined_nonneg {entry : StoreEntry Int} (hinStep : entry.InStep)
    (hcount : entry.view.aggregation = .count) (tags : Tags) (value : Int) :
    0 ≤ entry.combined tags value := by
  have hbefore : 0 ≤ (entry.rows.lookup (tags.restrict entry.view.tagKeys)).getD Quantity.zero := by
    cases found : entry.rows.lookup (tags.restrict entry.view.tagKeys) with
    | none => exact le_refl 0
    | some old => exact hinStep.counted hcount _ (Sorted.mem_of_lookup found)
  rw [combined, hcount]
  exact Int.add_nonneg hbefore (by decide)

theorem InStep.set_cases {entry : StoreEntry Int} (hinStep : entry.InStep) {labels : List String}
    {value : Int} (hcounted : entry.view.aggregation = .count → 0 ≤ value) {s : Series Int}
    (hmember : s ∈ Family.setSeries entry.family.kind labels value entry.family.series) :
    (s ∈ entry.family.series ∧ SeriesKey.key s.labels ≠ SeriesKey.key labels) ∨
      (SeriesKey.key s.labels = SeriesKey.key labels ∧
        s.value = entry.view.aggregation.shown value) := by
  have hnext : ∀ current, (entry.view.aggregation ≠ .lastValue → 0 ≤ current) →
      Family.nextValue entry.family.kind current value = entry.view.aggregation.shown value := by
    intro current nonneg
    rw [hinStep.mirrored.kind]
    exact Family.nextValue_eq nonneg hcounted
  rcases Family.setSeries_cases hinStep.mirrored.distinct hmember with
    held | ⟨current, rfl, same, held | rfl⟩
  · exact .inl held
  · exact .inr ⟨same, hnext _ fun counter => hinStep.nonneg counter current held⟩
  · exact .inr ⟨same, hnext _ fun _ => le_refl 0⟩

theorem InStep.record {entry : StoreEntry Int} (hinStep : entry.InStep) {tags : Tags}
    (hsupplied : entry.view.Supplied tags) (value : Int) : (entry.record tags value).InStep := by
  have hmirrored := hinStep.mirrored.record tags value
  have hcomplete := hinStep.complete.record hsupplied value
  have hcombined := fun count => hinStep.combined_nonneg count tags value
  have hfamily := hinStep.mirrored.record_family tags value
  refine ⟨hmirrored, hcomplete, ?counted, ?nonneg, ?shown⟩
  case counted =>
    intro count row inRows
    rcases Sorted.mem_of_mem_put inRows with rfl | held
    · exact hcombined count
    · exact hinStep.counted count row held
  case nonneg =>
    intro counter s member
    rw [hfamily] at member
    rcases hinStep.set_cases hcombined member with ⟨held, _⟩ | ⟨_, shown⟩
    · exact hinStep.nonneg counter s held
    · rw [shown]
      exact Aggregation.shown_nonneg counter hcombined
  case shown =>
    intro apart row inRows s inSeries labels
    rw [hfamily] at inSeries
    have hinKeys := List.mem_map_of_mem (f := Prod.fst) inRows
    rcases (Sorted.mem_put Tags.before_strict hinStep.complete.ascending).mp inRows with
      rfl | ⟨held, other⟩
    · rcases hinStep.set_cases hcombined inSeries with ⟨_, different⟩ | ⟨_, shown⟩
      · exact absurd (congrArg SeriesKey.key labels) different
      · exact shown
    · rcases hinStep.set_cases hcombined inSeries with ⟨old, _⟩ | ⟨same, _⟩
      · exact hinStep.shown apart.of_record row held s old labels
      · have hwritten : tags.restrict entry.view.tagKeys ∈
            (entry.record tags value).rows.map Prod.fst := Sorted.mem_keys_put.mpr (.inl rfl)
        have hsameLabels : labelValues entry.view row.1 =
            labelValues entry.view (tags.restrict entry.view.tagKeys) := by
          rw [labels] at same
          exact apart _ (List.mem_map_of_mem hinKeys) _ (List.mem_map_of_mem hwritten) same
        exact absurd (hcomplete.eq_of_labelValues hinKeys hwritten hsameLabels) other

def Agrees (entry : StoreEntry Int) : Prop :=
  (entry.family.series.map fun s => (s.labels, s.value)).Perm
    (entry.rows.map fun row =>
      (labelValues entry.view row.1, entry.view.aggregation.shown row.2))

theorem InStep.agrees {entry : StoreEntry Int} (hinStep : entry.InStep)
    (hapart : entry.ToldApart) : entry.Agrees := by
  have hmirrored := hinStep.mirrored
  have hdistinctSeries : (entry.family.series.map fun s => (s.labels, s.value)).Nodup := by
    apply List.Nodup.of_map Prod.fst
    rw [List.map_map]
    exact hmirrored.nodup_seriesLabels
  have hdistinctRows : (entry.rows.map fun row =>
      (labelValues entry.view row.1, entry.view.aggregation.shown row.2)).Nodup := by
    apply List.Nodup.of_map Prod.fst
    have hnodup := hinStep.complete.nodup_labelTuples
    rw [labelTuples, List.map_map] at hnodup
    rw [List.map_map]
    exact hnodup
  rw [Agrees, List.perm_ext_iff_of_nodup hdistinctSeries hdistinctRows]
  intro shown
  constructor
  · intro member
    obtain ⟨s, inSeries, rfl⟩ := List.mem_map.mp member
    obtain ⟨tags, inKeys, labels⟩ := List.mem_map.mp (hmirrored.labels s inSeries)
    obtain ⟨row, inRows, rfl⟩ := List.mem_map.mp inKeys
    refine List.mem_map.mpr ⟨row, inRows, ?_⟩
    rw [hinStep.shown hapart row inRows s inSeries labels.symm, labels]
  · intro member
    obtain ⟨row, inRows, rfl⟩ := List.mem_map.mp member
    have htuple : labelValues entry.view row.1 ∈ entry.labelTuples :=
      List.mem_map_of_mem (List.mem_map_of_mem inRows)
    obtain ⟨s, inSeries, labels⟩ :=
      List.mem_map.mp (hmirrored.labelTuples_subset_iff.mpr hapart htuple)
    refine List.mem_map.mpr ⟨s, inSeries, ?_⟩
    rw [hinStep.shown hapart row inRows s inSeries labels, labels]

end StoreEntry

namespace History

section

variable [SeriesKey]

theorem inStep {history : History Int} (hsupplied : history.Writes View.Supplied) :
    ∀ entry ∈ history.store.entries, entry.2.InStep := by
  apply forall_entries (P := StoreEntry.InStep) (Q := View.Supplied)
  · exact fun view family made => StoreEntry.inStep_of_ofView made
  · exact fun entry tags value hsupplied inStep => inStep.record hsupplied value
  · exact hsupplied

/-- What is pushed are the rows, and series show the values of the rows, if no two rows differ in
their label values and have one key. -/
structure ExportersAgree (history : History Int) : Prop where
  pushed : ∀ (options : PushOptions) (started now : Instant),
    (Push.series options started now history.store).map
        (fun pushed => (pushed.labels, pushed.value)) =
      history.store.snapshot.flatMap Prod.snd
  exported : ∀ entry ∈ history.store.entries, entry.2.ToldApart → entry.2.Agrees

theorem exporters_agree {history : History Int} (hsupplied : history.Writes View.Supplied) :
    history.ExportersAgree where
  pushed options started now := Push.series_rows options started now history.store
  exported entry member := (inStep hsupplied entry member).agrees

end

open SeriesHash

def falling : History Int :=
  let hits : View := ⟨"hits", "", "1", ["database", "host"], .sum⟩
  let waits : View := ⟨"waits", "", "1", ["database"], .lastValue⟩
  let first := Tags.ofPairs [("database", "first"), ("host", "a")]
  let second := Tags.ofPairs [("database", "second"), ("host", "b"), ("port", "1")]
  ((((((start.registered [hits, waits])
    |>.committed [⟨"hits", 5⟩, ⟨"waits", 4⟩, ⟨"hits", -3⟩] first)
    |>.committed [⟨"hits", 2⟩, ⟨"waits", -1⟩] second)
    |>.committed [⟨"hits", -4⟩, ⟨"waits", -6⟩] first)
    |>.registered [{ waits with aggregation := .count }])
    |>.committed [⟨"waits", -6⟩, ⟨"hits", 9⟩] second)
    |>.committed [⟨"hits", -1⟩] first

theorem falling_exporters_agree : falling.Writes View.Supplied ∧
    (∀ entry ∈ falling.store.entries, entry.2.ToldApart) ∧ falling.ExportersAgree := by
  have hsupplied : falling.Writes View.Supplied := by decide +kernel
  refine ⟨hsupplied, ?_, exporters_agree hsupplied⟩
  decide +kernel

def belowZero : History Int :=
  (start.registered [⟨"hits", "", "1", ["database"], .sum⟩]).committed [⟨"hits", -1⟩]
    (Tags.ofPairs [("database", "first")])

theorem belowZero_shows_zero : belowZero.Writes View.Supplied ∧
    belowZero.store.snapshot.flatMap Prod.snd = [(⟨[("database", "first")]⟩, -1)] ∧
    belowZero.store.families.flatMap (·.series) = [⟨["first"], 0⟩] := by
  refine ⟨?_, ?_, ?_⟩
  · decide +kernel
  · decide +kernel
  · decide +kernel

end History

end DirectoryMetrics
