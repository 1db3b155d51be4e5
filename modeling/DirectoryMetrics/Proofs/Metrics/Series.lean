import DirectoryMetrics.Proofs.Metrics.Aggregate

namespace DirectoryMetrics

/-! Exported series. A family has a series for each key of the label values of a row, so it has the
series of all rows exactly if no two rows that differ in their label values have one key. -/

namespace Family

variable {α : Type} [SeriesKey]

def keys (series : List (Series α)) : List UInt64 := series.map fun s => SeriesKey.key s.labels

variable [Quantity α]

theorem keys_setSeries (kind : FamilyKind) (labels : List String) (value : α)
    (series : List (Series α)) :
    keys (setSeries kind labels value series) =
      if SeriesKey.key labels ∈ keys series then keys series
      else keys series ++ [SeriesKey.key labels] := by
  induction series with
  | nil => rfl
  | cons s rest ih =>
      rw [setSeries]
      split
      · rename_i same
        simp [keys, same]
      · rename_i different
        simp only [keys, List.map_cons, List.mem_cons] at ih ⊢
        rw [ih]
        by_cases known : SeriesKey.key labels ∈ rest.map fun s => SeriesKey.key s.labels
        · simp [known]
        · simp [known, Ne.symm different]

theorem setSeries_cases {kind : FamilyKind} {labels : List String} {value : α}
    {series : List (Series α)} (hdistinct : (keys series).Nodup) {s : Series α}
    (hmember : s ∈ setSeries kind labels value series) :
    (s ∈ series ∧ SeriesKey.key s.labels ≠ SeriesKey.key labels) ∨
    ∃ current, s = { current with value := nextValue kind current.value value } ∧
      SeriesKey.key current.labels = SeriesKey.key labels ∧
      (current ∈ series ∨ current = ⟨labels, Quantity.zero⟩) := by
  induction series with
  | nil =>
      rw [setSeries, List.mem_singleton] at hmember
      exact .inr ⟨_, hmember, rfl, .inr rfl⟩
  | cons first rest ih =>
      rw [keys, List.map_cons, List.nodup_cons] at hdistinct
      rw [setSeries] at hmember
      split at hmember
      · rename_i same
        rcases List.mem_cons.mp hmember with rfl | later
        · exact .inr ⟨first, rfl, same, .inl List.mem_cons_self⟩
        · refine .inl ⟨List.mem_cons_of_mem _ later, fun again => hdistinct.1 ?_⟩
          exact List.mem_map.mpr ⟨s, later, again.trans same.symm⟩
      · rename_i different
        rcases List.mem_cons.mp hmember with rfl | later
        · exact .inl ⟨List.mem_cons_self, different⟩
        · rcases ih hdistinct.2 later with ⟨held, other⟩ | ⟨current, eq, same, held⟩
          · exact .inl ⟨List.mem_cons_of_mem _ held, other⟩
          · exact .inr ⟨current, eq, same, held.imp_left (List.mem_cons_of_mem _)⟩

end Family

namespace StoreEntry

variable {α : Type}

def labelTuples (entry : StoreEntry α) : List (List String) :=
  (entry.rows.map Prod.fst).map (labelValues entry.view)

def seriesLabels (entry : StoreEntry α) : List (List String) :=
  entry.family.series.map (·.labels)

variable [SeriesKey]

/-- No two label values of rows that differ have one key. -/
def ToldApart (entry : StoreEntry α) : Prop :=
  ∀ a ∈ entry.labelTuples, ∀ b ∈ entry.labelTuples,
    SeriesKey.key a = SeriesKey.key b → a = b

structure Mirrored (entry : StoreEntry α) : Prop where
  kind : entry.family.kind = .of entry.view.aggregation
  labelNames : entry.family.labelNames = entry.view.tagKeys.map Export.labelName
  distinct : (Family.keys entry.family.series).Nodup
  labels : ∀ s ∈ entry.family.series, s.labels ∈ entry.labelTuples
  keys : ∀ a ∈ entry.labelTuples, SeriesKey.key a ∈ Family.keys entry.family.series

theorem mirrored_of_ofView {view : View} {family : Family α}
    (hmade : Family.ofView view = .ok family) : (StoreEntry.mk view family []).Mirrored := by
  obtain ⟨help, rfl⟩ := Family.ofView_eq_ok hmade
  refine ⟨rfl, rfl, List.nodup_nil, ?_, ?_⟩
  · simp
  · simp [labelTuples]

section

variable [Quantity α]

theorem mem_labelTuples_record {tags : Tags} {value : α} {entry : StoreEntry α}
    {a : List String} :
    a ∈ (entry.record tags value).labelTuples ↔
      a = labelValues entry.view (tags.restrict entry.view.tagKeys) ∨ a ∈ entry.labelTuples := by
  simp only [labelTuples, List.mem_map (f := labelValues entry.view), record,
    Sorted.mem_keys_put]
  constructor
  · rintro ⟨row, rfl | held, rfl⟩
    · exact .inl rfl
    · exact .inr ⟨row, held, rfl⟩
  · rintro (rfl | ⟨row, held, rfl⟩)
    · exact ⟨_, .inl rfl, rfl⟩
    · exact ⟨row, .inr held, rfl⟩

theorem Mirrored.exported_eq {entry : StoreEntry α} (hmirrored : entry.Mirrored) (tags : Tags)
    (value : α) :
    entry.exported tags value = .ok { entry.family with
      series := Family.setSeries entry.family.kind
        (labelValues entry.view (tags.restrict entry.view.tagKeys)) (entry.combined tags value)
        entry.family.series } := by
  have hagree : (labelValues entry.view (tags.restrict entry.view.tagKeys)).length =
      entry.family.labelNames.length := by
    rw [hmirrored.labelNames, labelValues, List.length_map, List.length_map]
  rw [exported, Family.set, if_pos hagree]

theorem Mirrored.record_family {entry : StoreEntry α} (hmirrored : entry.Mirrored) (tags : Tags)
    (value : α) :
    (entry.record tags value).family = { entry.family with
      series := Family.setSeries entry.family.kind
        (labelValues entry.view (tags.restrict entry.view.tagKeys)) (entry.combined tags value)
        entry.family.series } := by
  rw [StoreEntry.record, hmirrored.exported_eq]

theorem Mirrored.record {entry : StoreEntry α} (hmirrored : entry.Mirrored) (tags : Tags)
    (value : α) : (entry.record tags value).Mirrored where
  kind := by
    rw [hmirrored.record_family]
    exact hmirrored.kind
  labelNames := by
    rw [hmirrored.record_family]
    exact hmirrored.labelNames
  distinct := by
    rw [hmirrored.record_family, Family.keys_setSeries]
    split
    · exact hmirrored.distinct
    · rename_i unknown
      exact List.nodup_append.mpr ⟨hmirrored.distinct, List.nodup_singleton _,
        fun a held b single => by
          rw [List.mem_singleton.mp single]
          rintro rfl
          exact unknown held⟩
  labels := by
    intro s member
    rw [mem_labelTuples_record]
    rw [hmirrored.record_family] at member
    rcases Family.setSeries_cases hmirrored.distinct member with
      ⟨held, _⟩ | ⟨current, rfl, _, held | rfl⟩
    · exact .inr (hmirrored.labels s held)
    · exact .inr (hmirrored.labels current held)
    · exact .inl rfl
  keys := by
    intro a member
    rw [mem_labelTuples_record] at member
    rw [hmirrored.record_family, Family.keys_setSeries]
    rcases member with rfl | held
    · split
      · rename_i known
        exact known
      · simp
    · have known := hmirrored.keys a held
      split
      · exact known
      · exact List.mem_append_left _ known

end

theorem Mirrored.seriesLabels_subset {entry : StoreEntry α} (hmirrored : entry.Mirrored) :
    entry.seriesLabels ⊆ entry.labelTuples := by
  intro a member
  obtain ⟨s, held, rfl⟩ := List.mem_map.mp member
  exact hmirrored.labels s held

theorem Mirrored.nodup_seriesLabels {entry : StoreEntry α} (hmirrored : entry.Mirrored) :
    entry.seriesLabels.Nodup := by
  have hdistinct : (entry.seriesLabels.map SeriesKey.key).Nodup := by
    rw [seriesLabels, List.map_map]
    exact hmirrored.distinct
  exact hdistinct.of_map

/-- No row lacks a series exactly if label values are told apart. -/
theorem Mirrored.labelTuples_subset_iff {entry : StoreEntry α} (hmirrored : entry.Mirrored) :
    entry.labelTuples ⊆ entry.seriesLabels ↔ entry.ToldApart := by
  constructor
  · intro all a inA b inB same
    obtain ⟨s, inSeries, rfl⟩ := List.mem_map.mp (all inA)
    obtain ⟨t, inSeries', rfl⟩ := List.mem_map.mp (all inB)
    rw [List.inj_on_of_nodup_map hmirrored.distinct inSeries inSeries' same]
  · intro apart a inA
    obtain ⟨s, inSeries, same⟩ := List.mem_map.mp (hmirrored.keys a inA)
    have heq := apart s.labels (hmirrored.labels s inSeries) a inA same
    exact List.mem_map.mpr ⟨s, inSeries, heq⟩

theorem Mirrored.series_isEmpty {entry : StoreEntry α} (hmirrored : entry.Mirrored) :
    entry.family.series.isEmpty = entry.rows.isEmpty := by
  cases rows : entry.rows with
  | nil =>
      cases series : entry.family.series with
      | nil => rfl
      | cons s rest =>
          have row := hmirrored.labels s (by simp [series])
          simp [labelTuples, rows] at row
  | cons row rest =>
      cases series : entry.family.series with
      | nil =>
          have hknown := hmirrored.keys (labelValues entry.view row.1) (by simp [labelTuples, rows])
          simp [Family.keys, series] at hknown
      | cons s more => rfl

end StoreEntry

def View.Supplied (view : View) (tags : Tags) : Prop :=
  tags.Ordered ∧ ∀ key ∈ view.tagKeys, (tags.get? key).isSome = true

instance (view : View) (tags : Tags) : Decidable (view.Supplied tags) :=
  inferInstanceAs (Decidable (_ ∧ _))

namespace StoreEntry

variable {α : Type}

/-- The rows are in order, and each has a tag for every label and no other. -/
structure Complete (entry : StoreEntry α) : Prop where
  ascending : Sorted.Ascending Tags.before entry.rows
  ordered : ∀ row ∈ entry.rows.map Prod.fst, row.Ordered
  supplied : ∀ row ∈ entry.rows.map Prod.fst, ∀ key,
    (row.get? key).isSome = true ↔ key ∈ entry.view.tagKeys

theorem complete_nil (view : View) (family : Family α) :
    (StoreEntry.mk view family []).Complete := by
  refine ⟨List.Pairwise.nil, ?_, ?_⟩
  · simp
  · simp

theorem Complete.record [SeriesKey] [Quantity α] {entry : StoreEntry α} (hcomplete : entry.Complete)
    {tags : Tags} (hsupplied : entry.view.Supplied tags) (value : α) :
    (entry.record tags value).Complete where
  ascending := Sorted.put_ascending Tags.before_strict _ _ hcomplete.ascending
  ordered := by
    intro row member
    rcases Sorted.mem_keys_put.mp member with rfl | held
    · exact hsupplied.1.restrict _
    · exact hcomplete.ordered row held
  supplied := by
    intro row member key
    rcases Sorted.mem_keys_put.mp member with rfl | held
    · rw [Tags.get?_restrict, record_view]
      by_cases labelled : key ∈ entry.view.tagKeys
      · simp [labelled, hsupplied.2 key labelled]
      · simp [labelled]
    · exact hcomplete.supplied row held key

/-- Rows with a tag for every label are told apart by their label values. -/
theorem Complete.eq_of_labelValues {entry : StoreEntry α} (hcomplete : entry.Complete)
    {a b : Tags} (hinA : a ∈ entry.rows.map Prod.fst) (hinB : b ∈ entry.rows.map Prod.fst)
    (hsame : labelValues entry.view a = labelValues entry.view b) : a = b := by
  apply (hcomplete.ordered a hinA).ext (hcomplete.ordered b hinB)
  intro key
  have hsuppliedA := hcomplete.supplied a hinA key
  have hsuppliedB := hcomplete.supplied b hinB key
  by_cases labelled : key ∈ entry.view.tagKeys
  · have hvalues := List.map_inj_left.mp hsame key labelled
    obtain ⟨v, foundA⟩ := Option.isSome_iff_exists.mp (hsuppliedA.mpr labelled)
    obtain ⟨w, foundB⟩ := Option.isSome_iff_exists.mp (hsuppliedB.mpr labelled)
    rw [foundA, foundB] at hvalues ⊢
    exact congrArg some hvalues
  · have habsentA : ¬(a.get? key).isSome = true := fun found => labelled (hsuppliedA.mp found)
    have habsentB : ¬(b.get? key).isSome = true := fun found => labelled (hsuppliedB.mp found)
    rw [Option.not_isSome_iff_eq_none] at habsentA habsentB
    rw [habsentA, habsentB]

theorem Complete.nodup_labelTuples {entry : StoreEntry α} (hcomplete : entry.Complete) :
    entry.labelTuples.Nodup :=
  (hcomplete.ascending.nodup_keys Tags.before_strict).map_on fun _ inA _ inB same =>
    hcomplete.eq_of_labelValues inA inB same

theorem Complete.seriesLabels_perm [SeriesKey] {entry : StoreEntry α} (hcomplete : entry.Complete)
    (hmirrored : entry.Mirrored) (hapart : entry.ToldApart) :
    entry.seriesLabels.Perm entry.labelTuples := by
  rw [List.perm_ext_iff_of_nodup hmirrored.nodup_seriesLabels hcomplete.nodup_labelTuples]
  intro a
  exact ⟨fun held => hmirrored.seriesLabels_subset held,
    fun held => hmirrored.labelTuples_subset_iff.mpr hapart held⟩

end StoreEntry

namespace History

variable {α : Type} [SeriesKey] [Quantity α]

theorem mirrored (history : History α) :
    ∀ entry ∈ history.store.entries, entry.2.Mirrored := by
  apply forall_entries (P := StoreEntry.Mirrored) (Q := fun _ _ => True)
  · exact fun view family made => StoreEntry.mirrored_of_ofView made
  · exact fun entry tags value _ mirrored => mirrored.record tags value
  · exact writes_of_forall (fun _ _ => trivial) history

theorem complete {history : History α} (hsupplied : history.Writes View.Supplied) :
    ∀ entry ∈ history.store.entries, entry.2.Complete := by
  apply forall_entries (P := StoreEntry.Complete) (Q := View.Supplied)
  · exact fun view family _ => StoreEntry.complete_nil view family
  · exact fun entry tags value hsupplied complete => complete.record hsupplied value
  · exact hsupplied

end History

end DirectoryMetrics
