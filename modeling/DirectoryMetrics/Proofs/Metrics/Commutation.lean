import DirectoryMetrics.Proofs.Metrics.Series
import Mathlib.Data.List.Pairwise
import Mathlib.Logic.Function.Basic

namespace DirectoryMetrics

/-! What commits do to the rows and series of an entry. Values for different rows may be recorded in
any order as far as the rows go, and as far as the series go if their keys are different too. -/

namespace Family

variable {α : Type} [SeriesKey]

def seriesFor (key : UInt64) (series : List (Series α)) : Option (Series α) :=
  series.find? fun s => SeriesKey.key s.labels == key

theorem seriesFor_cons (key : UInt64) (s : Series α) (rest : List (Series α)) :
    seriesFor key (s :: rest) =
      if SeriesKey.key s.labels = key then some s else seriesFor key rest := by
  by_cases same : SeriesKey.key s.labels = key
  · simp [seriesFor, same]
  · simp [seriesFor, same]

theorem seriesFor_setSeries_self [Quantity α] (kind : FamilyKind) (labels : List String)
    (value : α) (series : List (Series α)) :
    seriesFor (SeriesKey.key labels) (setSeries kind labels value series) =
      let current := (seriesFor (SeriesKey.key labels) series).getD ⟨labels, Quantity.zero⟩
      some { current with value := nextValue kind current.value value } := by
  induction series with
  | nil => simp [setSeries, seriesFor]
  | cons s rest ih =>
      rw [setSeries]
      by_cases same : SeriesKey.key s.labels = SeriesKey.key labels
      · simp [seriesFor_cons, same]
      · simp [seriesFor_cons, same, ih]

theorem seriesFor_setSeries_of_ne [Quantity α] (kind : FamilyKind) {labels : List String}
    {key : UInt64} (hother : key ≠ SeriesKey.key labels) (value : α) (series : List (Series α)) :
    seriesFor key (setSeries kind labels value series) = seriesFor key series := by
  induction series with
  | nil => simp [setSeries, seriesFor, hother.symm]
  | cons s rest ih =>
      rw [setSeries]
      by_cases same : SeriesKey.key s.labels = SeriesKey.key labels
      · simp [seriesFor_cons, same, hother.symm]
      · simp [seriesFor_cons, same, ih]

theorem seriesFor_of_mem {series : List (Series α)} (hdistinct : (keys series).Nodup)
    {s : Series α} (hmember : s ∈ series) :
    seriesFor (SeriesKey.key s.labels) series = some s := by
  cases found : seriesFor (SeriesKey.key s.labels) series with
  | none => exact absurd (List.find?_eq_none.mp found s hmember) (by simp)
  | some other =>
      have hsame : SeriesKey.key other.labels = SeriesKey.key s.labels := by
        simpa using List.find?_some found
      rw [List.inj_on_of_nodup_map hdistinct (List.mem_of_find?_eq_some found) hmember hsame]

theorem perm_of_seriesFor {series series' : List (Series α)} (hdistinct : (keys series).Nodup)
    (hdistinct' : (keys series').Nodup)
    (hsame : ∀ key, seriesFor key series = seriesFor key series') : series.Perm series' := by
  rw [List.perm_ext_iff_of_nodup hdistinct.of_map hdistinct'.of_map]
  intro s
  constructor
  · intro member
    have hfound := seriesFor_of_mem hdistinct member
    rw [hsame] at hfound
    exact List.mem_of_find?_eq_some hfound
  · intro member
    have hfound := seriesFor_of_mem hdistinct' member
    rw [← hsame] at hfound
    exact List.mem_of_find?_eq_some hfound

end Family

namespace Batch

variable {α σ τ : Type} {record : Tags → α → σ → σ} {name : String}

def recordAll (record : Tags → α → σ → σ) (tags : Tags) (values : List α) (s : σ) : σ :=
  values.foldl (fun s value => record tags value s) s

def commitAll (record : Tags → α → σ → σ) (name : String) (commits : List (Batch α × Tags))
    (s : σ) : σ :=
  commits.foldl (fun s made => recordAll record made.2 (made.1.valuesOf name) s) s

theorem recordAll_comm {a b : Tags}
    (hcomm : ∀ v w s, record b w (record a v s) = record a v (record b w s)) (vs ws : List α)
    (s : σ) :
    recordAll record b ws (recordAll record a vs s) =
      recordAll record a vs (recordAll record b ws s) := by
  have hone : ∀ v s, recordAll record b ws (record a v s) =
      record a v (recordAll record b ws s) := by
    intro v s
    exact List.foldl_hom (record a v) fun s w => hcomm v w s
  exact (List.foldl_hom (recordAll record b ws) fun s v => (hone v s).symm).symm

/-- Commits may be made in any order, if no two of them get in each other's way. -/
theorem commitAll_perm {commits commits' : List (Batch α × Tags)} (hperm : commits.Perm commits')
    (hcomm : commits.Pairwise fun a b =>
      ∀ v w s, record b.2 w (record a.2 v s) = record a.2 v (record b.2 w s)) (s : σ) :
    commitAll record name commits s = commitAll record name commits' s := by
  let Exchangeable (a b : Batch α × Tags) : Prop := ∀ s,
    recordAll record b.2 (b.1.valuesOf name) (recordAll record a.2 (a.1.valuesOf name) s) =
      recordAll record a.2 (a.1.valuesOf name) (recordAll record b.2 (b.1.valuesOf name) s)
  have hsymm : Std.Symm Exchangeable := ⟨fun _ _ hsame s => (hsame s).symm⟩
  have hpairwise : commits.Pairwise Exchangeable :=
    hcomm.imp fun hsame s => recordAll_comm hsame _ _ s
  have heach := hpairwise.forall_of_forall fun _ _ _ => rfl
  apply hperm.foldl_eq'
  exact fun a hinA b hinB s => heach hinA hinB s

section

variable {record' : Tags → α → τ → τ} {P : σ → Prop}
  (hkept : ∀ tags value s, P s → P (record tags value s))

include hkept

theorem recordAll_induct {tags : Tags} {values : List α} {s : σ} (hheld : P s) :
    P (recordAll record tags values s) := by
  unfold recordAll
  induction values generalizing s with
  | nil => exact hheld
  | cons value rest ih => exact ih (hkept tags value s hheld)

theorem commitAll_induct {commits : List (Batch α × Tags)} {s : σ} (hheld : P s) :
    P (commitAll record name commits s) := by
  unfold commitAll
  induction commits generalizing s with
  | nil => exact hheld
  | cons made rest ih => exact ih (recordAll_induct hkept hheld)

theorem recordAll_hom (f : σ → τ)
    (hsame : ∀ tags value s, P s → f (record tags value s) = record' tags value (f s))
    {tags : Tags} {values : List α} {s : σ} (hheld : P s) :
    f (recordAll record tags values s) = recordAll record' tags values (f s) := by
  unfold recordAll
  induction values generalizing s with
  | nil => rfl
  | cons value rest ih =>
      rw [List.foldl_cons, List.foldl_cons, ← hsame tags value s hheld]
      exact ih (hkept tags value s hheld)

/-- What is seen of a state follows it through all commits. -/
theorem commitAll_hom (f : σ → τ)
    (hsame : ∀ tags value s, P s → f (record tags value s) = record' tags value (f s))
    {commits : List (Batch α × Tags)} {s : σ} (hheld : P s) :
    f (commitAll record name commits s) = commitAll record' name commits (f s) := by
  unfold commitAll
  induction commits generalizing s with
  | nil => rfl
  | cons made rest ih =>
      rw [List.foldl_cons, List.foldl_cons, ← recordAll_hom hkept f hsame hheld]
      exact ih (recordAll_induct hkept hheld)

end

end Batch

def View.seriesKey [SeriesKey] (view : View) (tags : Tags) : UInt64 :=
  SeriesKey.key (StoreEntry.labelValues view (tags.restrict view.tagKeys))

/-- A value for each row, and a series for each key. -/
structure Cells (α : Type) where
  rows : Tags → Option α
  series : UInt64 → Option (Series α)

namespace Cells

variable {α : Type} [Quantity α]

def combined (view : View) (tags : Tags) (value : α) (rows : Tags → Option α) : α :=
  view.aggregation.combine ((rows (tags.restrict view.tagKeys)).getD Quantity.zero) value

def recordRow (view : View) (tags : Tags) (value : α) (rows : Tags → Option α) :
    Tags → Option α :=
  Function.update rows (tags.restrict view.tagKeys) (some (combined view tags value rows))

variable {view : View} {a b : Tags}

theorem combined_recordRow (hrows : a.restrict view.tagKeys ≠ b.restrict view.tagKeys) (v w : α)
    (rows : Tags → Option α) :
    combined view b w (recordRow view a v rows) = combined view b w rows := by
  rw [combined, combined, recordRow, Function.update_of_ne hrows.symm]

theorem recordRow_comm (hrows : a.restrict view.tagKeys ≠ b.restrict view.tagKeys) (v w : α)
    (rows : Tags → Option α) :
    recordRow view b w (recordRow view a v rows) =
      recordRow view a v (recordRow view b w rows) := by
  have hthen := combined_recordRow hrows v w rows
  have hbefore := combined_recordRow hrows.symm w v rows
  unfold recordRow at hthen hbefore ⊢
  rw [hthen, hbefore]
  exact Function.update_comm hrows _ _ _

variable [SeriesKey]

def record (view : View) (tags : Tags) (value : α) (cells : Cells α) : Cells α :=
  let current := (cells.series (view.seriesKey tags)).getD
    ⟨StoreEntry.labelValues view (tags.restrict view.tagKeys), Quantity.zero⟩
  { rows := recordRow view tags value cells.rows
    series := Function.update cells.series (view.seriesKey tags)
      (some { current with
        value := Family.nextValue (.of view.aggregation) current.value
          (combined view tags value cells.rows) }) }

theorem ne_of_seriesKey_ne (happart : view.seriesKey a ≠ view.seriesKey b) :
    a.restrict view.tagKeys ≠ b.restrict view.tagKeys := by
  intro hsame
  exact happart (congrArg (fun row => SeriesKey.key (StoreEntry.labelValues view row)) hsame)

/-- Tags whose series are told apart have different cells. -/
theorem record_comm (happart : view.seriesKey a ≠ view.seriesKey b) (v w : α)
    (cells : Cells α) :
    (cells.record view a v).record view b w = (cells.record view b w).record view a v := by
  have hrows := ne_of_seriesKey_ne happart
  simp only [record, recordRow_comm hrows, combined_recordRow hrows,
    combined_recordRow hrows.symm, Function.update_of_ne happart,
    Function.update_of_ne happart.symm, mk.injEq, true_and]
  exact Function.update_comm happart _ _ _

end Cells

namespace StoreEntry

variable {α : Type}

def cells [SeriesKey] (entry : StoreEntry α) : Cells α where
  rows row := entry.rows.lookup row
  series key := Family.seriesFor key entry.family.series

variable [SeriesKey] [Quantity α]

theorem lookup_rows_record (tags : Tags) (value : α) (entry : StoreEntry α) :
    (fun row => (entry.record tags value).rows.lookup row) =
      Cells.recordRow entry.view tags value fun row => entry.rows.lookup row := by
  funext row
  rw [Cells.recordRow, Function.update_apply]
  exact Sorted.lookup_put _ row _ entry.rows

theorem cells_record {entry : StoreEntry α} (hmirrored : entry.Mirrored) (tags : Tags)
    (value : α) : (entry.record tags value).cells = entry.cells.record entry.view tags value := by
  have hseries : (entry.record tags value).cells.series =
      (entry.cells.record entry.view tags value).series := by
    funext key
    simp only [cells, hmirrored.record_family, hmirrored.kind, Cells.record]
    by_cases own : key = entry.view.seriesKey tags
    · rw [own, Function.update_self]
      exact Family.seriesFor_setSeries_self _ _ _ entry.family.series
    · rw [Function.update_of_ne own]
      exact Family.seriesFor_setSeries_of_ne _ own _ entry.family.series
  exact congrArg₂ Cells.mk (lookup_rows_record tags value entry) hseries

def commitAll (name : String) (commits : List (Batch α × Tags)) (entry : StoreEntry α) :
    StoreEntry α :=
  Batch.commitAll StoreEntry.record name commits entry

@[simp] theorem commitAll_view (name : String) (commits : List (Batch α × Tags))
    (entry : StoreEntry α) : (entry.commitAll name commits).view = entry.view := by
  apply Batch.commitAll_induct (P := fun later : StoreEntry α => later.view = entry.view)
  · exact fun _ _ _ hview => hview
  · rfl

theorem commitAll_of_unwritten {name : String} {commits : List (Batch α × Tags)}
    (hunwritten : ∀ made ∈ commits, made.1.valuesOf name = []) (entry : StoreEntry α) :
    entry.commitAll name commits = entry := by
  unfold commitAll Batch.commitAll
  induction commits with
  | nil => rfl
  | cons made rest ih =>
      rw [List.forall_mem_cons] at hunwritten
      rw [List.foldl_cons, hunwritten.1]
      exact ih hunwritten.2

theorem commitAll_of_unwritten_perm {name : String} {commits commits' : List (Batch α × Tags)}
    (hunwritten : ∀ made ∈ commits, made.1.valuesOf name = []) (hperm : commits.Perm commits')
    {entry : StoreEntry α} : entry.commitAll name commits = entry.commitAll name commits' := by
  rw [commitAll_of_unwritten hunwritten, commitAll_of_unwritten]
  exact fun made hinside => hunwritten made (hperm.mem_iff.mpr hinside)

theorem cells_commitAll {entry : StoreEntry α} (hmirrored : entry.Mirrored) (name : String)
    (commits : List (Batch α × Tags)) :
    (entry.commitAll name commits).cells =
      Batch.commitAll (Cells.record entry.view) name commits entry.cells := by
  apply Batch.commitAll_hom (P := fun later : StoreEntry α =>
    later.view = entry.view ∧ later.Mirrored) ?_ cells ?_ ⟨rfl, hmirrored⟩
  · rintro tags value later ⟨hview, hmirrored⟩
    exact ⟨hview, hmirrored.record tags value⟩
  · rintro tags value later ⟨hview, hmirrored⟩
    rw [← hview]
    exact cells_record hmirrored tags value

theorem lookup_rows_commitAll (name : String) (commits : List (Batch α × Tags))
    (entry : StoreEntry α) :
    (fun row => (entry.commitAll name commits).rows.lookup row) =
      Batch.commitAll (Cells.recordRow entry.view) name commits
        fun row => entry.rows.lookup row := by
  apply Batch.commitAll_hom (P := fun later : StoreEntry α => later.view = entry.view) ?_
    (fun later row => later.rows.lookup row) ?_ rfl
  · exact fun tags value later hview => hview
  · intro tags value later hview
    rw [← hview]
    exact lookup_rows_record tags value later

theorem commitAll_ascending {entry : StoreEntry α}
    (hascending : Sorted.Ascending Tags.before entry.rows) (name : String)
    (commits : List (Batch α × Tags)) :
    Sorted.Ascending Tags.before (entry.commitAll name commits).rows := by
  apply Batch.commitAll_induct (P := fun later : StoreEntry α =>
    Sorted.Ascending Tags.before later.rows)
  · exact fun tags value later => Sorted.put_ascending Tags.before_strict _ _
  · exact hascending

theorem commitAll_rows {entry : StoreEntry α}
    (hascending : Sorted.Ascending Tags.before entry.rows) {name : String}
    {commits commits' : List (Batch α × Tags)} (hperm : commits.Perm commits')
    (hrows : commits.Pairwise fun a b =>
      a.2.restrict entry.view.tagKeys ≠ b.2.restrict entry.view.tagKeys) :
    (entry.commitAll name commits).rows = (entry.commitAll name commits').rows := by
  apply Sorted.ascending_ext Tags.before_strict (commitAll_ascending hascending name commits)
    (commitAll_ascending hascending name commits')
  apply congrFun
  rw [lookup_rows_commitAll, lookup_rows_commitAll]
  exact Batch.commitAll_perm hperm
    (hrows.imp fun hother v w => Cells.recordRow_comm hother v w) _

end StoreEntry

end DirectoryMetrics
