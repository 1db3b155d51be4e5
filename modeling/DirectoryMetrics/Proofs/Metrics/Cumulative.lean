import DirectoryMetrics.Metrics.TimeSeries
import DirectoryMetrics.Proofs.Metrics.Aggregate
import Mathlib.Data.List.Infix

namespace DirectoryMetrics

namespace Push

theorem flatten_chunksFrom {β : Type} {size : Nat} (hpositive : 0 < size) {parts : Nat}
    {xs : List β} (henough : xs.length ≤ parts) : (chunksFrom size parts xs).flatten = xs := by
  induction parts generalizing xs with
  | zero =>
      rw [List.eq_nil_of_length_eq_zero (Nat.le_zero.mp henough)]
      rfl
  | succ parts ih =>
      cases xs with
      | nil => rfl
      | cons x rest =>
          have hfewer : ((x :: rest).drop size).length ≤ parts := by
            rw [List.length_drop]
            omega
          rw [chunksFrom, List.flatten_cons, ih hfewer, List.take_append_drop]
          simp

theorem flatten_requests {α : Type} (options : PushOptions) (started now : Instant)
    (store : Store α) :
    (requests options started now store).flatten = series options started now store :=
  flatten_chunksFrom (by decide) (Nat.le_refl _)

def metricType (options : PushOptions) (view : View) : String :=
  trimSlashes options.metricPrefix ++ "/" ++ view.name

theorem metricType_inj {options : PushOptions} {view view' : View}
    (hsame : metricType options view' = metricType options view) : view'.name = view.name := by
  have hchars := congrArg String.toList hsame
  simp only [metricType, String.toList_append] at hchars
  exact String.toList_inj.mp (List.append_cancel_left hchars)

theorem mem_requests {α : Type} [SeriesKey] [Quantity α] {options : PushOptions}
    {started now : Instant} {history : History α} {s : TimeSeries α}
    (hmember : s ∈ (requests options started now history.store).flatten) :
    ∃ entry, history.store.get? entry.view.name = some entry ∧
      entry.rows.lookup s.labels = some s.value ∧
      s = rowSeries options started now entry.view (s.labels, s.value) := by
  rw [flatten_requests, series] at hmember
  obtain ⟨⟨view, rows⟩, inSnapshot, inRows⟩ := List.mem_flatMap.mp hmember
  obtain ⟨⟨row, value⟩, inRow, rfl⟩ := List.mem_map.mp inRows
  obtain ⟨entry, found, rfl, rfl⟩ := History.mem_snapshot.mp inSnapshot
  have hnodup := (history.rows_ascending _ (Sorted.mem_of_lookup found)).nodup_keys
    Tags.before_strict
  exact ⟨entry, found, Sorted.lookup_of_mem hnodup inRow, rfl⟩

theorem rowSeries_cumulative {α : Type} {options : PushOptions} {started now : Instant}
    {view : View} {row : Tags × α}
    (hcumulative : (rowSeries options started now view row).kind = "CUMULATIVE") :
    view.aggregation ≠ .lastValue := by
  intro last
  simp [rowSeries, TimeSeries.kind, last] at hcumulative

end Push

namespace StoreEntry

/-- The view is the same one, and no row of a total is gone or less than it was. -/
structure Grows (entry entry' : StoreEntry Int) : Prop where
  view : entry'.view = entry.view
  rows : ∀ row value, entry.rows.lookup row = some value →
    ∃ value', entry'.rows.lookup row = some value' ∧
      (entry.view.aggregation ≠ .lastValue → value ≤ value')

theorem Grows.refl (entry : StoreEntry Int) : entry.Grows entry :=
  ⟨rfl, fun _ value found => ⟨value, found, fun _ => le_refl value⟩⟩

theorem Grows.trans {entry entry' entry'' : StoreEntry Int} (hfirst : entry.Grows entry')
    (hsecond : entry'.Grows entry'') : entry.Grows entry'' := by
  refine ⟨hsecond.view.trans hfirst.view, fun row value found => ?_⟩
  obtain ⟨value', found', less⟩ := hfirst.rows row value found
  obtain ⟨value'', found'', less'⟩ := hsecond.rows row value' found'
  rw [hfirst.view] at less'
  exact ⟨value'', found'', fun total => le_trans (less total) (less' total)⟩

theorem Grows.record [SeriesKey] {value : Int} (hnonneg : 0 ≤ value) (tags : Tags)
    (entry : StoreEntry Int) : entry.Grows (entry.record tags value) := by
  refine ⟨rfl, fun row old found => ?_⟩
  rw [lookup_record]
  by_cases written : row = tags.restrict entry.view.tagKeys
  · rw [if_pos written, found]
    refine ⟨_, rfl, fun total => ?_⟩
    cases kind : entry.view.aggregation with
    | lastValue => exact absurd kind total
    | sum => exact Int.le_add_of_nonneg_right hnonneg
    | count => exact Int.le_add_of_nonneg_right (by decide)
  · rw [if_neg written]
    exact ⟨old, found, fun _ => le_refl old⟩

theorem Grows.recordAll [SeriesKey] {values : List Int} (hnonneg : ∀ value ∈ values, 0 ≤ value)
    (tags : Tags) (entry : StoreEntry Int) : entry.Grows (entry.recordAll tags values) := by
  induction values generalizing entry with
  | nil => exact .refl entry
  | cons value rest ih =>
      rw [List.forall_mem_cons] at hnonneg
      exact (Grows.record hnonneg.1 tags entry).trans (ih hnonneg.2 _)

end StoreEntry

inductive Call (α : Type) where
  | register (views : List View)
  | commit (batch : Batch α) (tags : Tags)
  | retain (keep : List String)

def Call.Nonneg : Call Int → Prop
  | .commit batch _ => ∀ m ∈ batch, 0 ≤ m.value
  | .register _ | .retain _ => True

instance : DecidablePred Call.Nonneg
  | .commit batch _ => inferInstanceAs (Decidable (∀ m ∈ batch, 0 ≤ m.value))
  | .register _ | .retain _ => .isTrue trivial

namespace Store

theorem Sound.mem_views_iff {α : Type} {store : Store α} (hsound : store.Sound) {view : View} :
    view ∈ store.views ↔ ∃ entry, store.get? view.name = some entry ∧ entry.view = view := by
  constructor
  · intro member
    obtain ⟨⟨name, entry⟩, inEntries, rfl⟩ := List.mem_map.mp member
    have hnamed := hsound.named _ inEntries
    exact ⟨entry, hnamed ▸ hsound.get?_of_mem inEntries, rfl⟩
  · rintro ⟨entry, found, rfl⟩
    exact List.mem_map.mpr ⟨_, Sorted.mem_of_lookup found, rfl⟩

theorem not_registered_of_new {α : Type} {store : Store α} {views : List View}
    {new : List (StoreEntry α)}
    (hmaking : List.Forall₂ (fun view entry => newEntry view = .ok entry)
      (views.filter fun view => !store.isRegistered view) new) :
    ∀ entry ∈ new, store.isRegistered entry.view = false := by
  intro entry added
  obtain ⟨i, atEntry⟩ := List.mem_iff_getElem?.mp added
  obtain ⟨view, atView, made⟩ := exists_of_forall₂_getElem? hmaking atEntry
  obtain ⟨family, _, rfl⟩ := newEntry_eq_ok.mp made
  have hasked := (List.mem_filter.mp (List.mem_of_getElem? atView)).2
  simpa using hasked

/-- A registration leaves the entry of a name as it is or puts one of another view in its place. -/
theorem Sound.get?_registerViews_cases {α : Type} {store : Store α} (hsound : store.Sound)
    (views : List View) {name : String} {entry : StoreEntry α}
    (hfound : store.get? name = some entry) :
    ((Store.registerViews views).run.run store).2.get? name = some entry ∨
      ∃ other, ((Store.registerViews views).run.run store).2.get? name = some other ∧
        other.view ≠ entry.view := by
  rw [run_registerViews]
  cases checked : store.pending views with
  | error error => exact .inl hfound
  | ok new =>
      obtain ⟨making, distinct⟩ := pending_eq_ok.mp checked
      rw [hsound.map_family_name making, Export.nodup_map_metricName, List.map_append] at distinct
      simp only []
      rw [get?_foldl_put (List.nodup_append.mp distinct.1).2.1, hfound]
      cases added : new.find? (·.view.name == name) with
      | none => exact .inl rfl
      | some other =>
          refine .inr ⟨other, rfl, fun same => ?_⟩
          have hregistered := not_registered_of_new making other (List.mem_of_find?_eq_some added)
          rw [isRegistered_eq, same, hsound.name_of_get? hfound, hfound] at hregistered
          simp at hregistered

end Store

namespace History

def call {α : Type} (history : History α) : Call α → History α
  | .register views => history.registered views
  | .commit batch tags => history.committed batch tags
  | .retain keep => history.retained keep

def after {α : Type} (history : History α) (calls : List (Call α)) : History α :=
  calls.foldl call history

section

variable [SeriesKey]

/-- After a call, an entry of the same view goes on from the rows that it had. -/
theorem grows_call {history : History Int} {call : Call Int} (hnonneg : call.Nonneg) {name : String}
    {entry entry' : StoreEntry Int} (hfound : history.store.get? name = some entry)
    (hfound' : (history.call call).store.get? name = some entry')
    (hsame : entry'.view = entry.view) : entry.Grows entry' := by
  cases call with
  | register views =>
      rcases history.sound.get?_registerViews_cases views hfound with
        left | ⟨other, replaced, different⟩
      · rw [call, store, left] at hfound'
        cases hfound'
        exact .refl entry
      · rw [call, store, replaced] at hfound'
        cases hfound'
        exact absurd hsame different
  | commit batch tags =>
      rw [call, store, Store.get?_commit, hfound] at hfound'
      cases hfound'
      refine .recordAll (fun value measured => ?_) tags entry
      obtain ⟨m, inBatch, rfl⟩ := List.mem_map.mp measured
      exact hnonneg m (List.mem_filter.mp inBatch).1
  | retain keep =>
      rw [call, store, Store.get?_retain] at hfound'
      split at hfound'
      · rw [hfound] at hfound'
        cases hfound'
        exact .refl entry
      · cases hfound'

/-- A view is there, as it is, all the time while some calls are made. -/
def Keeps (view : View) (history : History Int) (calls : List (Call Int)) : Prop :=
  ∀ made ∈ calls.inits, view ∈ (history.after made).store.views

instance (view : View) (history : History Int) (calls : List (Call Int)) :
    Decidable (history.Keeps view calls) :=
  inferInstanceAs (Decidable (∀ made ∈ calls.inits, _))

theorem keeps_cons {view : View} {history : History Int} {call : Call Int}
    {calls : List (Call Int)} :
    history.Keeps view (call :: calls) ↔
      view ∈ history.store.views ∧ (history.call call).Keeps view calls := by
  simp [Keeps, after]

theorem Keeps.here {view : View} {history : History Int} {calls : List (Call Int)}
    (hkept : history.Keeps view calls) : view ∈ history.store.views :=
  hkept [] ((List.mem_inits _ _).mpr List.nil_prefix)

theorem grows_after {history : History Int} {calls : List (Call Int)}
    (hnonneg : ∀ call ∈ calls, call.Nonneg) {entry : StoreEntry Int}
    (hfound : history.store.get? entry.view.name = some entry)
    (hkept : history.Keeps entry.view calls) :
    ∃ entry', (history.after calls).store.get? entry.view.name = some entry' ∧
      entry.Grows entry' := by
  induction calls generalizing history entry with
  | nil => exact ⟨entry, hfound, .refl entry⟩
  | cons call rest ih =>
      rw [List.forall_mem_cons] at hnonneg
      rw [keeps_cons] at hkept
      obtain ⟨next, there, same⟩ :=
        (history.call call).sound.mem_views_iff.mp hkept.2.here
      have hfirst := grows_call hnonneg.1 hfound there same
      rw [← same] at there hkept ⊢
      obtain ⟨last, later, rest⟩ := ih hnonneg.2 there hkept.2
      exact ⟨last, later, hfirst.trans rest⟩

/-- Between two pushes of one exporter, calls that measure nothing below zero leave the start of a
total and do not lower it, if the view of the total is kept as it is by all of them. -/
theorem totals_monotone {history : History Int} {calls : List (Call Int)}
    (hnonneg : ∀ call ∈ calls, call.Nonneg) {options : PushOptions} {started now now' : Instant}
    {s s' : TimeSeries Int}
    (hpushed : s ∈ (Push.requests options started now history.store).flatten)
    (hpushed' : s' ∈ (Push.requests options started now' (history.after calls).store).flatten)
    (hcumulative : s.kind = "CUMULATIVE") (hsameType : s'.metricType = s.metricType)
    (hsameLabels : s'.labels = s.labels)
    (hkept : ∀ view ∈ history.store.views, Push.metricType options view = s.metricType →
      history.Keeps view calls) :
    s'.kind = "CUMULATIVE" ∧ s'.start = s.start ∧ s.value ≤ s'.value := by
  obtain ⟨entry, found, row, isRow⟩ := Push.mem_requests hpushed
  obtain ⟨entry', found', row', isRow'⟩ := Push.mem_requests hpushed'
  have htyped : s.metricType = Push.metricType options entry.view :=
    congrArg TimeSeries.metricType isRow
  have typed' : s'.metricType = Push.metricType options entry'.view :=
    congrArg TimeSeries.metricType isRow'
  have hsameName : entry'.view.name = entry.view.name :=
    Push.metricType_inj (typed'.symm.trans (hsameType.trans htyped))
  obtain ⟨last, later, grows⟩ := grows_after hnonneg found
    (hkept entry.view (history.sound.mem_views_iff.mpr ⟨entry, found, rfl⟩) htyped.symm)
  rw [hsameName, later, Option.some.injEq] at found'
  subst found'
  rw [isRow] at hcumulative
  have htotal := Push.rowSeries_cumulative hcumulative
  obtain ⟨value, there, less⟩ := grows.rows s.labels s.value row
  rw [hsameLabels, there, Option.some.injEq] at row'
  have started : s'.start = s.start := by
    rw [isRow, isRow', Push.rowSeries, Push.rowSeries, grows.view]
  refine ⟨?_, started, row' ▸ less htotal⟩
  rw [TimeSeries.kind, started, isRow]
  exact hcumulative

end

open SeriesHash

def hits : View := ⟨"hits", "", "1", ["database"], .sum⟩

def hitsTags : Tags := Tags.ofPairs [("database", "first")]

def counted : History Int :=
  let waits : View := ⟨"waits", "", "1", ["database", "host"], .count⟩
  start.after [.register [waits, hits],
    .commit [⟨"hits", 2⟩, ⟨"waits", 7⟩, ⟨"hits", 3⟩] hitsTags]

def pushOptions : PushOptions := ⟨"project", none, none, "custom.googleapis.com/"⟩

def pushedHits (now : Instant) (value : Int) : TimeSeries Int :=
  Push.rowSeries pushOptions ⟨0, 0⟩ now hits (hitsTags, value)

def keeping : List (Call Int) :=
  [.register [{ hits with name := "misses" }, hits], .commit [⟨"misses", 1⟩, ⟨"hits", 0⟩] hitsTags,
    .retain ["hits"], .commit [⟨"hits", 4⟩] hitsTags]

theorem keeping_monotone :
    pushedHits ⟨5, 0⟩ 5 ∈
      (Push.requests pushOptions ⟨0, 0⟩ ⟨5, 0⟩ counted.store).flatten ∧
    pushedHits ⟨9, 0⟩ 9 ∈
      (Push.requests pushOptions ⟨0, 0⟩ ⟨9, 0⟩ (counted.after keeping).store).flatten ∧
    counted.Keeps hits keeping ∧
    (pushedHits ⟨9, 0⟩ 9).kind = "CUMULATIVE" ∧
    (pushedHits ⟨9, 0⟩ 9).start = (pushedHits ⟨5, 0⟩ 5).start ∧
    (pushedHits ⟨5, 0⟩ 5).value ≤ (pushedHits ⟨9, 0⟩ 9).value := by
  have hpushed : pushedHits ⟨5, 0⟩ 5 ∈
      (Push.requests pushOptions ⟨0, 0⟩ ⟨5, 0⟩ counted.store).flatten := by
    decide +kernel
  have pushed' : pushedHits ⟨9, 0⟩ 9 ∈
      (Push.requests pushOptions ⟨0, 0⟩ ⟨9, 0⟩ (counted.after keeping).store).flatten := by
    decide +kernel
  have hnonneg : ∀ call ∈ keeping, call.Nonneg := by decide +kernel
  have hkept : ∀ view ∈ counted.store.views,
      Push.metricType pushOptions view = (pushedHits ⟨5, 0⟩ 5).metricType →
        counted.Keeps view keeping := by
    decide +kernel
  refine ⟨hpushed, pushed', hkept hits (by decide +kernel) rfl, ?_⟩
  exact totals_monotone hnonneg hpushed pushed' rfl rfl rfl hkept

def redefining : List (Call Int) :=
  [.register [{ hits with description := "Hits" }], .commit [⟨"hits", 1⟩] hitsTags]

theorem redefining_lowers :
    (∀ call ∈ redefining, call.Nonneg) ∧
    ∃ s ∈ (Push.requests pushOptions ⟨0, 0⟩ ⟨5, 0⟩ counted.store).flatten,
    ∃ s' ∈ (Push.requests pushOptions ⟨0, 0⟩ ⟨9, 0⟩ (counted.after redefining).store).flatten,
      s.kind = "CUMULATIVE" ∧ s'.kind = "CUMULATIVE" ∧ s'.metricType = s.metricType ∧
        s'.labels = s.labels ∧ s'.start = s.start ∧ s'.value < s.value := by
  refine ⟨?_, pushedHits ⟨5, 0⟩ 5, ?_, pushedHits ⟨9, 0⟩ 1, ?_, ?_⟩
  · decide +kernel
  · decide +kernel
  · decide +kernel
  · decide +kernel

end History

end DirectoryMetrics
