import DirectoryMetrics.Metrics.SeriesHash
import DirectoryMetrics.Proofs.Metrics.History
import DirectoryMetrics.Proofs.Metrics.Tags
import Mathlib.Algebra.BigOperators.Group.List.Basic
import Mathlib.Algebra.Ring.Int.Defs

namespace DirectoryMetrics

/-! The store is the aggregate of its history. What is in a row is said by all that was measured for
it since its view was last added or redefined. -/

/-- Zero, one and sums of measured values are those of exact arithmetic. -/
structure Quantity.Exact (α : Type) [Quantity α] [AddMonoidWithOne α] : Prop where
  zero : (Quantity.zero : α) = 0
  one : (Quantity.one : α) = 1
  add : ∀ a b : α, Quantity.add a b = a + b

theorem Quantity.exact_int : Quantity.Exact Int := ⟨rfl, rfl, fun _ _ => rfl⟩

namespace Aggregation

variable {α : Type} [AddMonoidWithOne α]

/-- The last of some values, their sum or their number. -/
def total (kind : Aggregation) (values : List α) : α :=
  match kind with
  | lastValue => values.getLast?.getD 0
  | sum => values.sum
  | count => values.length

def total? (kind : Aggregation) (values : List α) : Option α :=
  if values.isEmpty then none else some (kind.total values)

theorem total?_eq_some {kind : Aggregation} {values : List α} {value : α} :
    kind.total? values = some value ↔ values ≠ [] ∧ value = kind.total values := by
  cases values with
  | nil => simp [total?]
  | cons first rest => simp [total?, eq_comm]

theorem total?_append_singleton [Quantity α] (hexact : Quantity.Exact α) (kind : Aggregation)
    (values : List α) (value : α) :
    kind.total? (values ++ [value]) =
      some (kind.combine ((kind.total? values).getD Quantity.zero) value) := by
  have hstarted : (kind.total? values).getD Quantity.zero = kind.total values := by
    cases values with
    | nil => cases kind <;> simp [total?, total, hexact.zero]
    | cons first rest => simp [total?]
  rw [hstarted]
  cases kind with
  | lastValue => simp [total?, total, combine]
  | sum => simp [total?, total, combine, hexact.add]
  | count => simp [total?, total, combine, hexact.add, hexact.one]

end Aggregation

namespace StoreEntry

variable {α : Type} [SeriesKey] [Quantity α]

theorem lookup_record (tags : Tags) (value : α) (entry : StoreEntry α) (row : Tags) :
    (entry.record tags value).rows.lookup row =
      if row = tags.restrict entry.view.tagKeys then
        some (entry.view.aggregation.combine ((entry.rows.lookup row).getD Quantity.zero) value)
      else entry.rows.lookup row := by
  rw [record, Sorted.lookup_put]
  split
  · rename_i same
    rw [same, combined]
  · rfl

theorem lookup_recordAll [AddMonoidWithOne α] (hexact : Quantity.Exact α) {tags : Tags}
    {values : List α} {entry : StoreEntry α} (seen : Tags → List α)
    (htotals : ∀ row, entry.rows.lookup row = entry.view.aggregation.total? (seen row))
    (row : Tags) :
    (entry.recordAll tags values).rows.lookup row =
      entry.view.aggregation.total?
        (seen row ++ if tags.restrict entry.view.tagKeys = row then values else []) := by
  induction values generalizing entry seen with
  | nil => simp [recordAll, htotals]
  | cons value rest ih =>
      rw [recordAll, List.foldl_cons, ← recordAll]
      rw [ih fun row =>
        seen row ++ if tags.restrict entry.view.tagKeys = row then [value] else []]
      · rw [record_view]
        by_cases same : tags.restrict entry.view.tagKeys = row
        · simp [same]
        · simp [same]
      · intro other
        rw [lookup_record, record_view]
        by_cases same : tags.restrict entry.view.tagKeys = other
        · rw [if_pos same.symm, if_pos same, htotals,
            Aggregation.total?_append_singleton hexact]
        · rw [if_neg (Ne.symm same), if_neg same, List.append_nil, htotals]

end StoreEntry

namespace History

section

variable {α : Type} [SeriesKey] [Quantity α]

/-- The values that were measured for a row since its view was last added or redefined. -/
def observed (view : View) (row : Tags) : History α → List α
  | start => []
  | registered before views =>
      if (before.registered views).definition? view.name = before.definition? view.name then
        before.observed view row
      else []
  | committed before batch tags =>
      before.observed view row ++
        if tags.restrict view.tagKeys = row then batch.valuesOf view.name else []
  | retained before _ => before.observed view row

theorem rows_ascending (history : History α) :
    ∀ entry ∈ history.store.entries, Sorted.Ascending Tags.before entry.2.rows := by
  apply forall_entries (P := fun entry => Sorted.Ascending Tags.before entry.rows)
    (Q := fun _ _ => True)
  · exact fun _ _ _ => List.Pairwise.nil
  · exact fun entry tags value _ => Sorted.put_ascending Tags.before_strict _ _
  · exact writes_of_forall (fun _ _ => trivial) history

theorem mem_snapshot {history : History α} {view : View} {rows : List (Tags × α)} :
    (view, rows) ∈ history.store.snapshot ↔
      ∃ entry, history.store.get? view.name = some entry ∧ entry.view = view ∧
        entry.rows = rows := by
  constructor
  · intro member
    obtain ⟨⟨name, entry⟩, inEntries, eq⟩ := List.mem_map.mp member
    cases eq
    have hnamed := history.sound.named _ inEntries
    exact ⟨entry, hnamed ▸ history.sound.get?_of_mem inEntries, rfl, rfl⟩
  · rintro ⟨entry, found, rfl, rfl⟩
    exact List.mem_map.mpr ⟨_, Sorted.mem_of_lookup found, rfl⟩

variable [AddMonoidWithOne α]

theorem lookup_rows (hexact : Quantity.Exact α) (history : History α) (honce : history.NamesOnce)
    {name : String} {entry : StoreEntry α} (hfound : history.store.get? name = some entry)
    (row : Tags) :
    entry.rows.lookup row =
      entry.view.aggregation.total? (history.observed entry.view row) := by
  induction history generalizing entry row with
  | start => cases hfound
  | registered before views ih =>
      have hnamed := (before.registered views).sound.name_of_get? hfound
      rw [observed, hnamed]
      rcases registered_cases honce.2 (before.get?_view honce.1 name) with
        ⟨same, defined⟩ | ⟨view, family, _, added, defined, other⟩
      · rw [if_pos defined]
        exact ih honce.1 (same.symm.trans hfound) row
      · rw [added, Option.some.injEq] at hfound
        subst hfound
        rw [defined, if_neg (Ne.symm other)]
        rfl
  | committed before batch tags ih =>
      rw [store, Store.get?_commit, Option.map_eq_some_iff] at hfound
      obtain ⟨old, held, rfl⟩ := hfound
      rw [StoreEntry.lookup_recordAll hexact _ (ih honce held), StoreEntry.recordAll_view, observed,
        before.sound.name_of_get? held]
  | retained before keep ih =>
      rw [store, Store.get?_retain] at hfound
      split at hfound
      · exact ih honce hfound row
      · cases hfound

/-- What the snapshot of a store says of its history. -/
structure Aggregates (history : History α) : Prop where
  ascending : (history.store.snapshot.map fun part => part.1.name).Pairwise (· < ·)
  defined : ∀ view, view ∈ history.store.snapshot.map Prod.fst ↔
    history.definition? view.name = some view
  rows_ascending : ∀ part ∈ history.store.snapshot, Sorted.Ascending Tags.before part.2
  rows : ∀ part ∈ history.store.snapshot, ∀ row value, (row, value) ∈ part.2 ↔
    history.observed part.1 row ≠ [] ∧
      value = part.1.aggregation.total (history.observed part.1 row)
  unregistered : ∀ batch tags, (history.committed batch tags).store =
    (history.committed (batch.filter fun m => (history.definition? m.measure).isSome) tags).store

theorem snapshot_aggregates (hexact : Quantity.Exact α) (history : History α)
    (honce : history.NamesOnce) : history.Aggregates where
  ascending := by
    have hnames : history.store.snapshot.map (fun part => part.1.name) =
        history.store.entries.map Prod.fst := by
      rw [Store.snapshot, List.map_map]
      exact List.map_congr_left fun entry member => history.sound.named entry member
    rw [hnames, List.pairwise_map]
    exact history.sound.ascending.imp fun less => by simpa [Sorted.textBefore] using less
  defined view := by
    rw [← history.get?_view honce, Option.map_eq_some_iff]
    constructor
    · intro member
      obtain ⟨⟨_, rows⟩, inSnapshot, rfl⟩ := List.mem_map.mp member
      obtain ⟨entry, found, same, _⟩ := mem_snapshot.mp inSnapshot
      exact ⟨entry, found, same⟩
    · rintro ⟨entry, found, same⟩
      exact List.mem_map.mpr ⟨(view, entry.rows), mem_snapshot.mpr ⟨entry, found, same, rfl⟩, rfl⟩
  rows_ascending := by
    rintro ⟨view, rows⟩ member
    obtain ⟨entry, found, _, rfl⟩ := mem_snapshot.mp member
    exact history.rows_ascending _ (Sorted.mem_of_lookup found)
  rows := by
    rintro ⟨view, rows⟩ member row value
    obtain ⟨entry, found, rfl, rfl⟩ := mem_snapshot.mp member
    have hnodup := (history.rows_ascending _ (Sorted.mem_of_lookup found)).nodup_keys
      Tags.before_strict
    rw [← Aggregation.total?_eq_some, ← lookup_rows hexact history honce found]
    exact ⟨Sorted.lookup_of_mem hnodup, Sorted.mem_of_lookup⟩
  unregistered batch tags := by
    have hunknown : ∀ name, (history.definition? name).isSome = false →
        history.store.get? name = none := by
      intro name absent
      rw [← history.get?_view honce] at absent
      simpa using absent
    exact (Store.commit_filter hunknown batch tags).symm

end

open SeriesHash

/-- A view that is redefined and registered again as it is, next to one that stays, is dropped and
comes back. -/
def redefined : History Int :=
  let hits : View := ⟨"hits", "", "1", ["database"], .sum⟩
  let waits : View := ⟨"waits", "", "1", ["database", "host"], .count⟩
  let last : View := { hits with aggregation := .lastValue }
  let first := Tags.ofPairs [("database", "first"), ("host", "a")]
  let second := Tags.ofPairs [("database", "second")]
  ((((((((start.registered [waits, hits])
    |>.committed [⟨"hits", 2⟩, ⟨"waits", 7⟩, ⟨"hits", 3⟩] first)
    |>.registered [last, waits])
    |>.committed [⟨"hits", 5⟩, ⟨"misses", 1⟩, ⟨"hits", 4⟩, ⟨"waits", 7⟩] first)
    |>.registered [last])
    |>.committed [⟨"waits", -1⟩, ⟨"hits", 6⟩] second)
    |>.retained ["waits"])
    |>.registered [hits])
    |>.committed [⟨"hits", -2⟩, ⟨"hits", -3⟩] first

theorem redefined_aggregates : redefined.NamesOnce ∧ redefined.Aggregates := by
  have honce : redefined.NamesOnce := by simp [redefined, NamesOnce]
  exact ⟨honce, snapshot_aggregates Quantity.exact_int redefined honce⟩

example : redefined.store.snapshot.map (fun part => (part.1.name, part.2)) =
    [("hits", [(⟨[("database", "first")]⟩, -5)]),
      ("waits", [(⟨[("database", "first"), ("host", "a")]⟩, 2),
        (⟨[("database", "second")]⟩, 1)])] := by
  decide +kernel

end History

end DirectoryMetrics
