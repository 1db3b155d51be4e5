import DirectoryMetrics.Proofs.Metrics.Cumulative

namespace DirectoryMetrics

namespace Push

section

variable {β : Type} {size : Nat}

theorem chunksFrom_cons (parts : Nat) (x : β) (rest : List β) :
    chunksFrom size (parts + 1) (x :: rest) =
      (x :: rest).take size :: chunksFrom size parts ((x :: rest).drop size) :=
  rfl

theorem length_of_mem_chunksFrom (hpositive : 0 < size) {parts : Nat} {xs : List β} :
    ∀ part ∈ chunksFrom size parts xs, 0 < part.length ∧ part.length ≤ size := by
  induction parts generalizing xs with
  | zero => simp [chunksFrom]
  | succ parts ih =>
      cases xs with
      | nil => simp [chunksFrom]
      | cons x rest =>
          rw [chunksFrom_cons, List.forall_mem_cons]
          refine ⟨?_, ih⟩
          rw [List.length_take, List.length_cons]
          omega

theorem chunksFrom_eq_nil {parts : Nat} {xs : List β} (henough : xs.length ≤ parts) :
    chunksFrom size parts xs = [] ↔ xs = [] := by
  cases xs with
  | nil => cases parts <;> simp [chunksFrom]
  | cons x rest =>
      cases parts with
      | zero => simp at henough
      | succ parts => simp [chunksFrom]

theorem length_of_mem_dropLast_chunksFrom (hpositive : 0 < size) {parts : Nat} {xs : List β}
    (henough : xs.length ≤ parts) :
    ∀ part ∈ (chunksFrom size parts xs).dropLast, part.length = size := by
  induction parts generalizing xs with
  | zero => simp [chunksFrom]
  | succ parts ih =>
      cases xs with
      | nil => simp [chunksFrom]
      | cons x rest =>
          have hfewer : ((x :: rest).drop size).length ≤ parts := by
            rw [List.length_drop]
            omega
          rw [chunksFrom_cons]
          by_cases last : (x :: rest).drop size = []
          · rw [(chunksFrom_eq_nil hfewer).mpr last]
            simp
          · have hfollowed : chunksFrom size parts ((x :: rest).drop size) ≠ [] := by
              rwa [Ne, chunksFrom_eq_nil hfewer]
            rw [List.dropLast_cons_of_ne_nil hfollowed, List.forall_mem_cons]
            refine ⟨?_, ih hfewer⟩
            rw [List.drop_eq_nil_iff, Nat.not_le] at last
            rw [List.length_take]
            omega

end

end Push

namespace Store

variable {α : Type}

def rows (store : Store α) : List (View × Tags × α) :=
  store.snapshot.flatMap fun (view, rows) => rows.map fun row => (view, row)

variable [SeriesKey] [Quantity α]

theorem Reachable.nodup_rows {store : Store α} (hreachable : store.Reachable) :
    (store.rows.map fun row => (row.1.name, row.2.1)).Nodup := by
  obtain ⟨history, rfl⟩ := History.exists_of_reachable hreachable
  have hsound := history.sound
  have hnames : (history.store.snapshot.map fun part => part.1.name).Nodup := by
    have same : (history.store.snapshot.map fun part => part.1.name) =
        history.store.entries.map Prod.fst := by
      rw [snapshot, List.map_map]
      exact List.map_congr_left fun entry member => hsound.named entry member
    rw [same]
    exact hsound.ascending.nodup_keys Sorted.textBefore_strict
  have hinView : ∀ part ∈ history.store.snapshot, (part.2.map Prod.fst).Nodup := by
    rintro ⟨view, rows⟩ member
    obtain ⟨entry, found, rfl, rfl⟩ := History.mem_snapshot.mp member
    exact (history.rows_ascending _ (Sorted.mem_of_lookup found)).nodup_keys Tags.before_strict
  rw [rows, List.map_flatMap, List.nodup_flatMap]
  constructor
  · intro part member
    rw [List.map_map]
    have htagged : (part.2.map fun row => (part.1.name, row.1)).Nodup := by
      have hkeys := (hinView part member).map (f := fun tags => (part.1.name, tags))
        fun a b same => (Prod.mk.inj same).2
      rwa [List.map_map] at hkeys
    exact htagged
  · rw [List.Nodup, List.pairwise_map] at hnames
    refine hnames.imp fun {part other} different => ?_
    intro row inPart inOther
    simp only [List.map_map, List.mem_map, Function.comp_apply] at inPart inOther
    obtain ⟨_, _, rfl⟩ := inPart
    obtain ⟨_, _, same⟩ := inOther
    exact different (Prod.mk.inj same).1.symm

end Store

namespace Push

variable {α : Type}

structure Shows (options : PushOptions) (started now : Instant) (row : View × Tags × α)
    (s : TimeSeries α) : Prop where
  type : s.metricType = metricType options row.1
  labels : s.labels = row.2.1
  value : s.value = row.2.2
  unit : s.unit = row.1.unit
  kind : s.kind = if row.1.aggregation = .lastValue then "GAUGE" else "CUMULATIVE"
  start : s.start = if row.1.aggregation = .lastValue then none else some started
  time : s.time = now

theorem rowSeries_shows (options : PushOptions) (started now : Instant) (view : View)
    (row : Tags × α) :
    Shows options started now (view, row) (rowSeries options started now view row) where
  type := rfl
  labels := rfl
  value := rfl
  unit := rfl
  kind := by
    simp only [TimeSeries.kind, rowSeries]
    split <;> rfl
  start := rfl
  time := rfl

theorem series_eq_map (options : PushOptions) (started now : Instant) (store : Store α) :
    series options started now store =
      store.rows.map fun row => rowSeries options started now row.1 row.2 := by
  rw [series, Store.rows, List.map_flatMap]
  simp only [List.map_map]
  rfl

/-- Requests that show the rows of a store. -/
structure Partitions (options : PushOptions) (started now : Instant) (store : Store α)
    (requests : List (List (TimeSeries α))) : Prop where
  rows : List.Forall₂ (Shows options started now) store.rows requests.flatten
  sizes : ∀ request ∈ requests, 1 ≤ request.length ∧ request.length ≤ 200
  full : ∀ request ∈ requests.dropLast, request.length = 200
  empty : requests = [] ↔ store.rows = []
  distinct : (requests.flatten.map fun s => (s.metricType, s.labels)).Nodup

/-- The requests of a push partition the rows of any store that can come about. -/
theorem requests_partition [SeriesKey] [Quantity α] {store : Store α}
    (hreachable : store.Reachable) (options : PushOptions) (started now : Instant) :
    Partitions options started now store (requests options started now store) where
  rows := by
    rw [flatten_requests, series_eq_map, List.forall₂_map_right_iff, List.forall₂_same]
    exact fun row _ => rowSeries_shows options started now row.1 row.2
  sizes := length_of_mem_chunksFrom (by decide)
  full := length_of_mem_dropLast_chunksFrom (by decide) (Nat.le_refl _)
  empty := by
    rw [requests, chunks, chunksFrom_eq_nil (Nat.le_refl _), series_eq_map, List.map_eq_nil_iff]
  distinct := by
    rw [flatten_requests, series_eq_map, List.map_map]
    have hkeys := hreachable.nodup_rows.map
      (f := fun key : String × Tags => (trimSlashes options.metricPrefix ++ "/" ++ key.1, key.2))
      fun a b same => by
        obtain ⟨sameType, sameTags⟩ := Prod.mk.inj same
        refine Prod.ext ?_ sameTags
        have hchars := congrArg String.toList sameType
        simp only [String.toList_append] at hchars
        exact String.toList_inj.mp (List.append_cancel_left hchars)
    rwa [List.map_map] at hkeys

def crowded (databases : Nat) : History Int :=
  (List.range databases).foldl
    (fun history n =>
      history.committed [⟨"hits", n⟩] (Tags.ofPairs [("database", toString (999 - n))]))
    (History.start.registered
      [⟨"hits", "", "1", ["database"], .sum⟩, ⟨"waits", "", "1", [], .lastValue⟩])

open SeriesHash in
theorem crowded_partition :
    (crowded 201).store.Reachable ∧
      (requests History.pushOptions ⟨0, 0⟩ ⟨5, 0⟩ (crowded 201).store).map List.length =
        [200, 1] ∧
      Partitions History.pushOptions ⟨0, 0⟩ ⟨5, 0⟩ (crowded 201).store
        (requests History.pushOptions ⟨0, 0⟩ ⟨5, 0⟩ (crowded 201).store) :=
  ⟨History.store_reachable _, by decide +kernel,
    requests_partition (History.store_reachable _) History.pushOptions ⟨0, 0⟩ ⟨5, 0⟩⟩

end Push

end DirectoryMetrics
