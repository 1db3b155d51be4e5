import DirectoryMetrics.Proofs.Metrics.Commutation
import DirectoryMetrics.Proofs.Metrics.Scrape

namespace DirectoryMetrics

/-! Commits in any order. Rows of different tags may be written in any order. Series of one label
are exported in the order of its values, so if the keys of the tags are different as well, nothing
that is exported shows the order either. -/

namespace StoreEntry

variable {α : Type}

structure Alike (a b : StoreEntry α) : Prop where
  view : a.view = b.view
  rows : a.rows = b.rows
  name : a.family.name = b.family.name
  help : a.family.help = b.family.help
  kind : a.family.kind = b.family.kind
  samples : Exposition.samples a.family = Exposition.samples b.family

end StoreEntry

namespace Exposition

variable {α : Type}

def firstLabel (s : Series α) : String := s.labels.headD ""

theorem samples_eq_of_single {family : Family α} {label : String}
    (hsingle : family.labelNames = [label])
    (hlabelled : ∀ s ∈ family.series, ∃ value, s.labels = [value]) :
    samples family =
      (Sorted.sortBy (fun s t => Sorted.textBefore (firstLabel s) (firstLabel t))
        family.series).map fun s => (labelPairs family s, s.value) := by
  have hcompared : ∀ s ∈ family.series, ∀ t ∈ family.series,
      valuesBefore (labelPairs family s) (labelPairs family t) =
        Sorted.textBefore (firstLabel s) (firstLabel t) := by
    intro s inS t inT
    obtain ⟨v, sLabels⟩ := hlabelled s inS
    obtain ⟨w, tLabels⟩ := hlabelled t inT
    rw [labelPairs, labelPairs, hsingle, firstLabel, firstLabel, sLabels, tLabels]
    by_cases same : v = w
    · simp [Sorted.sortBy, Sorted.insertBy, valuesBefore, same, Sorted.textBefore_strict.irrefl]
    · simp [Sorted.sortBy, Sorted.insertBy, valuesBefore, same]
  have hsorted := Sorted.map_sortBy
    (fun a b : List (String × String) × α => valuesBefore a.1 b.1)
    (fun s => (labelPairs family s, s.value)) family.series
  rw [samples, ← hsorted, Sorted.sortBy_congr hcompared]

theorem samples_eq_of_perm {a b : Family α} {label : String} (hsingle : a.labelNames = [label])
    (hsame : a.labelNames = b.labelNames)
    (hlabelled : ∀ s ∈ a.series, ∃ value, s.labels = [value])
    (hdistinct : (a.series.map (·.labels)).Nodup) (hperm : a.series.Perm b.series) :
    samples a = samples b := by
  have labelled' : ∀ s ∈ b.series, ∃ value, s.labels = [value] :=
    fun s member => hlabelled s (hperm.mem_iff.mpr member)
  have hlabels : a.series.map (·.labels) = (a.series.map firstLabel).map fun value => [value] := by
    rw [List.map_map]
    refine List.map_congr_left fun s member => ?_
    obtain ⟨value, hsingle⟩ := hlabelled s member
    simp [firstLabel, hsingle]
  have hsorted := Sorted.sortBy_eq_of_perm Sorted.textBefore_strict firstLabel hperm
    (hlabels ▸ hdistinct).of_map
  rw [samples_eq_of_single hsingle hlabelled, samples_eq_of_single (hsame ▸ hsingle) labelled',
    hsorted]
  simp only [labelPairs, hsame]

end Exposition

namespace StoreEntry

variable {α : Type}

def bare (entry : StoreEntry α) : Family α := { entry.family with series := [] }

theorem alike_of_cells [SeriesKey] {a b : StoreEntry α} {key : String}
    (hsingle : a.view.tagKeys = [key]) (hview : a.view = b.view) (hbare : a.bare = b.bare)
    (hmirrored : a.Mirrored) (hmirrored' : b.Mirrored) (hrows : a.rows = b.rows)
    (hcells : a.cells = b.cells) : a.Alike b := by
  obtain ⟨_, hseries⟩ := Cells.mk.inj hcells
  obtain ⟨hname, hhelp, hlabelNames, hkind, _⟩ := Family.mk.inj hbare
  have hperm := Family.perm_of_seriesFor hmirrored.distinct hmirrored'.distinct (congrFun hseries)
  have hlabelled : ∀ s ∈ a.family.series, ∃ value, s.labels = [value] := by
    intro s hmem
    obtain ⟨row, _, hlabels⟩ := List.mem_map.mp (hmirrored.labels s hmem)
    rw [← hlabels, labelValues, hsingle]
    exact ⟨_, rfl⟩
  have hlabel : a.family.labelNames = [Export.labelName key] := by
    rw [hmirrored.labelNames, hsingle]
    rfl
  exact ⟨hview, hrows, hname, hhelp, hkind, Exposition.samples_eq_of_perm hlabel hlabelNames
    hlabelled hmirrored.nodup_seriesLabels hperm⟩

theorem Alike.refl (entry : StoreEntry α) : entry.Alike entry := ⟨rfl, rfl, rfl, rfl, rfl, rfl⟩

variable [SeriesKey] [Quantity α]

theorem record_bare (tags : Tags) (value : α) (entry : StoreEntry α) :
    (entry.record tags value).bare = entry.bare := by
  rw [bare, record, exported, Family.set]
  by_cases agree : (labelValues entry.view (tags.restrict entry.view.tagKeys)).length =
      entry.family.labelNames.length
  · rw [if_pos agree]
    rfl
  · rw [if_neg agree]
    rfl

theorem commitAll_bare (name : String) (commits : List (Batch α × Tags))
    (entry : StoreEntry α) : (entry.commitAll name commits).bare = entry.bare := by
  apply Batch.commitAll_induct (P := fun later : StoreEntry α => later.bare = entry.bare)
  · exact fun tags value later hbare => (later.record_bare tags value).trans hbare
  · rfl

theorem Mirrored.commitAll {entry : StoreEntry α} (hmirrored : entry.Mirrored) (name : String)
    (commits : List (Batch α × Tags)) : (entry.commitAll name commits).Mirrored := by
  apply Batch.commitAll_induct (P := StoreEntry.Mirrored)
  · exact fun tags value later hmirrored => hmirrored.record tags value
  · exact hmirrored

theorem commitAll_alike {entry : StoreEntry α} (hmirrored : entry.Mirrored)
    (hascending : Sorted.Ascending Tags.before entry.rows) {key : String}
    (hsingle : entry.view.tagKeys = [key]) {name : String}
    {commits commits' : List (Batch α × Tags)} (hperm : commits.Perm commits')
    (happart : commits.Pairwise fun a b =>
      entry.view.seriesKey a.2 ≠ entry.view.seriesKey b.2) :
    (entry.commitAll name commits).Alike (entry.commitAll name commits') := by
  have hcells : (entry.commitAll name commits).cells = (entry.commitAll name commits').cells := by
    rw [cells_commitAll hmirrored, cells_commitAll hmirrored]
    exact Batch.commitAll_perm hperm
      (happart.imp fun hother v w => Cells.record_comm hother v w) entry.cells
  apply alike_of_cells (a := entry.commitAll name commits)
  · rw [commitAll_view, hsingle]
  · rw [commitAll_view, commitAll_view]
  · rw [commitAll_bare, commitAll_bare]
  · exact hmirrored.commitAll name commits
  · exact hmirrored.commitAll name commits'
  · exact commitAll_rows hascending hperm (happart.imp Cells.ne_of_seriesKey_ne)
  · exact hcells

end StoreEntry

namespace Store

variable {α : Type}

def Alike (a b : Store α) : Prop := List.Forall₂ (fun x y => x.2.Alike y.2) a.entries b.entries

theorem map_filled_of_alike {β : Type} {f : StoreEntry α → β}
    (hsame : ∀ x y : StoreEntry α, x.Alike y → f x = f y)
    {xs ys : List (String × StoreEntry α)}
    (halike : List.Forall₂ (fun x y => x.2.Alike y.2) xs ys) :
    ((xs.map Prod.snd).filter fun entry => !entry.rows.isEmpty).map f =
      ((ys.map Prod.snd).filter fun entry => !entry.rows.isEmpty).map f := by
  induction halike with
  | nil => rfl
  | cons first _ ih =>
      rw [List.map_cons, List.map_cons, List.filter_cons, List.filter_cons, first.rows]
      split
      · rw [List.map_cons, List.map_cons, ih, hsame _ _ first]
      · exact ih

theorem Alike.map_exported {a b : Store α} (halike : a.Alike b) {β : Type}
    {f : StoreEntry α → β} (hsame : ∀ x y : StoreEntry α, x.Alike y → f x = f y) :
    a.exported.map f = b.exported.map f := by
  have hsorted (store : Store α) : store.exported.map f =
      (Sorted.sortBy (fun x y : String × β => Sorted.textBefore x.1 y.1)
        (((store.entries.map Prod.snd).filter fun entry => !entry.rows.isEmpty).map
          fun entry => (entry.family.name, f entry))).map Prod.snd := by
    rw [← Sorted.map_sortBy, List.map_map]
    rfl
  have hnamed : ∀ x y : StoreEntry α, x.Alike y → (x.family.name, f x) = (y.family.name, f y) :=
    fun x y halike => Prod.ext halike.name (hsame x y halike)
  rw [hsorted a, hsorted b, map_filled_of_alike hnamed halike]

theorem Reachable.text_eq [SeriesKey] {store : Store Float} (hreachable : store.Reachable)
    (namespaceName : String) :
    Exposition.text namespaceName store = .ok (String.join (store.exported.map fun entry =>
      Exposition.familyText (Export.metricName namespaceName) entry.family)) := by
  obtain ⟨history, rfl⟩ := History.exists_of_reachable hreachable
  rw [Exposition.text, Exposition.gather_eq hreachable.sound.nodup_family_names history.mirrored]
  simp only [Except.map, List.map_map]
  rfl

theorem Alike.text [SeriesKey] {a b : Store Float} (halike : a.Alike b)
    (hreachable : a.Reachable) (hreachable' : b.Reachable) (namespaceName : String) :
    Exposition.text namespaceName a = Exposition.text namespaceName b := by
  rw [hreachable.text_eq, hreachable'.text_eq]
  apply congrArg fun texts => Except.ok (String.join texts)
  apply halike.map_exported
  intro x y same
  unfold Exposition.familyText
  rw [same.name, same.help, same.kind, same.samples]

variable [SeriesKey] [Quantity α]

theorem entries_commit (batch : Batch α) (tags : Tags) (store : Store α) :
    (store.commit batch tags).entries =
      store.entries.map fun entry =>
        (entry.1, entry.2.recordAll tags (batch.valuesOf entry.1)) := by
  unfold commit
  induction batch generalizing store with
  | nil => exact (List.map_id _).symm
  | cons m rest ih =>
      rw [List.foldl_cons, ih, record, Sorted.modify, List.map_map]
      apply List.map_congr_left
      rintro ⟨name, entry⟩ _
      by_cases same : name = m.measure
      · simp [Batch.valuesOf, same, StoreEntry.recordAll]
      · simp [Batch.valuesOf, same, Ne.symm same]

theorem entries_commitAll (commits : List (Batch α × Tags)) (store : Store α) :
    (store.commitAll commits).entries =
      store.entries.map fun entry => (entry.1, entry.2.commitAll entry.1 commits) := by
  unfold commitAll
  induction commits generalizing store with
  | nil => exact (List.map_id _).symm
  | cons made rest ih =>
      rw [List.foldl_cons, ih, entries_commit, List.map_map]
      rfl

/-- Commits that write to different rows of each entry may be made in any order, as far as the
snapshot goes. -/
theorem commitAll_snapshot {store : Store α} (hreachable : store.Reachable)
    {commits commits' : List (Batch α × Tags)} (hperm : commits.Perm commits')
    (hrows : ∀ entry ∈ store.entries, (∀ made ∈ commits, made.1.valuesOf entry.1 = []) ∨
      commits.Pairwise fun a b =>
        a.2.restrict entry.2.view.tagKeys ≠ b.2.restrict entry.2.view.tagKeys) :
    (store.commitAll commits).snapshot = (store.commitAll commits').snapshot := by
  obtain ⟨history, rfl⟩ := History.exists_of_reachable hreachable
  simp only [snapshot, entries_commitAll, List.map_map, Function.comp_def]
  refine List.map_congr_left fun entry hmem => ?_
  rw [StoreEntry.commitAll_view, StoreEntry.commitAll_view]
  refine congrArg (Prod.mk _) ?_
  rcases hrows entry hmem with hunwritten | hother
  · rw [StoreEntry.commitAll_of_unwritten_perm hunwritten hperm]
  · exact StoreEntry.commitAll_rows (history.rows_ascending entry hmem) hperm hother

/-- Commits may be made in any order, if to each entry that they write to they write rows of one
label that are told apart. -/
theorem commitAll_alike {store : Store α} (hreachable : store.Reachable)
    {commits commits' : List (Batch α × Tags)} (hperm : commits.Perm commits')
    (happart : ∀ entry ∈ store.entries, (∀ made ∈ commits, made.1.valuesOf entry.1 = []) ∨
      (∃ key, entry.2.view.tagKeys = [key]) ∧
        commits.Pairwise fun a b =>
          entry.2.view.seriesKey a.2 ≠ entry.2.view.seriesKey b.2) :
    (store.commitAll commits).Alike (store.commitAll commits') := by
  obtain ⟨history, rfl⟩ := History.exists_of_reachable hreachable
  rw [Alike, entries_commitAll, entries_commitAll, List.forall₂_map_left_iff,
    List.forall₂_map_right_iff, List.forall₂_same]
  intro entry hmem
  rcases happart entry hmem with hunwritten | ⟨⟨key, hsingle⟩, hother⟩
  · rw [StoreEntry.commitAll_of_unwritten_perm hunwritten hperm]
    exact .refl _
  · exact StoreEntry.commitAll_alike (history.mirrored entry hmem)
      (history.rows_ascending entry hmem) hsingle hperm hother

end Store

end DirectoryMetrics
