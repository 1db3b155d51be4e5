import DirectoryMetrics.Metrics.SeriesHash
import DirectoryMetrics.Proofs.Collection.Replacement

namespace DirectoryMetrics

namespace Export

theorem sanitize_eq_empty_iff {allowed : Char → Bool} {raw : String} :
    sanitize allowed raw = "" ↔ raw = "" := by
  have hempty (text : String) : text = "" ↔ text.toList = [] := String.toList_inj.symm
  rw [hempty, hempty raw]
  cases chars : raw.toList with
  | nil => simp [sanitize, chars]
  | cons c rest =>
      simp only [sanitize, chars, List.map_cons, String.toList_ofList]
      generalize (if allowed c then c else '_') = first
      split
      · simp
      · simp

end Export

namespace Family

theorem checkLabels_eq_ok {seen labels : List String} :
    checkLabels seen labels = .ok () ↔
      labels.Nodup ∧ ∀ label ∈ labels, label ≠ "" ∧ label ∉ seen := by
  induction labels generalizing seen with
  | nil => simp [checkLabels]
  | cons label rest ih =>
      rw [checkLabels, List.nodup_cons, List.forall_mem_cons]
      split
      · rename_i empty
        simp [String.isEmpty_iff.mp empty]
      · rename_i notEmpty
        rw [String.isEmpty_iff] at notEmpty
        split
        · rename_i known
          rw [List.contains_iff_mem] at known
          simp [known]
        · rename_i unknown
          rw [List.contains_iff_mem] at unknown
          rw [ih]
          constructor
          · rintro ⟨nodup, fresh⟩
            refine ⟨⟨fun member => ?_, nodup⟩, ⟨notEmpty, unknown⟩, fun later member => ?_⟩
            · exact (fresh label member).2 List.mem_cons_self
            · exact (fresh later member).imp_right fun unseen again =>
                unseen (List.mem_cons_of_mem _ again)
          · rintro ⟨⟨first, nodup⟩, _, fresh⟩
            refine ⟨nodup,
              fun later member => (fresh later member).imp_right fun unseen again => ?_⟩
            rcases List.mem_cons.mp again with rfl | before
            · exact first member
            · exact unseen before

end Family

/-- There is no name, a tag key is empty, or two tag keys are exported alike. -/
def View.Unexportable (view : View) : Prop :=
  view.name = "" ∨ "" ∈ view.tagKeys ∨ ¬(view.tagKeys.map Export.labelName).Nodup

theorem View.exportable_iff {α : Type} {view : View} :
    View.Exportable α view ↔ ¬view.Unexportable := by
  have hlabels : Family.checkLabels [] (view.tagKeys.map Export.labelName) = .ok () ↔
      "" ∉ view.tagKeys ∧ (view.tagKeys.map Export.labelName).Nodup := by
    rw [Family.checkLabels_eq_ok, and_comm]
    refine and_congr_left fun _ => ?_
    simp only [List.forall_mem_map, Export.labelName, ne_eq, Export.sanitize_eq_empty_iff,
      List.not_mem_nil, not_false_eq_true, and_true]
    exact ⟨fun each member => each "" member rfl,
      fun absent key member empty => absent (empty ▸ member)⟩
  have hname : (Export.metricName view.name).isEmpty = true ↔ view.name = "" := by
    rw [String.isEmpty_iff, Export.metricName, Export.sanitize_eq_empty_iff]
  rw [Unexportable, not_or, not_or, not_not, ← hlabels]
  constructor
  · rintro ⟨family, made⟩
    rw [Family.ofView] at made
    generalize (if view.description.isEmpty then view.name else view.description) = help at made
    simp only at made
    split at made
    · cases made
    · split at made
      · cases made
      · rename_i named
        obtain ⟨_, checked, _⟩ := Except.bind_eq_ok.mp made
        exact ⟨fun empty => named (hname.mpr empty), checked⟩
  · rintro ⟨named, checked⟩
    have hdescribed : (if view.description.isEmpty then view.name else view.description).isEmpty =
        false := by
      split
      · simpa using named
      · rename_i notEmpty
        simpa using notEmpty
    have hexportedName : (Export.metricName view.name).isEmpty = false := by
      rw [Bool.eq_false_iff, ne_eq, hname]
      exact named
    refine ⟨⟨Export.metricName view.name,
      if view.description.isEmpty then view.name else view.description,
      view.tagKeys.map Export.labelName, .of view.aggregation, []⟩, ?_⟩
    rw [Family.ofView]
    simp only [hdescribed, hexportedName]
    exact Except.bind_eq_ok.mpr ⟨(), checked, rfl⟩

namespace Store

variable {α : Type}

def pendingViews (views : List View) (store : Store α) : List View :=
  views.filter fun view => !store.views.contains view

def keptViews (views : List View) (store : Store α) : List View :=
  store.views.filter fun view => !(store.pendingViews views).any (·.name == view.name)

theorem mem_pendingViews {views : List View} {store : Store α} {view : View} :
    view ∈ store.pendingViews views ↔ view ∈ views ∧ view ∉ store.views := by
  simp [pendingViews, List.mem_filter]

theorem mem_keptViews {views : List View} {store : Store α} {view : View} :
    view ∈ store.keptViews views ↔
      view ∈ store.views ∧ ∀ new ∈ store.pendingViews views, new.name ≠ view.name := by
  simp [keptViews, List.mem_filter]

theorem Sound.mem_names_pendingViews {store : Store α} (hsound : store.Sound) {views : List View}
    {name : String} :
    name ∈ (store.pendingViews views ++ store.keptViews views).map (·.name) ↔
      name ∈ store.names ++ views.map (·.name) := by
  have hofStore {view : View} (held : view ∈ store.views) :
      view.name ∈ (store.pendingViews views ++ store.keptViews views).map (·.name) := by
    by_cases replaced : ∃ new ∈ store.pendingViews views, new.name = view.name
    · obtain ⟨new, pending, same⟩ := replaced
      exact List.mem_map.mpr ⟨new, List.mem_append_left _ pending, same⟩
    · refine List.mem_map_of_mem (List.mem_append_right _ (mem_keptViews.mpr ⟨held, ?_⟩))
      exact fun new pending same => replaced ⟨new, pending, same⟩
  rw [← hsound.map_name_views, ← List.map_append]
  constructor
  · intro member
    obtain ⟨view, inside, rfl⟩ := List.mem_map.mp member
    refine List.mem_map_of_mem (List.mem_append.mpr ?_)
    rcases List.mem_append.mp inside with pending | kept
    · exact .inr (mem_pendingViews.mp pending).1
    · exact .inl (mem_keptViews.mp kept).1
  · intro member
    obtain ⟨view, inside, rfl⟩ := List.mem_map.mp member
    rcases List.mem_append.mp inside with held | asked
    · exact hofStore held
    · by_cases held : view ∈ store.views
      · exact hofStore held
      · exact List.mem_map_of_mem (List.mem_append_left _ (mem_pendingViews.mpr ⟨asked, held⟩))

def Collide (views : List View) : Prop :=
  ∃ a ∈ views, ∃ b ∈ views,
    a.name ≠ b.name ∧ Export.metricName a.name = Export.metricName b.name

theorem collide_iff {views : List View} {names : List String}
    (hsame : ∀ name, name ∈ views.map (·.name) ↔ name ∈ names) :
    Collide views ↔ ¬Export.Apart names := by
  have hapart : Export.Apart names ↔ Export.Apart (views.map (·.name)) := by
    simp only [Export.Apart, hsame]
  rw [hapart, Export.Apart, Collide]
  simp only [List.forall_mem_map, not_forall, exists_prop]
  constructor
  · rintro ⟨a, inA, b, inB, different, alike⟩
    exact ⟨a, inA, b, inB, alike, different⟩
  · rintro ⟨a, inA, b, inB, alike, different⟩
    exact ⟨a, inA, b, inB, different, alike⟩

/-- A list of views is refused for one of the pending views, or for two names. -/
theorem Sound.registerViews_isOk_iff {store : Store α} (hsound : store.Sound) {views : List View}
    (hdistinct : (views.map (·.name)).Nodup) :
    ((Store.registerViews views).run.run store).1.isOk = false ↔
      (∃ view ∈ store.pendingViews views, view.Unexportable) ∨
        Collide (store.pendingViews views ++ store.keptViews views) := by
  have haccepted : ((Store.registerViews views).run.run store).1.isOk = true ↔
      ∃ new, store.pending views = .ok new := by
    rw [run_registerViews]
    cases store.pending views with
    | error error => simp [Except.isOk, Except.toBool]
    | ok new => simp [Except.isOk, Except.toBool]
  have hexportable : (∀ view ∈ views, View.Exportable α view) ↔
      ¬∃ view ∈ store.pendingViews views, view.Unexportable := by
    simp only [not_exists, not_and, mem_pendingViews, ← View.exportable_iff (α := α)]
    refine ⟨fun each view pending => each view pending.1, fun each view asked => ?_⟩
    by_cases held : view ∈ store.views
    · obtain ⟨entry, inEntries, rfl⟩ := hsound.isRegistered_iff.mp (hsound.mem_views.mp held)
      exact hsound.exportable _ inEntries
    · exact each view ⟨asked, held⟩
  rw [collide_iff fun name => hsound.mem_names_pendingViews, ← Bool.not_eq_true, haccepted,
    hsound.pending_isOk_iff hdistinct, hexportable, not_and_or, not_not]

/-- What becomes of a store when views are registered together. -/
structure RegistersTogether (views : List View) (store : Store α) : Prop where
  refused : ((Store.registerViews views).run.run store).1.isOk = false ↔
    (∃ view ∈ store.pendingViews views, view.Unexportable) ∨
      Collide (store.pendingViews views ++ store.keptViews views)
  unchanged : ∀ error after,
    (Store.registerViews views).run.run store = (.error error, after) → after = store
  listed : ∀ after, (Store.registerViews views).run.run store = (.ok (), after) →
    ∀ view ∈ views, ∃ entry, after.get? view.name = some entry ∧ entry.view = view ∧
      if view ∈ store.views then store.get? view.name = some entry
      else entry.rows = [] ∧ entry.family.series = []
  others : ∀ after, (Store.registerViews views).run.run store = (.ok (), after) →
    ∀ name, name ∉ views.map (·.name) → after.get? name = store.get? name
  again : ∀ after, (Store.registerViews views).run.run store = (.ok (), after) →
    (Store.registerViews views).run.run after = (.ok (), after)

theorem run_registerViews_eq_ok {views : List View} {store after : Store α}
    (haccepted : (Store.registerViews views).run.run store = (.ok (), after)) :
    ∃ new, store.pending views = .ok new ∧
      after = ((Store.registerViews views).run.run store).2 := by
  rw [run_registerViews] at haccepted ⊢
  cases pending : store.pending views with
  | error error =>
      rw [pending] at haccepted
      cases haccepted
  | ok new =>
      rw [pending] at haccepted
      cases haccepted
      exact ⟨new, rfl, rfl⟩

/-- Views with names of their own are registered together, or the store stays as it is. -/
theorem Reachable.registers_together [SeriesKey] [Quantity α] {store : Store α}
    (hreachable : store.Reachable) {views : List View} (hdistinct : (views.map (·.name)).Nodup) :
    RegistersTogether views store where
  refused := hreachable.sound.registerViews_isOk_iff hdistinct
  unchanged error after rejected := by
    rw [run_registerViews] at rejected
    cases pending : store.pending views with
    | error error =>
        rw [pending] at rejected
        cases rejected
        rfl
    | ok new =>
        rw [pending] at rejected
        cases rejected
  listed after accepted view asked := by
    obtain ⟨new, pending, rfl⟩ := run_registerViews_eq_ok accepted
    obtain ⟨entry, found, same, origin⟩ := get?_registered hdistinct pending asked
    exact ⟨entry, found, same, by simpa only [hreachable.sound.mem_views] using origin⟩
  others after accepted name other := by
    obtain ⟨new, pending, rfl⟩ := run_registerViews_eq_ok accepted
    rw [get?_registerViews hdistinct pending, find?_eq_none_of_fresh other]
  again after accepted := by
    obtain ⟨new, pending, rfl⟩ := run_registerViews_eq_ok accepted
    have hnothingNew := (hreachable.sound.registerViews views).pending_of_registered hdistinct
      fun view asked => by
        obtain ⟨entry, found, same, _⟩ := get?_registered hdistinct pending asked
        rw [isRegistered_eq, found, Option.map_some, same, decide_eq_true rfl]
    rw [run_registerViews, hnothingNew]
    rfl

open SeriesHash

def counted : Store Int :=
  ((Store.registerViews
      [⟨"hits", "", "1", ["database"], .sum⟩, ⟨"a/b", "", "1", ["database"], .count⟩]).run.run
    .empty).2.commit [⟨"hits", 4⟩, ⟨"a/b", 2⟩] (Tags.ofPairs [("database", "first")])

def recounting : List View :=
  [⟨"hits", "", "1", ["database"], .sum⟩, ⟨"a/b", "", "1", ["database"], .sum⟩,
    ⟨"waits", "", "1", ["database", "host"], .lastValue⟩]

theorem counted_registers : counted.Reachable ∧ (recounting.map (·.name)).Nodup ∧
    (((Store.registerViews recounting).run.run counted).2.snapshot.map fun part =>
      (part.1.name, part.2)) =
        [("a/b", []), ("hits", [(⟨[("database", "first")]⟩, 4)]), ("waits", [])] ∧
    RegistersTogether recounting counted := by
  have hreachable : counted.Reachable := .commit _ _ (.registerViews _ .empty)
  have hdistinct : (recounting.map (·.name)).Nodup := by decide
  exact ⟨hreachable, hdistinct, by decide +kernel, hreachable.registers_together hdistinct⟩

/-- A name that is exported like that of a view which stays is refused, and so are those with it. -/
example : ((Store.registerViews [⟨"waits", "", "1", [], .sum⟩, ⟨"a_b", "", "1", [], .sum⟩]).run.run
    counted).1.isOk = false := by
  decide +kernel

end Store

end DirectoryMetrics
