import DirectoryMetrics.Metrics.Store
import DirectoryMetrics.Proofs.Metrics.Sorted
import DirectoryMetrics.Proofs.Results

namespace DirectoryMetrics

/-! Registration of views. Views are registered if each can be exported and no two names, of views
that are there or of new ones, are exported alike. -/

/-- No two names are exported alike. -/
def Export.Apart (names : List String) : Prop :=
  ∀ a ∈ names, ∀ b ∈ names, Export.metricName a = Export.metricName b → a = b

theorem Export.apart_append {xs ys : List String} :
    Export.Apart (xs ++ ys) ↔ Export.Apart xs ∧ Export.Apart ys ∧
      ∀ a ∈ xs, ∀ b ∈ ys, Export.metricName a = Export.metricName b → a = b := by
  constructor
  · intro apart
    refine ⟨fun a inA b inB => ?_, fun a inA b inB => ?_, fun a inA b inB => ?_⟩
    · exact apart a (List.mem_append_left _ inA) b (List.mem_append_left _ inB)
    · exact apart a (List.mem_append_right _ inA) b (List.mem_append_right _ inB)
    · exact apart a (List.mem_append_left _ inA) b (List.mem_append_right _ inB)
  · rintro ⟨left, right, across⟩ a inA b inB same
    rcases List.mem_append.mp inA with inA | inA
    · rcases List.mem_append.mp inB with inB | inB
      · exact left a inA b inB same
      · exact across a inA b inB same
    · rcases List.mem_append.mp inB with inB | inB
      · exact (across b inB a inA same.symm).symm
      · exact right a inA b inB same

theorem Export.nodup_map_metricName {names : List String} :
    (names.map Export.metricName).Nodup ↔ names.Nodup ∧ Export.Apart names := by
  constructor
  · intro nodup
    have distinct := nodup.of_map
    exact ⟨distinct, (List.nodup_map_iff_inj_on distinct).mp nodup⟩
  · rintro ⟨distinct, apart⟩
    exact (List.nodup_map_iff_inj_on distinct).mpr apart

def View.Exportable (α : Type) (view : View) : Prop :=
  ∃ family : Family α, Family.ofView view = .ok family

theorem Family.ofView_eq_ok {α : Type} {view : View} {family : Family α}
    (hmade : Family.ofView view = .ok family) :
    ∃ help, family = ⟨Export.metricName view.name, help, view.tagKeys.map Export.labelName,
      .of view.aggregation, []⟩ := by
  rw [Family.ofView] at hmade
  generalize (if view.description.isEmpty then view.name else view.description) = help at hmade
  simp only at hmade
  split at hmade
  · cases hmade
  · split at hmade
    · cases hmade
    · obtain ⟨_, _, returned⟩ := Except.bind_eq_ok.mp hmade
      cases returned
      exact ⟨help, rfl⟩

theorem Family.ofView_name {α : Type} {view : View} {family : Family α}
    (hmade : Family.ofView view = .ok family) : family.name = Export.metricName view.name := by
  obtain ⟨help, rfl⟩ := Family.ofView_eq_ok hmade
  rfl

theorem StoreEntry.record_family_name {α : Type} [SeriesKey] [Quantity α] (tags : Tags)
    (value : α) (entry : StoreEntry α) :
    (entry.record tags value).family.name = entry.family.name := by
  rw [record, exported, Family.set]
  by_cases agree : (labelValues entry.view (tags.restrict entry.view.tagKeys)).length =
      entry.family.labelNames.length
  · rw [if_pos agree]
  · rw [if_neg agree]

namespace Store

variable {α : Type}

theorem run_registerViews (views : List View) (store : Store α) :
    (Store.registerViews views).run.run store =
      match store.pending views with
      | .ok new => (.ok (), new.foldl (fun store entry => store.put entry) store)
      | .error error => (.error error, store) := by
  rw [Store.registerViews, run_bind, run_get]
  simp only []
  rw [run_bind, run_lift]
  cases store.pending views with
  | ok new => rfl
  | error error => rfl

theorem newEntry_eq_ok {view : View} {entry : StoreEntry α} :
    newEntry view = .ok entry ↔
      ∃ family, Family.ofView view = .ok family ∧ entry = ⟨view, family, []⟩ := by
  rw [newEntry]
  cases Family.ofView (α := α) view with
  | error fault => simp
  | ok family => simp [eq_comm]

theorem checkNames_eq_ok {seen : List String} {entries : List (StoreEntry α)} :
    checkNames seen entries = .ok () ↔
      (entries.map (·.family.name)).Nodup ∧ ∀ entry ∈ entries, entry.family.name ∉ seen := by
  induction entries generalizing seen with
  | nil => simp [checkNames]
  | cons entry rest ih =>
      rw [checkNames, List.map_cons, List.nodup_cons, List.forall_mem_cons]
      split
      · rename_i known
        rw [List.contains_iff_mem] at known
        simp [known]
      · rename_i unknown
        rw [List.contains_iff_mem] at unknown
        rw [ih]
        constructor
        · rintro ⟨nodup, fresh⟩
          refine ⟨⟨fun member => ?_, nodup⟩, unknown, fun later member again => ?_⟩
          · obtain ⟨later, inRest, same⟩ := List.mem_map.mp member
            exact fresh later inRest (by simp [same])
          · exact fresh later member (List.mem_cons_of_mem _ again)
        · rintro ⟨⟨first, nodup⟩, _, fresh⟩
          refine ⟨nodup, fun later member again => ?_⟩
          rcases List.mem_cons.mp again with same | before
          · exact first (List.mem_map.mpr ⟨later, member, same⟩)
          · exact fresh later member before

def kept (new : List (StoreEntry α)) (store : Store α) : List (StoreEntry α) :=
  (store.entries.map Prod.snd).filter fun entry =>
    !new.any fun entry' => entry'.view.name == entry.view.name

theorem pending_eq_ok {views : List View} {store : Store α} {new : List (StoreEntry α)} :
    store.pending views = .ok new ↔
      List.Forall₂ (fun view entry => newEntry view = .ok entry)
        (views.filter fun view => !store.isRegistered view) new ∧
      ((store.kept new ++ new).map (·.family.name)).Nodup := by
  rw [pending, Except.bind_eq_ok]
  constructor
  · rintro ⟨made, making, rest⟩
    obtain ⟨_, checked, returned⟩ := Except.bind_eq_ok.mp rest
    cases returned
    exact ⟨Except.mapM_eq_ok.mp making, (checkNames_eq_ok.mp checked).1⟩
  · rintro ⟨making, distinct⟩
    refine ⟨new, Except.mapM_eq_ok.mpr making, Except.bind_eq_ok.mpr ⟨(), ?_, rfl⟩⟩
    exact checkNames_eq_ok.mpr ⟨distinct, by simp⟩

structure Sound (store : Store α) : Prop where
  ascending : Sorted.Ascending Sorted.textBefore store.entries
  named : ∀ entry ∈ store.entries, entry.2.view.name = entry.1
  exportable : ∀ entry ∈ store.entries, View.Exportable α entry.2.view
  exported : ∀ entry ∈ store.entries, entry.2.family.name = Export.metricName entry.1
  apart : Export.Apart store.names

theorem empty_sound : (empty : Store α).Sound where
  ascending := List.Pairwise.nil
  named := by simp [empty]
  exportable := by simp [empty]
  exported := by simp [empty]
  apart := by simp [Export.Apart, names, empty]

theorem Sound.retain {store : Store α} (hsound : store.Sound) (keep : List String) :
    (store.retain keep).Sound := by
  have hinside : ∀ entry ∈ (store.retain keep).entries, entry ∈ store.entries :=
    fun entry member => (List.mem_filter.mp member).1
  refine ⟨hsound.ascending.filter _, fun entry member => hsound.named entry (hinside entry member),
    fun entry member => hsound.exportable entry (hinside entry member),
    fun entry member => hsound.exported entry (hinside entry member), ?_⟩
  intro a inA b inB
  obtain ⟨x, inX, rfl⟩ := List.mem_map.mp inA
  obtain ⟨y, inY, rfl⟩ := List.mem_map.mp inB
  exact hsound.apart _ (List.mem_map_of_mem (hinside x inX)) _ (List.mem_map_of_mem (hinside y inY))

theorem Sound.record [SeriesKey] [Quantity α] {store : Store α} (hsound : store.Sound)
    (tags : Tags) (m : Measurement α) : (store.record tags m).Sound where
  ascending := Sorted.modify_ascending _ _ hsound.ascending
  named := Sorted.forall_mem_modify hsound.named fun _ same => same
  exportable := Sorted.forall_mem_modify hsound.exportable fun _ held => held
  exported := Sorted.forall_mem_modify hsound.exported fun entry same =>
    (entry.record_family_name tags m.value).trans same
  apart := by
    have same : (store.record tags m).names = store.names := Sorted.modify_keys _ _ _
    rw [same]
    exact hsound.apart

theorem Sound.commit [SeriesKey] [Quantity α] {store : Store α} (hsound : store.Sound)
    (batch : Batch α) (tags : Tags) : (store.commit batch tags).Sound := by
  unfold Store.commit
  induction batch generalizing store with
  | nil => exact hsound
  | cons m rest ih => exact ih (hsound.record tags m)

theorem mem_kept {new : List (StoreEntry α)} {store : Store α} {entry : StoreEntry α} :
    entry ∈ store.kept new ↔
      entry ∈ store.entries.map Prod.snd ∧ ∀ added ∈ new, added.view.name ≠ entry.view.name := by
  rw [kept, List.mem_filter]
  simp

theorem foldl_put_ascending {store : Store α}
    (hascending : Sorted.Ascending Sorted.textBefore store.entries) (new : List (StoreEntry α)) :
    Sorted.Ascending Sorted.textBefore
      (new.foldl (fun store entry => store.put entry) store).entries := by
  induction new generalizing store with
  | nil => exact hascending
  | cons entry rest ih => exact ih (Sorted.put_ascending Sorted.textBefore_strict _ _ hascending)

theorem mem_foldl_put {store : Store α}
    (hascending : Sorted.Ascending Sorted.textBefore store.entries) {new : List (StoreEntry α)}
    (hdistinct : (new.map (·.view.name)).Nodup) {entry : String × StoreEntry α} :
    entry ∈ (new.foldl (fun store entry => store.put entry) store).entries ↔
      (entry ∈ store.entries ∧ ∀ added ∈ new, added.view.name ≠ entry.1) ∨
        ∃ added ∈ new, entry = (added.view.name, added) := by
  induction new generalizing store with
  | nil => simp
  | cons first rest ih =>
      rw [List.map_cons, List.nodup_cons] at hdistinct
      have hfresh : ∀ added ∈ rest, added.view.name ≠ first.view.name := fun added member same =>
        hdistinct.1 (List.mem_map.mpr ⟨added, member, same⟩)
      have ascending' : Sorted.Ascending Sorted.textBefore (store.put first).entries :=
        Sorted.put_ascending Sorted.textBefore_strict _ _ hascending
      rw [List.foldl_cons, ih ascending' hdistinct.2]
      have hinPut : entry ∈ (store.put first).entries ↔
          entry = (first.view.name, first) ∨ (entry ∈ store.entries ∧ entry.1 ≠ first.view.name) :=
        Sorted.mem_put Sorted.textBefore_strict hascending
      rw [hinPut, List.forall_mem_cons, List.exists_mem_cons_iff]
      constructor
      · rintro (⟨same | ⟨member, other⟩, others⟩ | added)
        · exact .inr (.inl same)
        · exact .inl ⟨member, Ne.symm other, others⟩
        · exact .inr (.inr added)
      · rintro (⟨member, other, others⟩ | same | added)
        · exact .inl ⟨.inr ⟨member, Ne.symm other⟩, others⟩
        · refine .inl ⟨.inl same, ?_⟩
          rw [same]
          exact hfresh
        · exact .inr added

theorem Sound.family_name_kept {store : Store α} (hsound : store.Sound)
    {new : List (StoreEntry α)} {entry : StoreEntry α} (hmember : entry ∈ store.kept new) :
    entry.family.name = Export.metricName entry.view.name := by
  obtain ⟨held, inside, rfl⟩ := List.mem_map.mp (mem_kept.mp hmember).1
  rw [hsound.exported held inside, hsound.named held inside]

theorem family_name_new {views : List View} {new : List (StoreEntry α)}
    (hmaking : List.Forall₂ (fun view entry => newEntry view = .ok entry) views new) :
    ∀ entry ∈ new, View.Exportable α entry.view ∧
      entry.family.name = Export.metricName entry.view.name := by
  refine forall_mem_of_forall₂ (hmaking.imp fun view entry made => ?_)
  obtain ⟨family, eq, rfl⟩ := newEntry_eq_ok.mp made
  exact ⟨⟨family, eq⟩, Family.ofView_name eq⟩

theorem Sound.map_family_name {store : Store α} (hsound : store.Sound) {views : List View}
    {new : List (StoreEntry α)}
    (hmaking : List.Forall₂ (fun view entry => newEntry view = .ok entry) views new) :
    (store.kept new ++ new).map (·.family.name) =
      ((store.kept new ++ new).map (·.view.name)).map Export.metricName := by
  rw [List.map_map]
  refine List.map_congr_left fun entry member => ?_
  rcases List.mem_append.mp member with held | added
  · exact hsound.family_name_kept held
  · exact (family_name_new hmaking entry added).2

theorem Sound.mem_names_kept {store : Store α} (hsound : store.Sound) {new : List (StoreEntry α)}
    {entry : String × StoreEntry α} (hmember : entry ∈ store.entries)
    (hothers : ∀ added ∈ new, added.view.name ≠ entry.1) :
    entry.1 ∈ (store.kept new).map (·.view.name) := by
  rw [← hsound.named entry hmember] at hothers ⊢
  exact List.mem_map_of_mem (mem_kept.mpr ⟨List.mem_map_of_mem hmember, hothers⟩)

theorem Sound.registerViews {store : Store α} (hsound : store.Sound) (views : List View) :
    ((Store.registerViews views).run.run store).2.Sound := by
  rw [run_registerViews]
  cases checked : store.pending views with
  | error error => exact hsound
  | ok new =>
      obtain ⟨making, distinct⟩ := pending_eq_ok.mp checked
      have hmade := family_name_new making
      rw [hsound.map_family_name making, Export.nodup_map_metricName, List.map_append] at distinct
      have hmem := @mem_foldl_put _ store hsound.ascending new (List.nodup_append.mp distinct.1).2.1
      refine ⟨foldl_put_ascending hsound.ascending new, ?_, ?_, ?_, ?_⟩
      · intro entry member
        rcases hmem.mp member with ⟨held, _⟩ | ⟨added, _, rfl⟩
        · exact hsound.named entry held
        · rfl
      · intro entry member
        rcases hmem.mp member with ⟨held, _⟩ | ⟨added, isNew, rfl⟩
        · exact hsound.exportable entry held
        · exact (hmade added isNew).1
      · intro entry member
        rcases hmem.mp member with ⟨held, _⟩ | ⟨added, isNew, rfl⟩
        · exact hsound.exported entry held
        · exact (hmade added isNew).2
      · have hinside : ∀ name ∈ (new.foldl (fun store entry => store.put entry) store).names,
            name ∈ (store.kept new).map (·.view.name) ++ new.map (·.view.name) := by
          intro name member
          obtain ⟨entry, inEntries, rfl⟩ := List.mem_map.mp member
          rcases hmem.mp inEntries with ⟨held, others⟩ | ⟨added, isNew, rfl⟩
          · exact List.mem_append_left _ (hsound.mem_names_kept held others)
          · exact List.mem_append_right _ (List.mem_map_of_mem isNew)
        exact fun a inA b inB => distinct.2 a (hinside a inA) b (hinside b inB)

/-- The stores that come about by registrations, commits and removals of views. -/
inductive Reachable [SeriesKey] [Quantity α] : Store α → Prop where
  | empty : Reachable .empty
  | registerViews (views : List View) {store : Store α} (before : Reachable store) :
      Reachable ((Store.registerViews views).run.run store).2
  | commit (batch : Batch α) (tags : Tags) {store : Store α} (before : Reachable store) :
      Reachable (store.commit batch tags)
  | retain (keep : List String) {store : Store α} (before : Reachable store) :
      Reachable (store.retain keep)

theorem Reachable.sound [SeriesKey] [Quantity α] {store : Store α} (hreachable : store.Reachable) :
    store.Sound := by
  induction hreachable with
  | empty => exact empty_sound
  | registerViews views _ ih => exact ih.registerViews views
  | commit batch tags _ ih => exact ih.commit batch tags
  | retain keep _ ih => exact ih.retain keep

theorem Sound.isRegistered_iff {store : Store α} (hsound : store.Sound) {view : View} :
    store.isRegistered view = true ↔
      ∃ entry, (view.name, entry) ∈ store.entries ∧ entry.view = view := by
  rw [isRegistered, get?]
  constructor
  · intro registered
    split at registered
    · rename_i entry found
      exact ⟨entry, Sorted.mem_of_lookup found, by simpa using registered⟩
    · cases registered
  · rintro ⟨entry, member, same⟩
    have hnodup := hsound.ascending.nodup_keys Sorted.textBefore_strict
    rw [Sorted.lookup_of_mem hnodup member]
    simpa using same

theorem map_name_new {views : List View} {new : List (StoreEntry α)}
    (hmaking : List.Forall₂ (fun view entry => newEntry view = .ok entry) views new) :
    new.map (·.view.name) = views.map (·.name) := by
  induction hmaking with
  | nil => rfl
  | cons made _ ih =>
      obtain ⟨family, _, rfl⟩ := newEntry_eq_ok.mp made
      rw [List.map_cons, List.map_cons, ih]

theorem Sound.nodup_names_kept {store : Store α} (hsound : store.Sound)
    (new : List (StoreEntry α)) : ((store.kept new).map (·.view.name)).Nodup := by
  have hnodup := hsound.ascending.nodup_keys Sorted.textBefore_strict
  have hnames : (store.entries.map Prod.snd).map (·.view.name) = store.entries.map Prod.fst := by
    rw [List.map_map]
    exact List.map_congr_left fun entry member => hsound.named entry member
  rw [← hnames] at hnodup
  exact hnodup.sublist (List.filter_sublist.map _)

theorem Sound.mem_registered_names {store : Store α} (hsound : store.Sound) {views : List View}
    {new : List (StoreEntry α)}
    (hmaking : List.Forall₂ (fun view entry => newEntry view = .ok entry)
      (views.filter fun view => !store.isRegistered view) new) {name : String} :
    name ∈ (store.kept new ++ new).map (·.view.name) ↔
      name ∈ store.names ++ views.map (·.name) := by
  have added := map_name_new hmaking
  rw [List.map_append, List.mem_append, List.mem_append]
  have hofStore (member : name ∈ store.names) :
      name ∈ (store.kept new).map (·.view.name) ∨ name ∈ new.map (·.view.name) := by
    obtain ⟨entry, inEntries, rfl⟩ := List.mem_map.mp member
    by_cases replaced : entry.1 ∈ new.map (·.view.name)
    · exact .inr replaced
    · refine .inl (hsound.mem_names_kept inEntries fun added isNew same => replaced ?_)
      rw [← same]
      exact List.mem_map_of_mem isNew
  constructor
  · rintro (held | isNew)
    · obtain ⟨entry, inKept, rfl⟩ := List.mem_map.mp held
      obtain ⟨pair, inEntries, rfl⟩ := List.mem_map.mp (mem_kept.mp inKept).1
      refine .inl ?_
      rw [hsound.named pair inEntries]
      exact List.mem_map_of_mem inEntries
    · rw [added] at isNew
      obtain ⟨view, inFilter, rfl⟩ := List.mem_map.mp isNew
      exact .inr (List.mem_map_of_mem (List.mem_filter.mp inFilter).1)
  · rintro (held | asked)
    · exact hofStore held
    · obtain ⟨view, inViews, rfl⟩ := List.mem_map.mp asked
      cases registered : store.isRegistered view with
      | true =>
          obtain ⟨entry, member, _⟩ := hsound.isRegistered_iff.mp registered
          exact hofStore (List.mem_map.mpr ⟨(view.name, entry), member, rfl⟩)
      | false =>
          rw [added]
          exact .inr (List.mem_map_of_mem (List.mem_filter.mpr ⟨inViews, by simp [registered]⟩))

theorem Sound.nodup_registered_names {store : Store α} (hsound : store.Sound) {views : List View}
    (hdistinct : (views.map (·.name)).Nodup) {new : List (StoreEntry α)}
    (hmaking : List.Forall₂ (fun view entry => newEntry view = .ok entry)
      (views.filter fun view => !store.isRegistered view) new) :
    ((store.kept new ++ new).map (·.view.name)).Nodup := by
  rw [List.map_append, List.nodup_append]
  refine ⟨hsound.nodup_names_kept new, ?_, ?_⟩
  · rw [map_name_new hmaking]
    exact hdistinct.sublist (List.filter_sublist.map _)
  · intro a held b isNew same
    obtain ⟨entry, inKept, rfl⟩ := List.mem_map.mp held
    obtain ⟨added, inNew, rfl⟩ := List.mem_map.mp isNew
    exact (mem_kept.mp inKept).2 added inNew same.symm

/-- Views with names of their own are registered exactly if each of them can be exported and no two
names of theirs or of views that are there already are exported alike. -/
theorem Sound.pending_isOk_iff {store : Store α} (hsound : store.Sound) {views : List View}
    (hdistinct : (views.map (·.name)).Nodup) :
    (∃ new, store.pending views = .ok new) ↔
      (∀ view ∈ views, View.Exportable α view) ∧
        Export.Apart (store.names ++ views.map (·.name)) := by
  have hsameNames {new : List (StoreEntry α)}
      (making : List.Forall₂ (fun view entry => newEntry view = .ok entry)
        (views.filter fun view => !store.isRegistered view) new) :
      ((store.kept new ++ new).map (·.family.name)).Nodup ↔
        Export.Apart (store.names ++ views.map (·.name)) := by
    rw [hsound.map_family_name making, Export.nodup_map_metricName,
      and_iff_right (hsound.nodup_registered_names hdistinct making)]
    unfold Export.Apart
    simp only [hsound.mem_registered_names making]
  constructor
  · rintro ⟨new, checked⟩
    obtain ⟨making, nodup⟩ := pending_eq_ok.mp checked
    refine ⟨fun view member => ?_, (hsameNames making).mp nodup⟩
    cases registered : store.isRegistered view with
    | true =>
        obtain ⟨entry, inEntries, rfl⟩ := hsound.isRegistered_iff.mp registered
        exact hsound.exportable _ inEntries
    | false =>
        have made := forall_mem_left_of_forall₂ (P := View.Exportable α)
          (making.imp fun view entry made => by
            obtain ⟨family, eq, _⟩ := newEntry_eq_ok.mp made
            exact ⟨family, eq⟩)
        exact made view (List.mem_filter.mpr ⟨member, by simp [registered]⟩)
  · rintro ⟨exportable, apart⟩
    obtain ⟨new, making⟩ : ∃ new : List (StoreEntry α),
        List.Forall₂ (fun view entry => newEntry view = .ok entry)
        (views.filter fun view => !store.isRegistered view) new := by
      refine exists_forall₂ fun view member => ?_
      obtain ⟨family, eq⟩ := exportable view (List.mem_filter.mp member).1
      exact ⟨_, newEntry_eq_ok.mpr ⟨family, eq, rfl⟩⟩
    exact ⟨new, pending_eq_ok.mpr ⟨making, (hsameNames making).mpr apart⟩⟩

/-- Of views that can be registered together, some can be registered without the others. -/
theorem Sound.pending_isOk_of_subset {store : Store α} (hsound : store.Sound)
    {views own : List View} {new : List (StoreEntry α)} (hpending : store.pending views = .ok new)
    (hdistinct : (views.map (·.name)).Nodup) (hdistinctOwn : (own.map (·.name)).Nodup)
    (hsubset : ∀ view ∈ own, view ∈ views) : ∃ new', store.pending own = .ok new' := by
  obtain ⟨exportable, apart⟩ := (hsound.pending_isOk_iff hdistinct).mp ⟨new, hpending⟩
  refine (hsound.pending_isOk_iff hdistinctOwn).mpr
    ⟨fun view member => exportable view (hsubset view member), fun a inA b inB => ?_⟩
  have hinside : ∀ name ∈ store.names ++ own.map (·.name),
      name ∈ store.names ++ views.map (·.name) := by
    intro name member
    refine List.mem_append.mpr ((List.mem_append.mp member).imp_right fun named => ?_)
    obtain ⟨view, inOwn, rfl⟩ := List.mem_map.mp named
    exact List.mem_map_of_mem (hsubset view inOwn)
  exact apart a (hinside a inA) b (hinside b inB)

end Store

end DirectoryMetrics
