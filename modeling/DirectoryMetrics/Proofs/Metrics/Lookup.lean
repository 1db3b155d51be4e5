import DirectoryMetrics.Proofs.Metrics.Registration

namespace DirectoryMetrics

def Batch.valuesOf {α : Type} (name : String) (batch : Batch α) : List α :=
  (batch.filter fun m => m.measure == name).map (·.value)

namespace StoreEntry

variable {α : Type} [SeriesKey] [Quantity α]

def recordAll (tags : Tags) (values : List α) (entry : StoreEntry α) : StoreEntry α :=
  values.foldl (fun entry value => entry.record tags value) entry

@[simp] theorem record_view (tags : Tags) (value : α) (entry : StoreEntry α) :
    (entry.record tags value).view = entry.view := rfl

@[simp] theorem recordAll_view (tags : Tags) (values : List α) (entry : StoreEntry α) :
    (entry.recordAll tags values).view = entry.view := by
  unfold recordAll
  induction values generalizing entry with
  | nil => rfl
  | cons value rest ih => exact ih _

theorem recordAll_induct {P : StoreEntry α → Prop} {Q : View → Tags → Prop}
    (hrecord : ∀ entry tags value, Q entry.view tags → P entry → P (entry.record tags value))
    {tags : Tags} {values : List α} {entry : StoreEntry α}
    (hwritten : values ≠ [] → Q entry.view tags) (hheld : P entry) :
    P (entry.recordAll tags values) := by
  unfold recordAll
  induction values generalizing entry with
  | nil => exact hheld
  | cons value rest ih =>
      have hallowed := hwritten (List.cons_ne_nil value rest)
      apply ih
      · exact fun _ => hallowed
      · exact hrecord entry tags value hallowed hheld

end StoreEntry

namespace Store

variable {α : Type}

theorem Sound.name_of_get? {store : Store α} (hsound : store.Sound) {name : String}
    {entry : StoreEntry α} (hfound : store.get? name = some entry) : entry.view.name = name :=
  hsound.named _ (Sorted.mem_of_lookup hfound)

theorem Sound.get?_of_mem {store : Store α} (hsound : store.Sound) {name : String}
    {entry : StoreEntry α} (hmember : (name, entry) ∈ store.entries) :
    store.get? name = some entry :=
  Sorted.lookup_of_mem (hsound.ascending.nodup_keys Sorted.textBefore_strict) hmember

theorem isRegistered_eq {store : Store α} {view : View} :
    store.isRegistered view = decide ((store.get? view.name).map (·.view) = some view) := by
  rw [isRegistered]
  cases store.get? view.name with
  | none => rfl
  | some entry => simp

theorem get?_put (entry : StoreEntry α) (store : Store α) (name : String) :
    (store.put entry).get? name =
      if name = entry.view.name then some entry else store.get? name :=
  Sorted.lookup_put entry.view.name name entry store.entries

theorem get?_retain (keep : List String) (store : Store α) (name : String) :
    (store.retain keep).get? name = if keep.contains name then store.get? name else none :=
  Sorted.lookup_filter (fun name => keep.contains name) name store.entries

section

variable [SeriesKey] [Quantity α]

theorem get?_record (tags : Tags) (store : Store α) (m : Measurement α) (name : String) :
    (store.record tags m).get? name =
      if name = m.measure then (store.get? name).map (StoreEntry.record tags m.value)
      else store.get? name :=
  Sorted.lookup_modify m.measure name (StoreEntry.record tags m.value) store.entries

theorem get?_commit (batch : Batch α) (tags : Tags) (store : Store α) (name : String) :
    (store.commit batch tags).get? name =
      (store.get? name).map (StoreEntry.recordAll tags (batch.valuesOf name)) := by
  unfold commit
  induction batch generalizing store with
  | nil =>
      rw [List.foldl_nil]
      cases store.get? name with
      | none => rfl
      | some entry => rfl
  | cons m rest ih =>
      rw [List.foldl_cons, ih, get?_record]
      by_cases same : name = m.measure
      · rw [if_pos same, Option.map_map]
        simp only [Batch.valuesOf, same, List.filter_cons, beq_self_eq_true, if_true, List.map_cons]
        rfl
      · have hunlike : (m.measure == name) = false := beq_false_of_ne (Ne.symm same)
        simp [Batch.valuesOf, same, hunlike]

theorem commit_filter {known : String → Bool} {store : Store α}
    (hunknown : ∀ name, known name = false → store.get? name = none) (batch : Batch α)
    (tags : Tags) :
    store.commit (batch.filter fun m => known m.measure) tags = store.commit batch tags := by
  unfold commit
  induction batch generalizing store with
  | nil => rfl
  | cons m rest ih =>
      have hrecorded : ∀ name, known name = false → (store.record tags m).get? name = none := by
        intro name unlisted
        rw [get?_record, hunknown name unlisted]
        simp
      rw [List.filter_cons]
      cases listed : known m.measure with
      | true => exact ih hrecorded
      | false =>
          have hsame : store.record tags m = store :=
            congrArg mk (Sorted.modify_of_lookup_eq_none _ (hunknown m.measure listed))
          rw [List.foldl_cons, hsame]
          exact ih hunknown

def commitAll (commits : List (Batch α × Tags)) (store : Store α) : Store α :=
  commits.foldl (fun store made => store.commit made.1 made.2) store

theorem Sound.commitAll {store : Store α} (hsound : store.Sound)
    (commits : List (Batch α × Tags)) : (store.commitAll commits).Sound := by
  unfold Store.commitAll
  induction commits generalizing store with
  | nil => exact hsound
  | cons made rest ih => exact ih (hsound.commit made.1 made.2)

theorem Reachable.commitAll {store : Store α} (hreachable : store.Reachable)
    (commits : List (Batch α × Tags)) : (store.commitAll commits).Reachable := by
  unfold Store.commitAll
  induction commits generalizing store with
  | nil => exact hreachable
  | cons made rest ih => exact ih (.commit made.1 made.2 hreachable)

theorem isRegistered_commitAll (commits : List (Batch α × Tags)) (store : Store α)
    (view : View) : (store.commitAll commits).isRegistered view = store.isRegistered view := by
  unfold Store.commitAll
  induction commits generalizing store with
  | nil => rfl
  | cons made rest ih =>
      rw [List.foldl_cons, ih, isRegistered_eq, isRegistered_eq, get?_commit, Option.map_map]
      cases store.get? view.name with
      | none => rfl
      | some entry => simp

end

theorem find?_eq_none_of_fresh {β : Type} {nameOf : β → String} {name : String} {xs : List β}
    (hfresh : name ∉ xs.map nameOf) : xs.find? (fun x => nameOf x == name) = none := by
  rw [List.find?_eq_none]
  intro x member same
  exact hfresh (List.mem_map.mpr ⟨x, member, beq_iff_eq.mp same⟩)

theorem get?_foldl_put {new : List (StoreEntry α)} (hdistinct : (new.map (·.view.name)).Nodup)
    (store : Store α) (name : String) :
    (new.foldl (fun store entry => store.put entry) store).get? name =
      (new.find? (·.view.name == name)).or (store.get? name) := by
  induction new generalizing store with
  | nil => simp
  | cons first rest ih =>
      rw [List.map_cons, List.nodup_cons] at hdistinct
      rw [List.foldl_cons, ih hdistinct.2, get?_put, List.find?_cons]
      by_cases same : first.view.name = name
      · have habsent := find?_eq_none_of_fresh (same ▸ hdistinct.1)
        simp [habsent, same]
      · simp [beq_false_of_ne same, Ne.symm same]

theorem mem_of_mem_foldl_put {new : List (StoreEntry α)} {store : Store α}
    {entry : String × StoreEntry α}
    (hmember : entry ∈ (new.foldl (fun store entry => store.put entry) store).entries) :
    entry ∈ store.entries ∨ entry.2 ∈ new := by
  induction new generalizing store with
  | nil => exact .inl hmember
  | cons first rest ih =>
      rcases ih hmember with inPut | added
      · rcases Sorted.mem_of_mem_put inPut with same | held
        · exact .inr (by simp [same])
        · exact .inl held
      · exact .inr (List.mem_cons_of_mem _ added)

theorem find?_new {views : List View} {new : List (StoreEntry α)}
    (hmaking : List.Forall₂ (fun view entry => newEntry view = .ok entry) views new)
    (name : String) :
    new.find? (·.view.name == name) =
      (views.find? (·.name == name)).bind fun view => (newEntry view).toOption := by
  induction hmaking with
  | nil => rfl
  | @cons view entry _ _ made _ ih =>
      have hsameView : entry.view = view := by
        obtain ⟨family, _, rfl⟩ := newEntry_eq_ok.mp made
        rfl
      rw [List.find?_cons, List.find?_cons, hsameView]
      by_cases same : view.name = name
      · simp [same, made, Except.toOption]
      · simp [beq_false_of_ne same, ih]

theorem find?_filter_of_nodup {views : List View} (hdistinct : (views.map (·.name)).Nodup)
    (keep : View → Bool) (name : String) :
    (views.filter keep).find? (·.name == name) =
      (views.find? (·.name == name)).filter keep := by
  induction views with
  | nil => rfl
  | cons view rest ih =>
      rw [List.map_cons, List.nodup_cons] at hdistinct
      by_cases same : view.name = name
      · have habsent := find?_eq_none_of_fresh (same ▸ hdistinct.1)
        rw [habsent] at ih
        cases kept : keep view with
        | true => simp [Option.filter, kept, same]
        | false => simp [Option.filter, kept, same, ih hdistinct.2]
      · have hunlike : (view.name == name) = false := beq_false_of_ne same
        cases kept : keep view with
        | true => simp [kept, hunlike, ih hdistinct.2]
        | false => simp [kept, hunlike, ih hdistinct.2]

theorem newEntry_of_accepted {views : List View} {store : Store α} {new : List (StoreEntry α)}
    (haccepted : store.pending views = .ok new) {view : View} (hasked : view ∈ views)
    (hunlike : store.isRegistered view = false) :
    ∃ family, Family.ofView view = .ok family ∧
      newEntry (α := α) view = .ok ⟨view, family, []⟩ := by
  have hmaking : ∀ view ∈ views.filter fun view => !store.isRegistered view,
      ∃ entry, newEntry (α := α) view = .ok entry :=
    forall_mem_left_of_forall₂
      ((pending_eq_ok.mp haccepted).1.imp fun _ entry made => ⟨entry, made⟩)
  obtain ⟨entry, made⟩ := hmaking view (List.mem_filter.mpr ⟨hasked, by simp [hunlike]⟩)
  obtain ⟨family, eq, rfl⟩ := newEntry_eq_ok.mp made
  exact ⟨family, eq, made⟩

/-- An accepted registration gives a new entry to each of its views that the store does not have as
it is, and changes nothing else. -/
theorem get?_registerViews {views : List View} {store : Store α} {new : List (StoreEntry α)}
    (hdistinct : (views.map (·.name)).Nodup) (haccepted : store.pending views = .ok new)
    (name : String) :
    ((Store.registerViews views).run.run store).2.get? name =
      match views.find? (·.name == name) with
      | none => store.get? name
      | some view =>
          if store.isRegistered view then store.get? name
          else (newEntry view).toOption := by
  have hmaking := (pending_eq_ok.mp haccepted).1
  have hdistinctNew : (new.map (·.view.name)).Nodup := by
    rw [map_name_new hmaking]
    exact hdistinct.sublist (List.filter_sublist.map _)
  rw [run_registerViews, haccepted]
  simp only []
  rw [get?_foldl_put hdistinctNew, find?_new hmaking, find?_filter_of_nodup hdistinct]
  cases asked : views.find? (·.name == name) with
  | none => rfl
  | some view =>
      cases registered : store.isRegistered view with
      | true => simp [Option.filter, registered]
      | false =>
          obtain ⟨family, _, made⟩ :=
            newEntry_of_accepted haccepted (List.mem_of_find?_eq_some asked) registered
          simp [Option.filter, registered, made, Except.toOption]

theorem run_registerViews_of_rejected {views : List View} {store : Store α} {error : ExportError}
    (hrejected : store.pending views = .error error) :
    (Store.registerViews views).run.run store = (.error error, store) := by
  rw [run_registerViews, hrejected]

end Store

end DirectoryMetrics
