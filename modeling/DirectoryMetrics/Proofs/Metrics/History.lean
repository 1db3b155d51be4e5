import DirectoryMetrics.Proofs.Metrics.Lookup

namespace DirectoryMetrics

/-! Histories of a store. Registrations and removals say which views it has; what an entry is made
as and what every record keeps holds of all its entries. -/

/-- What has been done to a store, from the empty one on. -/
inductive History (α : Type) where
  | start
  | registered (before : History α) (views : List View)
  | committed (before : History α) (batch : Batch α) (tags : Tags)
  | retained (before : History α) (keep : List String)

namespace History

variable {α : Type}

def NamesOnce : History α → Prop
  | start => True
  | registered before views => before.NamesOnce ∧ (views.map (·.name)).Nodup
  | committed before _ _ => before.NamesOnce
  | retained before _ => before.NamesOnce

variable [SeriesKey] [Quantity α]

def store : History α → Store α
  | start => .empty
  | registered before views => ((Store.registerViews views).run.run before.store).2
  | committed before batch tags => before.store.commit batch tags
  | retained before keep => before.store.retain keep

/-- Is a registration accepted after this history? -/
def accepts (history : History α) (views : List View) : Bool :=
  ((Store.registerViews views).run.run history.store).1.isOk

/-- The latest accepted definition of a view, as long as the view is kept. -/
def definition? (name : String) : History α → Option View
  | start => none
  | registered before views =>
      if before.accepts views then
        (views.find? (·.name == name)).or (before.definition? name)
      else before.definition? name
  | committed before _ _ => before.definition? name
  | retained before keep => if keep.contains name then before.definition? name else none

/-- Every commit has tags that go with the views that it writes to. -/
def Writes (Q : View → Tags → Prop) : History α → Prop
  | start => True
  | registered before _ => before.Writes Q
  | committed before batch tags =>
      before.Writes Q ∧
        ∀ m ∈ batch, ∀ view ∈ before.store.views, view.name = m.measure → Q view tags
  | retained before _ => before.Writes Q

instance decidableWrites (Q : View → Tags → Prop) [∀ view tags, Decidable (Q view tags)] :
    ∀ history : History α, Decidable (history.Writes Q)
  | start => .isTrue trivial
  | registered before _ => decidableWrites Q before
  | committed before _ _ => @instDecidableAnd _ _ (decidableWrites Q before) inferInstance
  | retained before _ => decidableWrites Q before

theorem store_reachable (history : History α) : history.store.Reachable := by
  induction history with
  | start => exact .empty
  | registered before views ih => exact .registerViews views ih
  | committed before batch tags ih => exact .commit batch tags ih
  | retained before keep ih => exact .retain keep ih

theorem exists_of_reachable {store : Store α} (hreachable : store.Reachable) :
    ∃ history : History α, history.store = store := by
  induction hreachable with
  | empty => exact ⟨start, rfl⟩
  | registerViews views _ ih =>
      obtain ⟨history, rfl⟩ := ih
      exact ⟨history.registered views, rfl⟩
  | commit batch tags _ ih =>
      obtain ⟨history, rfl⟩ := ih
      exact ⟨history.committed batch tags, rfl⟩
  | retain keep _ ih =>
      obtain ⟨history, rfl⟩ := ih
      exact ⟨history.retained keep, rfl⟩

theorem sound (history : History α) : history.store.Sound := history.store_reachable.sound

theorem accepts_eq (history : History α) (views : List View) :
    history.accepts views = (history.store.pending views).isOk := by
  rw [accepts, Store.run_registerViews]
  cases history.store.pending views with
  | error error => rfl
  | ok new => rfl

theorem registered_cases {before : History α} {views : List View}
    (hdistinct : (views.map (·.name)).Nodup) {name : String}
    (hknown : (before.store.get? name).map (·.view) = before.definition? name) :
    ((before.registered views).store.get? name = before.store.get? name ∧
      (before.registered views).definition? name = before.definition? name) ∨
    ∃ view family, Family.ofView view = .ok family ∧
      (before.registered views).store.get? name = some ⟨view, family, []⟩ ∧
      (before.registered views).definition? name = some view ∧
      before.definition? name ≠ some view := by
  rw [store, definition?, accepts_eq]
  cases accepted : before.store.pending views with
  | error error =>
      rw [Store.run_registerViews_of_rejected accepted]
      exact .inl ⟨rfl, rfl⟩
  | ok new =>
      have htaken : (Except.ok new : Except ExportError (List (StoreEntry α))).isOk = true := rfl
      rw [Store.get?_registerViews hdistinct accepted, if_pos htaken]
      cases asked : views.find? (·.name == name) with
      | none => exact .inl ⟨rfl, rfl⟩
      | some view =>
          have hnamed : view.name = name := by simpa using List.find?_some asked
          have hsame : before.store.isRegistered view =
              decide (before.definition? name = some view) := by
            rw [Store.isRegistered_eq, hnamed, hknown]
          by_cases defined : before.definition? name = some view
          · rw [decide_eq_true defined] at hsame
            exact .inl ⟨by simp [hsame], by simp [defined]⟩
          · rw [decide_eq_false defined] at hsame
            obtain ⟨family, made, entry⟩ := Store.newEntry_of_accepted accepted
              (List.mem_of_find?_eq_some asked) hsame
            refine .inr ⟨view, family, made, ?_, rfl, defined⟩
            simp [hsame, entry, Except.toOption]

/-- The store has exactly the views that the history defines. -/
theorem get?_view (history : History α) (honce : history.NamesOnce) (name : String) :
    (history.store.get? name).map (·.view) = history.definition? name := by
  induction history with
  | start => rfl
  | registered before views ih =>
      rcases registered_cases honce.2 (ih honce.1) with
        ⟨same, defined⟩ | ⟨view, _, _, found, defined, _⟩
      · rw [same, defined, ih honce.1]
      · rw [found, defined]
        rfl
  | committed before batch tags ih =>
      rw [store, Store.get?_commit, definition?, ← ih honce, Option.map_map]
      congr 1
      funext entry
      exact entry.recordAll_view tags (batch.valuesOf name)
  | retained before keep ih =>
      rw [store, Store.get?_retain, definition?, ← ih honce]
      split
      · rfl
      · rfl

/-- What new entries are made with and every record keeps holds of all entries. -/
theorem forall_entries {P : StoreEntry α → Prop} {Q : View → Tags → Prop}
    (hfresh : ∀ view family, Family.ofView view = .ok family → P ⟨view, family, []⟩)
    (hrecord : ∀ entry tags value, Q entry.view tags → P entry → P (entry.record tags value))
    (history : History α) (hwrites : history.Writes Q) :
    ∀ entry ∈ history.store.entries, P entry.2 := by
  induction history with
  | start =>
      intro entry member
      cases member
  | registered before views ih =>
      intro entry member
      rw [store, Store.run_registerViews] at member
      cases accepted : before.store.pending views with
      | error error =>
          rw [accepted] at member
          exact ih hwrites entry member
      | ok new =>
          rw [accepted] at member
          rcases Store.mem_of_mem_foldl_put member with held | added
          · exact ih hwrites entry held
          · have hmaking := (Store.pending_eq_ok.mp accepted).1
            refine forall_mem_of_forall₂ (P := P) (hmaking.imp fun view entry made => ?_) _ added
            obtain ⟨family, eq, rfl⟩ := Store.newEntry_eq_ok.mp made
            exact hfresh view family eq
  | committed before batch tags ih =>
      rintro ⟨name, entry⟩ member
      have hfound := (before.committed batch tags).sound.get?_of_mem member
      rw [store, Store.get?_commit, Option.map_eq_some_iff] at hfound
      obtain ⟨old, held, rfl⟩ := hfound
      have hinEntries := Sorted.mem_of_lookup held
      refine StoreEntry.recordAll_induct hrecord (fun written => ?_) (ih hwrites.1 _ hinEntries)
      obtain ⟨value, inBatch⟩ := List.exists_mem_of_ne_nil _ written
      obtain ⟨m, measured, _⟩ := List.mem_map.mp inBatch
      obtain ⟨inBatch, named⟩ := List.mem_filter.mp measured
      refine hwrites.2 m inBatch old.view (List.mem_map.mpr ⟨_, hinEntries, rfl⟩) ?_
      rw [before.sound.name_of_get? held, beq_iff_eq.mp named]
  | retained before keep ih =>
      exact fun entry member => ih hwrites entry (List.mem_filter.mp member).1

theorem writes_of_forall {Q : View → Tags → Prop} (hall : ∀ view tags, Q view tags)
    (history : History α) : history.Writes Q := by
  induction history with
  | start => trivial
  | registered before views ih => exact ih
  | committed before batch tags ih => exact ⟨ih, fun _ _ view _ _ => hall view tags⟩
  | retained before keep ih => exact ih

end History

end DirectoryMetrics
