import DirectoryMetrics.Metrics.Sorted
import Mathlib.Data.List.Nodup
import Mathlib.Data.List.Sort
import Mathlib.Data.String.Basic

namespace DirectoryMetrics

/-! Lists that are kept in order. With the keys ascending each key stands once, and putting a value
under a key changes what is under that key and nothing else. -/

namespace Sorted

structure Strict {κ : Type} (before : κ → κ → Bool) : Prop where
  irrefl : ∀ a, before a a = false
  trans : ∀ a b c, before a b = true → before b c = true → before a c = true
  total : ∀ a b, a ≠ b → before a b = false → before b a = true

theorem textBefore_strict : Strict textBefore where
  irrefl a := by
    rw [textBefore, decide_eq_false_iff_not]
    exact lt_irrefl a
  trans a b c := by
    simp only [textBefore, decide_eq_true_eq]
    exact lt_trans
  total a b different := by
    simp only [textBefore, decide_eq_false_iff_not, decide_eq_true_eq]
    intro notBefore
    exact lt_of_le_of_ne (not_lt.mp notBefore) different.symm

def Ascending {κ ν : Type} (before : κ → κ → Bool) (entries : List (κ × ν)) : Prop :=
  entries.Pairwise fun a b => before a.1 b.1 = true

section

variable {κ ν : Type} {before : κ → κ → Bool}

theorem Strict.ne (hstrict : Strict before) {a b : κ} (hless : before a b = true) : b ≠ a := by
  intro same
  rw [same, hstrict.irrefl] at hless
  cases hless

theorem Strict.asymm (hstrict : Strict before) {a b : κ} (hless : before a b = true)
    (hmore : before b a = true) : False := by
  have hloop := hstrict.trans a b a hless hmore
  rw [hstrict.irrefl] at hloop
  cases hloop

theorem Ascending.nodup_keys (hstrict : Strict before) {entries : List (κ × ν)}
    (hascending : Ascending before entries) : (entries.map Prod.fst).Nodup := by
  rw [List.Nodup, List.pairwise_map]
  exact hascending.imp fun less => (hstrict.ne less).symm

theorem Ascending.filter {entries : List (κ × ν)} (hascending : Ascending before entries)
    (keep : κ × ν → Bool) : Ascending before (entries.filter keep) :=
  List.Pairwise.filter keep hascending

variable [DecidableEq κ]

theorem mem_of_lookup {key : κ} {value : ν} {entries : List (κ × ν)}
    (hfound : entries.lookup key = some value) : (key, value) ∈ entries := by
  induction entries with
  | nil => cases hfound
  | cons entry rest ih =>
      obtain ⟨k, v⟩ := entry
      rw [List.lookup_cons] at hfound
      split at hfound
      · rename_i same
        cases hfound
        rw [beq_iff_eq] at same
        subst same
        exact List.mem_cons_self
      · exact List.mem_cons_of_mem _ (ih hfound)

theorem lookup_of_mem {key : κ} {value : ν} {entries : List (κ × ν)}
    (hnodup : (entries.map Prod.fst).Nodup) (hmember : (key, value) ∈ entries) :
    entries.lookup key = some value := by
  induction entries with
  | nil => cases hmember
  | cons entry rest ih =>
      obtain ⟨k, v⟩ := entry
      rw [List.map_cons, List.nodup_cons] at hnodup
      rw [List.lookup_cons]
      rcases List.mem_cons.mp hmember with same | later
      · cases same
        simp
      · have hdifferent : key ≠ k := by
          rintro rfl
          exact hnodup.1 (List.mem_map.mpr ⟨(key, value), later, rfl⟩)
        rw [beq_false_of_ne hdifferent]
        exact ih hnodup.2 later

theorem mem_of_mem_put {key : κ} {value : ν} {entries : List (κ × ν)} {entry : κ × ν}
    (hmember : entry ∈ put before key value entries) : entry = (key, value) ∨ entry ∈ entries := by
  induction entries with
  | nil => exact .inl (List.mem_singleton.mp hmember)
  | cons first rest ih =>
      obtain ⟨k, v⟩ := first
      rw [put] at hmember
      split at hmember
      · rcases List.mem_cons.mp hmember with same | later
        · exact .inl same
        · exact .inr (List.mem_cons_of_mem _ later)
      · split at hmember
        · rcases List.mem_cons.mp hmember with same | later
          · exact .inl same
          · exact .inr later
        · rcases List.mem_cons.mp hmember with same | later
          · exact .inr (List.mem_cons.mpr (.inl same))
          · exact (ih later).imp_right (List.mem_cons_of_mem _)

theorem put_ascending (hstrict : Strict before) (key : κ) (value : ν) {entries : List (κ × ν)}
    (hascending : Ascending before entries) : Ascending before (put before key value entries) := by
  induction entries with
  | nil => exact List.pairwise_singleton _ _
  | cons first rest ih =>
      obtain ⟨k, v⟩ := first
      have hparts := List.pairwise_cons.mp hascending
      rw [put]
      split
      · rename_i same
        subst same
        exact List.pairwise_cons.mpr hparts
      · rename_i different
        split
        · rename_i less
          refine List.pairwise_cons.mpr ⟨?_, hascending⟩
          refine List.forall_mem_cons.mpr ⟨less, fun entry member => ?_⟩
          exact hstrict.trans _ _ _ less (hparts.1 entry member)
        · rename_i notLess
          refine List.pairwise_cons.mpr ⟨fun entry member => ?_, ih hparts.2⟩
          rcases mem_of_mem_put member with same | later
          · rw [same]
            exact hstrict.total _ _ different (by simpa using notLess)
          · exact hparts.1 entry later

theorem mem_put (hstrict : Strict before) {key : κ} {value : ν} {entries : List (κ × ν)}
    (hascending : Ascending before entries) {entry : κ × ν} :
    entry ∈ put before key value entries ↔
      entry = (key, value) ∨ (entry ∈ entries ∧ entry.1 ≠ key) := by
  induction entries with
  | nil => simp [put]
  | cons first rest ih =>
      obtain ⟨k, v⟩ := first
      have hparts := List.pairwise_cons.mp hascending
      rw [put]
      split
      · rename_i same
        subst same
        rw [List.mem_cons, List.mem_cons]
        constructor
        · rintro (same | member)
          · exact .inl same
          · exact .inr ⟨.inr member, hstrict.ne (hparts.1 entry member)⟩
        · rintro (same | ⟨same | member, different⟩)
          · exact .inl same
          · rw [same] at different
            exact absurd rfl different
          · exact .inr member
      · rename_i different
        split
        · rename_i less
          rw [List.mem_cons]
          refine or_congr_right ⟨fun member => ⟨member, ?_⟩, fun held => held.1⟩
          rcases List.mem_cons.mp member with same | member
          · rw [same]
            exact Ne.symm different
          · exact hstrict.ne (hstrict.trans _ _ _ less (hparts.1 entry member))
        · rw [List.mem_cons, ih hparts.2, List.mem_cons]
          constructor
          · rintro (same | same | ⟨member, other⟩)
            · exact .inr ⟨.inl same, by rw [same]; exact Ne.symm different⟩
            · exact .inl same
            · exact .inr ⟨.inr member, other⟩
          · rintro (same | ⟨same | member, other⟩)
            · exact .inr (.inl same)
            · exact .inl same
            · exact .inr (.inr ⟨member, other⟩)

theorem mem_keys_put {key other : κ} {value : ν} {entries : List (κ × ν)} :
    other ∈ (put before key value entries).map Prod.fst ↔
      other = key ∨ other ∈ entries.map Prod.fst := by
  induction entries with
  | nil => simp [put]
  | cons first rest ih =>
      obtain ⟨k, v⟩ := first
      rw [put]
      split
      · rename_i same
        simp [same]
      · split
        · simp
        · rw [List.map_cons, List.mem_cons, ih, List.map_cons, List.mem_cons, or_left_comm]

theorem modify_keys (key : κ) (f : ν → ν) (entries : List (κ × ν)) :
    (modify key f entries).map Prod.fst = entries.map Prod.fst := by
  rw [modify, List.map_map]
  refine List.map_congr_left fun entry _ => ?_
  simp only [Function.comp_apply]
  split <;> rfl

theorem forall_mem_modify {P : κ × ν → Prop} {key : κ} {f : ν → ν} {entries : List (κ × ν)}
    (hheld : ∀ entry ∈ entries, P entry) (hchanged : ∀ value, P (key, value) → P (key, f value)) :
    ∀ entry ∈ modify key f entries, P entry := by
  intro entry member
  rw [modify] at member
  obtain ⟨⟨k, v⟩, inside, eq⟩ := List.mem_map.mp member
  simp only at eq
  split at eq
  · rename_i same
    subst same eq
    exact hchanged v (hheld _ inside)
  · subst eq
    exact hheld _ inside

theorem modify_ascending (key : κ) (f : ν → ν) {entries : List (κ × ν)}
    (hascending : Ascending before entries) : Ascending before (modify key f entries) := by
  have honKeys : ∀ entries : List (κ × ν), Ascending before entries ↔
      (entries.map Prod.fst).Pairwise fun a b => before a b = true := fun entries => by
    rw [List.pairwise_map]
    rfl
  rw [honKeys, modify_keys, ← honKeys]
  exact hascending

theorem lookup_put (key other : κ) (value : ν) (entries : List (κ × ν)) :
    (put before key value entries).lookup other =
      if other = key then some value else entries.lookup other := by
  induction entries with
  | nil =>
      by_cases same : other = key
      · simp [put, same]
      · simp [put, List.lookup_cons, same, beq_false_of_ne same]
  | cons first rest ih =>
      obtain ⟨k, v⟩ := first
      rw [put]
      split
      · rename_i replaced
        subst replaced
        by_cases same : other = key
        · simp [same]
        · simp [List.lookup_cons, same, beq_false_of_ne same]
      · rename_i different
        split
        · by_cases same : other = key
          · simp [same]
          · simp [List.lookup_cons, same, beq_false_of_ne same]
        · rw [List.lookup_cons, List.lookup_cons, ih]
          by_cases found : other = k
          · have hunlike : k ≠ key := Ne.symm different
            simp [found, hunlike]
          · rw [beq_false_of_ne found]

theorem lookup_modify (key other : κ) (f : ν → ν) (entries : List (κ × ν)) :
    (modify key f entries).lookup other =
      if other = key then (entries.lookup other).map f else entries.lookup other := by
  induction entries with
  | nil => simp [modify]
  | cons first rest ih =>
      obtain ⟨k, v⟩ := first
      rw [modify, List.map_cons, ← modify]
      by_cases found : other = k
      · subst found
        by_cases same : other = key
        · simp [same]
        · simp [same]
      · by_cases changed : k = key
        · simp only [if_pos changed, List.lookup_cons, beq_false_of_ne found, ih]
        · simp only [if_neg changed, List.lookup_cons, beq_false_of_ne found, ih]

theorem modify_of_lookup_eq_none {key : κ} (f : ν → ν) {entries : List (κ × ν)}
    (habsent : entries.lookup key = none) : modify key f entries = entries := by
  induction entries with
  | nil => rfl
  | cons first rest ih =>
      obtain ⟨k, v⟩ := first
      rw [List.lookup_cons] at habsent
      by_cases found : key = k
      · simp [found] at habsent
      · rw [beq_false_of_ne found] at habsent
        rw [modify, List.map_cons, ← modify, ih habsent]
        simp only [if_neg (Ne.symm found)]

theorem lookup_filter (keep : κ → Bool) (key : κ) (entries : List (κ × ν)) :
    (entries.filter fun entry => keep entry.1).lookup key =
      if keep key then entries.lookup key else none := by
  induction entries with
  | nil => simp
  | cons first rest ih =>
      obtain ⟨k, v⟩ := first
      by_cases found : key = k
      · subst found
        cases kept : keep key with
        | true => simp [kept]
        | false => simp [kept, ih]
      · cases kept : keep k with
        | true => simp [kept, List.lookup_cons, beq_false_of_ne found, ih]
        | false => simp [kept, List.lookup_cons, beq_false_of_ne found, ih]

theorem ascending_ext (hstrict : Strict before) {entries entries' : List (κ × ν)}
    (hascending : Ascending before entries) (hascending' : Ascending before entries')
    (hsame : ∀ key, entries.lookup key = entries'.lookup key) : entries = entries' := by
  have hnodup := hascending.nodup_keys hstrict
  have nodup' := hascending'.nodup_keys hstrict
  have hirrefl : Std.Irrefl fun a b : κ × ν => before a.1 b.1 = true :=
    ⟨fun a => by simp [hstrict.irrefl]⟩
  have hantisymm : Std.Antisymm fun a b : κ × ν => before a.1 b.1 = true :=
    ⟨fun _ _ less more => (hstrict.asymm less more).elim⟩
  apply List.Pairwise.eq_of_mem_iff hascending hascending'
  rintro ⟨key, value⟩
  constructor
  · intro member
    exact mem_of_lookup ((hsame key).symm.trans (lookup_of_mem hnodup member))
  · intro member
    exact mem_of_lookup ((hsame key).trans (lookup_of_mem nodup' member))

end

theorem insertBy_perm {α : Type} (before : α → α → Bool) (x : α) (xs : List α) :
    (insertBy before x xs).Perm (x :: xs) := by
  induction xs with
  | nil => exact .refl _
  | cons y rest ih =>
      rw [insertBy]
      split
      · exact (ih.cons y).trans (.swap x y rest)
      · exact .refl _

theorem sortBy_perm {α : Type} (before : α → α → Bool) (xs : List α) :
    (sortBy before xs).Perm xs := by
  induction xs with
  | nil => exact .refl _
  | cons x rest ih => exact (insertBy_perm before x _).trans (ih.cons x)

theorem map_insertBy {α β : Type} (before : β → β → Bool) (f : α → β) (x : α) (xs : List α) :
    (insertBy (fun a b => before (f a) (f b)) x xs).map f = insertBy before (f x) (xs.map f) := by
  induction xs with
  | nil => rfl
  | cons y rest ih =>
      rw [insertBy, List.map_cons, insertBy]
      split
      · rw [List.map_cons, ih]
      · rfl

theorem map_sortBy {α β : Type} (before : β → β → Bool) (f : α → β) (xs : List α) :
    (sortBy (fun a b => before (f a) (f b)) xs).map f = sortBy before (xs.map f) := by
  induction xs with
  | nil => rfl
  | cons x rest ih =>
      rw [sortBy, List.foldr_cons, map_insertBy, ← sortBy, ih]
      rfl

theorem insertBy_congr {α : Type} {before before' : α → α → Bool} {x : α} {xs : List α}
    (hsame : ∀ y ∈ xs, before y x = before' y x) :
    insertBy before x xs = insertBy before' x xs := by
  induction xs with
  | nil => rfl
  | cons y rest ih =>
      rw [List.forall_mem_cons] at hsame
      rw [insertBy, insertBy, hsame.1, ih hsame.2]

theorem sortBy_congr {α : Type} {before before' : α → α → Bool} {xs : List α}
    (hsame : ∀ x ∈ xs, ∀ y ∈ xs, before x y = before' x y) :
    sortBy before xs = sortBy before' xs := by
  induction xs with
  | nil => rfl
  | cons x rest ih =>
      have hsorted : sortBy before rest = sortBy before' rest :=
        ih fun y inY z inZ => hsame y (List.mem_cons_of_mem x inY) z (List.mem_cons_of_mem x inZ)
      rw [sortBy, List.foldr_cons, ← sortBy, hsorted]
      apply insertBy_congr
      intro y member
      have hinRest := (sortBy_perm before' rest).mem_iff.mp member
      exact hsame y (List.mem_cons_of_mem x hinRest) x List.mem_cons_self

section

variable {α κ : Type} {before : κ → κ → Bool}

theorem insertBy_pairwise (hstrict : Strict before) (key : α → κ) (x : α) {xs : List α}
    (hsorted : xs.Pairwise fun a b => before (key a) (key b) = true)
    (hfresh : ∀ y ∈ xs, key y ≠ key x) :
    (insertBy (fun a b => before (key a) (key b)) x xs).Pairwise
      fun a b => before (key a) (key b) = true := by
  induction xs with
  | nil => exact List.pairwise_singleton _ _
  | cons y rest ih =>
      obtain ⟨first, later⟩ := List.pairwise_cons.mp hsorted
      rw [List.forall_mem_cons] at hfresh
      rw [insertBy]
      split
      · rename_i less
        refine List.pairwise_cons.mpr ⟨fun z member => ?_, ih later hfresh.2⟩
        rcases List.mem_cons.mp ((insertBy_perm _ x rest).mem_iff.mp member) with same | inRest
        · rw [same]
          exact less
        · exact first z inRest
      · rename_i notLess
        have less := hstrict.total _ _ hfresh.1 (by simpa using notLess)
        refine List.pairwise_cons.mpr ⟨?_, hsorted⟩
        exact List.forall_mem_cons.mpr
          ⟨less, fun z member => hstrict.trans _ _ _ less (first z member)⟩

theorem sortBy_pairwise (hstrict : Strict before) (key : α → κ) {xs : List α}
    (hdistinct : (xs.map key).Nodup) :
    (sortBy (fun a b => before (key a) (key b)) xs).Pairwise
      fun a b => before (key a) (key b) = true := by
  induction xs with
  | nil => exact .nil
  | cons x rest ih =>
      rw [List.map_cons, List.nodup_cons] at hdistinct
      apply insertBy_pairwise hstrict key x (ih hdistinct.2)
      intro y member same
      have hinRest := (sortBy_perm _ rest).mem_iff.mp member
      exact hdistinct.1 (List.mem_map.mpr ⟨y, hinRest, same⟩)

/-- With keys of their own, elements are sorted alike in whatever order they come. -/
theorem sortBy_eq_of_perm (hstrict : Strict before) (key : α → κ) {xs ys : List α}
    (hperm : xs.Perm ys) (hdistinct : (xs.map key).Nodup) :
    sortBy (fun a b => before (key a) (key b)) xs =
      sortBy (fun a b => before (key a) (key b)) ys := by
  have hsorted := sortBy_pairwise hstrict key hdistinct
  have sorted' := sortBy_pairwise hstrict key ((hperm.map key).nodup_iff.mp hdistinct)
  refine List.Perm.eq_of_pairwise (fun a b _ _ less more => ?_) hsorted sorted' ?_
  · exact (hstrict.asymm less more).elim
  · exact (sortBy_perm _ xs).trans (hperm.trans (sortBy_perm _ ys).symm)

end

end Sorted

end DirectoryMetrics
