import DirectoryMetrics.Proofs.Results
import DirectoryMetrics.Tree.Field

namespace DirectoryMetrics

namespace Mapping

theorem isKey_iff {name : String} {key : Node} :
    isKey name key = true ↔ key = .text name := by
  cases key <;> simp [isKey]

@[simp] theorem isKey_text (name other : String) :
    isKey name (.text other) = (other == name) := rfl

theorem get?_cons (name : String) (key value : Node) (rest : Mapping) :
    get? name ((key, value) :: rest) =
      if isKey name key then some value else get? name rest := rfl

theorem mem_of_get? {name : String} {m : Mapping} {value : Node}
    (hfound : m.get? name = some value) : (.text name, value) ∈ m := by
  induction m with
  | nil => simp [get?] at hfound
  | cons entry rest ih =>
      obtain ⟨key, held⟩ := entry
      rw [get?_cons] at hfound
      split at hfound
      · rename_i isName
        cases hfound
        rw [isKey_iff] at isName
        simp [isName]
      · exact List.mem_cons_of_mem _ (ih hfound)

theorem get?_eq_none_iff {name : String} {m : Mapping} :
    m.get? name = none ↔ ∀ entry ∈ m, isKey name entry.1 = false := by
  induction m with
  | nil => simp [get?]
  | cons entry rest ih =>
      obtain ⟨key, held⟩ := entry
      rw [get?_cons]
      cases isName : isKey name key with
      | true => simp [isName]
      | false => simp [isName, ih]

theorem set_cons (name : String) (value key held : Node) (rest : Mapping) :
    set name value ((key, held) :: rest) =
      if isKey name key then (key, value) :: rest else (key, held) :: set name value rest := rfl

@[simp] theorem get?_set_self (name : String) (value : Node) (m : Mapping) :
    (m.set name value).get? name = some value := by
  induction m with
  | nil => simp [set, get?]
  | cons entry rest ih =>
      obtain ⟨key, held⟩ := entry
      rw [set_cons]
      split
      · rename_i isName
        simp [get?_cons, isName]
      · rename_i notName
        rw [get?_cons, if_neg notName, ih]

theorem get?_set_of_ne {name other : String} (hdifferent : other ≠ name)
    (value : Node) (m : Mapping) : (m.set name value).get? other = m.get? other := by
  induction m with
  | nil => simp [set, get?, Ne.symm hdifferent]
  | cons entry rest ih =>
      obtain ⟨key, held⟩ := entry
      rw [set_cons]
      split
      · rename_i isName
        rw [isKey_iff] at isName
        subst isName
        simp [get?_cons, Ne.symm hdifferent]
      · rw [get?_cons, get?_cons, ih]

theorem set_of_get?_eq_none {name : String} {m : Mapping}
    (habsent : m.get? name = none) (value : Node) :
    m.set name value = m ++ [(.text name, value)] := by
  induction m with
  | nil => rfl
  | cons entry rest ih =>
      obtain ⟨key, held⟩ := entry
      rw [get?_cons] at habsent
      rw [set_cons]
      split at habsent
      · cases habsent
      · rename_i notName
        rw [if_neg notName, ih habsent]
        rfl

theorem set_of_get?_eq_some {name : String} {m : Mapping} {value : Node}
    (hfound : m.get? name = some value) : m.set name value = m := by
  induction m with
  | nil => simp [get?] at hfound
  | cons entry rest ih =>
      obtain ⟨key, held⟩ := entry
      rw [get?_cons] at hfound
      rw [set_cons]
      split at hfound
      · rename_i isName
        cases hfound
        rw [if_pos isName]
      · rename_i notName
        rw [if_neg notName, ih hfound]

theorem forall_mem_set {P : Node × Node → Prop} {name : String} {value : Node} {m : Mapping}
    (hheld : ∀ entry ∈ m, P entry) (hnew : P (.text name, value)) :
    ∀ entry ∈ m.set name value, P entry := by
  induction m with
  | nil => simpa [set] using hnew
  | cons entry rest ih =>
      obtain ⟨key, old⟩ := entry
      rw [List.forall_mem_cons] at hheld
      rw [set_cons]
      split
      · rename_i isName
        rw [isKey_iff] at isName
        subst isName
        exact List.forall_mem_cons.mpr ⟨hnew, hheld.2⟩
      · exact List.forall_mem_cons.mpr ⟨hheld.1, ih hheld.2⟩

theorem get?_append (name : String) (before after : Mapping) :
    get? name (before ++ after) = (get? name before).or (get? name after) := by
  induction before with
  | nil => rfl
  | cons entry rest ih =>
      obtain ⟨key, held⟩ := entry
      rw [List.cons_append, get?_cons, get?_cons, ih]
      split <;> rfl

theorem set_append (name : String) (value : Node) (before after : Mapping) :
    set name value (before ++ after) =
      if (get? name before).isSome then set name value before ++ after
      else before ++ set name value after := by
  induction before with
  | nil => rfl
  | cons entry rest ih =>
      obtain ⟨key, held⟩ := entry
      rw [List.cons_append, set_cons, set_cons, get?_cons]
      split
      · rfl
      · rw [ih]
        split <;> rfl

theorem keys_set_of_get? {name : String} {m : Mapping} {held : Node}
    (hfound : m.get? name = some held) (value : Node) :
    (m.set name value).map Prod.fst = m.map Prod.fst := by
  induction m with
  | nil => simp [get?] at hfound
  | cons entry rest ih =>
      obtain ⟨key, old⟩ := entry
      rw [get?_cons] at hfound
      rw [set_cons]
      split at hfound
      · rename_i isName
        rw [if_pos isName]
        rfl
      · rename_i notName
        rw [if_neg notName, List.map_cons, List.map_cons, ih hfound]

theorem get?_eq_none_of_keys {name : String} {m m' : Mapping}
    (hkeys : m'.map Prod.fst = m.map Prod.fst) (habsent : m.get? name = none) :
    m'.get? name = none := by
  have heach (m : Mapping) :
      m.get? name = none ↔ ∀ key ∈ m.map Prod.fst, isKey name key = false := by
    rw [get?_eq_none_iff, List.forall_mem_map]
  rw [heach] at habsent ⊢
  rwa [hkeys]

theorem set_here {name : String} {before after : Mapping} {key held value : Node}
    (hname : isKey name key = true) (hfirst : before.get? name = none) :
    set name value (before ++ (key, held) :: after) = before ++ (key, value) :: after := by
  rw [set_append, hfirst, set_cons, if_pos hname]
  rfl

theorem set_elsewhere {name : String} {before : Mapping} {key : Node}
    (helsewhere : isKey name key = true → before.get? name ≠ none) (value : Node)
    (after : Mapping) :
    ∃ before' after', before'.map Prod.fst = before.map Prod.fst ∧ ∀ held,
      set name value (before ++ (key, held) :: after) = before' ++ (key, held) :: after' := by
  cases found : before.get? name with
  | some old =>
      refine ⟨set name value before, after, keys_set_of_get? found value, fun held => ?_⟩
      rw [set_append, found]
      rfl
  | none =>
      have hnotName : isKey name key ≠ true := fun isName => helsewhere isName found
      refine ⟨before, set name value after, rfl, fun held => ?_⟩
      rw [set_append, found, set_cons, if_neg hnotName]
      rfl

theorem nonempty?_eq_some {field value : String} {m : Mapping} :
    m.nonempty? field = some value ↔ m.text? field = some value ∧ value ≠ "" := by
  simp [nonempty?, Option.filter_eq_some_iff]

theorem isQueryable_congr {m m' : Mapping}
    (hsame : ∀ field, field ≠ Field.name → m'.get? field = m.get? field) :
    m'.isQueryable = m.isQueryable := by
  simp only [isQueryable, declares, nonempty?, text?, hsame Field.rdn (by decide),
    hsame Field.attributeName (by decide)]

theorem isQueryable_of_no_text {m : Mapping}
    (hnothing : ∀ field ∈ Field.reserved, m.text? field = none) : m.isQueryable = false := by
  simp only [isQueryable, declares, nonempty?, hnothing Field.rdn (by decide),
    hnothing Field.attributeName (by decide)]
  rfl

theorem isQueryable_of_free {m : Mapping}
    (hfree : ∀ field ∈ Field.reserved, m.get? field = none) : m.isQueryable = false := by
  refine isQueryable_of_no_text fun field reserved => ?_
  rw [text?, hfree field reserved]
  rfl

theorem modify_eq_ok {ε : Type} {name : String} {f : Node → Except ε Node} {m changed : Mapping}
    (hmodified : m.modify name f = .ok changed) :
    (m.get? name = none ∧ changed = m) ∨
      ∃ value new, m.get? name = some value ∧ f value = .ok new ∧ changed = m.set name new := by
  induction m generalizing changed with
  | nil =>
      cases hmodified
      exact .inl ⟨rfl, rfl⟩
  | cons entry rest ih =>
      obtain ⟨key, held⟩ := entry
      rw [get?_cons]
      simp only [set_cons]
      simp only [modify] at hmodified
      split at hmodified
      · rename_i isName
        rw [if_pos isName]
        cases changedValue : f held with
        | error e => simp [changedValue, Except.map] at hmodified
        | ok new =>
            simp only [changedValue, Except.map, Except.ok.injEq] at hmodified
            exact .inr ⟨held, new, rfl, changedValue, by rw [if_pos isName, hmodified]⟩
      · rename_i notName
        rw [if_neg notName]
        cases changedRest : modify name f rest with
        | error e => simp [changedRest, Except.map] at hmodified
        | ok later =>
            simp only [changedRest, Except.map, Except.ok.injEq] at hmodified
            subst hmodified
            rcases ih changedRest with ⟨absent, rfl⟩ | ⟨value, new, found, changedValue, rfl⟩
            · exact .inl ⟨absent, rfl⟩
            · exact .inr ⟨value, new, found, changedValue, by rw [if_neg notName]⟩

theorem modify_eq {ε : Type} (name : String) (f : Node → Except ε Node) (m : Mapping) :
    m.modify name f =
      match m.get? name with
      | none => .ok m
      | some value => (f value).map fun new => m.set name new := by
  induction m with
  | nil => rfl
  | cons entry rest ih =>
      obtain ⟨key, held⟩ := entry
      rw [modify, get?_cons]
      cases isName : isKey name key with
      | true => simp only [if_pos, set_cons, isName]
      | false =>
          simp only [Bool.false_eq_true, if_false, ih, set_cons, isName]
          cases get? name rest with
          | none => rfl
          | some value =>
              simp only
              cases f value <;> rfl

theorem modify_of_get? {ε : Type} {name : String} {f : Node → Except ε Node} {m changed : Mapping}
    {value : Node} (hchanging : m.modify name f = .ok changed) (hfound : m.get? name = some value) :
    ∃ new, f value = .ok new ∧ changed.get? name = some new := by
  rw [modify_eq, hfound] at hchanging
  obtain ⟨new, eq, rfl⟩ := Except.map_eq_ok.mp hchanging
  exact ⟨new, eq, get?_set_self _ _ _⟩

theorem get?_modify_of_ne {ε : Type} {name other : String} (hdifferent : other ≠ name)
    {f : Node → Except ε Node} {m changed : Mapping} (hchanging : m.modify name f = .ok changed) :
    changed.get? other = m.get? other := by
  rcases modify_eq_ok hchanging with ⟨_, rfl⟩ | ⟨_, new, _, _, rfl⟩
  · rfl
  · exact get?_set_of_ne hdifferent new m

theorem modify_isOk {ε : Type} {f : Node → Except ε Node}
    (hchanges : ∀ value, ∃ new, f value = .ok new) (name : String) (m : Mapping) :
    ∃ changed, m.modify name f = .ok changed := by
  induction m with
  | nil => exact ⟨[], rfl⟩
  | cons entry rest ih =>
      obtain ⟨key, value⟩ := entry
      obtain ⟨new, changing⟩ := hchanges value
      obtain ⟨later, changingRest⟩ := ih
      simp only [modify, changing, changingRest, Except.map]
      split
      · exact ⟨_, rfl⟩
      · exact ⟨_, rfl⟩

theorem modify_isOk_iff {ε : Type} {name : String} {f : Node → Except ε Node} {m : Mapping} :
    (∃ changed, m.modify name f = .ok changed) ↔
      ∀ value, m.get? name = some value → ∃ new, f value = .ok new := by
  rw [modify_eq]
  cases m.get? name with
  | none => simp
  | some value => simp [Except.map_eq_ok]

/-- A change that makes nothing of another one before it, to the same field. -/
theorem modify_modify_self {ε : Type} {name : String} {f g : Node → Except ε Node}
    {m changed : Mapping} (habsorbs : ∀ value new, f value = .ok new → g new = g value)
    (hchanging : m.modify name f = .ok changed) : changed.modify name g = m.modify name g := by
  induction m generalizing changed with
  | nil =>
      cases hchanging
      rfl
  | cons entry rest ih =>
      obtain ⟨key, held⟩ := entry
      rw [modify] at hchanging
      split at hchanging
      · rename_i isName
        obtain ⟨new, eq, rfl⟩ := Except.map_eq_ok.mp hchanging
        rw [modify, modify, if_pos isName, if_pos isName, habsorbs held new eq]
      · rename_i notName
        obtain ⟨later, eq, rfl⟩ := Except.map_eq_ok.mp hchanging
        rw [modify, modify, if_neg notName, if_neg notName, ih eq]

theorem modify_modify_of_ne {ε : Type} {name other : String} (hdifferent : other ≠ name)
    {f g : Node → Except ε Node} {m changed : Mapping}
    (hchanging : m.modify name f = .ok changed) :
    changed.modify other g = m.modify other g >>= fun between => between.modify name f := by
  induction m generalizing changed with
  | nil =>
      cases hchanging
      rfl
  | cons entry rest ih =>
      obtain ⟨key, held⟩ := entry
      rw [modify] at hchanging
      split at hchanging
      · rename_i isName
        have hnotOther : isKey other key ≠ true := by
          rw [isKey_iff] at isName
          simpa [isName] using Ne.symm hdifferent
        obtain ⟨new, eq, rfl⟩ := Except.map_eq_ok.mp hchanging
        rw [modify, modify, if_neg hnotOther, if_neg hnotOther, Except.map_bind]
        simp only [modify, if_pos isName, eq]
        cases modify other g rest <;> rfl
      · rename_i notName
        obtain ⟨later, eq, rfl⟩ := Except.map_eq_ok.mp hchanging
        rw [modify, modify]
        split
        · rw [Except.map_bind]
          simp only [modify, if_neg notName, eq]
          cases g held <;> rfl
        · rw [ih eq, Except.map_bind, Except.bind_map]
          simp only [modify, if_neg notName]

theorem modify_here {ε : Type} {name : String} {f : Node → Except ε Node} {before after : Mapping}
    {key held : Node} (hname : isKey name key = true) (hfirst : before.get? name = none) :
    modify name f (before ++ (key, held) :: after) =
      (f held).map fun new => before ++ (key, new) :: after := by
  have hfound : get? name (before ++ (key, held) :: after) = some held := by
    rw [get?_append, hfirst, get?_cons, if_pos hname]
    rfl
  simp only [modify_eq, hfound, set_here hname hfirst]

theorem modify_elsewhere {ε : Type} {name : String} {f : Node → Except ε Node}
    {before after : Mapping} {key held held' : Node} {changed changed' : Mapping}
    (hnotName : isKey name key = false)
    (hchanging : modify name f (before ++ (key, held) :: after) = .ok changed)
    (hchanging' : modify name f (before ++ (key, held') :: after) = .ok changed') :
    ∃ before' after', before'.map Prod.fst = before.map Prod.fst ∧
      changed = before' ++ (key, held) :: after' ∧
        changed' = before' ++ (key, held') :: after' := by
  have hfound (held : Node) : get? name (before ++ (key, held) :: after) =
      get? name (before ++ after) := by
    rw [get?_append, get?_append, get?_cons, if_neg (by simp [hnotName])]
  rw [modify_eq, hfound] at hchanging hchanging'
  cases own : get? name (before ++ after) with
  | none =>
      rw [own] at hchanging hchanging'
      cases hchanging
      cases hchanging'
      exact ⟨before, after, rfl, rfl, rfl⟩
  | some value =>
      rw [own] at hchanging hchanging'
      obtain ⟨new, eq, rfl⟩ := Except.map_eq_ok.mp hchanging
      obtain ⟨new', eq', rfl⟩ := Except.map_eq_ok.mp hchanging'
      cases eq.symm.trans eq'
      have helsewhere : isKey name key = true → before.get? name ≠ none := by simp [hnotName]
      obtain ⟨before', after', keys, same⟩ := set_elsewhere helsewhere new after
      exact ⟨before', after', keys, same held, same held'⟩

def DistinctKeys (m : Mapping) : Prop := m.Pairwise fun a b => (a.1 == b.1) = false

instance (m : Mapping) : Decidable m.DistinctKeys :=
  inferInstanceAs (Decidable (m.Pairwise fun a b => (a.1 == b.1) = false))

def HoldsOnce (name : String) (m : Mapping) : Prop :=
  m.countP (fun entry => isKey name entry.1) ≤ 1

theorem DistinctKeys.holdsOnce {m : Mapping} (hdistinct : m.DistinctKeys) (name : String) :
    m.HoldsOnce name := by
  induction m with
  | nil => simp [HoldsOnce]
  | cons entry rest ih =>
      obtain ⟨key, held⟩ := entry
      rw [DistinctKeys, List.pairwise_cons] at hdistinct
      have hlater := ih hdistinct.2
      rw [HoldsOnce, List.countP_cons]
      split
      · rename_i isName
        rw [isKey_iff] at isName
        have hnone : rest.countP (fun entry => isKey name entry.1) = 0 := by
          rw [List.countP_eq_zero]
          intro entry member again
          rw [isKey_iff] at again
          have hdiffers := hdistinct.1 entry member
          rw [isName, again] at hdiffers
          simp [BEq.beq, Node.same] at hdiffers
        omega
      · exact hlater

theorem HoldsOnce.of_keys_eq {name : String} {m m' : Mapping}
    (hkeys : m'.map Prod.fst = m.map Prod.fst) (honce : m.HoldsOnce name) : m'.HoldsOnce name := by
  have hcount : ∀ entries : Mapping,
      entries.countP (fun entry => isKey name entry.1) =
        (entries.map Prod.fst).countP (isKey name) :=
    fun entries => by rw [List.countP_map]; rfl
  unfold HoldsOnce at honce ⊢
  rw [hcount, hkeys, ← hcount]
  exact honce

theorem HoldsOnce.of_tail {name : String} {entry : Node × Node} {rest : Mapping}
    (honce : HoldsOnce name (entry :: rest)) : HoldsOnce name rest := by
  unfold HoldsOnce at honce ⊢
  rw [List.countP_cons] at honce
  omega

theorem HoldsOnce.get?_tail {name : String} {key value : Node} {rest : Mapping}
    (honce : HoldsOnce name ((key, value) :: rest)) (hname : isKey name key = true) :
    get? name rest = none := by
  unfold HoldsOnce at honce
  rw [List.countP_cons, if_pos hname] at honce
  have none : rest.countP (fun entry => isKey name entry.1) = 0 := by omega
  rw [List.countP_eq_zero] at none
  rw [get?_eq_none_iff]
  exact fun entry member => by simpa using none entry member

theorem HoldsOnce.set {name : String} {m : Mapping} (honce : m.HoldsOnce name)
    (field : String) (value : Node) : (m.set field value).HoldsOnce name := by
  by_cases found : m.get? field = none
  · rw [set_of_get?_eq_none found]
    rw [get?_eq_none_iff] at found
    unfold HoldsOnce at honce ⊢
    rw [List.countP_append]
    by_cases same : field = name
    · subst same
      have none : m.countP (fun entry => isKey field entry.1) = 0 := by
        rw [List.countP_eq_zero]
        exact fun entry member => by simp [found entry member]
      simp [none]
    · simpa [List.countP_cons, same] using honce
  · obtain ⟨held, found⟩ := Option.ne_none_iff_exists'.mp found
    exact honce.of_keys_eq (keys_set_of_get? found value)

end Mapping

end DirectoryMetrics
