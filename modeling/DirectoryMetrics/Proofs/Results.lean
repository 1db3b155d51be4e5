import Mathlib.Data.List.Forall2

namespace DirectoryMetrics

namespace Except

variable {ε α β : Type}

theorem bind_eq_ok {x : Except ε α} {f : α → Except ε β} {b : β} :
    (x >>= f) = .ok b ↔ ∃ a, x = .ok a ∧ f a = .ok b := by
  cases x with
  | error e => simp [bind, Except.bind]
  | ok a => simp [bind, Except.bind]

theorem bind_eq_error {x : Except ε α} {f : α → Except ε β} {e : ε} :
    (x >>= f) = .error e ↔ x = .error e ∨ ∃ a, x = .ok a ∧ f a = .error e := by
  cases x with
  | error e' => simp [bind, Except.bind]
  | ok a => simp [bind, Except.bind]

theorem map_eq_ok {x : Except ε α} {f : α → β} {b : β} :
    x.map f = .ok b ↔ ∃ a, x = .ok a ∧ f a = b := by
  cases x with
  | error e => simp [Except.map]
  | ok a => simp [Except.map]

theorem map_eq_error {x : Except ε α} {f : α → β} {e : ε} :
    x.map f = .error e ↔ x = .error e := by
  cases x with
  | error e' => simp [Except.map]
  | ok a => simp [Except.map]

theorem map_map {γ : Type} (x : Except ε α) (f : α → β) (g : β → γ) :
    (x.map f).map g = x.map fun a => g (f a) := by
  cases x <;> rfl

theorem map_bind {γ : Type} (x : Except ε α) (f : α → β) (g : β → Except ε γ) :
    x.map f >>= g = x >>= fun a => g (f a) := by
  cases x <;> rfl

theorem bind_map {γ : Type} (x : Except ε α) (f : α → Except ε β) (g : β → γ) :
    (x >>= f).map g = x >>= fun a => (f a).map g := by
  cases x <;> rfl

theorem map_toOption_eq_some {x : Except ε α} {f : α → β} {b : β} :
    x.toOption.map f = some b ↔ ∃ a, x = .ok a ∧ f a = b := by
  cases x with
  | error e => simp [Except.toOption]
  | ok a => simp [Except.toOption]

theorem mapError_eq_ok {δ : Type} {x : Except ε α} {f : ε → δ} {a : α} :
    x.mapError f = .ok a ↔ x = .ok a := by
  cases x with
  | error e => simp [Except.mapError]
  | ok a => simp [Except.mapError]

theorem mapM_eq_ok {f : α → Except ε β} {xs : List α} {ys : List β} :
    xs.mapM f = .ok ys ↔ List.Forall₂ (fun x y => f x = .ok y) xs ys := by
  induction xs generalizing ys with
  | nil =>
      rw [List.mapM_nil, List.forall₂_nil_left_iff]
      simp [pure, Except.pure, eq_comm]
  | cons x rest ih =>
      rw [List.mapM_cons, bind_eq_ok, List.forall₂_cons_left_iff]
      constructor
      · rintro ⟨y, first, bound⟩
        rw [bind_eq_ok] at bound
        obtain ⟨later, others, returned⟩ := bound
        cases returned
        exact ⟨y, later, first, ih.mp others, rfl⟩
      · rintro ⟨y, later, first, others, rfl⟩
        exact ⟨y, first, by rw [ih.mpr others]; rfl⟩

theorem mapM_eq_error {f : α → Except ε β} {xs : List α} {e : ε}
    (hfailing : xs.mapM f = .error e) : ∃ x ∈ xs, f x = .error e := by
  induction xs with
  | nil => cases hfailing
  | cons x rest ih =>
      rw [List.mapM_cons, bind_eq_error] at hfailing
      rcases hfailing with first | ⟨_, _, hfailing⟩
      · exact ⟨x, List.mem_cons_self, first⟩
      · rw [bind_eq_error] at hfailing
        rcases hfailing with later | ⟨_, _, returned⟩
        · obtain ⟨x, member, eq⟩ := ih later
          exact ⟨x, List.mem_cons_of_mem _ member, eq⟩
        · cases returned

theorem mapM_eq_error_iff {f : α → Except ε β} {errors : α → List ε} {xs : List α}
    (heach : ∀ x ∈ xs, ∀ e, f x = .error e ↔ (errors x).head? = some e) {e : ε} :
    xs.mapM f = .error e ↔ (xs.flatMap errors).head? = some e := by
  induction xs with
  | nil => simp [pure, Except.pure]
  | cons x rest ih =>
      rw [List.forall_mem_cons] at heach
      obtain ⟨first, others⟩ := heach
      rw [List.mapM_cons, List.flatMap_cons]
      cases result : f x with
      | error e' =>
          have hhead := (first e').mp result
          simp [bind, Except.bind, hhead]
      | ok y =>
          have hnone : errors x = [] := by
            cases held : errors x with
            | nil => rfl
            | cons e' _ =>
                have failed := (first e').mpr (by rw [held]; rfl)
                rw [result] at failed
                cases failed
          rw [hnone, List.nil_append, ← ih others, bind_eq_error]
          constructor
          · rintro (failed | ⟨_, _, failed⟩)
            · cases failed
            · rcases bind_eq_error.mp failed with failed | ⟨_, _, returned⟩
              · exact failed
              · cases returned
          · exact fun failed => .inr ⟨y, rfl, bind_eq_error.mpr (.inl failed)⟩

theorem mapM_mapM_self {γ : Type} {f : α → Except ε β} {g : α → Except ε γ} {h : β → Except ε γ}
    (habsorbs : ∀ x y, f x = .ok y → h y = g x) {xs : List α} {ys : List β}
    (hchanging : xs.mapM f = .ok ys) : ys.mapM h = xs.mapM g := by
  have hrelated := mapM_eq_ok.mp hchanging
  clear hchanging
  induction hrelated with
  | nil => rfl
  | cons head tail ih => rw [List.mapM_cons, List.mapM_cons, habsorbs _ _ head, ih]

theorem forM_eq_ok {f : α → Except ε Unit} {xs : List α} :
    xs.forM f = .ok () ↔ ∀ x ∈ xs, f x = .ok () := by
  induction xs with
  | nil => simp [pure, Except.pure]
  | cons x rest ih =>
      rw [List.forM, bind_eq_ok, List.forall_mem_cons]
      constructor
      · rintro ⟨_, first, others⟩
        exact ⟨first, ih.mp others⟩
      · rintro ⟨first, others⟩
        exact ⟨(), first, ih.mpr others⟩

theorem mem_flatten_of_mapM {f : α → Except ε (List β)} {xs : List α} {ys : List (List β)}
    (heach : xs.mapM f = .ok ys) {z : β} :
    z ∈ ys.flatten ↔ ∃ x ∈ xs, ∃ y, f x = .ok y ∧ z ∈ y := by
  have hrelated := mapM_eq_ok.mp heach
  clear heach
  induction hrelated with
  | nil => simp
  | cons head tail ih => simp [ih, head]

end Except

theorem forall_mem_of_forall₂ {α β : Type} {P : β → Prop} {xs : List α} {ys : List β}
    (hrelated : List.Forall₂ (fun _ y => P y) xs ys) : ∀ y ∈ ys, P y := by
  induction hrelated with
  | nil => simp
  | cons head tail ih => exact List.forall_mem_cons.mpr ⟨head, ih⟩

theorem forall_mem_left_of_forall₂ {α β : Type} {P : α → Prop} {xs : List α} {ys : List β}
    (hrelated : List.Forall₂ (fun x _ => P x) xs ys) : ∀ x ∈ xs, P x :=
  forall_mem_of_forall₂ hrelated.flip

theorem exists_forall₂ {α β : Type} {R : α → β → Prop} {xs : List α}
    (heach : ∀ x ∈ xs, ∃ y, R x y) : ∃ ys, List.Forall₂ R xs ys := by
  induction xs with
  | nil => exact ⟨[], .nil⟩
  | cons x rest ih =>
      rw [List.forall_mem_cons] at heach
      obtain ⟨y, first⟩ := heach.1
      obtain ⟨ys, later⟩ := ih heach.2
      exact ⟨y :: ys, .cons first later⟩

theorem exists_of_forall₂_getElem? {α β : Type} {R : α → β → Prop} {xs : List α} {ys : List β}
    (hrelated : List.Forall₂ R xs ys) {i : Nat} {y : β} (hfound : ys[i]? = some y) :
    ∃ x, xs[i]? = some x ∧ R x y := by
  induction hrelated generalizing i with
  | nil => simp at hfound
  | @cons x _ _ _ head _ ih =>
      cases i with
      | zero =>
          cases hfound
          exact ⟨x, rfl, head⟩
      | succ i => exact ih hfound

theorem forall₂_toList_getElem? {α β : Type} {R : α → β → Prop} {xs : List α} {ys : List β}
    (hrelated : List.Forall₂ R xs ys) (i : Nat) : List.Forall₂ R xs[i]?.toList ys[i]?.toList := by
  induction hrelated generalizing i with
  | nil => exact .nil
  | cons head tail ih =>
      cases i with
      | zero => exact .cons head .nil
      | succ i => exact ih i

theorem forall₂_iff_getElem? {α β : Type} {R : α → β → Prop} {xs : List α} {ys : List β} :
    List.Forall₂ R xs ys ↔ xs.length = ys.length ∧
      ∀ (i : Nat) x y, xs[i]? = some x → ys[i]? = some y → R x y := by
  rw [List.forall₂_iff_get]
  refine and_congr_right fun same => ⟨fun each i x y left right => ?_, fun each i left right => ?_⟩
  · obtain ⟨inside, rfl⟩ := List.getElem?_eq_some_iff.mp left
    obtain ⟨inside', rfl⟩ := List.getElem?_eq_some_iff.mp right
    exact each i inside inside'
  · exact each i _ _ (List.getElem?_eq_getElem left) (List.getElem?_eq_getElem right)

theorem forall₂_eq_and_iff {α β γ : Type} {f : α → γ} {g : β → γ} {R : α → β → Prop}
    {xs : List α} {ys : List β} :
    List.Forall₂ (fun x y => f x = g y ∧ R x y) xs ys ↔ xs.map f = ys.map g ∧
      ∀ (i : Nat) x y, xs[i]? = some x → ys[i]? = some y → R x y := by
  have hmapped : List.Forall₂ (fun x y => f x = g y) xs ys ↔ xs.map f = ys.map g := by
    rw [← List.forall₂_eq_eq_eq, List.forall₂_map_left_iff, List.forall₂_map_right_iff]
  constructor
  · intro related
    exact ⟨hmapped.mp (related.imp fun x y both => both.1),
      (forall₂_iff_getElem?.mp (related.imp fun x y both => both.2)).2⟩
  · rintro ⟨same, each⟩
    have hlength : xs.length = ys.length := by simpa using congrArg List.length same
    exact List.Forall₂.mp (fun x y same held => ⟨same, held⟩) (hmapped.mpr same)
      (forall₂_iff_getElem?.mpr ⟨hlength, each⟩)

theorem forall₂_append_cons {α β : Type} {R : α → β → Prop} {xs ys : List α} {x : α} {zs : List β}
    (hrelated : List.Forall₂ R (xs ++ x :: ys) zs) :
    ∃ left z right, zs = left ++ z :: right ∧ List.Forall₂ R xs left ∧ R x z ∧
      List.Forall₂ R ys right := by
  induction xs generalizing zs with
  | nil =>
      cases hrelated with
      | @cons _ z _ right head tail => exact ⟨[], z, right, rfl, .nil, head, tail⟩
  | cons first rest ih =>
      cases hrelated with
      | @cons _ w _ later head tail =>
          obtain ⟨left, z, right, rfl, before, own, after⟩ := ih tail
          exact ⟨w :: left, z, right, rfl, .cons head before, own, after⟩

theorem forall₂_apart {α β : Type} {R : α → β → Prop} (hunique : ∀ x y z, R x y → R x z → y = z)
    {xs ys : List α} {x x' : α} {zs zs' : List β} (hrelated : List.Forall₂ R (xs ++ x :: ys) zs)
    (hrelated' : List.Forall₂ R (xs ++ x' :: ys) zs') :
    ∃ left z z' right, left.length = xs.length ∧ zs = left ++ z :: right ∧
      zs' = left ++ z' :: right ∧ R x z ∧ R x' z' := by
  obtain ⟨left, z, right, rfl, before, own, after⟩ := forall₂_append_cons hrelated
  obtain ⟨left', z', right', rfl, before', own', after'⟩ := forall₂_append_cons hrelated'
  cases List.right_unique_forall₂' hunique before before'
  cases List.right_unique_forall₂' hunique after after'
  exact ⟨left, z, z', right, before.length_eq.symm, rfl, rfl, own, own'⟩

theorem forall₂_comp {α β γ : Type} {R : α → β → Prop} {S : β → γ → Prop} {P : α → γ → Prop}
    (hboth : ∀ x y z, R x y → S y z → P x z) {xs : List α} {ys : List β} {zs : List γ}
    (hfirst : List.Forall₂ R xs ys) (hsecond : List.Forall₂ S ys zs) : List.Forall₂ P xs zs := by
  induction hfirst generalizing zs with
  | nil =>
      cases hsecond
      exact .nil
  | cons head tail ih =>
      cases hsecond with
      | cons head' tail' => exact .cons (hboth _ _ _ head head') (ih tail')

theorem optionRel_comp {α β γ : Type} {R : α → β → Prop} {S : β → γ → Prop} {P : α → γ → Prop}
    (hboth : ∀ x y z, R x y → S y z → P x z) {x : Option α} {y : Option β} {z : Option γ}
    (hfirst : Option.Rel R x y) (hsecond : Option.Rel S y z) : Option.Rel P x z := by
  cases hfirst with
  | none =>
      cases hsecond
      exact .none
  | some one =>
      cases hsecond with
      | some two => exact .some (hboth _ _ _ one two)

section

variable {ε σ β γ : Type}

theorem run_bind (action : ExceptT ε (StateM σ) β) (next : β → ExceptT ε (StateM σ) γ) (state : σ) :
    (action >>= next).run.run state =
      match action.run.run state with
      | (.ok value, after) => (next value).run.run after
      | (.error error, after) => (.error error, after) := by
  simp only [ExceptT.run_bind, StateT.run_bind]
  rcases action.run.run state with ⟨_ | _, after⟩
  · rfl
  · rfl

theorem run_get (state : σ) :
    (get : ExceptT ε (StateM σ) σ).run.run state = (.ok state, state) := rfl

theorem run_pure (value : β) (state : σ) :
    (pure value : ExceptT ε (StateM σ) β).run.run state = (.ok value, state) := rfl

theorem run_lift (result : Except ε β) (state : σ) :
    (liftM result : ExceptT ε (StateM σ) β).run.run state = (result, state) := rfl

theorem exists_eq_ok_of_map_toOption {result : Except ε β × σ} {f : β → γ} {c : γ}
    (hmade : result.1.toOption.map f = some c) : ∃ b after, result = (.ok b, after) ∧ f b = c := by
  rcases result with ⟨error | b, after⟩
  · cases hmade
  · exact ⟨b, after, rfl, Option.some.inj hmade⟩

end

end DirectoryMetrics
