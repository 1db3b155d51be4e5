import DirectoryMetrics.Metrics.View
import DirectoryMetrics.Proofs.Metrics.Sorted

namespace DirectoryMetrics

namespace Sorted

theorem pairsBefore_cons_cons {k v l w : String} {rest rest' : List (String × String)} :
    pairsBefore ((k, v) :: rest) ((l, w) :: rest') = true ↔
      k < l ∨ (k = l ∧ (v < w ∨ (v = w ∧ pairsBefore rest rest' = true))) := by
  rw [pairsBefore]
  by_cases sameKey : k = l
  · by_cases sameValue : v = w
    · simp [sameKey, sameValue]
    · simp [sameKey, sameValue, textBefore]
  · simp [sameKey, textBefore]

theorem pairsBefore_irrefl (pairs : List (String × String)) : pairsBefore pairs pairs = false := by
  induction pairs with
  | nil => rfl
  | cons pair rest ih => simp [pairsBefore, ih]

theorem pairsBefore_trans {a b c : List (String × String)} (hfirst : pairsBefore a b = true)
    (hsecond : pairsBefore b c = true) : pairsBefore a c = true := by
  induction a generalizing b c with
  | nil =>
      cases b with
      | nil => simp [pairsBefore] at hfirst
      | cons =>
          cases c with
          | nil => simp [pairsBefore] at hsecond
          | cons => rfl
  | cons x a ih =>
      cases b with
      | nil => simp [pairsBefore] at hfirst
      | cons y b =>
          cases c with
          | nil => simp [pairsBefore] at hsecond
          | cons z c =>
              rw [pairsBefore_cons_cons] at hfirst hsecond ⊢
              rcases hfirst with less | ⟨sameKey, hfirst⟩
              · rcases hsecond with less' | ⟨sameKey', _⟩
                · exact .inl (lt_trans less less')
                · exact .inl (sameKey' ▸ less)
              · rcases hsecond with less' | ⟨sameKey', hsecond⟩
                · exact .inl (sameKey ▸ less')
                · refine .inr ⟨sameKey.trans sameKey', ?_⟩
                  rcases hfirst with less | ⟨sameValue, hfirst⟩
                  · rcases hsecond with less' | ⟨sameValue', _⟩
                    · exact .inl (lt_trans less less')
                    · exact .inl (sameValue' ▸ less)
                  · rcases hsecond with less' | ⟨sameValue', hsecond⟩
                    · exact .inl (sameValue ▸ less')
                    · exact .inr ⟨sameValue.trans sameValue', ih hfirst hsecond⟩

theorem pairsBefore_total {a b : List (String × String)} (hdifferent : a ≠ b)
    (hnotBefore : pairsBefore a b = false) : pairsBefore b a = true := by
  induction a generalizing b with
  | nil =>
      cases b with
      | nil => exact absurd rfl hdifferent
      | cons => simp [pairsBefore] at hnotBefore
  | cons x a ih =>
      cases b with
      | nil => rfl
      | cons y b =>
          obtain ⟨k, v⟩ := x
          obtain ⟨l, w⟩ := y
          rw [← Bool.not_eq_true, pairsBefore_cons_cons] at hnotBefore
          rw [pairsBefore_cons_cons]
          rcases lt_trichotomy k l with less | sameKey | more
          · exact absurd (.inl less) hnotBefore
          · refine .inr ⟨sameKey.symm, ?_⟩
            rcases lt_trichotomy v w with less | sameValue | more
            · exact absurd (.inr ⟨sameKey, .inl less⟩) hnotBefore
            · refine .inr ⟨sameValue.symm, ih ?_ ?_⟩
              · rintro rfl
                exact hdifferent (by rw [sameKey, sameValue])
              · rw [← Bool.not_eq_true]
                exact fun less => hnotBefore (.inr ⟨sameKey, .inr ⟨sameValue, less⟩⟩)
            · exact .inl more
          · exact .inl more

end Sorted

namespace Tags

theorem before_strict : Sorted.Strict before where
  irrefl a := Sorted.pairsBefore_irrefl a.pairs
  trans _ _ _ := Sorted.pairsBefore_trans
  total a b different := by
    apply Sorted.pairsBefore_total
    intro same
    exact different (congrArg mk same)

def Ordered (tags : Tags) : Prop := Sorted.Ascending Sorted.textBefore tags.pairs

instance (tags : Tags) : Decidable tags.Ordered :=
  inferInstanceAs (Decidable (tags.pairs.Pairwise _))

theorem Ordered.restrict {tags : Tags} (hordered : tags.Ordered) (keys : List String) :
    (tags.restrict keys).Ordered :=
  Sorted.Ascending.filter hordered _

theorem Ordered.ext {tags tags' : Tags} (hordered : tags.Ordered) (hordered' : tags'.Ordered)
    (hsame : ∀ key, tags.get? key = tags'.get? key) : tags = tags' :=
  congrArg mk (Sorted.ascending_ext Sorted.textBefore_strict hordered hordered' hsame)

theorem get?_restrict (keys : List String) (tags : Tags) (key : String) :
    (tags.restrict keys).get? key = if keys.contains key then tags.get? key else none :=
  Sorted.lookup_filter (fun key => keys.contains key) key tags.pairs

end Tags

end DirectoryMetrics
