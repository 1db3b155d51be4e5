import DirectoryMetrics.Decimal.Style
import DirectoryMetrics.Proofs.Tree.Mapping

namespace DirectoryMetrics

/-! Names of keys that are no text. A number or a flag may name an object, but its name is never
that of a field: the fields below which objects and metrics are nested have a letter that no
rendering has. -/

namespace Decimal

def isNumeral (c : Char) : Bool := c.isDigit || ['-', '.', 'e', 'i', 'n', 'f', 'a'].contains c

variable (x : Decimal)

theorem all_digits : x.digits.all isNumeral = true := by
  refine List.all_eq_true.mpr fun c member => ?_
  rw [isNumeral, Nat.isDigit_of_mem_toDigits (by decide) (by decide) member, Bool.true_or]

theorem all_int (value : Int) : (toString value).toList.all isNumeral = true := by
  have hnatural (n : Nat) : n.repr.toList.all isNumeral = true := by
    rw [Nat.toList_repr]
    exact all_digits ⟨n, 0⟩
  change value.repr.toList.all isNumeral = true
  rw [Int.repr_eq_if]
  split
  · exact hnatural _
  · rw [String.toList_append, List.all_append, hnatural]
    decide

theorem all_zeros (count : Int) : (zeros count).all isNumeral = true := by
  refine List.all_eq_true.mpr fun c member => ?_
  rw [List.eq_of_mem_replicate member]
  decide

theorem all_positionalText (keepsPoint : Bool) :
    (x.positionalText keepsPoint).all isNumeral = true := by
  simp only [positionalText]
  split
  · rw [List.all_append, List.all_append, all_zeros, all_digits]
    decide
  · split
    · rw [List.all_append, List.all_append, all_zeros, all_digits]
      cases keepsPoint with
      | true => decide
      | false => decide
    · have hdigits := List.all_eq_true.mp x.all_digits
      have hbefore : (x.digits.take x.point.toNat).all isNumeral = true :=
        List.all_eq_true.mpr fun c member => hdigits c (List.mem_of_mem_take member)
      have hafter : (x.digits.drop x.point.toNat).all isNumeral = true :=
        List.all_eq_true.mpr fun c member => hdigits c (List.mem_of_mem_drop member)
      rw [List.all_append, List.all_append, hbefore, hafter]
      decide

theorem all_exponentText : x.exponentText.all isNumeral = true := by
  have hexponent : (['e'] ++ (toString (x.point - 1)).toList).all isNumeral = true := by
    rw [List.all_append, all_int]
    decide
  have hdigits := x.all_digits
  rw [exponentText]
  cases written : x.digits with
  | nil => exact hexponent
  | cons d more =>
      rw [written, List.all_cons, Bool.and_eq_true] at hdigits
      cases more with
      | nil => rw [List.all_cons, hdigits.1, hexponent, Bool.and_true]
      | cons e more =>
          rw [List.all_append, List.all_cons, List.all_cons, hdigits.1, hdigits.2, hexponent]
          decide

theorem all_text (style : DecimalStyle) : (x.text style).all isNumeral = true := by
  rw [text]
  split
  · exact x.all_positionalText _
  · split
    · exact x.all_positionalText _
    · exact x.all_exponentText

theorem all_write (value : Float) :
    (DecimalStyle.tree.write value).toList.all isNumeral = true := by
  rw [DecimalStyle.write]
  cases Binary.ofFloat? value with
  | some b =>
      have hmagnitude : (DecimalStyle.tree.magnitude b).all isNumeral = true := by
        rw [DecimalStyle.magnitude]
        split
        · decide
        · exact all_text _ _
      simp only [String.toList_ofList, List.all_append, hmagnitude]
      cases b.negative with
      | true => decide
      | false => decide
  | none =>
      dsimp only
      split
      · decide
      · split
        · decide
        · decide

end Decimal

theorem Node.text_of_keyName? {key : Node} {name : String} (hnamed : key.keyName? = some name)
    (hletter : name.toList.contains 'c' = true) : key = .text name := by
  have hunlike {name : String} (numerals : name.toList.all Decimal.isNumeral = true) :
      name.toList.contains 'c' = false := by
    rw [← Bool.not_eq_true, List.contains_iff_mem]
    exact fun member => absurd (List.all_eq_true.mp numerals _ member) (by decide)
  cases key with
  | text text => exact congrArg Node.text (Option.some.inj hnamed)
  | int value =>
      cases hnamed
      rw [hunlike (Decimal.all_int value)] at hletter
      cases hletter
  | float value =>
      cases hnamed
      rw [hunlike (Decimal.all_write value)] at hletter
      cases hletter
  | bool flag =>
      cases hnamed
      cases flag with
      | true => exact absurd hletter (by decide)
      | false => exact absurd hletter (by decide)
  | _ => cases hnamed

end DirectoryMetrics
