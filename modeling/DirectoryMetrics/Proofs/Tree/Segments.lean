import DirectoryMetrics.Proofs.Tree.Expansion
import Mathlib.Data.List.Chain
import Mathlib.Data.List.DropRight
import Mathlib.Data.List.Infix

namespace DirectoryMetrics

namespace Text

structure Trimmed (cs : List Char) : Prop where
  head : ∀ c ∈ cs.head?, isBlank c = false
  last : ∀ c ∈ cs.getLast?, isBlank c = false

-- The bounds are tested as flags, as there is also an instance that goes through all characters.
instance (cs : List Char) : Decidable (Trimmed cs) :=
  decidable_of_iff (cs.head?.all (!isBlank ·) = true ∧ cs.getLast?.all (!isBlank ·) = true)
    ⟨fun ⟨head, last⟩ =>
      ⟨by simpa [Option.all_eq_true] using head, by simpa [Option.all_eq_true] using last⟩,
      fun ⟨head, last⟩ => by simpa [Option.all_eq_true] using And.intro head last⟩

theorem trimChars_eq_rdropWhile (cs : List Char) :
    trimChars cs = (cs.dropWhile isBlank).rdropWhile isBlank := rfl

theorem eq_append_trimChars (cs : List Char) :
    ∃ before after, cs = before ++ trimChars cs ++ after ∧ (∀ c ∈ before, isBlank c = true) ∧
      ∀ c ∈ after, isBlank c = true := by
  refine ⟨cs.takeWhile isBlank, (cs.dropWhile isBlank).rtakeWhile isBlank, ?_,
    fun c => List.mem_takeWhile_imp, fun c => List.mem_rtakeWhile_imp⟩
  rw [trimChars_eq_rdropWhile, List.append_assoc, List.rdropWhile_append_rtakeWhile,
    List.takeWhile_append_dropWhile]

theorem trimmed_trimChars (cs : List Char) : Trimmed (trimChars cs) where
  head c first := by
    obtain ⟨after, whole⟩ : trimChars cs <+: cs.dropWhile isBlank :=
      List.rdropWhile_prefix isBlank _
    have hstart : (cs.dropWhile isBlank).head? = some c := by
      rw [← whole, List.head?_append, Option.mem_def.mp first, Option.some_or]
    simpa [hstart] using List.head?_dropWhile_not isBlank cs
  last c last := by
    rw [trimChars_eq_rdropWhile] at last
    obtain ⟨nonempty, rfl⟩ := List.mem_getLast?_eq_getLast last
    simpa using List.rdropWhile_last_not isBlank (cs.dropWhile isBlank) nonempty

theorem trimChars_append {before cs after : List Char} (htrimmed : Trimmed cs)
    (hblankBefore : ∀ c ∈ before, isBlank c = true) (hblankAfter : ∀ c ∈ after, isBlank c = true) :
    trimChars (before ++ cs ++ after) = cs := by
  have hblankReversed : ∀ c ∈ after.reverse, isBlank c = true := fun c inside =>
    hblankAfter c (List.mem_reverse.mp inside)
  have hstart : (cs ++ after).dropWhile isBlank = cs ++ after ∨ cs = [] := by
    cases cs with
    | nil => exact .inr rfl
    | cons c rest =>
        have hnotBlank := htrimmed.head c rfl
        exact .inl (List.dropWhile_cons_of_neg (by simp [hnotBlank]))
  have hfinish : cs.reverse.dropWhile isBlank = cs.reverse := by
    cases reversed : cs.reverse with
    | nil => rfl
    | cons c rest =>
        have hnotBlank := htrimmed.last c (by rw [List.getLast?_eq_head?_reverse, reversed]; rfl)
        exact List.dropWhile_cons_of_neg (by simp [hnotBlank])
  rw [trimChars, List.append_assoc, List.dropWhile_append_of_pos hblankBefore]
  rcases hstart with hstart | rfl
  · rw [hstart, List.reverse_append, List.dropWhile_append_of_pos hblankReversed, hfinish,
      List.reverse_reverse]
  · rw [List.nil_append, List.dropWhile_eq_nil_iff.mpr hblankAfter]
    rfl

end Text

namespace Segment

def Plain (text : List Char) : Prop := ¬ ['$', '{'] <:+: text

instance (text : List Char) : Decidable (Plain text) := inferInstanceAs (Decidable (¬ _))

theorem Plain.tail {c : Char} {text : List Char} (hplain : Plain (c :: text)) : Plain text :=
  fun inside => hplain (inside.trans (List.suffix_cons c text).isInfix)

theorem plain_cons_iff {c : Char} {text : List Char} :
    Plain (c :: text) ↔ ¬ (c = '$' ∧ text.head? = some '{') ∧ Plain text := by
  rw [Plain, List.infix_cons_iff, not_or, List.cons_prefix_cons, Plain]
  refine and_congr_left fun _ => not_congr ?_
  cases text <;> simp [eq_comm]

/-- A reader takes in what comes before a placeholder or the end. A dollar sign there does not open
a placeholder, as no brace comes next. -/
theorem splitFrom_plain {before later : List Char} (hplain : Plain before)
    (hnoBrace : later.head? ≠ some '{') (reversed : List Char) :
    splitFrom (.literal reversed) (before ++ later) =
      splitFrom (.literal (before.reverse ++ reversed)) later := by
  induction before generalizing reversed with
  | nil => rfl
  | cons c rest ih =>
      rw [plain_cons_iff] at hplain
      rw [List.cons_append, splitFrom, ih hplain.2, List.reverse_cons, List.append_assoc,
        List.singleton_append]
      rintro more rfl opened
      cases rest with
      | nil =>
          rw [List.nil_append] at opened
          exact hnoBrace (by rw [opened]; rfl)
      | cons d rest =>
          rw [List.cons_append, List.cons.injEq] at opened
          exact hplain.1 ⟨rfl, by rw [opened.1]; rfl⟩

theorem splitFrom_name {name : List Char} (hunclosed : '}' ∉ name) (reversed later : List Char) :
    splitFrom (.placeholder reversed) (name ++ later) =
      splitFrom (.placeholder (name.reverse ++ reversed)) later := by
  induction name generalizing reversed with
  | nil => rfl
  | cons c rest ih =>
      rw [List.mem_cons, not_or] at hunclosed
      rw [List.cons_append, splitFrom, if_neg (Ne.symm hunclosed.1), ih hunclosed.2,
        List.reverse_cons, List.append_assoc, List.singleton_append]

/-- One step of a reader: the text up to the next placeholder, and the placeholder. -/
theorem split?_placeholder {before name : List Char} (hplain : Plain before)
    (hunclosed : '}' ∉ name)
    (later : List Char) :
    split? (before ++ ('$' :: '{' :: (name ++ '}' :: later))) =
      (split? later).map fun found =>
        literal? before.reverse ++ .placeholder (Text.trimChars name) :: found := by
  rw [split?, splitFrom_plain hplain (by simp), List.append_nil, splitFrom,
    splitFrom_name hunclosed,
    List.append_nil, splitFrom, if_pos rfl, List.reverse_reverse, Option.map_map]
  rfl

theorem split?_unended {before name : List Char} (hplain : Plain before) (hunclosed : '}' ∉ name) :
    split? (before ++ ('$' :: '{' :: name)) = none := by
  have hreading := splitFrom_name hunclosed [] []
  rw [List.append_nil] at hreading
  rw [split?, splitFrom_plain hplain (by simp), splitFrom, hreading, splitFrom, Option.map_none]

theorem split?_plain {text : List Char} (hplain : Plain text) :
    split? text = some (literal? text.reverse) := by
  have hwhole : splitFrom (.literal []) (text ++ []) = _ := splitFrom_plain hplain (by simp) []
  rwa [List.append_nil, List.append_nil, splitFrom] at hwhole

/-- What comes before the first placeholder of a text is plain. -/
theorem plain_or_opens (text : List Char) :
    Plain text ∨ ∃ before after, text = before ++ ('$' :: '{' :: after) ∧ Plain before := by
  induction text with
  | nil => exact .inl (by simp [Plain])
  | cons c rest ih =>
      by_cases opened : c = '$' ∧ rest.head? = some '{'
      · obtain ⟨rfl, brace⟩ := opened
        obtain ⟨after, rfl⟩ := List.head?_eq_some_iff.mp brace
        exact .inr ⟨[], after, rfl, by simp [Plain]⟩
      · rcases ih with plain | ⟨before, after, rfl, plain⟩
        · exact .inl (plain_cons_iff.mpr ⟨opened, plain⟩)
        · refine .inr
            ⟨c :: before, after, rfl, plain_cons_iff.mpr ⟨fun ⟨dollar, brace⟩ => ?_, plain⟩⟩
          refine opened ⟨dollar, ?_⟩
          rw [List.head?_append, brace, Option.some_or]

theorem text_induct {motive : List Char → Prop}
    (plain : ∀ text, Plain text → motive text)
    (unended : ∀ before name, Plain before → '}' ∉ name →
      motive (before ++ ('$' :: '{' :: name)))
    (placeholder : ∀ before name later, Plain before → '}' ∉ name → motive later →
      motive (before ++ ('$' :: '{' :: (name ++ '}' :: later))))
    (text : List Char) : motive text := by
  induction length : text.length using Nat.strongRecOn generalizing text with
  | ind n ih =>
      rcases plain_or_opens text with isPlain | ⟨before, after, rfl, isPlain⟩
      · exact plain text isPlain
      · by_cases closed : '}' ∈ after
        · obtain ⟨name, later, rfl, unclosed⟩ := List.eq_append_cons_of_mem closed
          refine placeholder before name later isPlain unclosed (ih later.length ?_ later rfl)
          simp at length
          omega
        · exact unended before after isPlain closed

def isLiteral : Segment → Bool
  | .literal _ => true
  | .placeholder _ => false

/-- What a reader makes of a part of a text: some text in which no placeholder begins, or a name
without blanks around it. -/
def Sound : Segment → Prop
  | .literal text => text ≠ [] ∧ Plain text
  | .placeholder name => '}' ∉ name ∧ Text.Trimmed name

instance : DecidablePred Sound
  | .literal _ => inferInstanceAs (Decidable (_ ∧ _))
  | .placeholder _ => inferInstanceAs (Decidable (_ ∧ _))

/-- Segments as a reader finds them: two literals do not stand next to each other. -/
structure Canonical (segments : List Segment) : Prop where
  each : ∀ segment ∈ segments, segment.Sound
  apart : segments.IsChain fun segment next => ¬ (segment.isLiteral ∧ next.isLiteral)

instance (segments : List Segment) : Decidable (Canonical segments) :=
  decidable_of_iff ((∀ segment ∈ segments, segment.Sound) ∧
      segments.IsChain fun segment next => ¬ (segment.isLiteral ∧ next.isLiteral))
    ⟨fun ⟨each, apart⟩ => ⟨each, apart⟩, fun ⟨each, apart⟩ => ⟨each, apart⟩⟩

inductive Padded : Segment → Segment → Prop where
  | literal (text : List Char) : Padded (.literal text) (.literal text)
  | placeholder {before after : List Char} (name : List Char)
      (blankBefore : ∀ c ∈ before, Text.isBlank c = true)
      (blankAfter : ∀ c ∈ after, Text.isBlank c = true) :
      Padded (.placeholder name) (.placeholder (before ++ name ++ after))

theorem Padded.refl (segment : Segment) : Padded segment segment := by
  cases segment with
  | literal text => exact .literal text
  | placeholder name =>
      have hpads : Padded (.placeholder name) (.placeholder ([] ++ name ++ [])) :=
        .placeholder name (by simp) (by simp)
      rwa [List.nil_append, List.append_nil] at hpads

theorem canonical_cons_iff {segment : Segment} {rest : List Segment} :
    Canonical (segment :: rest) ↔
      segment.Sound ∧ (∀ next ∈ rest.head?, ¬ (segment.isLiteral ∧ next.isLiteral)) ∧
        Canonical rest := by
  constructor
  · rintro ⟨each, apart⟩
    rw [List.forall_mem_cons] at each
    rw [List.isChain_cons] at apart
    exact ⟨each.1, apart.1, each.2, apart.2⟩
  · rintro ⟨sound, first, each, apart⟩
    exact ⟨List.forall_mem_cons.mpr ⟨sound, each⟩, List.isChain_cons.mpr ⟨first, apart⟩⟩

theorem literal?_reverse (text : List Char) :
    literal? text.reverse = if text = [] then [] else [.literal text] := by
  simp [literal?]

theorem render_placeholder (name : List Char) (rest : List Segment) :
    render (.placeholder name :: rest) = '$' :: '{' :: (name ++ '}' :: render rest) := by
  simp [render]

theorem render_append (before after : List Segment) :
    render (before ++ after) = render before ++ render after := by
  induction before with
  | nil => rfl
  | cons segment rest ih => cases segment <;> simp [render, ih]

theorem render_literal? (text : List Char) : render (literal? text.reverse) = text := by
  rw [literal?_reverse]
  split
  · rename_i empty
    rw [empty]
    rfl
  · simp [render]

theorem head?_render {segments padded : List Segment} (hpads : List.Forall₂ Padded segments padded)
    (hnoLiteral : ∀ segment ∈ segments.head?, segment.isLiteral = false) :
    (render padded).head? ≠ some '{' := by
  cases hpads with
  | nil => simp [render]
  | cons pad _ =>
      cases pad with
      | literal text => simp [isLiteral] at hnoLiteral
      | placeholder name _ _ => simp [render]

theorem splitFrom_render {segments padded : List Segment} (hcanonical : Canonical segments)
    (hpads : List.Forall₂ Padded segments padded) {reversed : List Char}
    (hapart : reversed = [] ∨ ∀ segment ∈ segments.head?, segment.isLiteral = false) :
    splitFrom (.literal reversed) (render padded) = some (literal? reversed ++ segments) := by
  induction hpads generalizing reversed with
  | nil => simp [render, splitFrom]
  | @cons segment _ rest _ pad hpads ih =>
      obtain ⟨sound, first, others⟩ := canonical_cons_iff.mp hcanonical
      cases pad with
      | literal text =>
          have hstart : reversed = [] := hapart.resolve_right fun noLiteral => by
            simp [isLiteral] at noLiteral
          have noLiteral : ∀ next ∈ rest.head?, next.isLiteral = false := by
            simpa [isLiteral] using first
          rw [hstart, render, splitFrom_plain sound.2 (head?_render hpads noLiteral),
            List.append_nil, ih others (.inr noLiteral), literal?_reverse, if_neg sound.1]
          rfl
      | @placeholder before after name blankBefore blankAfter =>
          have hunclosed : '}' ∉ before ++ name ++ after := by
            simp only [List.mem_append, not_or]
            exact ⟨⟨fun inside => absurd (blankBefore _ inside) (by decide), sound.1⟩,
              fun inside => absurd (blankAfter _ inside) (by decide)⟩
          rw [render_placeholder, splitFrom, splitFrom_name hunclosed, List.append_nil, splitFrom,
            if_pos rfl, ih others (.inl rfl), List.reverse_reverse,
            Text.trimChars_append sound.2 blankBefore blankAfter]
          rfl

/-- Reading finds the segments that were rendered, whatever blanks stand inside the braces. -/
theorem split?_render {segments padded : List Segment} (hcanonical : Canonical segments)
    (hpads : List.Forall₂ Padded segments padded) : split? (render padded) = some segments :=
  splitFrom_render hcanonical hpads (.inl rfl)

theorem canonical_literal?_append {text : List Char} {rest : List Segment} (hplain : Plain text)
    (hcanonical : Canonical rest) (hnoLiteral : ∀ next ∈ rest.head?, next.isLiteral = false) :
    Canonical (literal? text.reverse ++ rest) := by
  rw [literal?_reverse]
  split
  · exact hcanonical
  · rename_i nonempty
    exact canonical_cons_iff.mpr
      ⟨⟨nonempty, hplain⟩, fun next first both => by simp [hnoLiteral next first] at both,
        hcanonical⟩

theorem canonical_placeholder_cons {name : List Char} {rest : List Segment}
    (hunclosed : '}' ∉ name) (hcanonical : Canonical rest) :
    Canonical (.placeholder (Text.trimChars name) :: rest) := by
  refine canonical_cons_iff.mpr ⟨⟨fun inside => hunclosed ?_, Text.trimmed_trimChars name⟩,
    fun next _ both => by simp [isLiteral] at both, hcanonical⟩
  obtain ⟨before, after, whole, -, -⟩ := Text.eq_append_trimChars name
  rw [whole]
  exact List.mem_append_left _ (List.mem_append_right _ inside)

theorem padded_placeholder (name : List Char) :
    Padded (.placeholder (Text.trimChars name)) (.placeholder name) := by
  obtain ⟨before, after, whole, blankBefore, blankAfter⟩ := Text.eq_append_trimChars name
  have hpads := Padded.placeholder (Text.trimChars name) blankBefore blankAfter
  rwa [← whole] at hpads

/-- What is read is canonical, and rendered with some blanks inside the braces it is the text. -/
theorem render_split? {text : List Char} {found : List Segment}
    (hreading : split? text = some found) :
    Canonical found ∧ ∃ padded, List.Forall₂ Padded found padded ∧ render padded = text := by
  induction text using text_induct generalizing found with
  | plain text plain =>
      rw [split?_plain plain] at hreading
      cases hreading
      refine ⟨?_, _, List.forall₂_same.mpr fun segment _ => .refl segment, render_literal? text⟩
      rw [← List.append_nil (literal? _)]
      exact canonical_literal?_append plain ⟨by simp, .nil⟩ (by simp)
  | unended before name plain unclosed =>
      rw [split?_unended plain unclosed] at hreading
      cases hreading
  | placeholder before name later plain unclosed ih =>
      rw [split?_placeholder plain unclosed, Option.map_eq_some_iff] at hreading
      obtain ⟨more, hreading, rfl⟩ := hreading
      obtain ⟨canonical, padded, pads, whole⟩ := ih hreading
      refine ⟨canonical_literal?_append plain (canonical_placeholder_cons unclosed canonical)
          (by simp [isLiteral]), literal? before.reverse ++ .placeholder name :: padded, ?_, ?_⟩
      · exact List.rel_append (List.forall₂_same.mpr fun segment _ => .refl segment)
          (.cons (padded_placeholder name) pads)
      · rw [render_append, render_literal?, render_placeholder, whole]

/-- The first placeholder of a text is taken off with what comes before it. It goes from the first
`${` to the first `}` after that. -/
def TakesOff (text rest : List Char) : Prop :=
  ∃ before name, text = before ++ ('$' :: '{' :: (name ++ '}' :: rest)) ∧ Plain before ∧ '}' ∉ name

/-- What remains of a text once all complete placeholders are taken off, from the left. -/
inductive Remains : List Char → List Char → Prop where
  | last {text : List Char} (complete : ∀ rest, ¬ TakesOff text rest) : Remains text text
  | next {text rest left : List Char} (takes : TakesOff text rest) (remains : Remains rest left) :
      Remains text left

def Unended (text : List Char) : Prop :=
  ∃ before name, text = before ++ ('$' :: '{' :: name) ∧ '}' ∉ name

theorem Plain.not_unended {text : List Char} (hplain : Plain text) : ¬ Unended text := by
  rintro ⟨before, name, rfl, -⟩
  exact hplain ⟨before, name, by simp⟩

theorem Plain.not_takesOff {text : List Char} (hplain : Plain text) (rest : List Char) :
    ¬ TakesOff text rest := by
  rintro ⟨before, name, rfl, -, -⟩
  exact hplain ⟨before, name ++ '}' :: rest, by simp⟩

theorem Plain.not_opens {c : Char} {rest after later : List Char} (hplain : Plain (c :: rest)) :
    c :: rest ++ ('$' :: '{' :: after) ≠ '$' :: '{' :: later := by
  intro same
  rw [plain_cons_iff] at hplain
  rw [List.cons_append, List.cons.injEq] at same
  refine hplain.1 ⟨same.1, ?_⟩
  cases rest with
  | nil => simp at same
  | cons d rest =>
      rw [List.cons_append, List.cons.injEq] at same
      rw [same.2.1]
      rfl

theorem Plain.append_inj {before before' after after' : List Char} (hplain : Plain before)
    (hplain' : Plain before')
    (hsame : before ++ ('$' :: '{' :: after) = before' ++ ('$' :: '{' :: after')) :
    before = before' ∧ after = after' := by
  induction before generalizing before' with
  | nil =>
      cases before' with
      | nil => simpa using hsame
      | cons c rest' => exact absurd hsame.symm hplain'.not_opens
  | cons c rest ih =>
      cases before' with
      | nil => exact absurd hsame hplain.not_opens
      | cons d rest' =>
          rw [List.cons_append, List.cons_append, List.cons.injEq] at hsame
          obtain ⟨rfl, hsame⟩ := hsame
          obtain ⟨rfl, rfl⟩ := ih hplain.tail hplain'.tail hsame
          exact ⟨rfl, rfl⟩

theorem dropWhile_name {name : List Char} (hunclosed : '}' ∉ name) (rest : List Char) :
    (name ++ '}' :: rest).dropWhile (· != '}') = '}' :: rest := by
  rw [List.dropWhile_append_of_pos]
  · rfl
  · exact fun c inside => bne_iff_ne.mpr fun brace => hunclosed (brace ▸ inside)

theorem TakesOff.unique {text rest rest' : List Char} (htakes : TakesOff text rest)
    (htakes' : TakesOff text rest') : rest = rest' := by
  obtain ⟨before, name, rfl, plain, unclosed⟩ := htakes
  obtain ⟨before', name', same, plain', unclosed'⟩ := htakes'
  have hafter := (plain.append_inj plain' same).2
  have hdropped := congrArg (List.dropWhile (· != '}')) hafter
  rw [dropWhile_name unclosed, dropWhile_name unclosed', List.cons.injEq] at hdropped
  exact hdropped.2

theorem Remains.unique {text left left' : List Char} (hremains : Remains text left)
    (hremains' : Remains text left') : left = left' := by
  induction hremains with
  | last complete =>
      cases hremains' with
      | last => rfl
      | next takes _ => exact absurd takes (complete _)
  | next takes _ ih =>
      cases hremains' with
      | last complete => exact absurd takes (complete _)
      | next takes' hremains' =>
          cases takes.unique takes'
          exact ih hremains'

theorem exists_remains (text : List Char) : ∃ left, Remains text left := by
  induction text using text_induct with
  | plain text plain => exact ⟨text, .last plain.not_takesOff⟩
  | unended before name plain unclosed =>
      refine ⟨_, .last ?_⟩
      rintro rest ⟨before', name', same, plain', -⟩
      have hafter := (plain.append_inj plain' same).2
      exact unclosed (by simp [hafter])
  | placeholder before name later plain unclosed ih =>
      obtain ⟨left, remains⟩ := ih
      exact ⟨left, .next ⟨before, name, rfl, plain, unclosed⟩ remains⟩

theorem split?_eq_none_iff {text left : List Char} (hremains : Remains text left) :
    split? text = none ↔ Unended left := by
  induction hremains with
  | next takes _ ih =>
      obtain ⟨before, name, rfl, plain, unclosed⟩ := takes
      rw [split?_placeholder plain unclosed, Option.map_eq_none_iff, ih]
  | @last text complete =>
      induction text using text_induct with
      | plain text plain => simp [split?_plain plain, plain.not_unended]
      | unended before name plain unclosed =>
          exact iff_of_true (split?_unended plain unclosed) ⟨before, name, rfl, unclosed⟩
      | placeholder before name later plain unclosed _ =>
          exact absurd ⟨before, name, rfl, plain, unclosed⟩ (complete later)

end Segment

namespace Placeholder

variable {values : Values} {metric server dn : String}

theorem expand_unterminated (hreading : Segment.split? metric.toList = none) :
    expand values metric server dn = .error (.unterminatedPlaceholder metric) := by
  simp [expand, segments, hreading, bind, Except.bind]

/-- The text of each segment is put in its place, and that is all. -/
theorem expand_filled {found : List Segment} (hreading : Segment.split? metric.toList = some found)
    (hfilled : ∀ segment ∈ found, (segmentText? values server dn segment).isSome = true) :
    expand values metric server dn = .ok (String.ofList
      (found.flatMap fun segment => (segmentText? values server dn segment).getD [])) := by
  rw [expand_eq_ok]
  refine ⟨found, hreading, found.map fun segment => (segmentText? values server dn segment).getD [],
    ?_, ?_⟩
  · rw [List.forall₂_map_right_iff, List.forall₂_same]
    intro segment inside
    obtain ⟨text, there⟩ := Option.isSome_iff_exists.mp (hfilled segment inside)
    rw [there, Option.getD_some]
  · rw [String.toList_ofList, List.flatMap_def]

theorem expand_missing {before after : List Segment} {name : List Char}
    (hreading : Segment.split? metric.toList = some (before ++ .placeholder name :: after))
    (hfilled : ∀ segment ∈ before, (segmentText? values server dn segment).isSome = true)
    (hmissing : segmentText? values server dn (.placeholder name) = none) :
    expand values metric server dn =
      .error (.unresolvedPlaceholder metric (String.ofList name)) := by
  obtain ⟨parts, texts⟩ := exists_forall₂ fun segment inside =>
    Option.isSome_iff_exists.mp (hfilled segment inside)
  have hstart : before.mapM (expandSegment values metric server dn) = .ok parts :=
    Except.mapM_eq_ok.mpr (texts.imp fun _ _ => expandSegment_eq_ok.mpr)
  have hfirst : expandSegment values metric server dn (.placeholder name) =
      .error (.unresolvedPlaceholder metric (String.ofList name)) := by
    rw [segmentText?] at hmissing
    rw [expandSegment]
    split at hmissing
    · cases hmissing
    · rename_i notDatabase
      rw [Option.map_eq_none_iff] at hmissing
      rw [if_neg notDatabase, hmissing]
  rw [expand, segments_eq_ok.mpr hreading, Except.bind_eq_error]
  refine .inr ⟨_, rfl, Except.bind_eq_error.mpr (.inl ?_)⟩
  rw [List.mapM_append, hstart, List.mapM_cons, hfirst]
  rfl

/-- How a name is filled in whose segments are known. -/
structure FillsIn (values : Values) (metric server dn : String) (found : List Segment) : Prop where
  filled : (∀ segment ∈ found, (segmentText? values server dn segment).isSome = true) →
    expand values metric server dn = .ok (String.ofList
      (found.flatMap fun segment => (segmentText? values server dn segment).getD []))
  missing : ∀ before name after, found = before ++ .placeholder name :: after →
    (∀ segment ∈ before, (segmentText? values server dn segment).isSome = true) →
    segmentText? values server dn (.placeholder name) = none →
    expand values metric server dn = .error (.unresolvedPlaceholder metric (String.ofList name))

/-- Reading and rendering names undo each other. The segments of a name are found before any value
is looked at, so what is filled in is not read again, whatever it contains. -/
theorem expand_reads_once :
    (∀ segments, Segment.Canonical segments →
      Segment.split? (Segment.render segments) = some segments) ∧
    (∀ text, (∃! left, Segment.Remains text left) ∧
      ∀ left, Segment.Remains text left →
        (Segment.split? text = none ↔ Segment.Unended left)) ∧
    (∀ text found, Segment.split? text = some found →
      Segment.Canonical found ∧ ∃ padded, List.Forall₂ Segment.Padded found padded ∧
        Segment.render padded = text) ∧
    ∀ metric : String,
      (Segment.split? metric.toList = none → ∀ values server dn,
        expand values metric server dn = .error (.unterminatedPlaceholder metric)) ∧
      ∀ found, Segment.split? metric.toList = some found → ∀ values server dn,
        FillsIn values metric server dn found := by
  refine ⟨fun segments canonical => ?_, fun text => ⟨?_, fun left => Segment.split?_eq_none_iff⟩,
    fun text found => Segment.render_split?, fun metric => ⟨fun reading values server dn =>
      expand_unterminated reading, fun found reading values server dn =>
        ⟨expand_filled reading, ?_⟩⟩⟩
  · exact Segment.split?_render canonical (List.forall₂_same.mpr fun segment _ => .refl segment)
  · obtain ⟨left, remains⟩ := Segment.exists_remains text
    exact ⟨left, remains, fun other others => others.unique remains⟩
  · rintro before name after rfl filled missing
    exact expand_missing reading filled missing

def dollars : List Segment :=
  [.literal "a$".toList, .placeholder "cn".toList, .placeholder database]

theorem dollars_read_once :
    Segment.Canonical dollars ∧ Segment.split? (Segment.render dollars) = some dollars ∧
      expand [(⟨"main", "cn=Monitor", "cn"⟩, "$\x7bdatabase\x7d")]
          "a$$\x7b cn \x7d$\x7bdatabase\x7d" "main" "cn=Monitor" =
        .ok "a$$\x7bdatabase\x7dmain" := by
  have hcanonical : Segment.Canonical dollars := by decide
  have hreading : Segment.split? "a$$\x7b cn \x7d$\x7bdatabase\x7d".toList = some dollars := by
    decide
  refine ⟨hcanonical, expand_reads_once.1 dollars hcanonical, ?_⟩
  exact ((expand_reads_once.2.2.2 _).2 dollars hreading _ _ _).filled (by decide)

end Placeholder

end DirectoryMetrics
