import DirectoryMetrics.Proofs.Tree.Visits
import DirectoryMetrics.Tree.Placeholder

namespace DirectoryMetrics

namespace Segment

theorem splitFrom_of_not_opens {text : List Char} (hplain : Placeholder.opens text = false)
    (reversed : List Char) :
    splitFrom (.literal reversed) text = some (literal? (text.reverse ++ reversed)) := by
  induction text generalizing reversed with
  | nil => rfl
  | cons c rest ih =>
      have hlater : Placeholder.opens rest = false := by
        unfold Placeholder.opens at hplain
        split at hplain
        · cases hplain
        · rename_i eq
          cases eq
          exact hplain
        · rename_i eq
          cases eq
      rw [splitFrom, ih hlater, List.reverse_cons, List.append_assoc, List.singleton_append]
      rintro rest' rfl rfl
      simp [Placeholder.opens] at hplain

theorem split?_of_not_opens {text : List Char} (hplain : Placeholder.opens text = false) :
    split? text = some (literal? text.reverse) := by
  rw [split?, splitFrom_of_not_opens hplain, List.append_nil]

/-- What is read of a text does not depend on what comes later, but for the literal at its end. A
brace would make a placeholder of a dollar sign there. -/
theorem splitFrom_append {inside : Inside} {text : List Char} {found : List Segment}
    (hsplit : splitFrom inside text = some found) :
    ∃ init reversed, found = init ++ literal? reversed ∧
      ∀ later : List Char, later.head? ≠ some '{' →
        splitFrom inside (text ++ later) =
          (splitFrom (.literal reversed) later).map (init ++ ·) := by
  induction inside, text using splitFrom.induct generalizing found with
  | case1 reversed =>
      cases hsplit
      exact ⟨[], reversed, rfl, fun later _ => by simp⟩
  | case2 reversed => cases hsplit
  | case3 reversed rest ih =>
      rw [splitFrom, Option.map_eq_some_iff] at hsplit
      obtain ⟨more, hsplit, rfl⟩ := hsplit
      obtain ⟨init, last, rfl, reads⟩ := ih hsplit
      refine ⟨literal? reversed ++ init, last, by simp, fun later noBrace => ?_⟩
      rw [List.cons_append, List.cons_append, splitFrom, reads later noBrace, Option.map_map]
      simp [Function.comp_def]
  | case4 reversed c rest notOpened ih =>
      rw [splitFrom] at hsplit
      · obtain ⟨init, last, rfl, reads⟩ := ih hsplit
        refine ⟨init, last, rfl, fun later noBrace => ?_⟩
        rw [List.cons_append, splitFrom, reads later noBrace]
        rintro more rfl opened
        cases rest with
        | nil =>
            rw [List.nil_append] at opened
            rw [opened] at noBrace
            exact noBrace rfl
        | cons d rest =>
            rw [List.cons_append, List.cons.injEq] at opened
            exact notOpened rest rfl (by rw [opened.1])
      · exact notOpened
  | case5 reversed rest ih =>
      rw [splitFrom, if_pos rfl, Option.map_eq_some_iff] at hsplit
      obtain ⟨more, hsplit, rfl⟩ := hsplit
      obtain ⟨init, last, rfl, reads⟩ := ih hsplit
      refine ⟨.placeholder (Text.trimChars reversed.reverse) :: init, last, rfl,
        fun later noBrace => ?_⟩
      rw [List.cons_append, splitFrom, if_pos rfl, reads later noBrace, Option.map_map]
      rfl
  | case6 reversed c rest notClosed ih =>
      rw [splitFrom, if_neg notClosed] at hsplit
      obtain ⟨init, last, rfl, reads⟩ := ih hsplit
      refine ⟨init, last, rfl, fun later noBrace => ?_⟩
      rw [List.cons_append, splitFrom, if_neg notClosed, reads later noBrace]

end Segment

namespace Placeholder

/-- What stands for a segment in the names of an object on a server, if there is a value for it. -/
def segmentText? (values : Values) (server dn : String) : Segment → Option (List Char)
  | .literal text => some text
  | .placeholder name =>
      if name = database then some server.toList
      else (values.lookup ⟨server, dn, String.ofList name⟩).map String.toList

def Expands (values : Values) (server dn : String) (segments : List Segment) (text : List Char) :
    Prop :=
  ∃ parts, List.Forall₂ (fun segment part => segmentText? values server dn segment = some part)
    segments parts ∧ parts.flatten = text

variable {values : Values} {metric server dn : String}

theorem expandSegment_eq_ok {segment : Segment} {text : List Char} :
    expandSegment values metric server dn segment = .ok text ↔
      segmentText? values server dn segment = some text := by
  cases segment with
  | literal text => simp [expandSegment, segmentText?]
  | placeholder name =>
      rw [expandSegment, segmentText?]
      split
      · simp
      · cases values.lookup ⟨server, dn, String.ofList name⟩ <;> simp

theorem expandSegment_eq_error {segment : Segment} {error : ConfigError}
    (hfailing : expandSegment values metric server dn segment = .error error) :
    ∃ name, error = .unresolvedPlaceholder metric name := by
  cases segment with
  | literal text => cases hfailing
  | placeholder name =>
      rw [expandSegment] at hfailing
      split at hfailing
      · cases hfailing
      · split at hfailing
        · cases hfailing
        · cases hfailing
          exact ⟨_, rfl⟩

theorem segments_eq_ok {found : List Segment} :
    segments metric = .ok found ↔ Segment.split? metric.toList = some found := by
  rw [segments]
  cases Segment.split? metric.toList <;> simp

theorem expand_eq_ok {name : String} :
    expand values metric server dn = .ok name ↔
      ∃ found, Segment.split? metric.toList = some found ∧
        Expands values server dn found name.toList := by
  simp only [expand, Expands, Except.bind_eq_ok, segments_eq_ok, Except.mapM_eq_ok,
    expandSegment_eq_ok]
  refine exists_congr fun found => and_congr_right fun _ => exists_congr fun parts =>
    and_congr_right fun _ => ?_
  constructor
  · intro returned
    cases returned
    rw [String.toList_ofList]
  · intro eq
    rw [eq, String.ofList_toList]
    rfl

theorem expand_eq_error {found : List Segment} {error : ConfigError}
    (hsplit : Segment.split? metric.toList = some found)
    (hfailing : expand values metric server dn = .error error) :
    ∃ name, error = .unresolvedPlaceholder metric name := by
  simp only [expand, segments_eq_ok.mpr hsplit, Except.bind_eq_error] at hfailing
  obtain failed | ⟨_, _, failed | ⟨_, _, returned⟩⟩ := hfailing
  · cases failed
  · obtain ⟨segment, _, failed⟩ := Except.mapM_eq_error failed
    exact expandSegment_eq_error failed
  · cases returned

theorem expand_isOk_iff {found : List Segment}
    (hsplit : Segment.split? metric.toList = some found) :
    (∃ name, expand values metric server dn = .ok name) ↔
      ∀ segment ∈ found, (segmentText? values server dn segment).isSome = true := by
  simp only [expand_eq_ok, hsplit, Option.some.injEq, exists_eq_left', Expands]
  constructor
  · rintro ⟨name, parts, texts, _⟩
    exact forall_mem_left_of_forall₂ (P := fun segment =>
        (segmentText? values server dn segment).isSome = true)
      (texts.imp fun segment part eq => by rw [eq]; rfl)
  · intro each
    obtain ⟨parts, texts⟩ := exists_forall₂ fun segment member =>
      Option.isSome_iff_exists.mp (each segment member)
    exact ⟨String.ofList parts.flatten, parts, texts, (String.toList_ofList).symm⟩

theorem expand_of_not_opens (hplain : opens metric.toList = false) :
    expand values metric server dn = .ok metric := by
  rw [expand_eq_ok]
  refine ⟨_, Segment.split?_of_not_opens hplain, ?_⟩
  rw [Segment.literal?]
  split
  · rename_i empty
    refine ⟨[], .nil, ?_⟩
    simpa using empty
  · exact ⟨[metric.toList], .cons (by simp [segmentText?]) .nil, by simp⟩

theorem Expands.append {before after : List Segment} {text later : List Char}
    (hfirst : Expands values server dn before text)
    (hsecond : Expands values server dn after later) :
    Expands values server dn (before ++ after) (text ++ later) := by
  obtain ⟨parts, texts, rfl⟩ := hfirst
  obtain ⟨more, others, rfl⟩ := hsecond
  exact ⟨parts ++ more, List.rel_append texts others, List.flatten_append⟩

theorem expands_append {before after : List Segment} {text : List Char}
    (hexpands : Expands values server dn (before ++ after) text) :
    ∃ first second, Expands values server dn before first ∧ Expands values server dn after second ∧
      text = first ++ second := by
  obtain ⟨parts, texts, rfl⟩ := hexpands
  refine ⟨_, _, ⟨parts.take before.length, ?_, rfl⟩, ⟨parts.drop before.length, ?_, rfl⟩, ?_⟩
  · exact (List.forall₂_take_append parts before after texts.flip).flip
  · exact (List.forall₂_drop_append parts before after texts.flip).flip
  · rw [← List.flatten_append, List.take_append_drop]

theorem expands_literal? (reversed : List Char) :
    Expands values server dn (Segment.literal? reversed) reversed.reverse := by
  rw [Segment.literal?]
  split
  · rename_i empty
    exact ⟨[], .nil, by simpa using empty⟩
  · exact ⟨[reversed.reverse], .cons rfl .nil, by simp⟩

theorem Expands.unique {segments : List Segment} {text other : List Char}
    (hfirst : Expands values server dn segments text)
    (hsecond : Expands values server dn segments other) : text = other := by
  obtain ⟨parts, texts, rfl⟩ := hfirst
  obtain ⟨more, others, rfl⟩ := hsecond
  refine congrArg List.flatten (List.forall₂_eq_eq_eq ▸ forall₂_comp ?_ texts.flip others)
  intro part segment other eq eq'
  exact Option.some.inj (eq.symm.trans eq')

theorem expands_splitFrom {reversed text : List Char} {found : List Segment}
    (hsplit : Segment.splitFrom (.literal reversed) text = some found) {expansion : List Char}
    (hexpands : Expands values server dn found expansion) :
    ∃ later, expansion = reversed.reverse ++ later := by
  induction text generalizing reversed with
  | nil =>
      cases hsplit
      exact ⟨[], by rw [List.append_nil, hexpands.unique (expands_literal? reversed)]⟩
  | cons c rest ih =>
      by_cases opened : ∃ more, c = '$' ∧ rest = '{' :: more
      · obtain ⟨more, rfl, rfl⟩ := opened
        rw [Segment.splitFrom, Option.map_eq_some_iff] at hsplit
        obtain ⟨after, _, rfl⟩ := hsplit
        obtain ⟨first, second, expandsFirst, _, rfl⟩ := expands_append hexpands
        exact ⟨second, by rw [expandsFirst.unique (expands_literal? reversed)]⟩
      · rw [Segment.splitFrom] at hsplit
        · obtain ⟨later, rfl⟩ := ih hsplit
          exact ⟨c :: later, by simp⟩
        · exact fun more same same' => opened ⟨more, same, same'⟩

/-- A name that goes on after a slash expands to what it expands to up to there, a slash and
something more. -/
theorem expand_append {above rest name : String} {found : List Segment}
    (hsplit : Segment.split? above.toList = some found)
    (hexpanding : expand values (above ++ "/" ++ rest) server dn = .ok name) :
    ∃ text later, expand values above server dn = .ok text ∧ name = text ++ "/" ++ later := by
  obtain ⟨init, reversed, rfl, reads⟩ := Segment.splitFrom_append hsplit
  obtain ⟨all, splitAll, expands⟩ := expand_eq_ok.mp hexpanding
  have hwhole : (above ++ "/" ++ rest).toList = above.toList ++ '/' :: rest.toList := by simp
  rw [hwhole, Segment.split?, reads _ (by simp), Option.map_eq_some_iff] at splitAll
  obtain ⟨last, splitLast, rfl⟩ := splitAll
  obtain ⟨first, second, expandsFirst, expandsLast, eq⟩ := expands_append expands
  rw [Segment.splitFrom] at splitLast
  · obtain ⟨later, rfl⟩ := expands_splitFrom splitLast expandsLast
    refine ⟨String.ofList (first ++ reversed.reverse), String.ofList later, ?_, ?_⟩
    · rw [expand_eq_ok]
      refine ⟨_, hsplit, ?_⟩
      rw [String.toList_ofList]
      exact expandsFirst.append (expands_literal? reversed)
    · rw [← String.toList_inj, eq]
      simp
  · rintro more same _
    cases same

/-- The placeholders of a name stand for the same values on two objects. -/
def AsksAlike (values : Values) (server metric dn dn' : String) : Prop :=
  ∀ found, Segment.split? metric.toList = some found → ∀ name, .placeholder name ∈ found →
    name ≠ database →
    values.lookup ⟨server, dn, String.ofList name⟩ = values.lookup ⟨server, dn', String.ofList name⟩

theorem expand_of_asksAlike {dn' name : String} (halike : AsksAlike values server metric dn dn')
    (hexpanding : expand values metric server dn = .ok name) :
    expand values metric server dn' = .ok name := by
  obtain ⟨found, split, parts, texts, eq⟩ := expand_eq_ok.mp hexpanding
  refine expand_eq_ok.mpr ⟨found, split, parts, ?_, eq⟩
  have same : ∀ segment ∈ found,
      segmentText? values server dn segment = segmentText? values server dn' segment := by
    intro segment inside
    cases segment with
    | literal text => rfl
    | placeholder name =>
        rw [segmentText?, segmentText?]
        split
        · rfl
        · rename_i notDatabase
          rw [halike found split name inside notDatabase]
  exact ((List.forall₂_and_left _ _).mpr ⟨same, texts⟩).imp
    fun segment part ⟨same, text⟩ => same ▸ text

theorem visit_cases (values : Values) (server : String) (place : Place) (m : Mapping) :
    (m.text? Field.metricName = none ∧ visit values server place () m = .ok (m, ())) ∨
      ∃ metric, m.text? Field.metricName = some metric ∧
        visit values server place () m =
          (expand values metric server (computedDn m)).map fun name =>
            (if opens metric.toList then m.set Field.metricName (.text name) else m, ()) := by
  rw [visit]
  cases m.text? Field.metricName with
  | none => exact .inl ⟨rfl, rfl⟩
  | some metric =>
      refine .inr ⟨metric, rfl, ?_⟩
      cases opened : opens metric.toList with
      | true =>
          simp only [Option.filter_some, opened, if_true]
          cases expand values metric server (computedDn m) <;> rfl
      | false =>
          simp only [Option.filter_some, opened, Bool.false_eq_true, if_false,
            expand_of_not_opens opened]
          rfl

theorem visit_separate (values : Values) (server : String) :
    (visit values server).Separate where
  anywhere _ _ := rfl
  below m visited visiting := by
    rcases visit_cases values server .root m with
      ⟨_, eq⟩ | ⟨metric, named, eq⟩
    · rw [eq] at visiting
      cases visiting
      rfl
    · rw [eq, Except.map_eq_ok] at visiting
      obtain ⟨name, _, eq⟩ := visiting
      cases eq
      split
      · obtain ⟨held, found, isText⟩ := Option.bind_eq_some_iff.mp named
        exact Mapping.entriesMappings_set found (Node.mappings_of_text? isText) rfl
      · rfl
  shallow := by
    intro place _ m visited own visiting
    rcases visit_cases values server place m with
      ⟨_, eq⟩ | ⟨metric, named, eq⟩
    · rw [eq] at visiting
      cases visiting
      exact Nat.le_refl _
    · rw [eq, Except.map_eq_ok] at visiting
      obtain ⟨name, _, eq⟩ := visiting
      cases eq
      split
      · rw [Node.entriesHeight_le_iff]
        exact Mapping.forall_mem_set (Node.entriesHeight_le_iff.mp (Nat.le_refl _))
          (Nat.zero_le _)
      · exact Nat.le_refl _

theorem visit_isOk_iff {m : Mapping} :
    (∃ result, visit values server .root () m = .ok result) ↔
      ∀ metric, m.text? Field.metricName = some metric →
        ∃ name, expand values metric server (computedDn m) = .ok name := by
  rcases visit_cases values server .root m with
    ⟨absent, eq⟩ | ⟨metric, named, eq⟩
  · simp [absent, eq]
  · simp only [eq, named, Except.map_eq_ok, Option.some.injEq, forall_eq']
    constructor
    · rintro ⟨_, name, expanding, _⟩
      exact ⟨name, expanding⟩
    · rintro ⟨name, expanding⟩
      exact ⟨_, name, expanding, rfl⟩

theorem visit_eq_error {m : Mapping} {error : ConfigError}
    (hfailing : visit values server .root () m = .error error) :
    ∃ metric, m.text? Field.metricName = some metric ∧
      expand values metric server (computedDn m) = .error error := by
  rcases visit_cases values server .root m with
    ⟨_, eq⟩ | ⟨metric, named, eq⟩
  · rw [eq] at hfailing
    cases hfailing
  · rw [eq] at hfailing
    refine ⟨metric, named, ?_⟩
    cases expanding : expand values metric server (computedDn m) with
    | error e =>
        rw [expanding] at hfailing
        cases hfailing
        rfl
    | ok name =>
        rw [expanding] at hfailing
        cases hfailing

end Placeholder

end DirectoryMetrics
