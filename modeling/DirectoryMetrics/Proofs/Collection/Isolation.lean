import DirectoryMetrics.Collection.Collecting
import DirectoryMetrics.Proofs.Collection.Delivery

namespace DirectoryMetrics

/-! Faults of single statistics. A collection asks everything that it has to ask, whatever is
answered, and what one answer is changes nothing for the statistics bound to other attributes. -/

namespace Statistic

inductive Measures (s : Statistic) : Option (List AttributeValue) → Measurement Float → Prop where
  | first {value : AttributeValue} {rest : List AttributeValue} {text : String} {x : Float}
      (valid : value.text? = some text)
      (number : Decimal.read? (Text.trimChars text.toList) = some x) :
      Measures s (some (value :: rest)) ⟨s.metricName, x⟩

theorem measurement?_eq_some {s : Statistic} {directory : Directory} {m : Measurement Float} :
    s.measurement? directory = some m ↔ s.Measures (directory s.dn s.attributeName) m := by
  rw [measurement?_eq, value?]
  constructor
  · intro measured
    obtain ⟨x, found, rfl⟩ := Option.map_eq_some_iff.mp measured
    obtain ⟨value, first, number⟩ := Option.bind_eq_some_iff.mp found
    obtain ⟨values, answer, head⟩ := Option.bind_eq_some_iff.mp first
    obtain ⟨rest, rfl⟩ := List.head?_eq_some_iff.mp head
    obtain ⟨text, valid, number⟩ := Option.bind_eq_some_iff.mp number
    rw [answer]
    exact .first valid number
  · intro measures
    generalize directory s.dn s.attributeName = answer at measures
    cases measures with
    | first valid number =>
        rw [Option.bind_some, List.head?_cons, Option.bind_some, numberOf?, valid,
          Option.bind_some, number]
        rfl

theorem measurement?_congr {s : Statistic} {directory other : Directory}
    (hsame : directory s.dn s.attributeName = other s.dn s.attributeName) :
    s.measurement? directory = s.measurement? other := by
  rw [measurement?_eq, measurement?_eq, value?, value?, hsame]

def faults (directory : Directory) (database : String) (s : Statistic) : List Effect :=
  match s.collect directory with
  | .ok (some _) => []
  | .ok none => [.missed s.metricName s.dn s.attributeName]
  | .error e => [.refused database e]

def effects (directory : Directory) (database : String) (s : Statistic) : List Effect :=
  .asked ⟨database, s.dn, s.attributeName⟩ :: s.faults directory database

theorem filterMap_lookup?_effects (directory : Directory) (database : String) (s : Statistic) :
    (s.effects directory database).filterMap Effect.lookup? =
      [⟨database, s.dn, s.attributeName⟩] := by
  rw [effects, faults]
  split <;> rfl

theorem filterMap_commit?_effects (directory : Directory) (database : String) (s : Statistic) :
    (s.effects directory database).filterMap Effect.commit? = [] := by
  rw [effects, faults]
  split <;> rfl

end Statistic

namespace Collecting

def after (client : Client) (database : String) (c : Collecting) (s : Statistic) : Collecting where
  moment := c.moment + 1
  effects := c.effects ++ s.effects (client c.moment) database
  staged := c.staged ++ (s.measurement? (client c.moment)).toList

def answered (database : String) (c : Collecting) (s : Statistic) : Collecting :=
  { c with
    moment := c.moment + 1
    effects := c.effects ++ [.asked ⟨database, s.dn, s.attributeName⟩] }

theorem run_ask (client : Client) (database : String) (s : Statistic) (c : Collecting) :
    (liftM (ask client ⟨database, s.dn, s.attributeName⟩) :
        ExceptT NotNumeric (StateM Collecting) _).run.run c =
      (.ok (client c.moment s.dn s.attributeName), c.answered database s) :=
  rfl

theorem run_note (effect : Effect) (c : Collecting) :
    (liftM (note effect) : ExceptT NotNumeric (StateM Collecting) Unit).run.run c =
      (.ok (), { c with effects := c.effects ++ [effect] }) :=
  rfl

theorem run_stage (m : Measurement Float) (c : Collecting) :
    (liftM (stage m) : ExceptT NotNumeric (StateM Collecting) Unit).run.run c =
      (.ok (), { c with staged := c.staged ++ [m] }) :=
  rfl

theorem stage_run (client : Client) (database : String) (s : Statistic) (c : Collecting) :
    (s.stage client database).run.run c =
      match s.collect (client c.moment) with
      | .ok _ => (.ok (), c.after client database s)
      | .error e => (.error e, c.answered database s) := by
  rw [Statistic.stage, run_bind, run_ask, after, Statistic.effects, Statistic.faults,
    Statistic.measurement?, Statistic.collect]
  cases first : (client c.moment s.dn s.attributeName).bind List.head? with
  | none =>
      simp only [first, run_note]
      simp [answered]
  | some value =>
      cases number : Statistic.numberOf? value with
      | none =>
          simp only [first, number]
          rfl
      | some x =>
          simp only [first, number, run_stage]
          simp [answered]

theorem attempt_run (client : Client) (database : String) (s : Statistic) (c : Collecting) :
    (s.attempt client database).run c = ((), c.after client database s) := by
  rw [Statistic.attempt, StateT.run_bind, stage_run]
  cases collected : s.collect (client c.moment) with
  | ok found => rfl
  | error e =>
      change ((), { c.answered database s with
        effects := (c.answered database s).effects ++ [Effect.refused database e] }) = _
      simp [answered, after, Statistic.effects, Statistic.faults, Statistic.measurement?, collected]

theorem forM_attempt_run (client : Client) (database : String) (statistics : List Statistic)
    (c : Collecting) :
    (statistics.forM (Statistic.attempt client database)).run c =
      ((), statistics.foldl (after client database) c) := by
  induction statistics generalizing c with
  | nil => rfl
  | cons s rest ih =>
      rw [List.forM_eq_forM, List.forM_cons, StateT.run_bind, attempt_run]
      exact ih _

theorem staged_foldl_after (client : Client) (database : String) (statistics : List Statistic)
    (c : Collecting) :
    (statistics.foldl (after client database) c).staged =
      c.staged ++ (statistics.zipIdx c.moment).filterMap
        fun (s, moment) => s.measurement? (client moment) := by
  induction statistics generalizing c with
  | nil => simp
  | cons s rest ih =>
      rw [List.foldl_cons, ih, List.zipIdx_cons]
      cases measured : s.measurement? (client c.moment) with
      | none => simp [after, measured]
      | some m => simp [after, measured]

theorem effects_foldl_after (client : Client) (database : String) (statistics : List Statistic)
    (c : Collecting) :
    (statistics.foldl (after client database) c).effects =
      c.effects ++ (statistics.zipIdx c.moment).flatMap
        fun (s, moment) => s.effects (client moment) database := by
  induction statistics generalizing c with
  | nil => simp
  | cons s rest ih =>
      rw [List.foldl_cons, ih, List.zipIdx_cons, List.flatMap_cons, after, List.append_assoc]

end Collecting

namespace MetricSet

def found (client : Client) (set : MetricSet) : List (Option (Measurement Float)) :=
  set.statistics.zipIdx.map fun (s, moment) => s.measurement? (client moment)

theorem reduceOption_found (client : Client) (set : MetricSet) :
    (set.found client).reduceOption =
      set.statistics.zipIdx.filterMap fun (s, moment) => s.measurement? (client moment) := by
  change (set.found client).filterMap id = _
  rw [found, List.filterMap_map]
  rfl

theorem getElem?_found (client : Client) {set : MetricSet} {moment : Nat} {s : Statistic}
    (hthere : set.statistics[moment]? = some s) :
    (set.found client)[moment]? = some (s.measurement? (client moment)) := by
  rw [found, List.getElem?_map, List.getElem?_zipIdx, hthere]
  simp

theorem reduceOption_found_fixed (connections : Connections) (set : MetricSet) :
    (set.found fun _ => connections set.handle).reduceOption = set.batch connections := by
  rw [reduceOption_found, batch]
  conv_rhs => rw [← List.zipIdx_map_fst 0 set.statistics, List.filterMap_map]
  rfl

/-- What a collection shows, from its first question to its commit. -/
def shown (client : Client) (set : MetricSet) : List Effect :=
  (set.statistics.zipIdx.flatMap fun (s, moment) =>
    s.effects (client moment) set.identity.database) ++
      [.committed (set.found client).reduceOption set.tags]

theorem lookups_shown (client : Client) (set : MetricSet) :
    (set.shown client).filterMap Effect.lookup? = set.queries := by
  simp only [shown, List.filterMap_append, List.filterMap_flatMap,
    Statistic.filterMap_lookup?_effects, ← List.map_eq_flatMap]
  rw [queries, ← List.zipIdx_map_fst 0 set.statistics, List.map_map, List.zipIdx_map_fst]
  exact List.append_nil _

theorem commits_shown (client : Client) (set : MetricSet) :
    (set.shown client).filterMap Effect.commit? =
      [((set.found client).reduceOption, set.tags)] := by
  rw [shown, List.filterMap_append, List.filterMap_flatMap,
    List.flatMap_eq_nil_iff.mpr fun _ _ => Statistic.filterMap_commit?_effects _ _ _]
  rfl

theorem collecting_run (clients : (handle : Nat) → Client) (set : MetricSet) :
    ∃ done, (set.collecting clients).run .start =
        ((set.found (clients set.handle)).reduceOption.length, done) ∧
      done.effects = set.shown (clients set.handle) := by
  let client := clients set.handle
  let last := set.statistics.foldl (Collecting.after client set.identity.database) .start
  have hstaged : last.staged = (set.found client).reduceOption := by
    rw [Collecting.staged_foldl_after, reduceOption_found]
    rfl
  rw [shown, ← hstaged]
  refine ⟨{ last with effects := last.effects ++ [.committed last.staged set.tags] }, ?_, ?_⟩
  · rw [collecting, StateT.run_bind, Collecting.forM_attempt_run]
    rfl
  · exact congrArg (· ++ _) (Collecting.effects_foldl_after client _ _ .start)

/-- The batch of a tick is what is committed against directories that do not change. -/
theorem collecting_fixed (connections : Connections) (set : MetricSet) :
    ∃ done, (set.collecting fun handle _ => connections handle).run .start =
        ((set.batch connections).length, done) ∧
      done.effects.filterMap Effect.commit? = [(set.batch connections, set.tags)] := by
  obtain ⟨done, running, effects⟩ := collecting_run (fun handle _ => connections handle) set
  rw [reduceOption_found_fixed] at running
  refine ⟨done, running, ?_⟩
  rw [effects, commits_shown, reduceOption_found_fixed]

/-- What a collection does: it asks every question, commits once at its end, and tells how many
measurements it has committed. -/
structure Isolates (client : Client) (set : MetricSet) (recorded : Nat) (effects : List Effect) :
    Prop where
  length : (set.found client).length = set.statistics.length
  measured : ∀ (moment : Nat) (s : Statistic), set.statistics[moment]? = some s → ∀ m,
    (set.found client)[moment]? = some (some m) ↔
      s.Measures (client moment s.dn s.attributeName) m
  asked : effects.filterMap Effect.lookup? = set.queries
  committed : effects.filterMap Effect.commit? = [((set.found client).reduceOption, set.tags)]
  last : effects.getLast? = some (.committed (set.found client).reduceOption set.tags)
  tagged : set.tags.pairs = [("database", set.identity.database)]
  recorded : recorded = (set.found client).reduceOption.length

theorem collecting_isolates (clients : (handle : Nat) → Client) (set : MetricSet) :
    (∃ recorded done, (set.collecting clients).run .start = (recorded, done) ∧
        set.Isolates (clients set.handle) recorded done.effects) ∧
      ∀ (other : Client) (dn attributeName : String),
        (∀ moment dn' attributeName', (dn', attributeName') ≠ (dn, attributeName) →
          clients set.handle moment dn' attributeName' = other moment dn' attributeName') →
        ∀ (moment : Nat) (s : Statistic), set.statistics[moment]? = some s →
          (s.dn, s.attributeName) ≠ (dn, attributeName) →
            (set.found (clients set.handle))[moment]? = (set.found other)[moment]? := by
  constructor
  · obtain ⟨done, running, effects⟩ := collecting_run clients set
    refine ⟨_, done, running, ?_⟩
    rw [effects]
    constructor
    case length => rw [found, List.length_map, List.length_zipIdx]
    case measured =>
      intro moment s there m
      rw [getElem?_found _ there, Option.some_inj, Statistic.measurement?_eq_some]
    case asked => exact lookups_shown _ set
    case committed => exact commits_shown _ set
    case last => exact List.getLast?_concat
    case tagged => rfl
    case recorded => rfl
  · intro other dn attributeName agree moment s there elsewhere
    rw [getElem?_found _ there, getElem?_found other there,
      Statistic.measurement?_congr (agree moment _ _ elsewhere)]

def faulty (answer : Option (List AttributeValue)) : Directory := fun dn attributeName =>
  if (dn, attributeName) = ("cn=Monitor", "told") then answer
  else [("first", [.text " 1 ", .text "x"]), ("empty", []), ("bytes", [.binary [255, 254]]),
    ("word", [.text "OpenLDAP"]), ("last", [.binary [49, 50, 46, 53, 10]])].lookup attributeName

def asking : MetricSet where
  identity := ⟨"a", ⟨"ldap://a", none, none, false, none⟩⟩
  handle := 0
  statistics := ["first", "missing", "empty", "told", "bytes", "word", "last"].map
    fun name => ⟨"cn=Monitor", name, name, "1", "", .sum⟩

theorem faulty_isolated :
    (asking.found fun _ => faulty (some [.text "4"])).map Option.isSome =
        [true, false, false, true, false, false, true] ∧
      (asking.found fun _ => faulty none).map Option.isSome =
        [true, false, false, false, false, false, true] ∧
      (asking.found fun _ => faulty (some [.text "4"]))[6]? =
        (asking.found fun _ => faulty none)[6]? := by
  refine ⟨by decide +kernel, by decide +kernel, ?_⟩
  refine (collecting_isolates (fun _ _ => faulty (some [.text "4"])) asking).2
    (fun _ => faulty none)
    "cn=Monitor" "told" ?_ 6 ⟨"cn=Monitor", "last", "last", "1", "", .sum⟩ rfl (by decide)
  intro moment dn' attributeName' elsewhere
  rw [faulty, faulty, if_neg elsewhere, if_neg elsewhere]

end MetricSet

end DirectoryMetrics
