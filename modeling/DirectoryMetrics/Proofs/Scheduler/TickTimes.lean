import DirectoryMetrics.Proofs.Scheduler.Updates
import Mathlib.Data.List.Chain
import Mathlib.Order.Bounds.Basic

namespace DirectoryMetrics

/-! When ticks begin. A sleep ends with the period of the plan that was sent last, counted from the
start of the tick before it, however long that took. -/

namespace Scheduler

open Round

/-- The period of the plan that was sent last until a time. -/
def periodAt (plan : Plan) (events : List (Nat × Event)) (time : Nat) : Nat :=
  ((((sent events).filter fun one => one.1 ≤ time).getLast?.map Prod.snd).getD plan).period

variable {plan : Plan} {events : List (Nat × Event)} {s : Scheduler} {time : Nat}

theorem periodAt_of_append {served waiting applied : List (Nat × Plan)}
    (hsplit : sent events = served ++ waiting) (hbefore : ∀ one ∈ served, one.1 ≤ time)
    (hafter : ∀ one ∈ waiting, time < one.1) (hsame : List.Forall₂ Applies served applied) :
    periodAt plan events time = ((applied.getLast?.map Prod.snd).getD plan).period := by
  have hkept : (sent events).filter (fun one => one.1 ≤ time) = served := by
    rw [hsplit, List.filter_append, List.filter_eq_self.mpr (by simpa using hbefore),
      List.filter_eq_nil_iff.mpr (by simpa using hafter), List.append_nil]
  have hplans : applied.map Prod.snd = served.map Prod.snd :=
    Plan.map_eq_of_forall₂ (fun _ _ applies => applies.1) hsame
  rw [periodAt, hkept, ← List.getLast?_map, ← List.getLast?_map, hplans]

theorem Run.periodAt_event (hrun : Run plan events s) (event : Event) (hearly : time < s.clock) :
    periodAt plan (events ++ [(s.clock, event)]) time = periodAt plan events time := by
  rcases hrun.sends event with ⟨same, _⟩ | ⟨next, more, _⟩
  · rw [periodAt, same, periodAt]
  · have hnone : [(s.clock, next)].filter (fun one => one.1 ≤ time) = [] := by simpa using hearly
    rw [periodAt, more, List.filter_append, hnone, List.append_nil, periodAt]

theorem periodAt_of_sent {one : Nat × Plan} (hmember : one ∈ sent events)
    (hapart : (sent events).Pairwise fun a b => a.1 < b.1) (hlater : one.1 ≤ time)
    (hlast : ∀ other ∈ sent events, other.1 ≤ one.1 ∨ time < other.1) :
    periodAt plan events time = one.2.period := by
  obtain ⟨before, after, split⟩ := List.append_of_mem hmember
  rw [split, List.pairwise_append, List.pairwise_cons] at hapart
  have hsame : List.Forall₂ Applies (before ++ [one]) (before ++ [one]) :=
    List.forall₂_same.mpr fun _ _ => ⟨rfl, le_rfl⟩
  have hfirst : sent events = (before ++ [one]) ++ after := by simp [split]
  rw [periodAt_of_append hfirst ?_ ?_ hsame, List.getLast?_concat]
  · rfl
  · rw [List.forall_mem_append]
    refine ⟨fun other inBefore => ?_, by simpa using hlater⟩
    exact (hapart.2.2 other inBefore one List.mem_cons_self).le.trans hlater
  · intro other inAfter
    have hinSent : other ∈ sent events :=
      split ▸ List.mem_append_right _ (List.mem_cons_of_mem _ inAfter)
    exact (hlast other hinSent).resolve_left (hapart.2.1.1 other inAfter).not_ge

theorem Run.periodAt_eq (hrun : Run plan events s) (hrunning : s.phase ≠ .stopped)
    (hempty : s.inbox = []) (hlater : s.clock ≤ time) :
    periodAt plan events time = s.plan.period := by
  have hnone : (sent events).drop s.applied.length = [] := by
    rw [← List.map_eq_nil_iff, hrun.inOrder.2 hrunning, hempty]
  have hinTime : ∀ one ∈ (sent events).take s.applied.length, one.1 ≤ time := fun one member =>
    (hrun.events_le _ (mem_sent (List.mem_of_mem_take member))).trans hlater
  rw [periodAt_of_append (List.take_append_drop _ _).symm hinTime (by simp [hnone]) hrun.inOrder.1,
    hrun.applied_eq, hrun.stage.inForce]
  rfl

theorem Run.not_due (hrun : Run plan events s) :
    s.phase = .sleeping → ∀ r earlier, s.rounds plan = r :: earlier → ∀ finish ∈ r.finish,
      ∀ time, finish ≤ time → time < s.clock → time < r.start + periodAt plan events time := by
  refine hrun.each_sleep (P := fun events start finish s => ∀ time, finish ≤ time → time < s.clock →
    time < start + periodAt plan events time) ?ended ?take ?ignore ?wait ?event
  case ended => exact fun _ _ _ later early => absurd early later.not_gt
  case take => exact fun _ _ ih => ih
  case ignore => exact fun _ ih => ih
  case wait =>
    intro events s finish waited before sleeping may ih time later early
    rcases lt_or_ge time s.clock with old | new
    · exact ih time later old
    · rw [before.periodAt_eq (by simp [sleeping]) (before.inbox_eq_nil sleeping may) new]
      rw [MayWait, sleeping] at may
      exact early.trans_le may.2
  case event =>
    intro events s start finish event before ih time later early
    rw [handle_clock] at early
    rw [before.periodAt_event event early]
    exact ih time later early

theorem Run.not_due_between (hrun : Run plan events s) :
    ∀ later r earlier, s.rounds plan = later ++ r :: earlier → ∀ r' rest, earlier = r' :: rest →
      ∀ finish ∈ r'.finish, ∀ time, finish ≤ time → time < r.start →
        time < r'.start + periodAt plan events time := by
  refine hrun.each_round (Q := fun events earlier _ start => ∀ r' rest, earlier = r' :: rest →
    ∀ finish ∈ r'.finish, ∀ time, finish ≤ time → time < start →
      time < r'.start + periodAt plan events time) ?tick ?event
  case tick =>
    intro events s before ready
    rcases ready with idle | ⟨sleeping, _⟩
    · simp [before.stage.idle idle]
    · exact before.not_due sleeping
  case event =>
    intro events s event before later r earlier split old r' rest same finish ended time after early
    have hinRounds : r ∈ s.rounds plan := split ▸ List.mem_append_right later List.mem_cons_self
    rw [before.periodAt_event event (early.trans_le (before.start_le r hinRounds))]
    exact old r' rest same finish ended time after early

theorem periodAt_cases (plan : Plan) {early mid rest applied taken : List (Nat × Plan)}
    (hsplit : sent events = early ++ (mid ++ rest)) (hbefore : ∀ one ∈ early, one.1 ≤ time)
    (hafter : ∀ one ∈ rest, time < one.1) (hsame : List.Forall₂ Applies early applied)
    (hsameTaken : List.Forall₂ Applies mid taken) :
    periodAt plan events time = ((applied.getLast?.map Prod.snd).getD plan).period ∨
      periodAt plan events time ∈ taken.map fun (_, plan) => plan.period := by
  have hkept : (sent events).filter (fun one => one.1 ≤ time) =
      early ++ mid.filter fun one => one.1 ≤ time := by
    have hlate : rest.filter (fun one => one.1 ≤ time) = [] :=
      List.filter_eq_nil_iff.mpr (by simpa using hafter)
    rw [hsplit, List.filter_append, List.filter_append, hlate, List.append_nil,
      List.filter_eq_self.mpr (by simpa using hbefore)]
  rcases (mid.filter fun one => one.1 ≤ time).eq_nil_or_concat' with none | ⟨others, last, some⟩
  · refine .inl (periodAt_of_append hsplit hbefore (List.forall_mem_append.mpr ⟨?_, hafter⟩) hsame)
    simpa using none
  · have hinMid : last ∈ mid :=
      List.mem_of_mem_filter (some ▸ List.mem_append_right _ List.mem_cons_self)
    have hplans : taken.map (·.2.period) = mid.map (·.2.period) :=
      Plan.map_eq_of_forall₂ (fun _ _ applies => congrArg Plan.period applies.1) hsameTaken
    right
    rw [periodAt, hkept, some, ← List.append_assoc, List.getLast?_concat]
    exact hplans ▸ List.mem_map_of_mem (f := fun one => one.2.period) hinMid

section

variable {later earlier : List Round} {r next : Round}

/-- Between two ticks, the period of the plan that was sent last is in force in time. -/
theorem Run.periodAt_mem (hrun : Run plan events s)
    (hsplit : s.rounds plan = later ++ next :: r :: earlier) (hshort : r.Short)
    (hafter : r.start ≤ time) (hearly : time < next.start) :
    periodAt plan events time ∈ r.periods := by
  have hsplitBefore : s.rounds plan = (later ++ [next]) ++ r :: earlier := by simp [hsplit]
  have hfound := hrun.begun _ r earlier hsplitBefore
  have hwaiting := hrun.waiting_between hsplit hshort
  have horder := (hrun.begun later next (r :: earlier) hsplit).applied
  rw [takenIn, List.length_append] at hwaiting horder
  rw [List.take_add] at horder
  have htaken := List.forall₂_drop_append _ _ _ horder
  rw [List.drop_left' hfound.applied.length_eq] at htaken
  have hsentSplit := (List.take_append_drop (takenIn earlier).length (sent events)).symm
  rw [← List.take_append_drop r.taken.length ((sent events).drop _), List.drop_drop] at hsentSplit
  rcases periodAt_cases plan hsentSplit (fun one member => (hfound.inTime one member).trans hafter)
    (fun one member => hearly.trans_le (hwaiting one member)) hfound.applied htaken with old | new
  · rw [old, ← planAfter, ← hrun.plan_eq _ r earlier hsplitBefore]
    exact List.mem_cons_self
  · exact List.mem_cons_of_mem _ new

theorem Run.periodAt_of_taken (hrun : Run plan events s)
    (hsplit : s.rounds plan = later ++ next :: earlier)
    (hbefore : ∀ one ∈ (sent events).take (takenIn earlier).length, one.1 ≤ time)
    (hafter : ∀ one ∈ (sent events).drop (takenIn earlier).length, time < one.1) :
    periodAt plan events time = next.plan.period := by
  rw [periodAt_of_append (List.take_append_drop _ _).symm hbefore hafter
    (hrun.begun later next earlier hsplit).applied, hrun.plan_eq later next earlier hsplit]
  rfl

/-- A run in which every tick is shorter than all periods in force until the next one, no two plans
are sent at once, and none when a sleep ends by itself. -/
structure Timely (plan : Plan) (events : List (Nat × Event)) (s : Scheduler) : Prop where
  run : Run plan events s
  short : ∀ r ∈ s.rounds plan, r.Short
  apart : (sent events).Pairwise fun a b => a.1 < b.1
  undisturbed : (s.rounds plan).IsChain fun next r => r.start + next.plan.period = next.start →
    ∀ one ∈ sent events, one.1 ≠ next.start

theorem Timely.short_of_split (htimely : Timely plan events s)
    (hsplit : s.rounds plan = later ++ next :: r :: earlier) : r.Short :=
  htimely.short r (by simp [hsplit])

theorem Timely.lt_of_waiting (htimely : Timely plan events s)
    (hsplit : s.rounds plan = later ++ next :: r :: earlier) :
    ∀ one ∈ (sent events).drop (takenIn (r :: earlier)).length, next.start < one.1 := by
  intro one member
  have hshort := htimely.short_of_split hsplit
  obtain ⟨ended, less⟩ := htimely.run.ended_before hsplit hshort
  have hwaiting := htimely.run.waiting_between hsplit hshort
  refine (hwaiting one member).lt_of_ne fun now => ?_
  have hnotTimer : r.start + next.plan.period ≠ next.start := fun timer => by
    have hapart := htimely.undisturbed
    rw [hsplit, List.isChain_append_cons_cons] at hapart
    exact hapart.2.1 timer one (List.mem_of_mem_drop member) now.symm
  have hbefore : ∀ other ∈ (sent events).take (takenIn (r :: earlier)).length,
      other.1 ≤ next.start - 1 := by
    have hapart := htimely.apart
    rw [← List.take_append_drop (takenIn (r :: earlier)).length (sent events),
      List.pairwise_append] at hapart
    exact fun other taken => Nat.le_sub_one_of_lt (now ▸ hapart.2.2 other taken one member)
  have hinForce : periodAt plan events (next.start - 1) = next.plan.period := by
    refine htimely.run.periodAt_of_taken hsplit hbefore fun other left => ?_
    have := hwaiting other left
    omega
  have hnotDue := htimely.run.not_due_between later next _ hsplit r earlier rfl _ ended
    (next.start - 1) (by omega) (by omega)
  have hdue := (htimely.run.begun later next (r :: earlier) hsplit).due r earlier rfl
  omega

theorem Timely.periodAt_start (htimely : Timely plan events s)
    (hsplit : s.rounds plan = later ++ next :: r :: earlier) :
    periodAt plan events next.start = next.plan.period :=
  htimely.run.periodAt_of_taken hsplit (htimely.run.begun later next (r :: earlier) hsplit).inTime
    (htimely.lt_of_waiting hsplit)

theorem Timely.isLeast (htimely : Timely plan events s)
    (hsplit : s.rounds plan = later ++ next :: r :: earlier) :
    IsLeast {time | r.start ≤ time ∧ r.start + periodAt plan events time ≤ time} next.start := by
  have hshort := htimely.short_of_split hsplit
  obtain ⟨ended, _⟩ := htimely.run.ended_before hsplit hshort
  have hdue := (htimely.run.begun later next (r :: earlier) hsplit).due r earlier rfl
  refine ⟨⟨by omega, (htimely.periodAt_start hsplit).symm ▸ hdue⟩, fun time ⟨after, dueThen⟩ => ?_⟩
  by_contra early
  rw [not_le] at early
  rcases lt_or_ge time (Plan.latest r.start r.commits) with collecting | sleeping
  · have hless := hshort _ ended _ (htimely.run.periodAt_mem hsplit hshort after early)
    omega
  · have hnotDue := htimely.run.not_due_between later next _ hsplit r earlier rfl _ ended time
      sleeping early
    omega

theorem Timely.start_eq {period : Nat} (htimely : Timely plan events s)
    (hsplit : s.rounds plan = later ++ next :: r :: earlier)
    (hsteady : ∀ time, r.start ≤ time → time ≤ r.start + period →
      periodAt plan events time = period) : next.start = r.start + period := by
  obtain ⟨⟨after, due⟩, least⟩ := htimely.isLeast hsplit
  have hatMost : next.start ≤ r.start + period := by
    refine least ⟨Nat.le_add_right _ _, ?_⟩
    rw [hsteady _ (Nat.le_add_right _ _) le_rfl]
  rw [hsteady _ after hatMost] at due
  exact le_antisymm hatMost due

end

theorem Run.exists_drained (hrun : Run plan events s) (hsleeping : s.phase = .sleeping) :
    ∃ s', Run plan events s' ∧ s'.phase = .sleeping ∧ s'.cancelled = s.cancelled ∧
      s'.isReady .receive = false ∧ (s'.rounds plan).length = (s.rounds plan).length := by
  induction waiting : s.inbox generalizing s with
  | nil =>
      by_cases ready : s.isReady .receive = true
      · have hignored := hrun.step (.choose hsleeping ready)
        rw [choose, receive_of_nil waiting] at hignored
        exact ⟨_, hignored, hsleeping, rfl, rfl, rfl⟩
      · exact ⟨s, hrun, hsleeping, rfl, by simpa using ready, rfl⟩
  | cons next rest ih =>
      have hlistening : s.listening = true := by
        by_contra deaf
        simp [(hrun.deaf (by simpa using deaf)).2] at waiting
      have ready : s.isReady .receive = true := by simp [isReady, hlistening, waiting]
      have htaken := hrun.step (.choose hsleeping ready)
      rw [choose, receive_of_cons waiting] at htaken
      obtain ⟨s', reached, asleep, same, quiet, length⟩ := ih htaken hsleeping rfl
      obtain ⟨r, earlier, now, _, _⟩ := hrun.stage.resting (.inl hsleeping)
      refine ⟨s', reached, asleep, same, quiet, ?_⟩
      rw [length, rounds_take now, now, List.length_cons, List.length_cons]

theorem Run.exists_wake (hrun : Run plan events s) (hsleeping : s.phase = .sleeping)
    (huncancelled : s.cancelled = false) :
    ∃ s', Run plan events s' ∧ (s'.rounds plan).length = (s.rounds plan).length + 1 := by
  obtain ⟨s', reached, asleep, same, quiet, length⟩ := hrun.exists_drained hsleeping
  rw [← length]
  rcases le_or_gt s'.deadline s'.clock with due | early
  · have hready : s'.isReady .wake = true := decide_eq_true due
    refine ⟨_, reached.step (.choose asleep hready), ?_⟩
    rw [choose, rounds_beginTick, List.length_cons]
  · have hwaited : Run plan events { s' with clock := s'.deadline } := by
      refine reached.wait early ?_
      rw [MayWait, asleep]
      refine ⟨fun choice => ?_, le_rfl⟩
      cases choice with
      | stop => exact same.trans huncancelled
      | receive => exact quiet
      | wake => exact decide_eq_false early.not_ge
    have hready : { s' with clock := s'.deadline }.isReady .wake = true := by
      simp [isReady, deadline]
    refine ⟨_, hwaited.step (.choose asleep hready), ?_⟩
    rw [choose, rounds_beginTick, List.length_cons]
    rfl

theorem Run.exists_tick (hrun : Run plan events s) (huncancelled : s.cancelled = false) :
    ∃ s', Run plan events s' ∧ (s'.rounds plan).length = (s.rounds plan).length + 1 := by
  cases phase : s.phase with
  | idle => exact ⟨_, hrun.step (.begin phase), by rw [rounds_beginTick, List.length_cons]⟩
  | collecting =>
      obtain ⟨_, step⟩ := hrun.exists_step phase
      have hafter := hrun.step step
      cases step with
      | begin idle => simp [phase] at idle
      | choose sleeping => simp [phase] at sleeping
      | @finish commits =>
          obtain ⟨s', reached, length⟩ := hafter.exists_wake (by rfl) huncancelled
          obtain ⟨earlier, now, _⟩ := hrun.stage.collecting phase
          refine ⟨s', reached, ?_⟩
          rw [length, rounds_endTickWith now, now, List.length_cons, List.length_cons]
  | sleeping => exact hrun.exists_wake phase huncancelled
  | stopped =>
      obtain ⟨_, _, _, stopped⟩ := hrun.trace_eq
      obtain ⟨_, _, time, _, member⟩ := stopped phase
      have hcancelled := hrun.cancelled_iff.mpr (List.mem_map_of_mem (f := Prod.snd) member)
      simp [huncancelled] at hcancelled

theorem periodAt_congr {plan' : Plan} {events' : List (Nat × Event)}
    (hperiod : plan'.period = plan.period) (hsame : sent events' = sent events) :
    periodAt plan' events' = periodAt plan events := by
  funext time
  rw [periodAt, periodAt, hsame]
  cases ((sent events).filter fun one => one.1 ≤ time).getLast? with
  | none => exact hperiod
  | some last => rfl

theorem Timely.same_start {plan' : Plan} {events' : List (Nat × Event)} {s' : Scheduler}
    (htimely : Timely plan events s) (htimely' : Timely plan' events' s')
    (hperiod : plan'.period = plan.period) (hsame : sent events' = sent events) :
    ∀ later r earlier later' r' earlier', s.rounds plan = later ++ r :: earlier →
      s'.rounds plan' = later' ++ r' :: earlier' → earlier'.length = earlier.length →
      r'.start = r.start := by
  intro later r earlier later' r' earlier' split split' length
  -- On the ticks before: each start is settled by the one before it and by what is sent.
  induction earlier generalizing later r later' r' earlier' with
  | nil =>
      rw [(htimely.run.begun later r [] split).first rfl,
        (htimely'.run.begun later' r' earlier' split').first (List.length_eq_zero_iff.mp length)]
  | cons before rest ih =>
      obtain ⟨before', rest', rfl⟩ := List.exists_cons_of_length_eq_add_one length
      have hstarted := ih (later ++ [r]) before (later' ++ [r']) before' rest' (by simp [split])
        (by simp [split']) (by simpa using length)
      have hleast := htimely'.isLeast split'
      rw [periodAt_congr hperiod hsame, hstarted] at hleast
      exact hleast.unique (htimely.isLeast split)

structure KeepsTime (plan : Plan) (events : List (Nat × Event)) (s : Scheduler) : Prop where
  first : ∀ later r, s.rounds plan = later ++ [r] → r.start = 0
  /-- A tick begins at the first time after the one before it at which it is due. -/
  next : ∀ later next r earlier, s.rounds plan = later ++ next :: r :: earlier →
    ∃ finish, r.finish = some finish ∧
      IsLeast {time | finish ≤ time ∧ r.start + periodAt plan events time ≤ time} next.start
  /-- No such time passes in a sleep, and without a cancellation the next tick comes. -/
  asleep : s.phase = .sleeping → ∀ r earlier, s.rounds plan = r :: earlier → ∀ finish ∈ r.finish,
    ∀ time, finish ≤ time → time < s.clock → time < r.start + periodAt plan events time
  goesOn : s.cancelled = false →
    ∃ s', Run plan events s' ∧ (s'.rounds plan).length = (s.rounds plan).length + 1
  steady : sent events = [] → ∀ later r earlier, s.rounds plan = later ++ r :: earlier →
    r.start = earlier.length * plan.period
  /-- A plan that is sent in a sleep ends it at once exactly if its deadline has passed. -/
  woken : ∀ later next r earlier, s.rounds plan = later ++ next :: r :: earlier →
    ∀ finish ∈ r.finish, ∀ one ∈ sent events, finish ≤ one.1 → one.1 ≤ next.start →
      (next.start = one.1 ↔ r.start + one.2.period ≤ one.1)
  /-- The tick after it is a whole period later, if nothing else is sent. -/
  once : ∀ later next r earlier, s.rounds plan = later ++ next :: r :: earlier →
    ∀ one ∈ sent events, one.1 ≤ r.start →
      (∀ other ∈ sent events, other.1 ≤ one.1 ∨ r.start + one.2.period < other.1) →
      next.start = r.start + one.2.period
  /-- Another run to which the same plans are sent has its ticks at the same times, whether or when
  the channel is closed. -/
  closing : ∀ plan' events' s', Timely plan' events' s' → plan'.period = plan.period →
    sent events' = sent events → ∀ later r earlier later' r' earlier',
      s.rounds plan = later ++ r :: earlier → s'.rounds plan' = later' ++ r' :: earlier' →
      earlier'.length = earlier.length → r'.start = r.start

theorem Timely.keeps_time (htimely : Timely plan events s) : KeepsTime plan events s where
  first later r split := (htimely.run.begun later r [] split).first rfl
  next later next r earlier split := by
    obtain ⟨ended, less⟩ := htimely.run.ended_before split (htimely.short_of_split split)
    obtain ⟨⟨_, due⟩, least⟩ := htimely.isLeast split
    refine ⟨_, ended, ⟨less.le, due⟩, fun time ⟨after, dueThen⟩ => least ⟨?_, dueThen⟩⟩
    exact (Plan.start_le_latest _ _).trans after
  asleep := htimely.run.not_due
  goesOn := htimely.run.exists_tick
  steady none := by
    have halways (time) : periodAt plan events time = plan.period := by simp [periodAt, none]
    intro later r earlier split
    induction earlier generalizing later r with
    | nil =>
        rw [(htimely.run.begun later r [] split).first rfl, List.length_nil, Nat.zero_mul]
    | cons before rest ih =>
        rw [htimely.start_eq split fun time _ _ => halways time, List.length_cons, Nat.succ_mul,
          ih (later ++ [r]) before (by simp [split])]
  woken later next r earlier split finish ended one member after before := by
    obtain ⟨⟨_, due⟩, least⟩ := htimely.isLeast split
    have hnow : periodAt plan events one.1 = one.2.period :=
      periodAt_of_sent member htimely.apart le_rfl fun other _ => le_or_gt other.1 one.1
    refine ⟨fun same => ?_, fun passed => le_antisymm (least ⟨?_, hnow.symm ▸ passed⟩) before⟩
    · rw [same, hnow] at due
      exact due
    · have ended' := (htimely.run.ended_before split (htimely.short_of_split split)).1
      cases ended'.symm.trans ended
      exact (Plan.start_le_latest _ _).trans after
  once later next r earlier split one member before quiet := by
    refine htimely.start_eq split fun time after inTime =>
      periodAt_of_sent member htimely.apart (before.trans after) fun other sentToo => ?_
    exact (quiet other sentToo).imp_right inTime.trans_lt
  closing plan' events' s' timely' := htimely.same_start timely'

theorem changes_timely :
    Timely twoServers (changes ++ [(100, .cancel)]) (run twoServers changes).2 where
  run := changes_reached
  short := by decide
  apart := by decide
  undisturbed := by decide

theorem changes_keep_time :
    Timely twoServers (changes ++ [(100, .cancel)]) (run twoServers changes).2 ∧
      KeepsTime twoServers (changes ++ [(100, .cancel)]) (run twoServers changes).2 :=
  ⟨changes_timely, Timely.keeps_time changes_timely⟩

end Scheduler

end DirectoryMetrics
