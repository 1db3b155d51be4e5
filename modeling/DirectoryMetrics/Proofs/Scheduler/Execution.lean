import DirectoryMetrics.Proofs.Scheduler.Runs

namespace DirectoryMetrics

/-! What the scheduler does by itself, with the first of its choices each time, is a run. -/

namespace Scheduler

def Event.Positive : Event → Prop
  | .reconfigure plan => 0 < plan.period
  | _ => True

instance : DecidablePred Event.Positive
  | .probe | .close | .cancel => inferInstanceAs (Decidable True)
  | .reconfigure plan => inferInstanceAs (Decidable (0 < plan.period))

variable {plan : Plan} {events : List (Nat × Event)} {s s' : Scheduler} {limit steps : Nat}

theorem Run.positive (hrun : Run plan events s) (hpositive : 0 < plan.period)
    (hall : ∀ event ∈ events, event.2.Positive) :
    0 < s.plan.period ∧ ∀ next ∈ s.inbox, 0 < next.period := by
  induction hrun using Run.induct with
  | new => exact ⟨hpositive, by simp [Scheduler.new]⟩
  | tick _ _ ih => exact ih hall
  | finish _ _ ih => exact ih hall
  | stop _ _ ih => exact ih hall
  | take _ _ ih _ _ waiting =>
      have hwaited := (ih hall).2
      rw [waiting, List.forall_mem_cons] at hwaited
      exact hwaited
  | ignore _ _ ih => exact ih hall
  | wait _ _ ih => exact ih hall
  | @event events s one _ _ ih =>
      rw [List.forall_mem_append] at hall
      have hkept := ih hall.1
      rw [handle_plan]
      refine ⟨hkept.1, ?_⟩
      cases one with
      | reconfigure next =>
          rw [handle]
          split
          · exact hkept.2
          · rw [List.forall_mem_append]
            exact ⟨hkept.2, by simpa [Event.Positive] using hall.2⟩
      | _ => exact hkept.2

def work (limit : Nat) (s : Scheduler) : Nat :=
  2 * (limit + 1 - max s.clock (s.started + 1)) + s.inbox.length + s.listening.toNat +
    match s.phase with
    | .idle => 3
    | .collecting => 2
    | .sleeping => 1
    | .stopped => 0

theorem Step.work_lt (hstep : Step s s') (hstarted : s.started ≤ s.clock)
    (hperiod : 0 < s.plan.period)
    (hinTime : s.clock ≤ limit) : s'.work limit < s.work limit := by
  cases hstep with
  | begin idle =>
      simp only [work, beginTick, enter, idle]
      omega
  | finish collecting _ later =>
      simp only [work, endTickWith, enter, collecting]
      omega
  | @choose choice sleeping ready =>
      cases choice with
      | stop =>
          simp only [work, Scheduler.choose, enter, sleeping]
          omega
      | wake =>
          have hdue : s.started + s.plan.period ≤ s.clock := of_decide_eq_true ready
          simp only [work, Scheduler.choose, beginTick, enter, sleeping]
          omega
      | receive =>
          rw [Scheduler.choose]
          cases waiting : s.inbox with
          | cons next rest =>
              rw [receive_of_cons waiting]
              simp only [work, take, sleeping, waiting, List.length_cons]
              omega
          | nil =>
              have hlistening : s.listening = true := (Bool.and_eq_true_iff.mp ready).1
              rw [receive_of_nil waiting]
              simp only [work, sleeping, waiting, hlistening, Bool.toNat_false, Bool.toNat_true]
              omega

theorem work_le_of_wait {time : Nat} (hlater : s.clock ≤ time) :
    { s with clock := time }.work limit ≤ s.work limit := by
  simp only [work]
  omega

theorem work_lt_steps (hrun : Run plan events s) (hinTime : s.clock ≤ limit) :
    s.work limit < 2 * (limit - s.clock) + 2 * s.inbox.length + 6 := by
  have started := hrun.started_le
  have idle := hrun.untouched
  have hlistening : s.listening.toNat ≤ 1 := Bool.toNat_le _
  rw [work]
  cases phase : s.phase with
  | idle =>
      obtain ⟨clock, started⟩ := idle phase
      simp only
      omega
  | _ =>
      simp only
      omega

structure Driven (plan : Plan) (events : List (Nat × Event)) (s : Scheduler) : Prop where
  run : Run plan events s
  onTime : s.phase = .collecting → s.clock ≤ s.tickEnd

theorem not_ready (hnone : s.nextChoice? = none) (choice : Choice) : s.isReady choice = false := by
  have heach := List.find?_eq_none.mp hnone choice (by cases choice <;> simp)
  simpa using heach

theorem onTime_choose (choice : Choice) (hsleeping : s.phase = .sleeping) :
    (s.choose choice).phase = .collecting →
      (s.choose choice).clock ≤ (s.choose choice).tickEnd := by
  cases choice with
  | stop => simp [choose, enter]
  | wake => exact fun _ => Plan.start_le_latest _ _
  | receive =>
      rw [choose, receive]
      split
      · simp [hsleeping]
      · simp [hsleeping]

theorem Driven.choose {choice : Choice} (hdriven : Driven plan events s)
    (hsleeping : s.phase = .sleeping) (hready : s.isReady choice = true) :
    Driven plan events (s.choose choice) :=
  ⟨hdriven.run.step (.choose hsleeping hready), onTime_choose choice hsleeping⟩

theorem clock_choose (choice : Choice) : (s.choose choice).clock = s.clock := by
  cases choice with
  | stop => rfl
  | wake => rfl
  | receive =>
      rw [Scheduler.choose, receive]
      split
      · rfl
      · rfl

theorem Driven.step (hdriven : Driven plan events s) (hinTime : s.clock ≤ limit)
    (hstep : s.step? limit = some s') :
    Driven plan events s' ∧ s'.clock ≤ limit ∧ ∃ waited, Run plan events waited ∧
      Step waited s' ∧ waited.clock ≤ limit ∧ waited.work limit ≤ s.work limit := by
  have hrun := hdriven.run
  rw [step?] at hstep
  cases phase : s.phase with
  | idle =>
      simp only [phase, Option.some_inj] at hstep
      subst hstep
      have hbegin := Step.begin phase
      exact ⟨⟨hrun.step hbegin, fun _ => Plan.start_le_latest _ _⟩, hinTime,
        s, hrun, hbegin, hinTime, le_rfl⟩
  | collecting =>
      simp only [phase, Option.ite_none_right_eq_some, Option.some_inj] at hstep
      obtain ⟨ended, rfl⟩ := hstep
      have hfinish : Step s s.endTick :=
        .finish phase (s.plan.collects_commits s.started) (hdriven.onTime phase)
      exact ⟨⟨hrun.step hfinish, by simp [endTick, endTickWith, enter]⟩, ended,
        s, hrun, hfinish, hinTime, le_rfl⟩
  | sleeping =>
      simp only [phase] at hstep
      split at hstep
      · rename_i choice found
        cases hstep
        have hready : s.isReady choice = true := List.find?_some found
        exact ⟨hdriven.choose phase hready, (clock_choose choice).trans_le hinTime,
          s, hrun, .choose phase hready, hinTime, le_rfl⟩
      · rename_i none
        have hquiet := not_ready none
        have hearly : s.clock < s.deadline := by simpa [isReady] using hquiet .wake
        rw [Option.ite_none_right_eq_some, Option.some_inj] at hstep
        obtain ⟨due, rfl⟩ := hstep
        have hslept : Driven plan events { s with clock := s.deadline } := by
          refine ⟨hrun.wait hearly ?_, by simp [phase]⟩
          rw [MayWait, phase]
          exact ⟨hquiet, le_rfl⟩
        have hready : { s with clock := s.deadline }.isReady .wake = true := by
          simp [isReady, deadline]
        exact ⟨hslept.choose phase hready, due, { s with clock := s.deadline }, hslept.run,
          Step.choose (s := { s with clock := s.deadline }) phase hready, due,
          work_le_of_wait hearly.le⟩
  | stopped => simp [phase] at hstep

theorem Driven.mayWait (hdriven : Driven plan events s) (hinTime : s.clock ≤ limit)
    (hdone : s.step? limit = none) :
    s.MayWait limit ∧ (s.phase = .collecting → limit ≤ s.tickEnd) := by
  have hrun := hdriven.run
  rw [step?] at hdone
  rw [MayWait]
  cases phase : s.phase with
  | idle => simp [phase] at hdone
  | collecting =>
      have hgoesOn : limit < s.tickEnd := by simpa [phase] using hdone
      refine ⟨fun empty => ?_, fun _ => hgoesOn.le⟩
      have hended : s.tickEnd = s.clock := by
        rw [hrun.started_eq phase empty, tickEnd, Plan.tickEnd,
          (s.plan.collects_commits s.started).eq_nil empty]
        rfl
      omega
  | sleeping =>
      simp only [phase] at hdone
      split at hdone
      · cases hdone
      · rename_i none
        have hearly : limit < s.deadline := by simpa using hdone
        exact ⟨⟨not_ready none, hearly.le⟩, by simp⟩
  | stopped => exact ⟨trivial, by simp⟩

theorem Driven.rest (hdriven : Driven plan events s) (hinTime : s.clock ≤ limit)
    (hdone : s.step? limit = none) : Driven plan events { s with clock := limit } := by
  obtain ⟨may, onTime⟩ := hdriven.mayWait hinTime hdone
  rcases hinTime.eq_or_lt with rfl | later
  · exact hdriven
  · exact ⟨hdriven.run.wait later may, onTime⟩

theorem Driven.advance (hdriven : Driven plan events s) (hinTime : s.clock ≤ limit) :
    Driven plan events (s.advance limit steps) := by
  induction steps generalizing s with
  | zero => exact hdriven
  | succ steps ih =>
      rw [Scheduler.advance]
      cases next : s.step? limit with
      | none =>
          simp only [max_eq_right hinTime]
          exact hdriven.rest hinTime next
      | some s' =>
          obtain ⟨drivenNext, inTimeNext, _⟩ := hdriven.step hinTime next
          exact ih drivenNext inTimeNext

/-- With enough steps for what is left to do, the time is reached. -/
theorem Driven.clock_advance (hdriven : Driven plan events s) (hpositive : 0 < plan.period)
    (hall : ∀ event ∈ events, event.2.Positive) (hinTime : s.clock ≤ limit)
    (henough : s.work limit < steps) : (s.advance limit steps).clock = limit := by
  induction steps generalizing s with
  | zero => omega
  | succ steps ih =>
      rw [Scheduler.advance]
      cases next : s.step? limit with
      | none => exact max_eq_right hinTime
      | some s' =>
          obtain ⟨drivenNext, inTimeNext, waited, run, step, within, atMost⟩ :=
            hdriven.step hinTime next
          have hless := step.work_lt run.started_le (run.positive hpositive hall).1 within
          exact ih drivenNext inTimeNext (by omega)

theorem Driven.runUntil (hdriven : Driven plan events s) (hpositive : 0 < plan.period)
    (hall : ∀ event ∈ events, event.2.Positive) (hinTime : s.clock ≤ limit) :
    Driven plan events (s.runUntil limit) ∧ (s.runUntil limit).clock = limit :=
  ⟨hdriven.advance hinTime,
    hdriven.clock_advance hpositive hall hinTime (work_lt_steps hdriven.run hinTime)⟩

theorem Driven.event (hdriven : Driven plan events s) (event : Event) :
    Driven plan (events ++ [(s.clock, event)]) (s.handle event) := by
  refine ⟨.event event hdriven.run, ?_⟩
  rw [tickEnd, handle_phase, handle_clock, handle_plan, handle_started]
  exact hdriven.onTime

theorem Driven.deliver {later : List (Nat × Event)} (hdriven : Driven plan events s)
    (hpositive : 0 < plan.period) (hall : ∀ event ∈ events ++ later, event.2.Positive)
    (hordered : (s.clock :: later.map Prod.fst).Pairwise (· ≤ ·)) :
    Driven plan (events ++ later) (s.deliver later).2 := by
  induction later generalizing events s with
  | nil => simpa [Scheduler.deliver] using hdriven
  | cons first rest ih =>
      obtain ⟨time, event⟩ := first
      rw [List.map_cons, List.pairwise_cons, List.forall_mem_cons] at hordered
      obtain ⟨reached, now⟩ := hdriven.runUntil hpositive
        (fun one member => hall one (List.mem_append_left _ member)) hordered.1.1
      have handled := reached.event event
      rw [now] at handled
      rw [List.append_cons] at hall ⊢
      refine ih handled hall ?_
      rw [handle_clock, now]
      exact hordered.2

theorem advance_of_step {next : Scheduler} (hstep : s.step? limit = some next) :
    s.advance limit (steps + 1) = next.advance limit steps := by
  rw [advance, hstep]

theorem advance_of_stopped (hstopped : s.phase = .stopped) :
    s.advance limit (steps + 1) = { s with clock := max s.clock limit } := by
  rw [advance, step?, hstopped]

theorem advance_of_cancelled (hsleeping : s.phase = .sleeping) (hcancelled : s.cancelled = true) :
    (s.advance limit (steps + 2)).phase = .stopped := by
  have hfirst : s.nextChoice? = some .stop := List.find?_cons_of_pos hcancelled
  have hstep : s.step? limit = some (s.enter .stopped) := by
    rw [step?, hsleeping, hfirst]
    rfl
  rw [advance_of_step hstep, advance_of_stopped (by rfl)]
  rfl

theorem advance_of_collecting (hcollecting : s.phase = .collecting)
    (hcancelled : s.cancelled = true)
    (hinTime : s.tickEnd ≤ limit) : (s.advance limit (steps + 3)).phase = .stopped := by
  have hstep : s.step? limit = some s.endTick := by
    rw [step?, hcollecting]
    exact if_pos hinTime
  rw [advance_of_step hstep]
  exact advance_of_cancelled (by rfl) hcancelled

theorem finish_stopped (hrun : Run plan events s) : s.finish.phase = .stopped := by
  have hcancelled : (s.handle .cancel).cancelled = true := rfl
  have hsame : (s.handle .cancel).phase = s.phase := rfl
  rw [finish]
  cases phase : s.phase with
  | idle =>
      simp only [hsame, phase]
      have hstep (limit) : (s.handle .cancel).step? limit = some (s.handle .cancel).beginTick := by
        rw [step?, hsame, phase]
      rw [advance_of_step (hstep _)]
      refine advance_of_collecting (by rfl) hcancelled ?_
      have hsameEnd : (s.handle .cancel).beginTick.tickEnd = (s.handle .cancel).tickEnd :=
        congrArg (s.plan.tickEnd ·) ((hrun.untouched phase).1.trans (hrun.untouched phase).2.symm)
      exact hsameEnd.trans_le (le_max_right _ _)
  | collecting =>
      simp only [hsame, phase]
      exact advance_of_collecting (hsame.trans phase) hcancelled (le_max_right _ _)
  | sleeping =>
      simp only [hsame, phase]
      exact advance_of_cancelled (hsame.trans phase) hcancelled
  | stopped =>
      simp only [hsame, phase]
      rw [advance_of_stopped (hsame.trans phase)]
      exact hsame.trans phase

theorem Driven.finish (hdriven : Driven plan events s) :
    Driven plan (events ++ [(s.clock, .cancel)]) s.finish := by
  have handled := hdriven.event .cancel
  rw [Scheduler.finish]
  split
  · exact handled.advance (le_max_left _ _)
  · exact handled.advance (le_max_left _ _)
  · exact handled.advance le_rfl
  · exact handled.advance le_rfl

/-- The scheduler goes through its events at their times, and then stops. -/
theorem run_reaches (hpositive : 0 < plan.period) (hall : ∀ event ∈ events, event.2.Positive)
    (hordered : (events.map Prod.fst).Pairwise (· ≤ ·)) :
    Run plan (events ++ [(((new plan).deliver events).2.clock, .cancel)]) (run plan events).2 ∧
      (run plan events).2.phase = .stopped := by
  have hbegun : Driven plan [] (new plan) := ⟨.new, by simp [new]⟩
  have hdelivered := hbegun.deliver hpositive hall (hordered.cons fun _ _ => Nat.zero_le _)
  exact ⟨hdelivered.finish.run, finish_stopped hdelivered.run⟩

def twoServers : Plan :=
  ⟨[⟨⟨[("database", "first")]⟩, [], 3⟩, ⟨⟨[("database", "second")]⟩, [], 4⟩], 60, false⟩

def oneServer : Plan := ⟨[⟨⟨[("database", "first")]⟩, [], 3⟩], 20, true⟩

def changes : List (Nat × Event) := [(30, .reconfigure oneServer), (80, .close), (100, .probe)]

theorem changes_reached :
    Run twoServers (changes ++ [(100, .cancel)]) (run twoServers changes).2 := by
  have hreached := @run_reaches twoServers changes (by decide) (by decide) (by decide)
  have hlast : ((new twoServers).deliver changes).2.clock = 100 := by decide
  rw [hlast] at hreached
  exact hreached.1

end Scheduler

end DirectoryMetrics
