import DirectoryMetrics.Proofs.Scheduler.Ticks

namespace DirectoryMetrics

/-! Runs of the scheduler. Events come at any time, and where the scheduler may do several things it
may do any of them. Time passes only while there is nothing to do. -/

namespace Scheduler

/-- What the scheduler may do next. A tick ends at the time of its last commit. -/
inductive Step : Scheduler → Scheduler → Prop
  | begin {s} (idle : s.phase = .idle) : Step s s.beginTick
  | finish {s commits} (collecting : s.phase = .collecting)
      (collected : s.plan.Collects s.started commits)
      (later : s.clock ≤ Plan.latest s.started commits) : Step s (s.endTickWith commits)
  | choose {s choice} (sleeping : s.phase = .sleeping) (ready : s.isReady choice = true) :
      Step s (s.choose choice)

/-- May nothing happen until then? A tick of no sets is over at once, a sleep lasts until something
is ready, at most to its deadline. -/
def MayWait (time : Nat) (s : Scheduler) : Prop :=
  match s.phase with
  | .idle => False
  | .collecting => s.plan.jobs ≠ []
  | .sleeping => (∀ choice, s.isReady choice = false) ∧ time ≤ s.deadline
  | .stopped => True

/-- The states that a scheduler gets into, with the events until then and their times. -/
inductive Run (plan : Plan) : List (Nat × Event) → Scheduler → Prop
  | new : Run plan [] (new plan)
  | step {events s s'} (before : Run plan events s) (step : Step s s') : Run plan events s'
  | wait {events s time} (before : Run plan events s) (later : s.clock < time)
      (may : s.MayWait time) : Run plan events { s with clock := time }
  | event {events s} (event : Event) (before : Run plan events s) :
      Run plan (events ++ [(s.clock, event)]) (s.handle event)

def take (next : Plan) (rest : List Plan) (s : Scheduler) : Scheduler :=
  { s with plan := next, inbox := rest, trace := s.trace ++ [.applied s.clock next] }

theorem receive_of_cons {s : Scheduler} {next : Plan} {rest : List Plan}
    (hwaiting : s.inbox = next :: rest) : s.receive = s.take next rest := by
  rw [receive, hwaiting]
  rfl

theorem receive_of_nil {s : Scheduler} (hwaiting : s.inbox = []) :
    s.receive = { s with listening := false } := by
  rw [receive, hwaiting]

theorem Run.induct {plan : Plan}
    {motive : (events : List (Nat × Event)) → (s : Scheduler) → Run plan events s → Prop}
    (new : motive [] (Scheduler.new plan) .new)
    (tick : ∀ {events s} (before : Run plan events s) (after : Run plan events s.beginTick),
      motive events s before → s.phase = .idle ∨ s.phase = .sleeping ∧ s.deadline ≤ s.clock →
      motive events s.beginTick after)
    (finish : ∀ {events s commits} (before : Run plan events s)
      (after : Run plan events (s.endTickWith commits)), motive events s before →
      s.phase = .collecting → s.plan.Collects s.started commits →
      s.clock ≤ Plan.latest s.started commits → motive events (s.endTickWith commits) after)
    (stop : ∀ {events s} (before : Run plan events s) (after : Run plan events (s.enter .stopped)),
      motive events s before → s.phase = .sleeping → s.cancelled = true →
      motive events (s.enter .stopped) after)
    (take : ∀ {events s next rest} (before : Run plan events s)
      (after : Run plan events (s.take next rest)), motive events s before →
      s.phase = .sleeping → s.listening = true → s.inbox = next :: rest →
      motive events (s.take next rest) after)
    (ignore : ∀ {events s} (before : Run plan events s)
      (after : Run plan events { s with listening := false }), motive events s before →
      s.phase = .sleeping → s.inbox = [] → s.closed = true →
      motive events { s with listening := false } after)
    (wait : ∀ {events s time} (before : Run plan events s)
      (after : Run plan events { s with clock := time }), motive events s before →
      s.clock < time → s.MayWait time → motive events { s with clock := time } after)
    (event : ∀ {events s} (event : Event) (before : Run plan events s)
      (after : Run plan (events ++ [(s.clock, event)]) (s.handle event)), motive events s before →
      motive (events ++ [(s.clock, event)]) (s.handle event) after)
    {events : List (Nat × Event)} {s : Scheduler} (run : Run plan events s) :
    motive events s run := by
  induction run with
  | new => exact new
  | @step events s s' before step ih =>
      have after := Run.step before step
      cases step with
      | begin idle => exact tick before after ih (.inl idle)
      | finish collecting collected later => exact finish before after ih collecting collected later
      | @choose choice sleeping ready =>
          cases choice with
          | stop => exact stop before after ih sleeping ready
          | wake => exact tick before after ih (.inr ⟨sleeping, of_decide_eq_true ready⟩)
          | receive =>
              have ready : s.listening = true ∧ (s.inbox ≠ [] ∨ s.closed = true) := by
                simpa [isReady] using ready
              revert after
              change ∀ after : Run plan events s.receive, motive events s.receive after
              cases waiting : s.inbox with
              | cons next rest =>
                  rw [receive_of_cons waiting]
                  exact fun after => take before after ih sleeping ready.1 waiting
              | nil =>
                  rw [receive_of_nil waiting]
                  exact fun after =>
                    ignore before after ih sleeping waiting (ready.2.resolve_left (absurd waiting))
  | wait before later may ih => exact wait before (.wait before later may) ih later may
  | event one before ih => exact event one before (.event one before) ih

section

variable (event : Event) (s : Scheduler)

theorem handle_frame {β : Type} (f : Scheduler → β)
    (hframe : ∀ s inbox closed cancelled, f { s with inbox, closed, cancelled } = f s) :
    f (s.handle event) = f s := by
  cases event with
  | probe => rfl
  | close => exact hframe s s.inbox true s.cancelled
  | cancel => exact hframe s s.inbox s.closed true
  | reconfigure plan =>
      rw [handle]
      split
      · rfl
      · exact hframe s (s.inbox ++ [plan]) s.closed s.cancelled

@[simp] theorem handle_phase : (s.handle event).phase = s.phase :=
  handle_frame event s (·.phase) fun _ _ _ _ => rfl

@[simp] theorem handle_plan : (s.handle event).plan = s.plan :=
  handle_frame event s (·.plan) fun _ _ _ _ => rfl

@[simp] theorem handle_clock : (s.handle event).clock = s.clock :=
  handle_frame event s (·.clock) fun _ _ _ _ => rfl

@[simp] theorem handle_started : (s.handle event).started = s.started :=
  handle_frame event s (·.started) fun _ _ _ _ => rfl

@[simp] theorem handle_listening : (s.handle event).listening = s.listening :=
  handle_frame event s (·.listening) fun _ _ _ _ => rfl

@[simp] theorem handle_trace : (s.handle event).trace = s.trace :=
  handle_frame event s (·.trace) fun _ _ _ _ => rfl

end

theorem handle_closed (event : Event) (s : Scheduler) :
    (s.handle event).closed = (s.closed || decide (event = .close)) := by
  cases event with
  | reconfigure plan =>
      rw [handle]
      split
      · simp
      · simp
  | _ => simp [handle]

theorem handle_cancelled (event : Event) (s : Scheduler) :
    (s.handle event).cancelled = (s.cancelled || decide (event = .cancel)) := by
  cases event with
  | reconfigure plan =>
      rw [handle]
      split
      · simp
      · simp
  | _ => simp [handle]

theorem handle_reconfigure {plan : Plan} {s : Scheduler} (haccepted : s.closed = false)
    (hrunning : s.phase ≠ .stopped) :
    s.handle (.reconfigure plan) = { s with inbox := s.inbox ++ [plan] } := by
  simp [handle, haccepted, hrunning]

theorem handle_reconfigure_closed {plan : Plan} {s : Scheduler} (hclosed : s.closed = true) :
    s.handle (.reconfigure plan) = s := by
  simp [handle, hclosed]

section

variable {plan : Plan} {events : List (Nat × Event)} {s : Scheduler}

theorem Run.closed_iff (hrun : Run plan events s) :
    s.closed = true ↔ Event.close ∈ events.map Prod.snd := by
  induction hrun using Run.induct with
  | new => simp [Scheduler.new]
  | tick _ _ ih => exact ih
  | finish _ _ ih => exact ih
  | stop _ _ ih => exact ih
  | take _ _ ih => exact ih
  | ignore _ _ ih => exact ih
  | wait _ _ ih => exact ih
  | event one _ _ ih =>
      rw [handle_closed, Bool.or_eq_true, ih]
      simp [eq_comm]

theorem Run.cancelled_iff (hrun : Run plan events s) :
    s.cancelled = true ↔ Event.cancel ∈ events.map Prod.snd := by
  induction hrun using Run.induct with
  | new => simp [Scheduler.new]
  | tick _ _ ih => exact ih
  | finish _ _ ih => exact ih
  | stop _ _ ih => exact ih
  | take _ _ ih => exact ih
  | ignore _ _ ih => exact ih
  | wait _ _ ih => exact ih
  | event one _ _ ih =>
      rw [handle_cancelled, Bool.or_eq_true, ih]
      simp [eq_comm]

/-- Only a channel that is closed and empty is not looked at any more. -/
theorem Run.deaf (hrun : Run plan events s) :
    s.listening = false → s.closed = true ∧ s.inbox = [] := by
  induction hrun using Run.induct with
  | new => simp [Scheduler.new]
  | tick _ _ ih => exact ih
  | finish _ _ ih => exact ih
  | stop _ _ ih => exact ih
  | take _ _ ih _ listening => exact fun deaf => absurd (listening.symm.trans deaf) (by decide)
  | ignore _ _ _ _ empty closed => exact fun _ => ⟨closed, empty⟩
  | wait _ _ ih => exact ih
  | @event events s one _ _ ih =>
      intro deaf
      obtain ⟨closed, empty⟩ := ih (by simpa using deaf)
      refine ⟨by rw [handle_closed, closed, Bool.true_or], ?_⟩
      cases one with
      | reconfigure plan => rw [handle_reconfigure_closed closed, empty]
      | _ => exact empty

theorem Run.started_le (hrun : Run plan events s) : s.started ≤ s.clock := by
  induction hrun using Run.induct with
  | new => exact le_rfl
  | tick => exact le_rfl
  | finish _ _ ih _ _ later => exact Plan.start_le_latest _ _
  | stop _ _ ih => exact ih
  | take _ _ ih => exact ih
  | ignore _ _ ih => exact ih
  | wait _ _ ih later => exact ih.trans later.le
  | event one _ _ ih => simpa using ih

theorem Run.untouched (hrun : Run plan events s) :
    s.phase = .idle → s.clock = 0 ∧ s.started = 0 := by
  induction hrun using Run.induct with
  | new => exact fun _ => ⟨rfl, rfl⟩
  | tick => simp [beginTick, enter]
  | finish => simp [endTickWith, enter]
  | stop => simp [enter]
  | take _ _ ih => exact ih
  | ignore _ _ ih => exact ih
  | wait _ _ _ _ may =>
      intro idle
      rw [MayWait, idle] at may
      exact may.elim
  | event one _ _ ih => simpa using ih

theorem Run.started_eq (hrun : Run plan events s) :
    s.phase = .collecting → s.plan.jobs = [] → s.clock = s.started := by
  induction hrun using Run.induct with
  | new => simp [Scheduler.new]
  | tick => exact fun _ _ => rfl
  | finish => simp [endTickWith, enter]
  | stop => simp [enter]
  | take _ _ _ sleeping => simp [take, sleeping]
  | ignore _ _ ih => exact ih
  | wait _ _ _ _ may =>
      intro collecting empty
      rw [MayWait, collecting] at may
      exact absurd empty may
  | event one _ _ ih => simpa using ih

theorem Run.events_le (hrun : Run plan events s) : ∀ event ∈ events, event.1 ≤ s.clock := by
  induction hrun using Run.induct with
  | new => simp
  | tick _ _ ih => exact ih
  | finish _ _ ih _ _ later => exact fun event member => (ih event member).trans later
  | stop _ _ ih => exact ih
  | take _ _ ih => exact ih
  | ignore _ _ ih => exact ih
  | wait _ _ ih later => exact fun event member => (ih event member).trans later.le
  | event one _ _ ih =>
      rw [List.forall_mem_append, handle_clock]
      exact ⟨ih, by simp⟩

end

end Scheduler

end DirectoryMetrics
