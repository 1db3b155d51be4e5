import DirectoryMetrics.Proofs.Scheduler.Runs

namespace DirectoryMetrics

/-! A run is a row of rounds, which can be read off its records: a tick under one plan, and the
sleep after it, in which other plans are applied. -/

structure Round where
  /-- The plan that the tick began under. -/
  plan : Plan
  start : Nat
  commits : List (Nat × Job)
  /-- When the tick ended; none as long as it goes on. -/
  finish : Option Nat
  /-- The plans that were applied in the sleep. -/
  taken : List (Nat × Plan)

namespace Round

def records (r : Round) : List Record :=
  .entered r.start .collecting :: r.commits.map (fun (time, job) => .committed time job) ++
    match r.finish with
    | none => []
    | some time => .entered time .sleeping :: r.taken.map fun (time, plan) => .applied time plan

structure Complete (r : Round) : Prop where
  collected : r.plan.Collects r.start r.commits
  finished : r.finish = some (Plan.latest r.start r.commits)

def takenIn : List Round → List (Nat × Plan)
  | [] => []
  | r :: earlier => takenIn earlier ++ r.taken

/-- The plan that was applied last, or the one that a run was begun with. -/
def planAfter (plan : Plan) (rounds : List Round) : Plan :=
  ((takenIn rounds).getLast?.map Prod.snd).getD plan

def observe (plan : Plan) (rounds : List Round) (record : Record) : List Round :=
  match record, rounds with
  | .entered time .collecting, rounds => ⟨planAfter plan rounds, time, [], none, []⟩ :: rounds
  | .entered time .sleeping, r :: earlier => { r with finish := some time } :: earlier
  | .committed time job, r :: earlier =>
      { r with commits := r.commits ++ [(time, job)] } :: earlier
  | .applied time next, r :: earlier => { r with taken := r.taken ++ [(time, next)] } :: earlier
  | _, rounds => rounds

end Round

namespace Scheduler

open Round

def rounds (plan : Plan) (s : Scheduler) : List Round := s.trace.foldl (observe plan) []

section

variable {plan : Plan} {s : Scheduler}

theorem rounds_of_trace (plan : Plan) {s' : Scheduler} (hsame : s'.trace = s.trace) :
    s'.rounds plan = s.rounds plan := by
  rw [rounds, rounds, hsame]

theorem rounds_new (plan : Plan) : (new plan).rounds plan = [] := rfl

theorem rounds_beginTick :
    s.beginTick.rounds plan =
      ⟨planAfter plan (s.rounds plan), s.clock, [], none, []⟩ :: s.rounds plan := by
  rw [rounds, beginTick, enter, List.foldl_append]
  rfl

theorem rounds_stop : (s.enter .stopped).rounds plan = s.rounds plan := by
  rw [rounds, enter, List.foldl_append, ← rounds]
  cases s.rounds plan with
  | nil => rfl
  | cons r earlier => rfl

theorem foldl_observe_commits (plan : Plan) (commits : List (Nat × Job)) (r : Round)
    (earlier : List Round) :
    (commits.map fun (time, job) => Record.committed time job).foldl (observe plan)
      (r :: earlier) = { r with commits := r.commits ++ commits } :: earlier := by
  induction commits generalizing r with
  | nil => simp
  | cons commit rest ih =>
      rw [List.map_cons, List.foldl_cons, observe, ih]
      simp

theorem rounds_endTickWith {r : Round} {earlier : List Round}
    (hbefore : s.rounds plan = r :: earlier) (commits : List (Nat × Job)) :
    (s.endTickWith commits).rounds plan =
      { r with
        commits := r.commits ++ commits
        finish := some (Plan.latest s.started commits) } :: earlier := by
  rw [rounds, endTickWith, enter, List.foldl_append, List.foldl_append, ← rounds, hbefore,
    foldl_observe_commits]
  rfl

theorem rounds_take {r : Round} {earlier : List Round} (hbefore : s.rounds plan = r :: earlier)
    (next : Plan) (rest : List Plan) :
    (s.take next rest).rounds plan =
      { r with taken := r.taken ++ [(s.clock, next)] } :: earlier := by
  rw [rounds, take, List.foldl_append, ← rounds, hbefore]
  rfl

theorem rounds_handle (event : Event) (s : Scheduler) :
    (s.handle event).rounds plan = s.rounds plan :=
  rounds_of_trace plan (handle_trace event s)

end

structure Stage (plan : Plan) (s : Scheduler) : Prop where
  inForce : s.plan = planAfter plan (s.rounds plan)
  idle : s.phase = .idle → s.rounds plan = []
  collecting : s.phase = .collecting → ∃ earlier,
    s.rounds plan = ⟨s.plan, s.started, [], none, []⟩ :: earlier ∧ ∀ r ∈ earlier, r.Complete
  resting : s.phase = .sleeping ∨ s.phase = .stopped → ∃ r earlier,
    s.rounds plan = r :: earlier ∧ r.start = s.started ∧ ∀ r ∈ s.rounds plan, r.Complete

theorem Stage.of_same {plan : Plan} {s s' : Scheduler} (hstage : s.Stage plan)
    (htrace : s'.trace = s.trace) (hsamePlan : s'.plan = s.plan) (hphase : s'.phase = s.phase)
    (hstarted : s'.started = s.started) : s'.Stage plan := by
  have hrounds := rounds_of_trace plan htrace
  constructor
  · rw [hrounds, hsamePlan]
    exact hstage.inForce
  · rw [hrounds, hphase]
    exact hstage.idle
  · rw [hrounds, hphase, hsamePlan, hstarted]
    exact hstage.collecting
  · rw [hrounds, hphase, hstarted]
    exact hstage.resting

theorem Run.stage {plan : Plan} {events : List (Nat × Event)} {s : Scheduler}
    (hrun : Run plan events s) : s.Stage plan := by
  induction hrun using Run.induct with
  | new => exact ⟨rfl, fun _ => rfl, by simp [Scheduler.new], by simp [Scheduler.new]⟩
  | @tick events s _ _ ih ready =>
      have complete : ∀ r ∈ s.rounds plan, r.Complete := by
        rcases ready with idle | ⟨sleeping, _⟩
        · rw [ih.idle idle]
          simp
        · obtain ⟨_, _, _, _, complete⟩ := ih.resting (.inl sleeping)
          exact complete
      refine ⟨?_, by simp [beginTick, enter], fun _ => ⟨_, ?_, complete⟩,
        by simp [beginTick, enter]⟩
      · rw [rounds_beginTick, planAfter, takenIn, List.append_nil]
        exact ih.inForce
      · rw [rounds_beginTick, ← ih.inForce]
        rfl
  | @finish events s commits _ _ ih collecting collected _ =>
      obtain ⟨earlier, now, complete⟩ := ih.collecting collecting
      have hafter := rounds_endTickWith now commits
      rw [List.nil_append] at hafter
      refine ⟨?_, by simp [endTickWith, enter], by simp [endTickWith, enter],
        fun _ => ⟨_, _, hafter, rfl, ?_⟩⟩
      · have hinForce := ih.inForce
        rw [now] at hinForce
        rw [hafter]
        exact hinForce
      · rw [hafter, List.forall_mem_cons]
        exact ⟨⟨collected, rfl⟩, complete⟩
  | @stop events s _ _ ih sleeping _ =>
      obtain ⟨r, earlier, now, start, complete⟩ := ih.resting (.inl sleeping)
      refine ⟨?_, by simp [enter], by simp [enter], fun _ => ⟨r, earlier, ?_, start, ?_⟩⟩
      · rw [rounds_stop]
        exact ih.inForce
      · rw [rounds_stop, now]
      · rw [rounds_stop]
        exact complete
  | @take events s next rest _ _ ih sleeping _ _ =>
      obtain ⟨r, earlier, now, start, complete⟩ := ih.resting (.inl sleeping)
      have hafter := rounds_take now next rest
      refine ⟨?_, by simp [take, sleeping], by simp [take, sleeping],
        fun _ => ⟨_, _, hafter, start, ?_⟩⟩
      · rw [hafter, planAfter, takenIn, ← List.append_assoc, List.getLast?_concat]
        rfl
      · rw [now, List.forall_mem_cons] at complete
        rw [hafter, List.forall_mem_cons]
        exact ⟨⟨complete.1.collected, complete.1.finished⟩, complete.2⟩
  | ignore _ _ ih => exact ih.of_same rfl rfl rfl rfl
  | wait _ _ ih => exact ih.of_same rfl rfl rfl rfl
  | event one _ _ ih =>
      exact ih.of_same (handle_trace one _) (handle_plan one _) (handle_phase one _)
        (handle_started one _)

/-- All rounds are complete but that of a tick under way. -/
theorem Run.complete_or {plan : Plan} {events : List (Nat × Event)} {s : Scheduler}
    (hrun : Run plan events s) {later earlier : List Round} {r : Round}
    (hsplit : s.rounds plan = later ++ r :: earlier) :
    r.Complete ∨
      later = [] ∧ s.phase = .collecting ∧ r.finish = none ∧ r.commits = [] ∧ r.taken = [] := by
  have hstage := hrun.stage
  have hinRounds : r ∈ s.rounds plan := hsplit ▸ List.mem_append_right later List.mem_cons_self
  cases phase : s.phase with
  | idle =>
      rw [hstage.idle phase] at hinRounds
      cases hinRounds
  | collecting =>
      obtain ⟨before, now, complete⟩ := hstage.collecting phase
      rw [now] at hsplit
      rcases List.cons_eq_append_iff.mp hsplit with ⟨first, same⟩ | ⟨_, _, rest⟩
      · cases same
        exact .inr ⟨first, rfl, rfl, rfl, rfl⟩
      · exact .inl (complete r (rest ▸ List.mem_append_right _ List.mem_cons_self))
  | sleeping =>
      obtain ⟨_, _, _, _, complete⟩ := hstage.resting (.inl phase)
      exact .inl (complete r hinRounds)
  | stopped =>
      obtain ⟨_, _, _, _, complete⟩ := hstage.resting (.inr phase)
      exact .inl (complete r hinRounds)

section

variable {plan : Plan} {events : List (Nat × Event)} {s : Scheduler}
  {Q : List (Nat × Event) → List Round → Plan → Nat → Prop}

theorem of_split_cons {P : List Round → Round → Prop} {first : Round} {rest : List Round}
    (hhead : P rest first)
    (htail : ∀ later r earlier, rest = later ++ r :: earlier → P earlier r) :
    ∀ later r earlier, first :: rest = later ++ r :: earlier → P earlier r := by
  intro later r earlier split
  rcases List.cons_eq_append_iff.mp split with ⟨_, same⟩ | ⟨later', _, split⟩
  · cases same
    exact hhead
  · exact htail later' r earlier split

theorem split_head {P : List Round → Plan → Nat → Prop} {r r' : Round} {earlier : List Round}
    (hsamePlan : r'.plan = r.plan) (hsameStart : r'.start = r.start)
    (heach : ∀ later one before, r :: earlier = later ++ one :: before →
      P before one.plan one.start) :
    ∀ later one before, r' :: earlier = later ++ one :: before → P before one.plan one.start := by
  refine of_split_cons (P := fun before one => P before one.plan one.start) ?_ ?_
  · rw [hsamePlan, hsameStart]
    exact heach [] r earlier rfl
  · exact fun later one before split => heach (r :: later) one before (by rw [split]; rfl)

/-- What holds whenever a tick begins, and what events keep, holds of each round and those before
it. -/
theorem Run.each_round
    (htick : ∀ {events s}, Run plan events s →
      s.phase = .idle ∨ s.phase = .sleeping ∧ s.deadline ≤ s.clock →
      Q events (s.rounds plan) s.plan s.clock)
    (hevent : ∀ {events s} hevent, Run plan events s → ∀ later r earlier,
      s.rounds plan = later ++ r :: earlier → Q events earlier r.plan r.start →
      Q (events ++ [(s.clock, hevent)]) earlier r.plan r.start)
    (hrun : Run plan events s) :
    ∀ later r earlier, s.rounds plan = later ++ r :: earlier → Q events earlier r.plan r.start := by
  induction hrun using Run.induct with
  | new => simp [rounds_new]
  | @tick events s before _ ih ready =>
      rw [rounds_beginTick, ← before.stage.inForce]
      exact of_split_cons (P := fun earlier r => Q events earlier r.plan r.start)
        (htick before ready) ih
  | @finish events s commits before _ ih collecting _ _ =>
      obtain ⟨earlier, now, _⟩ := before.stage.collecting collecting
      rw [now] at ih
      rw [rounds_endTickWith now]
      refine split_head (P := Q events) ?_ ?_ ih
      · rfl
      · rfl
  | stop _ _ ih =>
      rw [rounds_stop]
      exact ih
  | @take events s next rest before _ ih sleeping _ _ =>
      obtain ⟨r, earlier, now, _, _⟩ := before.stage.resting (.inl sleeping)
      rw [now] at ih
      rw [rounds_take now]
      refine split_head (P := Q events) ?_ ?_ ih
      · rfl
      · rfl
  | ignore _ _ ih => exact ih
  | wait _ _ ih => exact ih
  | event one before _ ih =>
      rw [rounds_handle]
      exact fun later r earlier split => hevent one before later r earlier split
        (ih later r earlier split)

/-- What holds when a tick has ended, and whatever happens in the sleep after it keeps, holds
throughout the sleep. -/
theorem Run.each_sleep {P : List (Nat × Event) → Nat → Nat → Scheduler → Prop}
    (hended : ∀ {events s} commits, Run plan events s →
      P events s.started (Plan.latest s.started commits) (s.endTickWith commits))
    (htake : ∀ {events s start finish next rest}, Run plan events s → s.inbox = next :: rest →
      P events start finish s → P events start finish (s.take next rest))
    (hignore : ∀ {events s start finish}, Run plan events s → P events start finish s →
      P events start finish { s with listening := false })
    (hwait : ∀ {events s finish time}, Run plan events s → s.phase = .sleeping → s.MayWait time →
      P events s.started finish s → P events s.started finish { s with clock := time })
    (hevent : ∀ {events s start finish} hevent, Run plan events s → P events start finish s →
      P (events ++ [(s.clock, hevent)]) start finish (s.handle hevent))
    (hrun : Run plan events s) :
    s.phase = .sleeping → ∀ r earlier, s.rounds plan = r :: earlier → ∀ finish ∈ r.finish,
      P events r.start finish s := by
  induction hrun using Run.induct with
  | new => simp [Scheduler.new]
  | tick => simp [beginTick, enter]
  | @finish events s commits before _ _ collecting =>
      obtain ⟨_, now, _⟩ := before.stage.collecting collecting
      rw [rounds_endTickWith now]
      rintro _ _ _ ⟨⟩ _ ⟨⟩
      exact hended commits before
  | stop => simp [enter]
  | @take events s next rest before _ ih sleeping _ waiting =>
      obtain ⟨r, earlier, now, _, _⟩ := before.stage.resting (.inl sleeping)
      rw [rounds_take now]
      rintro _ _ _ ⟨⟩ finish finished
      exact htake before waiting (ih sleeping r earlier now finish finished)
  | ignore before _ ih =>
      exact fun sleeping r earlier now finish finished =>
        hignore before (ih sleeping r earlier now finish finished)
  | @wait events s time before _ ih _ may =>
      intro sleeping r earlier now finish finished
      obtain ⟨_, _, now', start, _⟩ := before.stage.resting (.inl sleeping)
      cases now.symm.trans now'
      have hheld := ih sleeping r earlier now finish finished
      rw [start] at hheld ⊢
      exact hwait before sleeping may hheld
  | event one before _ ih =>
      rw [handle_phase, rounds_handle]
      exact fun sleeping r earlier now finish finished =>
        hevent one before (ih sleeping r earlier now finish finished)

end

end Scheduler

end DirectoryMetrics
