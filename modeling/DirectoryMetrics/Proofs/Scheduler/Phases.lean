import DirectoryMetrics.Proofs.Scheduler.Execution
import DirectoryMetrics.Proofs.Scheduler.Rounds

namespace DirectoryMetrics

/-! The phases of a run. Every tick that begins commits one batch for each set of the plan in force
and ends; the scheduler stops only in a sleep. -/

namespace Record

def time : Record → Nat
  | entered time _ | committed time _ | applied time _ => time

def phase? : Record → Option Phase
  | entered _ phase => some phase
  | _ => none

end Record

namespace Phase

def whole (rounds : Nat) : List Phase := (List.replicate rounds [collecting, sleeping]).flatten

theorem whole_succ (rounds : Nat) :
    whole (rounds + 1) = whole rounds ++ [collecting, sleeping] := by
  rw [whole, List.replicate_succ', List.flatten_concat, whole]

def Reached (published : List Phase) : Phase → Prop
  | idle => published = [idle]
  | collecting => ∃ rounds, published = idle :: (whole rounds ++ [collecting])
  | sleeping => ∃ rounds, published = idle :: whole (rounds + 1)
  | stopped => ∃ rounds, published = idle :: (whole (rounds + 1) ++ [stopped])

end Phase

namespace Round

def recordsIn : List Round → List Record
  | [] => []
  | r :: earlier => recordsIn earlier ++ r.records

theorem records_of_complete {r : Round} (hcomplete : r.Complete) :
    r.records =
      .entered r.start .collecting :: r.commits.map (fun (time, job) => .committed time job) ++
        .entered (Plan.latest r.start r.commits) .sleeping ::
          r.taken.map fun (time, plan) => .applied time plan := by
  rw [records, hcomplete.finished]

theorem phases_of_complete {r : Round} (hcomplete : r.Complete) :
    r.records.filterMap Record.phase? = [.collecting, .sleeping] := by
  rw [records_of_complete hcomplete]
  simp [List.filterMap_append, List.filterMap_map, Function.comp_def, Record.phase?]

theorem phases_recordsIn {rounds : List Round} (hcomplete : ∀ r ∈ rounds, r.Complete) :
    (recordsIn rounds).filterMap Record.phase? = Phase.whole rounds.length := by
  induction rounds with
  | nil => rfl
  | cons r earlier ih =>
      rw [List.forall_mem_cons] at hcomplete
      rw [recordsIn, List.filterMap_append, ih hcomplete.2, phases_of_complete hcomplete.1,
        List.length_cons, Phase.whole_succ]

end Round

namespace Scheduler

open Round

variable {plan : Plan} {events : List (Nat × Event)} {s : Scheduler}

def published (s : Scheduler) : List Phase := .idle :: s.trace.filterMap Record.phase?

theorem Run.trace_eq (hrun : Run plan events s) :
    ∃ stop, s.trace = recordsIn (s.rounds plan) ++ stop ∧ (s.phase ≠ .stopped → stop = []) ∧
      (s.phase = .stopped → ∃ time, stop = [.entered time .stopped] ∧
        ∃ cancelled ≤ time, (cancelled, .cancel) ∈ events) := by
  induction hrun using Run.induct with
  | new => exact ⟨[], rfl, fun _ => rfl, by simp [Scheduler.new]⟩
  | @tick events s before _ ih ready =>
      obtain ⟨stop, trace, running, _⟩ := ih
      have hnone : stop = [] := running (by rcases ready with idle | ⟨sleeping, _⟩ <;> simp [*])
      refine ⟨[], ?_, fun _ => rfl, by simp [beginTick, enter]⟩
      rw [rounds_beginTick, recordsIn, List.append_nil, beginTick, enter, trace, hnone,
        List.append_nil]
      rfl
  | @finish events s commits before _ ih collecting _ _ =>
      obtain ⟨stop, trace, running, _⟩ := ih
      obtain ⟨earlier, now, _⟩ := before.stage.collecting collecting
      refine ⟨[], ?_, fun _ => rfl, by simp [endTickWith, enter]⟩
      rw [now, running (by simp [collecting])] at trace
      rw [rounds_endTickWith now, endTickWith, enter, trace]
      simp [recordsIn, records]
  | @stop events s before _ ih sleeping cancelled =>
      obtain ⟨stop, trace, running, _⟩ := ih
      have running := running (by simp [sleeping])
      obtain ⟨⟨time, one⟩, member, rfl⟩ := List.mem_map.mp (before.cancelled_iff.mp cancelled)
      refine ⟨[.entered s.clock .stopped], ?_, by simp [enter],
        fun _ => ⟨s.clock, rfl, time, before.events_le _ member, member⟩⟩
      rw [rounds_stop, enter, trace, running, List.append_nil]
  | @take events s next rest before _ ih sleeping _ _ =>
      obtain ⟨stop, trace, running, _⟩ := ih
      obtain ⟨r, earlier, now, _, complete⟩ := before.stage.resting (.inl sleeping)
      have hfinished := (complete r (now ▸ List.mem_cons_self)).finished
      refine ⟨[], ?_, fun _ => rfl, by simp [take, sleeping]⟩
      rw [now, running (by simp [sleeping])] at trace
      rw [rounds_take now, take, trace]
      simp [recordsIn, records, hfinished]
  | ignore _ _ ih => exact ih
  | wait _ _ ih => exact ih
  | event one _ _ ih =>
      obtain ⟨stop, trace, running, stopped⟩ := ih
      rw [rounds_handle, handle_trace, handle_phase]
      refine ⟨stop, trace, running, fun phase => ?_⟩
      obtain ⟨time, eq, cancelled, earlier, member⟩ := stopped phase
      exact ⟨time, eq, cancelled, earlier, List.mem_append_left _ member⟩

theorem Run.reached (hrun : Run plan events s) : s.phase.Reached s.published := by
  obtain ⟨stop, trace, running, stopped⟩ := hrun.trace_eq
  have hstage := hrun.stage
  rw [published, trace, List.filterMap_append]
  cases phase : s.phase with
  | idle =>
      rw [hstage.idle phase, running (by simp [phase])]
      rfl
  | collecting =>
      obtain ⟨earlier, now, complete⟩ := hstage.collecting phase
      refine ⟨earlier.length, ?_⟩
      rw [now, running (by simp [phase]), recordsIn, List.filterMap_append,
        phases_recordsIn complete]
      simp [records, Record.phase?]
  | sleeping =>
      obtain ⟨r, earlier, now, _, complete⟩ := hstage.resting (.inl phase)
      refine ⟨earlier.length, ?_⟩
      rw [phases_recordsIn complete, running (by simp [phase]), now]
      simp
  | stopped =>
      obtain ⟨r, earlier, now, _, complete⟩ := hstage.resting (.inr phase)
      obtain ⟨time, eq, _⟩ := stopped phase
      refine ⟨earlier.length, ?_⟩
      rw [phases_recordsIn complete, eq, now]
      simp [Record.phase?]

def Ordered (trace : List Record) (time : Nat) : Prop :=
  (trace.Pairwise fun a b => a.time ≤ b.time) ∧ ∀ record ∈ trace, record.time ≤ time

theorem Ordered.append {trace later : List Record} {time last : Nat} (hordered : Ordered trace time)
    (horderedLater : Ordered later last) (hbetween : ∀ record ∈ later, time ≤ record.time)
    (hgrown : time ≤ last) : Ordered (trace ++ later) last := by
  refine ⟨List.pairwise_append.mpr ⟨hordered.1, horderedLater.1, fun a inTrace b inLater => ?_⟩,
    List.forall_mem_append.mpr ⟨fun record member => ?_, horderedLater.2⟩⟩
  · exact (hordered.2 a inTrace).trans (hbetween b inLater)
  · exact (hordered.2 record member).trans hgrown

theorem Ordered.concat {trace : List Record} {time : Nat} (hordered : Ordered trace time)
    {record : Record} (hnow : record.time = time) : Ordered (trace ++ [record]) time := by
  refine hordered.append ⟨List.pairwise_singleton _ _, ?_⟩ ?_ le_rfl
  · simp [hnow]
  · simp [hnow]

theorem ordered_commits {start : Nat} {commits : List (Nat × Job)}
    (hcollected : plan.Collects start commits) :
    Ordered (commits.map fun (time, job) => .committed time job) (Plan.latest start commits) := by
  refine ⟨List.pairwise_map.mpr hcollected.ordered, fun record member => ?_⟩
  obtain ⟨commit, inCommits, rfl⟩ := List.mem_map.mp member
  exact Plan.le_latest inCommits start

theorem Run.ordered (hrun : Run plan events s) :
    Ordered s.trace s.clock ∧ (s.phase = .collecting → Ordered s.trace s.started) := by
  induction hrun using Run.induct with
  | new => simp [Scheduler.new, Ordered]
  | tick _ _ ih => exact ⟨ih.1.concat rfl, fun _ => ih.1.concat rfl⟩
  | @finish events s commits _ _ ih collecting collected _ =>
      refine ⟨Ordered.concat ?_ rfl, by simp [endTickWith, enter]⟩
      refine (ih.2 collecting).append (ordered_commits collected) (fun record member => ?_)
        (Plan.start_le_latest _ _)
      obtain ⟨commit, inCommits, rfl⟩ := List.mem_map.mp member
      exact collected.start_le commit inCommits
  | stop _ _ ih => exact ⟨ih.1.concat rfl, by simp [enter]⟩
  | take _ _ ih sleeping => exact ⟨ih.1.concat rfl, by simp [take, sleeping]⟩
  | ignore _ _ ih => exact ih
  | wait _ _ ih later =>
      exact ⟨⟨ih.1.1, fun record member => (ih.1.2 record member).trans later.le⟩, ih.2⟩
  | event one _ _ ih => simpa using ih

theorem Run.exists_step (hrun : Run plan events s) (hcollecting : s.phase = .collecting) :
    ∃ s', Step s s' := by
  by_cases empty : s.plan.jobs = []
  · refine ⟨_, .finish hcollecting (s.plan.collects_commits s.started) ?_⟩
    rw [hrun.started_eq hcollecting empty]
    exact Plan.start_le_latest _ _
  · obtain ⟨commits, collected, ended⟩ := Plan.exists_collects empty hrun.started_le
    exact ⟨_, .finish hcollecting collected ended.ge⟩

theorem Step.of_collecting {s' : Scheduler} (hstep : Step s s')
    (hcollecting : s.phase = .collecting) : s'.phase = .sleeping := by
  cases hstep with
  | begin idle => rw [hcollecting] at idle; cases idle
  | finish => rfl
  | choose sleeping => rw [hcollecting] at sleeping; cases sleeping

structure Committed (plan : Plan) (r : Round) (finish : Nat) : Prop where
  ended : r.finish = some finish
  perm : (r.commits.map (·.2.tags)).Perm (plan.jobs.map (·.tags))
  inOrder : plan.parallel = false → r.commits.map (·.2.tags) = plan.jobs.map (·.tags)
  within : ∀ commit ∈ r.commits, r.start ≤ commit.1 ∧ commit.1 ≤ finish

/-- What every run keeps to. -/
structure KeepsPhases (plan : Plan) (events : List (Nat × Event)) (s : Scheduler) : Prop where
  reached : s.phase.Reached s.published
  /-- Batches are committed between Collecting and Sleeping and nowhere else. -/
  records : ∃ stop, s.trace = recordsIn (s.rounds plan) ++ stop ∧
    (s.phase ≠ .stopped → stop = []) ∧
    (s.phase = .stopped → ∃ time, stop = [.entered time .stopped] ∧
      ∃ cancelled ≤ time, (cancelled, .cancel) ∈ events)
  ordered : Ordered s.trace s.clock
  committed : ∀ later r earlier, s.rounds plan = later ++ r :: earlier →
    (∃ finish, Committed (planAfter plan earlier) r finish) ∨
      later = [] ∧ s.phase = .collecting ∧ r.finish = none ∧ r.commits = [] ∧ r.taken = []
  ends : s.phase = .collecting → (∃ s', Step s s') ∧ ∀ s', Step s s' → s'.phase = .sleeping

theorem Run.plan_eq (hrun : Run plan events s) :
    ∀ later r earlier, s.rounds plan = later ++ r :: earlier → r.plan = planAfter plan earlier :=
  hrun.each_round (Q := fun _ earlier begun _ => begun = planAfter plan earlier)
    (fun before _ => before.stage.inForce) fun _ _ _ _ _ _ same => same

theorem committed_of_complete {r : Round} (hcomplete : r.Complete) :
    Committed r.plan r (Plan.latest r.start r.commits) where
  ended := hcomplete.finished
  perm := hcomplete.collected.perm
  inOrder := hcomplete.collected.inOrder
  within commit member :=
    ⟨hcomplete.collected.start_le commit member, Plan.le_latest member r.start⟩

theorem Run.keeps_phases (hrun : Run plan events s) : KeepsPhases plan events s where
  reached := hrun.reached
  records := hrun.trace_eq
  ordered := hrun.ordered.1
  committed later r earlier split := by
    rw [← hrun.plan_eq later r earlier split]
    exact (hrun.complete_or split).imp_left fun complete => ⟨_, committed_of_complete complete⟩
  ends collecting :=
    ⟨hrun.exists_step collecting, fun _ step => step.of_collecting collecting⟩

theorem changes_keep_phases :
    Run twoServers (changes ++ [(100, .cancel)]) (run twoServers changes).2 ∧
      KeepsPhases twoServers (changes ++ [(100, .cancel)]) (run twoServers changes).2 :=
  ⟨changes_reached, Run.keeps_phases changes_reached⟩

end Scheduler

end DirectoryMetrics
