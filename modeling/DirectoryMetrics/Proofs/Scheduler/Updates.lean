import DirectoryMetrics.Proofs.Scheduler.Phases

namespace DirectoryMetrics

/-! The update channel. Plans are applied in the order in which they were sent, each of them whole
and only in a sleep. -/

def Record.applied? : Record → Option (Nat × Plan)
  | applied time plan => some (time, plan)
  | _ => none

namespace Round

def periods (r : Round) : List Nat := r.plan.period :: r.taken.map fun (_, plan) => plan.period

def Short (r : Round) : Prop := ∀ finish ∈ r.finish, ∀ period ∈ r.periods, finish < r.start + period

instance : DecidablePred Short := fun r =>
  inferInstanceAs (Decidable (∀ finish ∈ r.finish, ∀ period ∈ r.periods, finish < r.start + period))

theorem mem_periods {plan : Plan} {r : Round} {earlier : List Round}
    (hbegun : r.plan = planAfter plan earlier) :
    (planAfter plan (r :: earlier)).period ∈ r.periods := by
  rw [planAfter, takenIn]
  rcases r.taken.eq_nil_or_concat' with none | ⟨before, last, taken⟩
  · rw [none, List.append_nil, ← planAfter, ← hbegun]
    exact List.mem_cons_self
  · rw [taken, ← List.append_assoc, List.getLast?_concat, periods, taken]
    simp

end Round

namespace Scheduler

open Round

def sent : List (Nat × Event) → List (Nat × Plan)
  | [] => []
  | (time, event) :: rest =>
      match event with
      | .close => []
      | .reconfigure plan => (time, plan) :: sent rest
      | .probe | .cancel => sent rest

def Applies (sent applied : Nat × Plan) : Prop := applied.2 = sent.2 ∧ sent.1 ≤ applied.1

def applied (s : Scheduler) : List (Nat × Plan) := s.trace.filterMap Record.applied?

variable {plan : Plan} {events : List (Nat × Event)} {s : Scheduler}

theorem mem_sent {one : Nat × Plan} (hmember : one ∈ sent events) :
    (one.1, .reconfigure one.2) ∈ events := by
  induction events with
  | nil => cases hmember
  | cons first rest ih =>
      obtain ⟨time, event⟩ := first
      cases event with
      | close => cases hmember
      | reconfigure next =>
          rcases List.mem_cons.mp hmember with rfl | later
          · exact List.mem_cons_self
          · exact List.mem_cons_of_mem _ (ih later)
      | probe => exact List.mem_cons_of_mem _ (ih hmember)
      | cancel => exact List.mem_cons_of_mem _ (ih hmember)

theorem sent_append_of_closed {more : List (Nat × Event)} (hclosed : .close ∈ events.map Prod.snd) :
    sent (events ++ more) = sent events := by
  induction events with
  | nil => cases hclosed
  | cons first rest ih =>
      obtain ⟨time, event⟩ := first
      cases event with
      | close => rfl
      | reconfigure next => exact congrArg (List.cons _) (ih (by simpa using hclosed))
      | probe => exact ih (by simpa using hclosed)
      | cancel => exact ih (by simpa using hclosed)

theorem sent_append {more : List (Nat × Event)} (haccepted : .close ∉ events.map Prod.snd) :
    sent (events ++ more) = sent events ++ sent more := by
  induction events with
  | nil => rfl
  | cons first rest ih =>
      obtain ⟨time, event⟩ := first
      cases event with
      | close => simp at haccepted
      | reconfigure next => exact congrArg (List.cons _) (ih (by simpa using haccepted))
      | probe => exact ih (by simpa using haccepted)
      | cancel => exact ih (by simpa using haccepted)

theorem Run.sends (hrun : Run plan events s) (event : Event) :
    sent (events ++ [(s.clock, event)]) = sent events ∧ (s.handle event).inbox = s.inbox ∨
      ∃ next, sent (events ++ [(s.clock, event)]) = sent events ++ [(s.clock, next)] ∧
        (s.phase ≠ .stopped → (s.handle event).inbox = s.inbox ++ [next]) := by
  cases closed : s.closed with
  | true =>
      refine .inl ⟨sent_append_of_closed (hrun.closed_iff.mp closed), ?_⟩
      cases event with
      | reconfigure next => rw [handle_reconfigure_closed closed]
      | _ => rfl
  | false =>
      have haccepted : Event.close ∉ events.map Prod.snd := by
        rw [← hrun.closed_iff, closed]
        exact Bool.false_ne_true
      rw [sent_append haccepted]
      cases event with
      | reconfigure next =>
          exact .inr ⟨next, rfl, fun running => by rw [handle_reconfigure closed running]⟩
      | _ => exact .inl ⟨List.append_nil _, rfl⟩

theorem applied_enter (phase : Phase) : (s.enter phase).applied = s.applied := by
  simp [applied, enter, Record.applied?]

theorem applied_endTickWith (commits : List (Nat × Job)) :
    (s.endTickWith commits).applied = s.applied := by
  simp [applied, endTickWith, enter, Record.applied?, Function.comp_def]

theorem applied_take (next : Plan) (rest : List Plan) :
    (s.take next rest).applied = s.applied ++ [(s.clock, next)] := by
  simp [applied, take, Record.applied?]

theorem applied_handle (event : Event) : (s.handle event).applied = s.applied := by
  rw [applied, handle_trace, applied]

theorem Run.applied_eq (hrun : Run plan events s) : s.applied = takenIn (s.rounds plan) := by
  induction hrun using Run.induct with
  | new => rfl
  | tick _ _ ih =>
      rw [rounds_beginTick, takenIn, List.append_nil, ← ih]
      exact applied_enter _
  | finish before _ ih collecting =>
      obtain ⟨earlier, now, _⟩ := before.stage.collecting collecting
      rw [now] at ih
      rw [rounds_endTickWith now, applied_endTickWith, ih]
      rfl
  | stop _ _ ih => rw [rounds_stop, applied_enter, ih]
  | take before _ ih sleeping =>
      obtain ⟨r, earlier, now, _, _⟩ := before.stage.resting (.inl sleeping)
      rw [now] at ih
      rw [rounds_take now, applied_take, ih, takenIn, takenIn, List.append_assoc]
  | ignore _ _ ih => exact ih
  | wait _ _ ih => exact ih
  | event one _ _ ih => rw [rounds_handle, applied_handle, ih]

theorem take_drop_succ {α : Type} {list rest : List α} {count : Nat} {one : α}
    (hnext : list.drop count = one :: rest) :
    list.take (count + 1) = list.take count ++ [one] ∧ list.drop (count + 1) = rest := by
  rw [List.take_add, ← List.drop_drop, hnext]
  exact ⟨rfl, rfl⟩

/-- What is applied was sent first, in this order, and what was sent after it waits. -/
theorem Run.inOrder (hrun : Run plan events s) :
    List.Forall₂ Applies ((sent events).take s.applied.length) s.applied ∧
      (s.phase ≠ .stopped → ((sent events).drop s.applied.length).map Prod.snd = s.inbox) := by
  induction hrun using Run.induct with
  | new => exact ⟨.nil, fun _ => rfl⟩
  | @tick events s _ _ ih ready =>
      have running : s.phase ≠ .stopped := by rcases ready with idle | ⟨sleeping, _⟩ <;> simp [*]
      rw [beginTick, applied_enter]
      exact ⟨ih.1, fun _ => ih.2 running⟩
  | finish _ _ ih collecting =>
      rw [applied_endTickWith]
      exact ⟨ih.1, fun _ => ih.2 (by simp [collecting])⟩
  | stop _ _ ih =>
      rw [applied_enter]
      exact ⟨ih.1, fun running => absurd rfl running⟩
  | @take events s next rest before _ ih sleeping _ waiting =>
      have waiting := (ih.2 (by simp [sleeping])).trans waiting
      obtain ⟨one, others, dropped, rfl, rfl⟩ := List.map_eq_cons_iff.mp waiting
      obtain ⟨taken, left⟩ := take_drop_succ dropped
      have hinSent : one ∈ sent events := List.mem_of_mem_drop (dropped ▸ List.mem_cons_self)
      have hinTime : one.1 ≤ s.clock := before.events_le _ (mem_sent hinSent)
      rw [applied_take, List.length_append, List.length_singleton, taken, left]
      exact ⟨List.rel_append ih.1 (.cons ⟨rfl, hinTime⟩ .nil), fun _ => rfl⟩
  | ignore _ _ ih => exact ih
  | wait _ _ ih => exact ih
  | @event events s one before _ ih =>
      rw [applied_handle, handle_phase]
      rcases before.sends one with ⟨same, sameInbox⟩ | ⟨next, more, inbox⟩
      · rw [same, sameInbox]
        exact ih
      · have hlength : s.applied.length ≤ (sent events).length := by
          rw [← ih.1.length_eq]
          exact List.length_take_le' _ _
        rw [more, List.take_append_of_le_length hlength, List.drop_append_of_le_length hlength,
          List.map_append]
        exact ⟨ih.1, fun running => by rw [ih.2 running, inbox running]; rfl⟩

theorem Run.asleep (hrun : Run plan events s) (hsleeping : s.phase = .sleeping) :
    (s.trace.filterMap Record.phase?).getLast? = some .sleeping := by
  have hreached := hrun.reached
  rw [hsleeping] at hreached
  obtain ⟨rounds, published⟩ := hreached
  rw [(List.cons.inj published).2, Phase.whole_succ]
  simp

def AppliedAsleep (trace : List Record) : Prop :=
  ∀ before time next after, trace = before ++ .applied time next :: after →
    (before.filterMap Record.phase?).getLast? = some .sleeping

theorem AppliedAsleep.append {trace more : List Record} (hasleep : AppliedAsleep trace)
    (hnone : ∀ record ∈ more, record.applied? = none) : AppliedAsleep (trace ++ more) := by
  intro before time next after split
  have hnotMore : Record.applied time next ∉ more := fun member => by cases hnone _ member
  rcases List.append_eq_append_iff.mp split with ⟨_, _, inMore⟩ | ⟨rest, inTrace, more⟩
  · exact absurd (inMore ▸ List.mem_append_right _ List.mem_cons_self) hnotMore
  · rcases List.cons_eq_append_iff.mp more with ⟨_, inMore⟩ | ⟨rest, rfl, _⟩
    · exact absurd (inMore ▸ List.mem_cons_self) hnotMore
    · exact hasleep before time next rest inTrace

theorem AppliedAsleep.concat {trace : List Record} {record : Record} (hasleep : AppliedAsleep trace)
    (hnow : (trace.filterMap Record.phase?).getLast? = some .sleeping) :
    AppliedAsleep (trace ++ [record]) := by
  intro before time next after split
  rcases after.eq_nil_or_concat' with rfl | ⟨rest, last, rfl⟩
  · rw [← (List.append_inj' split rfl).1]
    exact hnow
  · rw [← List.cons_append, ← List.append_assoc] at split
    exact hasleep before time next rest (List.append_inj' split rfl).1

theorem Run.appliedAsleep (hrun : Run plan events s) : AppliedAsleep s.trace := by
  induction hrun using Run.induct with
  | new => simp [AppliedAsleep, Scheduler.new]
  | tick _ _ ih => exact ih.append (by simp [Record.applied?])
  | @finish events s commits _ _ ih =>
      rw [endTickWith, enter, List.append_assoc]
      refine ih.append (List.forall_mem_append.mpr ⟨?_, by simp [Record.applied?]⟩)
      exact List.forall_mem_map.mpr fun _ _ => rfl
  | stop _ _ ih => exact ih.append (by simp [Record.applied?])
  | take before _ ih sleeping => exact ih.concat (before.asleep sleeping)
  | ignore _ _ ih => exact ih
  | wait _ _ ih => exact ih
  | event one _ _ ih =>
      rw [handle_trace]
      exact ih

theorem Run.inbox_eq_nil {time : Nat} (hrun : Run plan events s) (hsleeping : s.phase = .sleeping)
    (hmay : s.MayWait time) : s.inbox = [] := by
  rw [MayWait, hsleeping] at hmay
  have hquiet := hmay.1 .receive
  cases listening : s.listening with
  | false => exact (hrun.deaf listening).2
  | true =>
      rw [isReady, listening, Bool.true_and, Bool.or_eq_false_iff] at hquiet
      simpa using hquiet.1

theorem mem_drop_concat {α : Type} {list : List α} {count : Nat} {last one : α}
    (hmember : one ∈ (list ++ [last]).drop count) : one ∈ list.drop count ∨ one = last := by
  rw [List.drop_append, List.mem_append] at hmember
  exact hmember.imp_right fun inLast => List.mem_singleton.mp (List.mem_of_mem_drop inLast)

theorem Run.waiting_le (hrun : Run plan events s) :
    s.phase = .sleeping → ∀ r earlier, s.rounds plan = r :: earlier → ∀ finish ∈ r.finish,
      finish < s.clock → ∀ one ∈ (sent events).drop s.applied.length, s.clock ≤ one.1 := by
  refine hrun.each_sleep (P := fun events _ finish s => finish < s.clock →
    ∀ one ∈ (sent events).drop s.applied.length, s.clock ≤ one.1) ?ended ?take ?ignore ?wait ?event
  case ended => exact fun _ _ later => absurd later (lt_irrefl _)
  case take =>
    intro events s start finish next rest _ _ ih later one member
    rw [applied_take, List.length_append, ← List.drop_drop] at member
    exact ih later one (List.mem_of_mem_drop member)
  case ignore => exact fun _ ih => ih
  case wait =>
    intro events s finish time before sleeping may _ _ one member
    have hnone := before.inOrder.2 (by simp [sleeping])
    rw [before.inbox_eq_nil sleeping may, List.map_eq_nil_iff] at hnone
    exact absurd (hnone ▸ member) List.not_mem_nil
  case event =>
    intro events s start finish event before ih later one member
    rw [handle_clock] at later ⊢
    rw [applied_handle] at member
    rcases before.sends event with ⟨same, _⟩ | ⟨next, more, _⟩
    · rw [same] at member
      exact ih later one member
    · rw [more] at member
      rcases mem_drop_concat member with old | rfl
      · exact ih later one old
      · exact le_rfl

structure Begun (events : List (Nat × Event)) (earlier : List Round) (plan : Plan) (start : Nat) :
    Prop where
  complete : ∀ r ∈ earlier, r.Complete
  first : earlier = [] → start = 0
  due : ∀ r rest, earlier = r :: rest → r.start + plan.period ≤ start
  applied : List.Forall₂ Applies ((sent events).take (takenIn earlier).length) (takenIn earlier)
  inTime : ∀ one ∈ (sent events).take (takenIn earlier).length, one.1 ≤ start
  waiting : ∀ r rest, earlier = r :: rest → ∀ finish ∈ r.finish, finish < start →
    ∀ one ∈ (sent events).drop (takenIn earlier).length, start ≤ one.1

theorem Begun.concat {earlier : List Round} {begun next : Plan} {start time : Nat}
    (hfound : Begun events earlier begun start) (hlater : start ≤ time)
    {events' : List (Nat × Event)} (hmore : sent events' = sent events ++ [(time, next)]) :
    Begun events' earlier begun start := by
  have hlength : (takenIn earlier).length ≤ (sent events).length := by
    rw [← hfound.applied.length_eq]
    exact List.length_take_le' _ _
  refine ⟨hfound.complete, hfound.first, hfound.due, ?_, ?_, ?_⟩
  · rw [hmore, List.take_append_of_le_length hlength]
    exact hfound.applied
  · rw [hmore, List.take_append_of_le_length hlength]
    exact hfound.inTime
  · intro r rest same finish ended after one member
    rw [hmore] at member
    rcases mem_drop_concat member with old | rfl
    · exact hfound.waiting r rest same finish ended after one old
    · exact hlater

theorem mem_recordsIn {rounds : List Round} {r : Round} (hmember : r ∈ rounds) :
    .entered r.start .collecting ∈ recordsIn rounds := by
  induction rounds with
  | nil => cases hmember
  | cons first rest ih =>
      rcases List.mem_cons.mp hmember with rfl | earlier
      · exact List.mem_append_right _ List.mem_cons_self
      · exact List.mem_append_left _ (ih earlier)

theorem Run.start_le (hrun : Run plan events s) : ∀ r ∈ s.rounds plan, r.start ≤ s.clock := by
  intro r member
  obtain ⟨_, trace, _⟩ := hrun.trace_eq
  refine hrun.ordered.1.2 (.entered r.start .collecting) ?_
  rw [trace]
  exact List.mem_append_left _ (mem_recordsIn member)

theorem Run.begun (hrun : Run plan events s) :
    ∀ later r earlier, s.rounds plan = later ++ r :: earlier →
      Begun events earlier r.plan r.start := by
  refine hrun.each_round (Q := Begun) ?tick ?event
  case tick =>
    intro events s before ready
    have horder := before.inOrder.1
    rw [before.applied_eq] at horder
    have hinTime : ∀ one ∈ (sent events).take (takenIn (s.rounds plan)).length, one.1 ≤ s.clock :=
      fun one member => before.events_le _ (mem_sent (List.mem_of_mem_take member))
    rcases ready with idle | ⟨sleeping, due⟩
    · rw [before.stage.idle idle] at horder hinTime ⊢
      exact ⟨by simp, fun _ => (before.untouched idle).1, by simp, horder, hinTime, by simp⟩
    · obtain ⟨r, earlier, now, start, complete⟩ := before.stage.resting (.inl sleeping)
      refine ⟨complete, by simp [now], ?_, horder, hinTime, ?_⟩
      · intro _ _ same
        cases now.symm.trans same
        rw [start]
        exact due
      · rw [← before.applied_eq]
        exact before.waiting_le sleeping
  case event =>
    intro events s event before later r earlier split found
    have hinRounds : r ∈ s.rounds plan := split ▸ List.mem_append_right later List.mem_cons_self
    rcases before.sends event with ⟨same, _⟩ | ⟨next, more, _⟩
    · exact ⟨found.complete, found.first, found.due, same ▸ found.applied, same ▸ found.inTime,
        same ▸ found.waiting⟩
    · exact found.concat (before.start_le r hinRounds) more

section

variable {later earlier : List Round} {r next : Round}

theorem Run.ended_before (hrun : Run plan events s)
    (hsplit : s.rounds plan = later ++ next :: r :: earlier) (hshort : r.Short) :
    r.finish = some (Plan.latest r.start r.commits) ∧
      Plan.latest r.start r.commits < next.start := by
  have hfound := hrun.begun later next (r :: earlier) hsplit
  have hended := (hfound.complete r List.mem_cons_self).finished
  have hinForce : next.plan.period ∈ r.periods := by
    rw [hrun.plan_eq later next (r :: earlier) hsplit]
    exact mem_periods (hrun.plan_eq (later ++ [next]) r earlier (by simp [hsplit]))
  exact ⟨hended, (hshort _ hended _ hinForce).trans_le (hfound.due r earlier rfl)⟩

/-- After a short tick, what is not applied before the next tick was not sent before it. -/
theorem Run.waiting_between (hrun : Run plan events s)
    (hsplit : s.rounds plan = later ++ next :: r :: earlier) (hshort : r.Short) :
    ∀ one ∈ (sent events).drop (takenIn (r :: earlier)).length, next.start ≤ one.1 := by
  obtain ⟨ended, less⟩ := hrun.ended_before hsplit hshort
  exact (hrun.begun later next (r :: earlier) hsplit).waiting r earlier rfl _ ended less

end

structure KeepsUpdates (plan : Plan) (events : List (Nat × Event)) (s : Scheduler) : Prop where
  /-- The plans that were sent first are applied in order, each of them once. -/
  inOrder : List.Forall₂ Applies ((sent events).take s.applied.length) s.applied
  waiting : s.phase ≠ .stopped → ((sent events).drop s.applied.length).map Prod.snd = s.inbox
  asleep : AppliedAsleep s.trace
  inForce : s.plan = (s.applied.getLast?.map Prod.snd).getD plan
  /-- What is applied in the rounds before a tick says what the tick collects, how, and when the
  next one may begin. -/
  applied : s.applied = takenIn (s.rounds plan)
  collects : ∀ later r earlier, s.rounds plan = later ++ r :: earlier → r.finish.isSome →
    (planAfter plan earlier).Collects r.start r.commits
  due : ∀ later next r earlier, s.rounds plan = later ++ next :: r :: earlier →
    r.start + (planAfter plan (r :: earlier)).period ≤ next.start
  /-- What is sent before a tick that comes after a short one is applied before it. -/
  prompt : ∀ later next r earlier, s.rounds plan = later ++ next :: r :: earlier → r.Short →
    ∀ one ∈ (sent events).drop (takenIn (r :: earlier)).length, next.start ≤ one.1

theorem Run.keeps_updates (hrun : Run plan events s) : KeepsUpdates plan events s where
  inOrder := hrun.inOrder.1
  waiting := hrun.inOrder.2
  asleep := hrun.appliedAsleep
  inForce := by
    rw [hrun.applied_eq]
    exact hrun.stage.inForce
  applied := hrun.applied_eq
  collects later r earlier split ended := by
    rw [← hrun.plan_eq later r earlier split]
    rcases hrun.complete_or split with complete | ⟨_, _, goesOn, _⟩
    · exact complete.collected
    · simp [goesOn] at ended
  due later next r earlier split := by
    rw [← hrun.plan_eq later next (r :: earlier) split]
    exact (hrun.begun later next (r :: earlier) split).due r earlier rfl
  prompt later next r earlier split short := hrun.waiting_between split short

theorem changes_keep_updates :
    Run twoServers (changes ++ [(100, .cancel)]) (run twoServers changes).2 ∧
      KeepsUpdates twoServers (changes ++ [(100, .cancel)]) (run twoServers changes).2 :=
  ⟨changes_reached, Run.keeps_updates changes_reached⟩

end Scheduler

end DirectoryMetrics
