import DirectoryMetrics.Collection.MetricSet
import DirectoryMetrics.Metrics.Sorted

namespace DirectoryMetrics

/-!
The scheduler collects all its metric sets once per period. A tick that has begun always ends; only
between ticks does the scheduler take new plans or stop. Its clock counts milliseconds.
-/

/-- One collection of a metric set, and how long it takes. -/
structure Job where
  tags : Tags
  batch : Batch Float
  duration : Nat
  deriving DecidableEq, Repr

def MetricSet.job (set : MetricSet) (connections : Connections) (delay : Nat) : Job :=
  ⟨set.tags, set.batch connections, delay * set.statistics.length⟩

/-- What is collected, how often, and whether the sets of a tick are collected side by side. -/
structure Plan where
  jobs : List Job
  period : Nat
  parallel : Bool
  deriving DecidableEq, Repr

namespace Plan

def inTurn (start : Nat) : List Job → List (Nat × Job)
  | [] => []
  | job :: rest => (start + job.duration, job) :: inTurn (start + job.duration) rest

/-- When each job of a tick ends, all at once; ties stay in the order of the plan. -/
def sideBySide (start : Nat) (jobs : List Job) : List (Nat × Job) :=
  Sorted.sortBy (fun a b => decide (a.1 < b.1)) (jobs.map fun job => (start + job.duration, job))

def commits (start : Nat) (plan : Plan) : List (Nat × Job) :=
  if plan.parallel then sideBySide start plan.jobs else inTurn start plan.jobs

def latest (start : Nat) (commits : List (Nat × Job)) : Nat :=
  commits.foldl (fun latest commit => max latest commit.1) start

def tickEnd (start : Nat) (plan : Plan) : Nat := latest start (plan.commits start)

end Plan

inductive Phase where
  | idle
  | collecting
  | sleeping
  | stopped
  deriving DecidableEq, Repr

def Phase.name : Phase → String
  | .idle => "Idle"
  | .collecting => "Collecting"
  | .sleeping => "Sleeping"
  | .stopped => "Stopped"

inductive Record where
  | entered (time : Nat) (phase : Phase)
  | committed (time : Nat) (job : Job)
  | applied (time : Nat) (plan : Plan)
  deriving DecidableEq, Repr

structure Scheduler where
  plan : Plan
  phase : Phase
  clock : Nat
  /-- When the latest tick began. -/
  started : Nat
  /-- Plans that were sent and not taken yet. -/
  inbox : List Plan
  closed : Bool
  listening : Bool
  cancelled : Bool
  trace : List Record
  deriving DecidableEq, Repr

namespace Scheduler

def new (plan : Plan) : Scheduler :=
  ⟨plan, .idle, 0, 0, [], false, true, false, []⟩

def deadline (s : Scheduler) : Nat := s.started + s.plan.period

def tickEnd (s : Scheduler) : Nat := s.plan.tickEnd s.started

def enter (phase : Phase) (s : Scheduler) : Scheduler :=
  { s with phase, trace := s.trace ++ [.entered s.clock phase] }

def beginTick (s : Scheduler) : Scheduler := { s with started := s.clock }.enter .collecting

def endTickWith (commits : List (Nat × Job)) (s : Scheduler) : Scheduler :=
  { s with
    clock := Plan.latest s.started commits
    trace := s.trace ++ commits.map fun (time, job) => Record.committed time job }.enter .sleeping

def endTick (s : Scheduler) : Scheduler := s.endTickWith (s.plan.commits s.started)

inductive Choice where
  | stop
  | receive
  | wake
  deriving DecidableEq, Repr

def isReady (s : Scheduler) : Choice → Bool
  | .stop => s.cancelled
  | .receive => s.listening && (!s.inbox.isEmpty || s.closed)
  | .wake => s.deadline ≤ s.clock

/-- Takes the oldest plan; without one the channel is closed, and is not looked at again. -/
def receive (s : Scheduler) : Scheduler :=
  match s.inbox with
  | plan :: rest => { s with plan, inbox := rest, trace := s.trace ++ [.applied s.clock plan] }
  | [] => { s with listening := false }

def choose (s : Scheduler) : Choice → Scheduler
  | .stop => s.enter .stopped
  | .receive => s.receive
  | .wake => s.beginTick

def nextChoice? (s : Scheduler) : Option Choice :=
  [Choice.stop, .receive, .wake].find? s.isReady

/-- One thing that the scheduler does by itself up to a time; none if there is nothing to do. -/
def step? (limit : Nat) (s : Scheduler) : Option Scheduler :=
  match s.phase with
  | .idle => some s.beginTick
  | .collecting => if s.tickEnd ≤ limit then some s.endTick else none
  | .sleeping =>
      match s.nextChoice? with
      | some choice => some (s.choose choice)
      | none =>
          if s.deadline ≤ limit then some ({ s with clock := s.deadline }.choose .wake) else none
  | .stopped => none

def advance (limit : Nat) : (steps : Nat) → Scheduler → Scheduler
  | 0, s => s
  | steps + 1, s =>
      match s.step? limit with
      | some s => advance limit steps s
      | none => { s with clock := max s.clock limit }

/-- Goes on to a time. A tick and the sleep after it take two steps, and at least one unit of time
where periods are positive. -/
def runUntil (limit : Nat) (s : Scheduler) : Scheduler :=
  s.advance limit (2 * (limit - s.clock) + 2 * s.inbox.length + 6)

inductive Event where
  | probe
  | close
  | cancel
  | reconfigure (plan : Plan)
  deriving DecidableEq, Repr

/-- Nothing can be sent into a closed channel or to a scheduler that has stopped. -/
def handle (s : Scheduler) : Event → Scheduler
  | .probe => s
  | .close => { s with closed := true }
  | .cancel => { s with cancelled := true }
  | .reconfigure plan =>
      if s.closed || s.phase == .stopped then s else { s with inbox := s.inbox ++ [plan] }

def deliver (s : Scheduler) : List (Nat × Event) → List Phase × Scheduler
  | [] => ([], s)
  | (time, event) :: rest =>
      let s := s.runUntil time
      let (phases, last) := deliver (s.handle event) rest
      (s.phase :: phases, last)

/-- After a cancellation the tick under way ends, and then the scheduler stops. -/
def finish (s : Scheduler) : Scheduler :=
  let s := s.handle .cancel
  match s.phase with
  | .idle | .collecting => s.advance (max s.clock s.tickEnd) 6
  | .sleeping | .stopped => s.advance s.clock 6

/-- A run through events in order of time, which is cancelled after the last of them. -/
def run (plan : Plan) (events : List (Nat × Event)) : List Phase × Scheduler :=
  let (phases, s) := (new plan).deliver events
  (phases, s.finish)

def commits (s : Scheduler) : List (Nat × Job) :=
  s.trace.filterMap fun
    | .committed time job => some (time, job)
    | _ => none

end Scheduler

end DirectoryMetrics
