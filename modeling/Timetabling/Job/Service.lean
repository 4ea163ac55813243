import Timetabling.Failure
import Timetabling.Generation
import Timetabling.Job.Id

/-!
# Jobs

A submitted generation is a job: it is registered at once, runs in a task of its own, and when the
task is done its outcome is stored and an event about it goes out. A task whose budget does not fit
the clock dies, and its job is never finished. Tasks run side by side, so the service is a machine
of small steps that may come in any order, each task under conditions of its own; `settle` is the
order in which one job passes through them alone.
-/

namespace Timetabling

namespace Job

inductive Status where
  | solving
  | completed (result : Solution)
  | failed (reason : String) (score : Rat)
deriving Repr, DecidableEq

def Status.isFinished : Status → Bool
  | .solving => false
  | _ => true

/-- Tells the world how a job has ended. -/
inductive Event where
  | completed (job : JobId) (score : Rat) (isPartial : Bool) (unassignedCount : Nat)
  | failed (job : JobId) (reason : String)
deriving Repr, DecidableEq

def Event.job : Event → JobId
  | .completed job _ _ _ => job
  | .failed job _ => job

/-- The status that a generation ends in. -/
def Status.ofOutcome : Except Infeasibility Solution → Status
  | .ok result => .completed result
  | .error reason => .failed reason.report Score.failed

def Event.ofOutcome (job : JobId) : Except Infeasibility Solution → Event
  | .ok result => .completed job result.score result.isPartial result.unassigned.length
  | .error reason => .failed job reason.report

/-- A job that has not ended. -/
structure Task where
  job : JobId
  snapshot : Snapshot
  budget : UInt64

/-- Takes events, or refuses them; nobody waits for either. -/
abbrev Publisher := Event → Except PublishError Unit

/-- What can happen to a service. -/
inductive Step where
  /-- A job comes in under a fresh id; without a budget it has that of the settings. -/
  | submit (job : JobId) (snapshot : Snapshot) (budget : Option UInt64)
  /-- A job has been solved under these conditions, and its outcome is stored. -/
  | finish (job : JobId) (conditions : Conditions)
  /-- The event of a finished job goes to the publisher. -/
  | publish (job : JobId)
  /-- The task of a job breaks off under these conditions. -/
  | die (job : JobId) (conditions : Conditions)

end Job

/-- The job table, with the tasks that run and the events on their way out. -/
structure Service where
  settings : SolverSettings := {}
  jobs : Table JobId Job.Status := ∅
  running : List Job.Task := []
  unsent : List Job.Event := []
  /-- The events given to the publisher, whether it took them or not. -/
  sent : List Job.Event := []

namespace Service

open Job

def task? (s : Service) (job : JobId) : Option Task := s.running.find? fun t => t.job = job

/-- How the generation of a task ends. -/
def outcome (s : Service) (t : Task) (conditions : Conditions) :
    Except Breakdown (Except Infeasibility Solution) :=
  t.snapshot.generate s.settings t.budget conditions

def submit (s : Service) (job : JobId) (snapshot : Snapshot) (budget : Option UInt64) : Service :=
  { s with
    jobs := s.jobs.insert job .solving
    running := s.running ++ [⟨job, snapshot, budget.getD s.settings.deadlineSecs⟩] }

def endTask (s : Service) (job : JobId) : Service :=
  { s with running := s.running.filter fun t => t.job ≠ job }

/-- Stores the outcome of a running job that has one. -/
def finish (s : Service) (job : JobId) (conditions : Conditions) : Service :=
  match s.task? job with
  | none => s
  | some t =>
    match s.outcome t conditions with
    | .error _ => s
    | .ok result =>
      { s.endTask job with
        jobs := s.jobs.insert job (.ofOutcome result)
        unsent := s.unsent ++ [.ofOutcome job result] }

/-- Ends the task of a job that has no outcome, and leaves the job as it is. -/
def die (s : Service) (job : JobId) (conditions : Conditions) : Service :=
  match s.task? job with
  | none => s
  | some t =>
    match s.outcome t conditions with
    | .error _ => s.endTask job
    | .ok _ => s

/-- Gives the event of a job to the publisher. An event that is refused is not sent again. -/
def publish (publisher : Publisher) (s : Service) (job : JobId) : Service :=
  match s.unsent.find? fun e => e.job = job with
  | none => s
  | some e =>
    let handedOver :=
      { s with unsent := s.unsent.filter fun e => e.job ≠ job, sent := s.sent ++ [e] }
    match publisher e with
    | .ok () => handedOver
    | .error _ => handedOver

def step (publisher : Publisher) (s : Service) : Step → Service
  | .submit job snapshot budget => s.submit job snapshot budget
  | .finish job conditions => s.finish job conditions
  | .publish job => s.publish publisher job
  | .die job conditions => s.die job conditions

/-- Everything that is left to happen to one job. -/
def settle (publisher : Publisher) (s : Service) (job : JobId) (conditions : Conditions := {}) :
    Service :=
  [Step.finish job conditions, .die job conditions, .publish job].foldl (step publisher) s

def status? (s : Service) (job : JobId) : Option Status := s.jobs.get? job

/-- The ids of all jobs, in the order of submission. -/
def list (s : Service) : List JobId := s.jobs.keys

end Service

end Timetabling
