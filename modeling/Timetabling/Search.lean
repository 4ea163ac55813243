import Timetabling.Branching

/-!
# Backtracking search

`Search.explore` books one subject after another. Each booking drops the candidates in conflict
with it from the unassigned subjects; a booking that empties a domain, or below which nothing is
found, is taken back. One state is threaded through all branches: it carries the schedule and the
domains of the branch, the largest schedule seen so far, and the counters.
-/

namespace Timetabling

/-- A point in time up to which a search may run. What a search notices of it is what each of its
looks at the clock tells, and these are numbered from zero; the first look that comes late is the
last. -/
structure Deadline where
  late : Nat → Bool

namespace Deadline

/-- Passed before the search begins. -/
def expired : Deadline := ⟨fun _ => true⟩

def never : Deadline := ⟨fun _ => false⟩

@[simp] theorem late_expired (look : Nat) : expired.late look = true := rfl

@[simp] theorem late_never (look : Nat) : never.late look = false := rfl

end Deadline

namespace Search

structure Stats where
  nodes : Nat := 0
  backtracks : Nat := 0
  wipeouts : Nat := 0
  /-- The most subjects booked at one time. -/
  maxDepth : Nat := 0
deriving Repr, DecidableEq

/-- What stays the same during a search. -/
structure Context where
  ids : List SubjectId
  slots : SlotIndex
  /-- The slots that the order of candidates looks at. -/
  orderSlots : SlotIndex
  rules : Rulebook
  deadline : Deadline

structure State where
  schedule : Schedule
  domains : Domains
  /-- The largest schedule seen; of several the first. -/
  best : Schedule
  stats : Stats
deriving Repr, DecidableEq

/-- How an exploration ended. -/
inductive Outcome where
  | complete (schedule : Schedule)
  | timedOut
  | exhausted
deriving Repr, DecidableEq

namespace State

def start (d : Domains) : State := ⟨∅, d, ∅, {}⟩

/-- Records how far the search has come. -/
def record (s : State) : State :=
  { s with
    best := if s.best.size < s.schedule.size then s.schedule else s.best
    stats := { s.stats with maxDepth := max s.stats.maxDepth s.schedule.size } }

def countNode (s : State) : State :=
  { s with stats := { s.stats with nodes := s.stats.nodes + 1 } }

def countWipeout (s : State) : State :=
  { s with stats := { s.stats with wipeouts := s.stats.wipeouts + 1 } }

def place (s : State) (x : SubjectId) (v : Booking) (d : Domains) : State :=
  { s with schedule := s.schedule.insert x v, domains := d }

/-- Takes the booking of `x` back and puts the domains `d` in place. -/
def retract (s : State) (x : SubjectId) (d : Domains) : State :=
  { s with
    schedule := s.schedule.erase x
    domains := d
    stats := { s.stats with backtracks := s.stats.backtracks + 1 } }

end State

/-- Drops from each unassigned subject the candidates in conflict with `v` for `x`. Stops at the
first domain that this empties, with the domains pruned so far, and then answers `false`. -/
def forwardCheck (slots : SlotIndex) (x : SubjectId) (v : Booking) (p : Schedule) :
    List SubjectId → Domains → Bool × Domains
  | [], d => (true, d)
  | y :: ys, d =>
    if y = x || y ∈ p then forwardCheck slots x v p ys d
    else
      match d.get? y with
      | none => forwardCheck slots x v p ys d
      | some ws =>
        let kept := ws.filter fun w => !conflict slots x v y w
        if kept.isEmpty then (false, d.insert y kept)
        else forwardCheck slots x v p ys (d.insert y kept)

/-- Tries the candidates of `x` in turn until one of them leads to an end of the search. -/
def tryEach (c : Context) (explore : State → Outcome × State) (x : SubjectId) :
    List Booking → State → Outcome × State
  | [], s => (.exhausted, s)
  | v :: vs, s =>
    if c.rules.admits c.slots x v s.schedule then
      match forwardCheck c.slots x v (s.schedule.insert x v) c.ids s.domains with
      | (false, d) => tryEach c explore x vs ((s.place x v d).countWipeout.retract x s.domains)
      | (true, d) =>
        match explore (s.place x v d) with
        | (.exhausted, s') => tryEach c explore x vs (s'.retract x s.domains)
        | done => done
    else tryEach c explore x vs s

/-- Explores `s`, where `below` explores what lies below it. The clock is looked at first; looks
that are in time are counted as nodes, so `nodes` is also the number of the next look. -/
def visit (c : Context) (below : State → Outcome × State) (s : State) : Outcome × State :=
  if c.deadline.late s.stats.nodes then (.timedOut, s.record)
  else
    match s.domains.mostConstrained c.ids s.schedule with
    | none => (.complete s.schedule, s.record.countNode)
    | some x =>
      tryEach c below x
        (s.domains.leastConstraining c.orderSlots c.ids s.schedule x) s.record.countNode

/-- Looks for a complete schedule below `s`. The first argument bounds the depth: each level books
another subject, so one more than there are subjects is never used up. -/
def explore (c : Context) : Nat → State → Outcome × State
  | 0, s => (.timedOut, s)
  | depth + 1, s => visit c (explore c depth) s

/-- A search from the empty schedule. -/
def run (c : Context) (d : Domains) : Outcome × State :=
  explore c (c.ids.length + 1) (State.start d)

end Search

end Timetabling
