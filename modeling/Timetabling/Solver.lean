import Timetabling.Problem
import Timetabling.Penalty
import Timetabling.Score
import Timetabling.Search

/-!
# Solving a problem

Arc consistency first, then the search. A search that does not complete hands back the largest
schedule it has seen, if it has seen any.
-/

namespace Timetabling

/-- Why there is no schedule at all. -/
inductive Infeasibility where
  /-- A subject had no candidates, or lost all to arc consistency. -/
  | domainWipeout (subject : SubjectId)
  /-- The search came to its end without a schedule. -/
  | searchExhausted
  /-- The deadline came before the first booking. -/
  | outOfTime
deriving Repr, DecidableEq

def Infeasibility.message : Infeasibility → String
  | .domainWipeout x => "subject " ++ Decimal.text x.toNat ++ " has no remaining candidates"
  | .searchExhausted => "search space exhausted"
  | .outOfTime => "deadline expired before any subject was placed"

/-- The reason as it is told to those who asked for a schedule. -/
def Infeasibility.report (i : Infeasibility) : String := "No feasible solution: " ++ i.message

/-- A schedule written down, with its audit and its price. -/
structure Solution where
  entries : List Entry
  hardViolations : Nat
  softPenalty : Rat
  /-- The subjects without an entry, in the order and as often as the problem lists them. -/
  unassigned : List SubjectId
deriving Repr, DecidableEq

namespace Solution

def isPartial (s : Solution) : Bool := !s.unassigned.isEmpty

def score (s : Solution) : Rat := Score.ofPenalty s.softPenalty

/-- The audit and price of a schedule for a problem. -/
def ofSchedule (p : Problem) (order : Penalty.Order) (schedule : Schedule) : Solution where
  entries := schedule.toEntries
  hardViolations := p.rules.hardViolations p.slots schedule
  softPenalty := Penalty.total p.slots schedule order
  unassigned := schedule.unassigned p.ids

end Solution

/-- Solves one problem, as often as asked. -/
structure Solver where
  problem : Problem
  /-- Whether the order of candidates looks at slots; otherwise sharing a teacher or room counts as
  a conflict at whatever time. -/
  slotAware : Bool := true
  /-- The order in which the pricing comes by the loads of the teachers. -/
  order : Penalty.Order := .asListed
  /-- The counters of the latest run. -/
  stats : Search.Stats := {}

namespace Solver

def context (s : Solver) (deadline : Deadline) : Search.Context where
  ids := s.problem.ids
  slots := s.problem.slots
  orderSlots := if s.slotAware then s.problem.slots else ∅
  rules := s.problem.rules
  deadline := deadline

/-- The schedule that a finished search stands for. -/
def answer (o : Search.Outcome) (best : Schedule) : Except Infeasibility Schedule :=
  match o with
  | .complete schedule => .ok schedule
  | .timedOut => if best.isEmpty then .error .outOfTime else .ok best
  | .exhausted => if best.isEmpty then .error .searchExhausted else .ok best

/-- The counters start at zero in each run and stay there if arc consistency fails. -/
def run (s : Solver) (deadline : Deadline) : Except Infeasibility Solution × Solver :=
  match s.problem.domains.propagate s.problem.slots s.problem.ids with
  | ⟨.error x, _⟩ => (.error (.domainWipeout x), { s with stats := {} })
  | ⟨.ok _, d⟩ =>
    let (outcome, final) := Search.run (s.context deadline) d
    ((answer outcome final.best).map (Solution.ofSchedule s.problem s.order),
      { s with stats := final.stats })

end Solver

end Timetabling
