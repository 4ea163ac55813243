import Timetabling.Settings
import Timetabling.Solver

/-!
# Generating a timetable from a snapshot

A generation has a budget of whole seconds. What becomes of it depends on the clock: a budget that
reaches beyond the range of the clock makes the generation break off without an answer, and any
other sets a deadline that may pass before the search, in the middle of it, or not at all.
-/

namespace Timetabling

/-- What the clock shows in the course of one generation, in nanoseconds: when the budget is taken
up, and at each look of the search. -/
structure Clock where
  start : Nat
  look : Nat → Nat
  /-- A clock does not go back. -/
  start_le : ∀ n, start ≤ look n

namespace Clock

def second : Nat := 1000000000

/-- The seconds that a clock can count. -/
def range : Nat := 9223372036854775808

/-- A clock that stands still at a full second. -/
def standing (seconds : Nat) : Clock :=
  ⟨second * seconds, fun _ => second * seconds, fun _ => Nat.le_refl _⟩

end Clock

/-- When a budget that is taken up now runs out, unless that is beyond the range of the clock. -/
def Deadline.after? (clock : Clock) (budget : UInt64) : Option Deadline :=
  let due := clock.start + Clock.second * budget.toNat
  if due < Clock.second * Clock.range then some ⟨fun n => due ≤ clock.look n⟩ else none

/-- What a generation does not choose: the clock, and the order in which its pricing comes by the
loads of the teachers. -/
structure Conditions where
  clock : Clock := .standing 1
  order : Penalty.Order := .asListed

/-- Why a generation broke off. -/
inductive Breakdown where
  | clockOverflow
deriving Repr, DecidableEq

def Breakdown.message : Breakdown → String
  | .clockOverflow => "overflow when adding duration to instant"

namespace Snapshot

/-- The solver of one generation. -/
def solver (s : Snapshot) (settings : SolverSettings) (order : Penalty.Order) : Solver where
  problem := Problem.ofSnapshot s
  slotAware := settings.slotAwareOrder
  order := order

/-- The timetable of a snapshot, sought until the deadline. -/
def solve (s : Snapshot) (settings : SolverSettings) (deadline : Deadline)
    (order : Penalty.Order := .asListed) : Except Infeasibility Solution :=
  ((s.solver settings order).run deadline).1

/-- One generation within a budget. -/
def generate (s : Snapshot) (settings : SolverSettings) (budget : UInt64)
    (conditions : Conditions := {}) : Except Breakdown (Except Infeasibility Solution) :=
  match Deadline.after? conditions.clock budget with
  | none => .error .clockOverflow
  | some deadline => .ok (s.solve settings deadline conditions.order)

end Snapshot

end Timetabling
