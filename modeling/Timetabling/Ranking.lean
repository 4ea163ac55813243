import Timetabling.Rulebook

/-!
# Suggesting teachers

Candidates for a subject are ranked by fitness, free hours and known availability, each teacher by
itself; equals keep the order in which they were named.
-/

namespace Timetabling

/-- A teacher suggested for a subject; higher scores are better. -/
structure Ranking where
  teacher : TeacherId
  score : Int
deriving Repr, DecidableEq

namespace Ranking

def specializationBonus : Int := 30

/-- Free hours beyond these do not count. -/
def headroomCap : Int := 20

def availabilityBonus : Int := 5

/-- The weekly hours of the subjects that a schedule gives to teacher `t`. -/
def assignedHours (r : Rulebook) (p : Schedule) (t : TeacherId) : Int :=
  (p.entries.filter fun e => e.2.teacher = t).foldr
    (fun e hours => ((r.hoursOf e.1).toNat : Int) + hours) 0

/-- The hours teacher `t` has left; negative if overbooked. -/
def headroom (r : Rulebook) (p : Schedule) (t : TeacherId) : Int :=
  ((r.maxHoursOf t).toNat : Int) - assignedHours r p t

def scoreOf (r : Rulebook) (x : SubjectId) (p : Schedule) (t : TeacherId) : Int :=
  min (headroom r p t) headroomCap + (if r.qualified x t then specializationBonus else 0) +
    if r.knowsAvailability t then availabilityBonus else 0

/-- The candidates for subject `x` beside the schedule `p`, best first. -/
def rank (r : Rulebook) (x : SubjectId) (candidates : List TeacherId) (p : Schedule) :
    List Ranking :=
  (candidates.map fun t => ⟨t, scoreOf r x p t⟩).mergeSort fun a b => b.score ≤ a.score

end Ranking

end Timetabling
