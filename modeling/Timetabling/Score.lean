import Timetabling.Number.Binary64
import Timetabling.Number.Fixed

/-!
# Scores

A schedule scores what its penalty leaves of `Score.base`. Penalties and scores are binary64 numbers
and written with nine decimals.
-/

namespace Timetabling.Score

/-- The score of a schedule without a penalty. -/
def base : Rat := 100

/-- Not clamped: a heavy penalty gives a negative score. -/
def ofPenalty (penalty : Rat) : Rat := Binary64.nearest (base - penalty)

/-- The score put down for a run without a schedule. -/
def failed : Rat := -1

def places : Nat := 9

/-- A score or penalty as it is written. -/
def text (q : Rat) : String := Fixed.text places q

end Timetabling.Score
