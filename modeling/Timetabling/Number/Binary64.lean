import Timetabling.Number.Round

/-!
# Numbers with a 53-bit significand

A binary64 number is an integer of at most 53 bits times a power of two, the exponent of which is
at least -1074. `nearest` rounds to the closest one, ties to the even significand; it has no upper
end, so it agrees with the format up to the largest finite number.
-/

namespace Timetabling.Binary64

def twoPow : Int → Rat
  | .ofNat k => ((1 <<< k : Nat) : Rat)
  | .negSucc k => 1 / ((1 <<< (k + 1) : Nat) : Rat)

/-- The exponent of the largest power of two that does not exceed a positive number. -/
def magnitude (q : Rat) : Int :=
  let estimate : Int := (q.num.natAbs.log2 : Int) - (q.den.log2 : Int)
  if twoPow estimate ≤ q then estimate else estimate - 1

/-- The distance of neighbouring binary64 numbers around `q`. -/
def spacing (q : Rat) : Rat := twoPow (max (magnitude q.abs - 52) (-1074))

def nearest (q : Rat) : Rat :=
  if q = 0 then 0 else (roundHalfEven (q / spacing q) : Rat) * spacing q

/-- The least positive number that is rounded away from all finite binary64 numbers: half a unit
above the largest of them. -/
def overflowBound : Rat := twoPow 1024 - twoPow 970

end Timetabling.Binary64
