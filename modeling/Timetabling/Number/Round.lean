/-!
# Rounding to whole numbers

`roundHalfEven q` is an integer next to `q`: the nearer one, and of two equally near the even one.
-/

namespace Timetabling

/-- The nearest integer; a tie goes to the even neighbour. -/
def roundHalfEven (q : Rat) : Int :=
  let low := q.floor
  let part := q - low
  if part < 1 / 2 then low
  else if 1 / 2 < part then low + 1
  else if low % 2 = 0 then low
  else low + 1

end Timetabling
