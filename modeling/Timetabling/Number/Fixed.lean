import Timetabling.Number.Decimal
import Timetabling.Number.Round

/-!
# Decimals with a fixed number of places
-/

namespace Timetabling.Fixed

/-- The last `places` digits of `n`, with leading zeros. -/
def lastDigits : Nat → Nat → List Char
  | 0, _ => []
  | places + 1, n => lastDigits places (n / 10) ++ [Nat.digitChar (n % 10)]

/-- `q` to the nearest multiple of the last place, ties to the even one; the sign is kept also when
all digits are zero. -/
def text (places : Nat) (q : Rat) : String :=
  let scale := Nat.pow 10 places
  let n := (roundHalfEven (q.abs * scale)).toNat
  (if q < 0 then "-" else "") ++ Decimal.text (n / scale) ++ "." ++
    String.ofList (lastDigits places (n % scale))

end Timetabling.Fixed
