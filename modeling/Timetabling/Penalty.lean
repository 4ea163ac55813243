import Timetabling.Number.Binary64
import Timetabling.Schedule

/-!
# Soft penalties

The price of a schedule: twice the idle periods beyond what is tolerated, plus one and a half times
the mean absolute deviation of the teachers' loads.

The price is worked out in steps, and a function `round` is applied to the result of each. With the
identity the price is `exactTotal`. The price that is told is `total`, in binary64 arithmetic, where
every step is rounded. The deviations of the loads are then summed with rounding, so the last bits
of the price depend on the order in which the teachers come, and that is left open (`Order`).
-/

namespace Timetabling

/-- One teacher on one day of the week. -/
abbrev Workday := TeacherId × UInt8

namespace Penalty

def gapWeight : Rat := 2

def loadWeight : Rat := 3 / 2

/-- The idle periods that a day may have for nothing. -/
def toleratedGap : Int := 2

/-- When the bookings of each working day start; a booking in an unknown slot has no day. -/
def starts (slots : SlotIndex) (p : Schedule) : List (Workday × Int) :=
  p.values.filterMap fun v =>
    (slots.get? v.slot).map fun s => ((v.teacher, s.dayOfWeek), (s.startPeriod.toNat : Int))

/-- From the earliest start of a day to the latest. -/
def span (day : List Int) : Int := day.max?.getD 0 - day.min?.getD 0

/-- The untolerated periods of a day between its first and last start, each booking taken to fill
one. -/
def excess (day : List Int) : Int := max 0 (span day - day.length - toleratedGap)

/-- The excess of every working day. -/
def gap (slots : SlotIndex) (p : Schedule) : Int :=
  (Table.group (starts slots p)).values.foldr (fun day total => excess day + total) 0

/-- How many bookings each teacher used has. -/
def loads (p : Schedule) : List Nat :=
  (Table.group (p.values.map fun v => (v.teacher, v))).values.map List.length

def mean (round : Rat → Rat) (loads : List Nat) : Rat :=
  round ((loads.foldr (· + ·) 0 : Nat) / loads.length)

/-- The mean absolute deviation of the loads from their mean; no load deviates by zero. -/
def deviation (round : Rat → Rat) (loads : List Nat) : Rat :=
  if loads.isEmpty then 0
  else
    let m := mean round loads
    round (loads.foldr (fun (n : Nat) sum => round ((round (n - m)).abs + sum)) 0 / loads.length)

/-- An order in which to come by the loads of the teachers. -/
structure Order where
  arrange : List Nat → List Nat
  perm : ∀ loads, (arrange loads).Perm loads

/-- The order in which the loads are listed. -/
def Order.asListed : Order := ⟨id, .refl⟩

def totalBy (round : Rat → Rat) (slots : SlotIndex) (p : Schedule) (order : Order) : Rat :=
  round (round (gapWeight * round (gap slots p)) +
    round (loadWeight * deviation round (order.arrange (loads p))))

/-- Without rounding the order does not matter. -/
def exactTotal (slots : SlotIndex) (p : Schedule) : Rat := totalBy id slots p .asListed

def total (slots : SlotIndex) (p : Schedule) (order : Order := .asListed) : Rat :=
  totalBy Binary64.nearest slots p order

end Penalty

end Timetabling
