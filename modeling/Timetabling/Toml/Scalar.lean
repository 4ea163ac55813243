import Timetabling.Number.Binary64
import Timetabling.Number.Decimal
import Timetabling.Toml.Document
import Timetabling.Toml.Text

/-!
# Numbers, dates and times

A text that begins like a number is a date or time if it can be, else a float, else an integer.
Integers have 64 bits and a sign, and a float must not be rounded to infinity.
-/

namespace Timetabling.Toml

/-- Digits with single underscores between them. -/
def digitsOf (isDigit : Char → Bool) : List Char → List Char × List Char
  | [] => ([], [])
  | '_' :: c :: r =>
    if isDigit c then
      let (ds, rest) := digitsOf isDigit r
      (c :: ds, rest)
    else ([], '_' :: c :: r)
  | c :: r =>
    if isDigit c then
      let (ds, rest) := digitsOf isDigit r
      (c :: ds, rest)
    else ([], c :: r)

/-- At least one digit, and no underscore before the first. -/
def digits1? (isDigit : Char → Bool) (s : List Char) : Option (List Char × List Char) :=
  match s with
  | c :: _ => if isDigit c then some (digitsOf isDigit s) else none
  | [] => none

/-- Whether there is a minus. -/
def sign (s : List Char) : Bool × List Char :=
  match s with
  | '-' :: r => (true, r)
  | '+' :: r => (false, r)
  | _ => (false, s)

/-- A single zero or digits that do not begin with one. -/
def whole? (s : List Char) : Option (List Char × List Char) :=
  match s with
  | '0' :: r => some (['0'], r)
  | _ => digits1? Char.isDigit s

/-- The digits of a base, by the letter that follows its zero. -/
def base? : Char → Option Nat
  | 'x' => some 16
  | 'o' => some 8
  | 'b' => some 2
  | _ => none

def isDigitOf (base : Nat) (c : Char) : Bool :=
  match Hex.value? c with
  | some d => d < base
  | none => false

def valueIn (base : Nat) (ds : List Char) : Nat :=
  ds.foldl (fun n c => base * n + (Hex.value? c).getD 0) 0

def fitsInteger (n : Int) : Bool := -9223372036854775808 ≤ n && n ≤ 9223372036854775807

/-- An integer with a base in front and no sign. -/
def basedInteger? : List Char → Option (Int × List Char)
  | '0' :: c :: r => do
    let base ← base? c
    let (ds, rest) ← digits1? (isDigitOf base) r
    return ((valueIn base ds : Int), rest)
  | _ => none

def decimalInteger? (s : List Char) : Option (Int × List Char) := do
  let (negative, r) := sign s
  let (ds, rest) ← whole? r
  return (if negative then -(Decimal.value ds : Int) else Decimal.value ds, rest)

def integer (s : List Char) : Option (Node × List Char) := do
  let (n, rest) ← (basedInteger? s).or (decimalInteger? s)
  if fitsInteger n then return (.integer n, rest) else none

/-- Whether a number with these digits, times a power of ten, is rounded beyond the largest finite
binary64 number. Its number of digits decides this but for one order of magnitude. -/
def overflows (ds : List Char) (exponent : Int) : Bool :=
  let significant := ds.dropWhile (· = '0')
  let order : Int := significant.length + exponent
  !significant.isEmpty &&
    (309 < order ||
      309 ≤ order &&
        Binary64.overflowBound * (Nat.pow 10 (-exponent).toNat : Nat) ≤
          (Decimal.value significant * Nat.pow 10 exponent.toNat : Nat))

def special? : List Char → Option (List Char)
  | 'i' :: 'n' :: 'f' :: r => some r
  | 'n' :: 'a' :: 'n' :: r => some r
  | _ => none

/-- The digits after the point, none if there is no point. -/
def fraction? (s : List Char) : Option (List Char × List Char) :=
  match s with
  | '.' :: r => digits1? Char.isDigit r
  | _ => some ([], s)

/-- The power of ten, zero if there is none. -/
def exponent? (s : List Char) : Option (Int × List Char) :=
  match s with
  | c :: r =>
    if c = 'e' || c = 'E' then do
      let (negative, r) := sign r
      let (ds, rest) ← digits1? Char.isDigit r
      let n : Int := Decimal.value ds
      return (if negative then -n else n, rest)
    else some (0, s)
  | [] => some (0, s)

def float (s : List Char) : Option (Node × List Char) :=
  let (negative, r) := sign s
  match special? r with
  | some rest => some (.float, rest)
  | none => do
    let (ds, afterWhole) ← whole? r
    let (fs, afterFraction) ← fraction? afterWhole
    let (exponent, rest) ← exponent? afterFraction
    if rest.length = afterWhole.length then none
    else if !negative && overflows (ds ++ fs) (exponent - fs.length) then none
    else return (.float, rest)

/-- A number of exactly `count` digits. -/
def fixedDigits (count : Nat) (s : List Char) : Option (Nat × List Char) :=
  let ds := s.take count
  if ds.length = count && ds.all Char.isDigit then some (Decimal.value ds, s.drop count) else none

/-- Two digits of which the number is at most `most`. -/
def upTo (most : Nat) (s : List Char) : Option (Nat × List Char) := do
  let (n, r) ← fixedDigits 2 s
  if n ≤ most then return (n, r) else none

def take? (c : Char) : List Char → Option (List Char)
  | d :: r => if d = c then some r else none
  | [] => none

def isLeapYear (year : Nat) : Bool := year % 4 = 0 && (year % 100 ≠ 0 || year % 400 = 0)

def daysIn (year month : Nat) : Nat :=
  if month = 2 then if isLeapYear year then 29 else 28
  else if month = 4 || month = 6 || month = 9 || month = 11 then 30
  else 31

def date? (s : List Char) : Option (List Char) := do
  let (year, s) ← fixedDigits 4 s
  let (month, s) ← upTo 12 (← take? '-' s)
  let (day, s) ← upTo 31 (← take? '-' s)
  if 1 ≤ month && 1 ≤ day && day ≤ daysIn year month then return s else none

/-- Hours, minutes and seconds, and digits after a point if there are any. A minute may have a leap
second. -/
def time? (s : List Char) : Option (List Char) := do
  let (_, s) ← upTo 23 s
  let (_, s) ← upTo 59 (← take? ':' s)
  let (_, s) ← upTo 60 (← take? ':' s)
  match s with
  | '.' :: c :: r => return if c.isDigit then r.dropWhile Char.isDigit else s
  | _ => return s

/-- The distance from the time at the zero meridian. -/
def offset? : List Char → Option (List Char)
  | [] => none
  | c :: r =>
    if c = 'Z' || c = 'z' then some r
    else if c = '+' || c = '-' then do
      let (_, s) ← upTo 23 r
      let (_, s) ← upTo 59 (← take? ':' s)
      return s
    else none

/-- A date, a date with a time and perhaps an offset, or a time. -/
def moment (s : List Char) : Option (Node × List Char) :=
  match date? s with
  | none => (time? s).map fun r => (.moment, r)
  | some r =>
    let timed : Option (List Char) :=
      match r with
      | c :: r' => if c = 'T' || c = 't' || c = ' ' then time? r' else none
      | [] => none
    match timed with
    | none => some (.moment, r)
    | some r => some (.moment, (offset? r).getD r)

/-- What a text that begins with a digit or a sign stands for. -/
def number (s : List Char) : Option (Node × List Char) :=
  (moment s).or ((float s).or (integer s))

end Timetabling.Toml
