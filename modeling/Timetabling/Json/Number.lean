import Timetabling.Json.Reader
import Timetabling.Number.Binary64
import Timetabling.Number.Decimal

/-!
# Numbers

A number that is read is either a natural number below 2^64, written without sign, fraction and
exponent, or it is of no use to any record here. Either way it has to be well formed, and it has to
fit a binary64 number.
-/

namespace Timetabling.Json.Number

/-- Natural numbers are kept below this bound; what does not fit counts as a fraction. -/
def bound : Nat := 18446744073709551616

/-- Takes digits into a significand for as long as it stays below `bound`, and says how many. -/
def absorb : Nat → List Char → Nat × Nat
  | n, [] => (n, 0)
  | n, c :: cs =>
    let next := 10 * n + Decimal.digitValue c
    if next < bound then
      let (total, count) := absorb next cs
      (total, count + 1)
    else (n, 0)

/-- Whether a significand times a power of ten, each rounded to binary64 first, is beyond the
largest finite binary64 number. -/
def overflows (significand : Nat) (exponent : Int) : Bool :=
  significand ≠ 0 && 0 ≤ exponent &&
    (308 < exponent ||
      Binary64.overflowBound ≤
        Binary64.nearest significand * Binary64.nearest (Nat.pow 10 exponent.toNat : Nat))

/-- The text of a number after its sign, in parts. -/
structure Parts where
  whole : List Char
  fraction : Option (List Char)
  /-- Whether the exponent is negative, and its digits. -/
  exponent : Option (Bool × List Char)

/-- At least one digit. -/
def digits1 (s : List Char) : Except Fault (List Char × List Char) :=
  match s with
  | [] => .error .cutOff
  | c :: _ => if c.isDigit then .ok (s.span Char.isDigit) else .error .malformed

/-- A single zero or digits that do not begin with one. -/
def readWhole (s : List Char) : Except Fault (List Char × List Char) :=
  match s with
  | '0' :: r =>
    match r with
    | c :: _ => if c.isDigit then .error .malformed else .ok (['0'], r)
    | [] => .ok (['0'], r)
  | _ => digits1 s

def readFraction (s : List Char) : Except Fault (Option (List Char) × List Char) :=
  match s with
  | '.' :: r =>
    match digits1 r with
    | .error e => .error e
    | .ok (ds, r) => .ok (some ds, r)
  | _ => .ok (none, s)

/-- A sign that is not there is a plus. -/
def readSign (s : List Char) : Bool × List Char :=
  match s with
  | '-' :: r => (true, r)
  | '+' :: r => (false, r)
  | _ => (false, s)

def readExponent (s : List Char) : Except Fault (Option (Bool × List Char) × List Char) :=
  match s with
  | c :: r =>
    if c = 'e' || c = 'E' then
      let (negative, r) := readSign r
      match digits1 r with
      | .error e => .error e
      | .ok (ds, r) => .ok (some (negative, ds), r)
    else .ok (none, s)
  | [] => .ok (none, s)

def readParts : Reader Parts := fun s =>
  match readWhole s with
  | .error e => .error e
  | .ok (whole, s) =>
    match readFraction s with
    | .error e => .error e
    | .ok (fraction, s) =>
      match readExponent s with
      | .error e => .error e
      | .ok (exponent, s) => .ok (⟨whole, fraction, exponent⟩, s)

namespace Parts

/-- The significand and the power of ten that it is multiplied by. Digits of the fraction that the
significand cannot hold are dropped. -/
def scaled (p : Parts) : Nat × Int :=
  let (n, count) := absorb 0 p.whole
  let (n, places) := absorb n (p.fraction.getD [])
  let dropped : Int := ((p.whole.length - count : Nat) : Int)
  let shift : Int :=
    match p.exponent with
    | none => 0
    | some (negative, ds) => if negative then -(Decimal.value ds : Int) else Decimal.value ds
  (n, dropped - places + shift)

/-- The number, if it is written as a natural number and below `bound`. -/
def natural? (p : Parts) : Option Nat :=
  if p.fraction.isNone && p.exponent.isNone && (absorb 0 p.whole).2 = p.whole.length then
    some (Decimal.value p.whole)
  else none

end Parts

/-- What a number without sign stands for. A natural number below `bound` fits; any other number
has to be looked at. -/
def Parts.value? (negative : Bool) (p : Parts) : Except Fault (Option Nat) :=
  match if negative then none else p.natural? with
  | some n => .ok (some n)
  | none => if overflows p.scaled.1 p.scaled.2 then .error .malformed else .ok none

/-- Reads a number and keeps it if it is a natural number. -/
def read : Reader (Option Nat) := fun s =>
  let (negative, s) :=
    match s with
    | '-' :: r => (true, r)
    | _ => (false, s)
  match readParts s with
  | .error e => .error e
  | .ok (p, rest) => (p.value? negative).map fun n => (n, rest)

/-- Skips a number. Its size does not matter, and where it stops short it is malformed. -/
def skip (s : List Char) : Except Fault (List Char) :=
  let s :=
    match s with
    | '-' :: r => r
    | _ => s
  match readParts s with
  | .error _ => .error .malformed
  | .ok (_, rest) => .ok rest

end Timetabling.Json.Number
