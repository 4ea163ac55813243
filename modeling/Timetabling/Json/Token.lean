import Timetabling.Json.Number
import Timetabling.Json.Quoted

/-!
# The beginning of a value

A token is a whole scalar or the bracket that opens a list or record. Readers of a certain kind of
value read a token first and then see whether it is of that kind, so a scalar that is not well
formed is refused as such by all of them.
-/

namespace Timetabling.Json

inductive Token where
  | null
  | truth (value : Bool)
  /-- A number; `none` stands for one that is no natural number below 2^64. -/
  | number (value : Option Nat)
  | text (value : String)
  | openList
  | openRecord
deriving Repr, DecidableEq

namespace Token

def read : Reader Token := fun s =>
  match skipBlanks s with
  | [] => .error .cutOff
  | c :: r =>
    if c = '[' then .ok (.openList, r)
    else if c = '{' then .ok (.openRecord, r)
    else if c = '"' then Reader.map .text Quoted.read r
    else if c = '-' || c.isDigit then Reader.map .number Number.read (c :: r)
    else if c = 't' then (expectWord ['r', 'u', 'e'] r).map fun r => (.truth true, r)
    else if c = 'f' then (expectWord ['a', 'l', 's', 'e'] r).map fun r => (.truth false, r)
    else if c = 'n' then (expectWord ['u', 'l', 'l'] r).map fun r => (.null, r)
    else .error .malformed

end Token

/-- A value that is a single token. -/
def scalar {α : Type} (keep : Token → Option α) : Reader α := fun s =>
  match Token.read s with
  | .error e => .error e
  | .ok (t, rest) =>
    match keep t with
    | none => .error .unfit
    | some a => .ok (a, rest)

/-- A natural number below `bound`. -/
def natural (bound : Nat) : Reader Nat :=
  scalar fun t =>
    match t with
    | .number (some n) => if n < bound then some n else none
    | _ => none

def uint8 : Reader UInt8 := Reader.map UInt8.ofNat (natural 256)

def uint32 : Reader UInt32 := Reader.map UInt32.ofNat (natural 4294967296)

/-- A natural number below 2^64 or nothing, written `null`. -/
def uint64? : Reader (Option UInt64) :=
  scalar fun t =>
    match t with
    | .null => some none
    | .number (some n) => if n < Number.bound then some (some (UInt64.ofNat n)) else none
    | _ => none

def text : Reader String :=
  scalar fun t =>
    match t with
    | .text value => some value
    | _ => none

end Timetabling.Json
