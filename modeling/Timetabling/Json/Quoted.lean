import Timetabling.Json.Reader
import Timetabling.Number.Hex

/-!
# Quoted strings

`scan` reads the inside of a quoted string up to the closing quote, one octet at a time; `quote`
writes one. An escape `\u` names a UTF-16 unit, and two of them may name one character. Whether the
bytes between the quotes are UTF-8 is seen at the closing quote, and only of a string that is kept.
-/

namespace Timetabling.Json

/-- The character of a one-letter escape. -/
def escaped? : Char → Option Char
  | '"' => some '"'
  | '\\' => some '\\'
  | '/' => some '/'
  | 'b' => some '\x08'
  | 'f' => some '\x0c'
  | 'n' => some '\n'
  | 'r' => some '\r'
  | 't' => some '\t'
  | _ => none

/-- The first of two units that name one character. -/
def isLead (unit : Nat) : Bool := 0xD800 ≤ unit && unit < 0xDC00

/-- The second of two units that name one character. -/
def isTrail (unit : Nat) : Bool := 0xDC00 ≤ unit && unit < 0xE000

/-- The character of two units. -/
def paired (lead trail : Nat) : Char :=
  Char.ofNat (0x10000 + (lead - 0xD800) * 0x400 + (trail - 0xDC00))

/-- The four digits of a unit have to be there before any of them is looked at. -/
def hasFour (s : List Char) : Bool := (s.take 4).length = 4

namespace Quoted

/-- Where in a string the scan is. -/
inductive Place where
  | plain
  /-- After a backslash. -/
  | escape
  /-- Inside a unit: digits still to come, value so far; `lead` is the unit it may have to
  complete. -/
  | unit (lead : Option Nat) (left : Nat) (value : Nat)
  /-- After a first unit: a backslash has to follow. -/
  | needEscape (lead : Nat)
  /-- After a first unit and a backslash: a `u` has to follow. -/
  | needUnit (lead : Nat)

/-- Where the scan goes after a whole unit, and the character that it has found. -/
def afterUnit (strict : Bool) (lead : Option Nat) (value : Nat) :
    Except Fault (Place × Option Char) :=
  if !strict then .ok (.plain, none)
  else
    match lead with
    | some first =>
      if isTrail value then .ok (.plain, some (paired first value)) else .error .malformed
    | none =>
      if isTrail value then .error .malformed
      else if isLead value then .ok (.needEscape value, none)
      else .ok (.plain, some (Char.ofNat value))

/-- Puts the bytes of a character before those in `acc`, which stand in reverse. -/
def push (acc : List UInt8) (c : Char) : List UInt8 := (String.utf8EncodeChar c).reverse ++ acc

/-- Reads up to the closing quote; `acc` holds the bytes so far, the last one first. Unless the
reading is strict, units need not make characters, and then nothing is kept of them. -/
def scan (strict : Bool) : Place → List UInt8 → List Char → Except Fault (List UInt8 × List Char)
  | _, _, [] => .error .cutOff
  | .plain, acc, c :: s =>
    if c = '"' then .ok (acc.reverse, s)
    else if c = '\\' then scan strict .escape acc s
    else if c.toNat < 0x20 then .error .malformed
    else scan strict .plain (c.toUInt8 :: acc) s
  | .escape, acc, c :: s =>
    if c = 'u' then
      if hasFour s then scan strict (.unit none 4 0) acc s else .error .cutOff
    else
      match escaped? c with
      | some d => scan strict .plain (push acc d) s
      | none => .error .malformed
  | .unit lead left value, acc, c :: s =>
    match Hex.value? c with
    | none => .error .malformed
    | some d =>
      if left ≤ 1 then
        match afterUnit strict lead (16 * value + d) with
        | .error e => .error e
        | .ok (place, found) => scan strict place (found.toList.foldl push acc) s
      else scan strict (.unit lead (left - 1) (16 * value + d)) acc s
  | .needEscape lead, acc, c :: s =>
    if c = '\\' then scan strict (.needUnit lead) acc s else .error .malformed
  | .needUnit lead, acc, c :: s =>
    if c = 'u' then
      if hasFour s then scan strict (.unit (some lead) 4 0) acc s else .error .cutOff
    else .error .malformed

/-- Reads a string of which the opening quote has been read. -/
def read : Reader String := fun s =>
  match scan true .plain [] s with
  | .error e => .error e
  | .ok (bytes, rest) =>
    match String.fromUTF8? bytes.toByteArray with
    | none => .error .malformed
    | some text => .ok (text, rest)

/-- Skips a string of which the opening quote has been read; neither its units nor its bytes need
make characters. -/
def skip (s : List Char) : Except Fault (List Char) :=
  match scan false .plain [] s with
  | .error e => .error e
  | .ok (_, rest) => .ok rest

/-- How a character is written inside quotes. -/
def escape (c : Char) : List Char :=
  if c = '"' then ['\\', '"']
  else if c = '\\' then ['\\', '\\']
  else if c = '\x08' then ['\\', 'b']
  else if c = '\x0c' then ['\\', 'f']
  else if c = '\n' then ['\\', 'n']
  else if c = '\r' then ['\\', 'r']
  else if c = '\t' then ['\\', 't']
  else if c.toNat < 0x20 then '\\' :: 'u' :: Hex.lastDigits 4 c.toNat
  else [c]

/-- A string between quotes. -/
def quote (text : String) : List Char := '"' :: text.toList.flatMap escape ++ ['"']

end Quoted

end Timetabling.Json
