import Timetabling.Json.Number
import Timetabling.Json.Quoted

/-!
# Skipping a value

The value of an unknown member is of no interest, but it has to be well formed.
-/

namespace Timetabling.Json

/-- Where in a value the skipping is. -/
inductive Stage where
  /-- At a value. -/
  | value
  /-- At the first element of a list, or its end. -/
  | elements
  /-- At the first member of a record, or its end. -/
  | members
  /-- At a member of a record. -/
  | member
  /-- After a value. -/
  | after

/-- The brackets that are open: `true` for a record, the innermost first. -/
abbrev Nesting := List Bool

/-- Skips the rest of a value. Each step takes at least one character off the text or goes from
`members` or `elements` on, so twice the length of the text bounds the steps. -/
def skipFrom : Nat → Stage → Nesting → List Char → Except Fault (List Char)
  | 0, _, _, _ => .error .cutOff
  | steps + 1, stage, open', s =>
    match stage, open' with
    | .after, [] => .ok s
    | .after, isRecord :: outer =>
      match skipBlanks s with
      | [] => .error .cutOff
      | c :: r =>
        if c = ',' then skipFrom steps (if isRecord then .member else .value) open' r
        else if c = (if isRecord then '}' else ']') then skipFrom steps .after outer r
        else .error .malformed
    | .elements, _ =>
      match skipBlanks s with
      | ']' :: r => skipFrom steps .after (open'.drop 1) r
      | _ => skipFrom steps .value open' s
    | .members, _ =>
      match skipBlanks s with
      | '}' :: r => skipFrom steps .after (open'.drop 1) r
      | _ => skipFrom steps .member open' s
    | .member, _ =>
      match (expect '"' s).bind Quoted.skip with
      | .error e => .error e
      | .ok s =>
        match expect ':' s with
        | .error e => .error e
        | .ok s => skipFrom steps .value open' s
    | .value, _ =>
      match skipBlanks s with
      | [] => .error .cutOff
      | c :: r =>
        if c = '[' then skipFrom steps .elements (false :: open') r
        else if c = '{' then skipFrom steps .members (true :: open') r
        else
          let scalar : Except Fault (List Char) :=
            if c = '"' then Quoted.skip r
            else if c = '-' || c.isDigit then Number.skip (c :: r)
            else if c = 't' then expectWord ['r', 'u', 'e'] r
            else if c = 'f' then expectWord ['a', 'l', 's', 'e'] r
            else if c = 'n' then expectWord ['u', 'l', 'l'] r
            else .error .malformed
          match scalar with
          | .error e => .error e
          | .ok s => skipFrom steps .after open' s

/-- Skips a value. -/
def skipValue (s : List Char) : Except Fault (List Char) :=
  skipFrom (2 * s.length + 2) .value [] s

end Timetabling.Json
