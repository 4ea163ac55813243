import Timetabling.Json.Skip
import Timetabling.Json.Token

/-!
# Lists and records

A record is written as an object or as the list of its fields in order. Its reader fills in a
draft, one field at a time, and makes the record of it at the closing bracket. Unknown members of
an object are skipped, a field that comes twice is refused as soon as its name has been read, and a
list may stop before fields that have a default.
-/

namespace Timetabling.Json

/-- Reads elements up to the closing bracket; `first` says that none has been read yet. -/
def listFrom {α : Type} (element : Reader α) : Nat → Bool → List α → Reader (List α)
  | 0, _, _, _ => .error .cutOff
  | steps + 1, first, acc, s =>
    match skipBlanks s with
    | [] => .error .cutOff
    | c :: r =>
      if c = ']' then .ok (acc.reverse, r)
      else if first || c = ',' then
        match skipBlanks (if first then s else r) with
        | ']' :: _ => .error .malformed
        | s' =>
          match element s' with
          | .error e => .error e
          | .ok (a, rest) => listFrom element steps false (a :: acc) rest
      else .error .malformed

/-- A list of values of one kind. -/
def list {α : Type} (element : Reader α) : Reader (List α) := fun s =>
  match Token.read s with
  | .error e => .error e
  | .ok (.openList, rest) => listFrom element (rest.length + 1) true [] rest
  | .ok _ => .error .unfit

/-- A field of the drafts `δ` of a record. -/
structure RecordField (δ : Type) where
  name : String
  isSet : δ → Bool
  /-- Reads the value of the field and puts it into a draft. -/
  fill : δ → Reader δ
  /-- Whether a list of the fields may stop before this one. -/
  hasDefault : Bool

/-- The field `name`, kept in a draft as `get` and `set` say. -/
def field {δ β : Type} (name : String) (get : δ → Option β) (set : δ → β → δ) (r : Reader β) :
    RecordField δ where
  name := name
  isSet d := (get d).isSome
  fill d := Reader.map (set d) r
  hasDefault := false

namespace RecordField

variable {δ : Type}

/-- The same field with a default. -/
def orDefault (f : RecordField δ) : RecordField δ := { f with hasDefault := true }

/-- Reads the members of an object up to the closing brace. -/
def fillMembers (fields : List (RecordField δ)) : Nat → Bool → δ → Reader δ
  | 0, _, _, _ => .error .cutOff
  | steps + 1, first, d, s =>
    match skipBlanks s with
    | [] => .error .cutOff
    | c :: r =>
      if c = '}' then .ok (d, r)
      else if first || c = ',' then
        match (expect '"' (if first then s else r)).bind Quoted.read with
        | .error e => .error e
        | .ok (name, s) =>
          match fields.find? fun f => f.name = name with
          | none =>
            match (expect ':' s).bind skipValue with
            | .error e => .error e
            | .ok s => fillMembers fields steps false d s
          | some f =>
            if f.isSet d then .error .unfit
            else
              match (expect ':' s).bind (f.fill d) with
              | .error e => .error e
              | .ok (d, s) => fillMembers fields steps false d s
      else .error .malformed

/-- Reads the fields in order; `first` says that none has been read yet. The closing bracket may
come early if all fields that are left have a default; it is left for the caller. -/
def fillElements : List (RecordField δ) → Bool → δ → Reader δ
  | [], _, d, s => .ok (d, s)
  | f :: fields, first, d, s =>
    match skipBlanks s with
    | [] => .error .cutOff
    | c :: r =>
      if c = ']' then if (f :: fields).all RecordField.hasDefault then .ok (d, s) else .error .unfit
      else if first || c = ',' then
        match skipBlanks (if first then s else r) with
        | ']' :: _ => .error .malformed
        | s' =>
          match f.fill d s' with
          | .error e => .error e
          | .ok (d, s) => fillElements fields false d s
      else .error .malformed

end RecordField

/-- A record with the given fields; `finish` makes it of a draft if nothing is missing. -/
def record {δ α : Type} (fields : List (RecordField δ)) (blank : δ) (finish : δ → Option α) :
    Reader α := fun s =>
  match Token.read s with
  | .error e => .error e
  | .ok (.openRecord, rest) =>
    match RecordField.fillMembers fields (rest.length + 1) true blank rest with
    | .error e => .error e
    | .ok (d, rest) =>
      match finish d with
      | none => .error .unfit
      | some a => .ok (a, rest)
  | .ok (.openList, rest) =>
    match RecordField.fillElements fields true blank rest with
    | .error e => .error e
    | .ok (d, rest) =>
      match finish d with
      | none => .error .unfit
      | some a => (expect ']' rest).map fun rest => (a, rest)
  | .ok _ => .error .unfit

end Timetabling.Json
