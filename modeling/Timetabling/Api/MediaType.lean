/-!
# Media types

A media type is a type and a subtype, perhaps with a suffix after the last plus sign, and
parameters that have to be well formed but do not matter.
-/

namespace Timetabling.Api

structure MediaType where
  kind : List Char
  subtype : List Char
  suffix : Option (List Char)
deriving Repr, DecidableEq

namespace MediaType

def isTokenChar (c : Char) : Bool := c.isAlphanum || "!#$%&'*+-.^_`|~".toList.contains c

/-- Headers are ASCII, and control characters do not stand between quotes. A backslash does,
and escapes nothing: a quote after it still closes. -/
def isQuotedChar (c : Char) : Bool := 31 < c.toNat && c.toNat < 127

/-- Where in the parameters a reader is. -/
inductive Place where
  /-- Before a parameter. -/
  | start
  | name
  /-- Right after the sign of equality. -/
  | valueStart
  | value
  /-- Right after the opening quote; a quote here does not close. -/
  | quotedStart
  | quoted
  | afterQuoted

/-- The place after one more character. -/
def Place.next? (c : Char) : Place → Option Place
  | .start => if c = ' ' then some .start else if isTokenChar c then some .name else none
  | .name => if c = '=' then some .valueStart else if isTokenChar c then some .name else none
  | .valueStart =>
    if c = '"' then some .quotedStart else if isTokenChar c then some .value else none
  | .value => if c = ';' then some .start else if isTokenChar c then some .value else none
  | .quotedStart => if isQuotedChar c then some .quoted else none
  | .quoted =>
    if c = '"' then some .afterQuoted else if isQuotedChar c then some .quoted else none
  | .afterQuoted =>
    if c = ';' then some .start else if c = ' ' then some .afterQuoted else none

/-- Whether parameters may end here. -/
def Place.isEnd : Place → Bool
  | .start => true
  | .valueStart => true
  | .value => true
  | .afterQuoted => true
  | _ => false

def parametersOk : Place → List Char → Bool
  | p, [] => p.isEnd
  | p, c :: cs =>
    match p.next? c with
    | none => false
    | some p => parametersOk p cs

/-- Splits a subtype at its last plus sign, unless that comes first. -/
def splitSuffix (cs : List Char) : List Char × Option (List Char) :=
  let suffix := (cs.reverse.takeWhile (· ≠ '+')).reverse
  let before := cs.take (cs.length - suffix.length - 1)
  if before.isEmpty || suffix.length = cs.length then (cs, none) else (before, some suffix)

/-- Reads a header value, without regard to case. -/
def parse? (header : String) : Option MediaType :=
  let cs := header.toList.map Char.toLower
  let kind := cs.takeWhile isTokenChar
  match cs.drop kind.length with
  | '/' :: rest =>
    let subtype := rest.takeWhile isTokenChar
    let (subtype', suffix) := splitSuffix subtype
    let mediaType : MediaType := ⟨kind, subtype', suffix⟩
    if kind.isEmpty then none
    else
      match rest.drop subtype.length with
      | [] => some mediaType
      | ';' :: parameters =>
        if !subtype.isEmpty && parametersOk .start parameters then some mediaType else none
      | _ => none
  | _ => none

/-- JSON itself, or a format that is JSON underneath as its suffix says. -/
def isJson (m : MediaType) : Bool :=
  m.kind = "application".toList &&
    (m.subtype = "json".toList || m.suffix = some "json".toList)

end MediaType

end Timetabling.Api
