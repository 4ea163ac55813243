import Timetabling.Number.Hex

/-!
# Job ids

An id has 128 bits. It is written as 32 hexadecimal digits in lower case, in groups of 8, 4, 4, 4
and 12 with hyphens between them, and may be read in other forms too: without hyphens, in braces,
and with `urn:uuid:` before it. Letters, those of `urn:uuid:` among them, may be in either case.
-/

namespace Timetabling

structure JobId where
  bits : BitVec 128
deriving Repr, DecidableEq, Inhabited

namespace JobId

/-- The lengths of the groups of digits. -/
def groups : List Nat := [8, 4, 4, 4, 12]

/-- Cuts a list into groups with hyphens between them. -/
def hyphenate : List Nat → List Char → List Char
  | [], cs => cs
  | [_], cs => cs
  | n :: ns, cs => cs.take n ++ '-' :: hyphenate ns (cs.drop n)

def text (id : JobId) : String :=
  String.ofList (hyphenate groups (Hex.lastDigits 32 id.bits.toNat))

/-- The id written by exactly 32 digits. -/
def ofDigits? (cs : List Char) : Option JobId :=
  if cs.length = 32 then (Hex.number? cs).map fun n => ⟨BitVec.ofNat 128 n⟩ else none

/-- Takes the hyphens between the groups away, if they are there. -/
def unhyphenate? : List Nat → List Char → Option (List Char)
  | [], cs => some cs
  | [_], cs => some cs
  | n :: ns, cs =>
    match cs.drop n with
    | '-' :: rest => (unhyphenate? ns rest).map fun digits => cs.take n ++ digits
    | _ => none

def ofHyphenated? (cs : List Char) : Option JobId := (unhyphenate? groups cs).bind ofDigits?

/-- What stands between braces. -/
def unbraced? : List Char → Option (List Char)
  | '\x7b' :: cs => if cs.getLast? = some '\x7d' then some cs.dropLast else none
  | _ => none

/-- What stands after `urn:uuid:`, in which letters may be in either case. -/
def ofUrn? (cs : List Char) : Option (List Char) :=
  if (cs.take 9).map Char.toLower = "urn:uuid:".toList then some (cs.drop 9) else none

/-- The id that a text names in one of its four forms. The length tells the forms apart. -/
def parse? (cs : List Char) : Option JobId :=
  if cs.length = 32 then ofDigits? cs
  else if cs.length = 36 then ofHyphenated? cs
  else if cs.length = 38 then (unbraced? cs).bind ofHyphenated?
  else if cs.length = 45 then (ofUrn? cs).bind ofHyphenated?
  else none

end JobId

end Timetabling
