import Timetabling.Job.Id

/-!
# Routes

What the target of a request leads to, and with which methods. Only the path in it matters: not
the host before it, nor the query after it.
-/

namespace Timetabling.Api

inductive Method where
  | get
  | head
  | post
  | other
deriving Repr, DecidableEq

def Method.ofName : String → Method
  | "GET" => .get
  | "HEAD" => .head
  | "POST" => .post
  | _ => .other

inductive Route where
  /-- All schedules. -/
  | schedules
  /-- The schedule of one job; the segment of the path is still percent-encoded. -/
  | schedule (segment : List Char)
  | suggestions
deriving Repr, DecidableEq

namespace Route

/-- Takes a scheme, `://` and a host away from the front, if there is no path there already. -/
def withoutHost? (cs : List Char) : Option (List Char) :=
  if cs.head? = some '/' then some cs
  else
    match cs.dropWhile (· ≠ ':') with
    | ':' :: '/' :: '/' :: rest =>
      let host := rest.takeWhile fun c => c ≠ '/' && c ≠ '?' && c ≠ '#'
      if host.isEmpty then none else some (rest.drop host.length)
    | _ => none

/-- A path up to its query or fragment. -/
def withoutQuery (cs : List Char) : List Char := cs.takeWhile fun c => c ≠ '?' && c ≠ '#'

def ofPath? (cs : List Char) : Option Route :=
  let base := "/v1/schedules".toList
  if cs = base then some .schedules
  else if cs = "/v1/teacher-suggestions".toList then some .suggestions
  else if cs.take (base.length + 1) = base ++ ['/'] then
    let segment := cs.drop (base.length + 1)
    if segment.isEmpty || segment.contains '/' then none else some (.schedule segment)
  else none

def ofTarget? (target : String) : Option Route :=
  (withoutHost? target.toList).bind fun cs => ofPath? (withoutQuery cs)

def allows : Route → Method → Bool
  | .schedules, m => m = .get || m = .head || m = .post
  | .schedule _, m => m = .get || m = .head
  | .suggestions, m => m = .post

end Route

/-- Replaces each percent sign before two hexadecimal digits, and these, by the byte they name. -/
def percentDecode : List Char → List Char
  | '%' :: a :: b :: cs =>
    match Hex.value? a, Hex.value? b with
    | some high, some low => Char.ofNat (16 * high + low) :: percentDecode cs
    | _, _ => '%' :: percentDecode (a :: b :: cs)
  | c :: cs => c :: percentDecode cs
  | [] => []

/-- The id that a segment of a path names. -/
def jobOfSegment? (segment : List Char) : Option JobId := JobId.parse? (percentDecode segment)

end Timetabling.Api
