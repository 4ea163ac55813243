import Timetabling.Api.MediaType
import Timetabling.Api.Message

/-!
# Answering requests

A request is looked at in a fixed order, and the first thing wrong decides: its path, its method,
the type of its content, the size of its body, the JSON in the body. Only then is anything done.
The only request that changes the service is one for a new timetable that is accepted.
-/

namespace Timetabling.Api

/-- The most bytes a body may have. -/
def bodyLimit : Nat := 2097152

/-- Whether a content type is named, well formed and one of JSON. -/
def saysJson (contentType : Option String) : Bool :=
  match contentType.bind MediaType.parse? with
  | none => false
  | some m => m.isJson

/-- Reads the body of a request, or tells what to answer instead. What follows the JSON is not
looked at. -/
def readBody {α : Type} (read : Json.Reader α) (r : Request) : Except Response α :=
  if !saysJson r.contentType then .error { code := 415 }
  else if bodyLimit < r.body.bytes.size then .error { code := 413 }
  else
    match read.front r.body.bytes with
    | .ok a => .ok a
    | .error .unfit => .error { code := 422 }
    | .error _ => .error { code := 400 }

def generate (s : Service) (fresh : JobId) (r : Request) : Response × Service :=
  match readBody GenerateRequest.read r with
  | .error answer => (answer, s)
  | .ok g => ({ code := 202, body := .job fresh }, s.submit fresh g.snapshot g.deadlineSecs)

def suggest (r : Request) : Response :=
  match readBody SuggestRequest.read r with
  | .error answer => answer
  | .ok q =>
    if q.snapshot.subjects.any fun x => x.id = q.subject then
      { code := 200
        body := .rankings (Ranking.rank (Rulebook.ofSnapshot q.snapshot) q.subject q.candidates
          (Schedule.ofEntries q.entries)) }
    else { code := 404, body := .text (unknownSubjectText q.subject) }

def status (s : Service) (segment : List Char) : Response :=
  match jobOfSegment? segment with
  | none => { code := 400 }
  | some job =>
    match s.status? job with
    | some status => { code := 200, body := .status status }
    | none => { code := 404, body := .text ("Unknown job: " ++ job.text) }

/-- The same without a body. -/
def Response.headOnly (r : Response) : Response := { r with body := .empty }

/-- Answers a request. A job that it submits has the id `fresh`. -/
def handle (s : Service) (fresh : JobId) (r : Request) : Response × Service :=
  match Route.ofTarget? r.target with
  | none => ({ code := 404 }, s)
  | some route =>
    if !route.allows r.method then ({ code := 405 }, s)
    else
      match route, r.method with
      | .schedules, .post => generate s fresh r
      | .schedules, .head => ({ code := 200 }, s)
      | .schedules, _ => ({ code := 200, body := .jobs s.list }, s)
      | .schedule segment, .head => ((status s segment).headOnly, s)
      | .schedule segment, _ => (status s segment, s)
      | .suggestions, _ => (suggest r, s)

end Timetabling.Api
