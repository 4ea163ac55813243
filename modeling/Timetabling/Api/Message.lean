import Timetabling.Api.Route
import Timetabling.Job.Service
import Timetabling.Ranking
import Timetabling.Snapshot.Json

/-!
# Requests and responses
-/

namespace Timetabling.Api

open Json

/-- What a request carries, whether it means anything or not. -/
structure Payload where
  bytes : ByteArray

/-- A text is sent in UTF-8. -/
instance : Coe String Payload := ⟨fun text => ⟨text.toUTF8⟩⟩

structure Request where
  method : Method
  /-- A path, perhaps after a scheme and a host, and perhaps with a query. -/
  target : String
  /-- The content type, if the request names one. -/
  contentType : Option String
  body : Payload

/-- What a response carries. -/
inductive Body where
  | empty
  | text (value : String)
  | job (id : JobId)
  | jobs (ids : List JobId)
  | status (value : Job.Status)
  | rankings (values : List Ranking)
deriving Repr, DecidableEq

structure Response where
  code : Nat
  body : Body := .empty
deriving Repr, DecidableEq

/-- Asks for a timetable of a snapshot. -/
structure GenerateRequest where
  snapshot : Snapshot
  /-- The seconds to spend, if not those of the settings. -/
  deadlineSecs : Option UInt64

namespace GenerateRequest

structure Draft where
  snapshot : Option Snapshot := none
  deadlineSecs : Option (Option UInt64) := none

def fields : List (RecordField Draft) :=
  [field "snapshot" Draft.snapshot (fun d v => { d with snapshot := some v }) Snapshot.read,
    field "deadlineSecs" Draft.deadlineSecs
      (fun d v => { d with deadlineSecs := some v }) uint64?]

def Draft.finish? (d : Draft) : Option GenerateRequest := do
  return { snapshot := ← d.snapshot, deadlineSecs := d.deadlineSecs.getD none }

def read : Reader GenerateRequest := record fields {} Draft.finish?

end GenerateRequest

/-- Asks which of some teachers would suit a subject beside the entries that are settled. -/
structure SuggestRequest where
  snapshot : Snapshot
  subject : SubjectId
  candidates : List TeacherId
  entries : List Entry

namespace SuggestRequest

structure Draft where
  snapshot : Option Snapshot := none
  subject : Option SubjectId := none
  candidates : Option (List TeacherId) := none
  entries : Option (List Entry) := none

def fields : List (RecordField Draft) :=
  [field "snapshot" Draft.snapshot (fun d v => { d with snapshot := some v }) Snapshot.read,
    field "subjectId" Draft.subject (fun d v => { d with subject := some v }) uint32,
    field "candidateTeachers" Draft.candidates
      (fun d v => { d with candidates := some v }) (list uint32),
    (field "currentEntries" Draft.entries
      (fun d v => { d with entries := some v }) (list Entry.read)).orDefault]

def Draft.finish? (d : Draft) : Option SuggestRequest := do
  return {
    snapshot := ← d.snapshot
    subject := ← d.subject
    candidates := ← d.candidates
    entries := d.entries.getD [] }

def read : Reader SuggestRequest := record fields {} Draft.finish?

end SuggestRequest

end Timetabling.Api
