import Timetabling.Json.Record
import Timetabling.Json.Writer
import Timetabling.Schedule

/-!
# Snapshots and entries as JSON

The shapes in which reference data and entries come in and go out. Lists of specializations and of
available slots and the type of a room may be left out when read, and are always written.
-/

namespace Timetabling

open Json

namespace Teacher

structure Draft where
  id : Option TeacherId := none
  name : Option String := none
  specializations : Option (List String) := none
  maxWeeklyHours : Option UInt32 := none
  availability : Option (List SlotId) := none

def fields : List (RecordField Draft) :=
  [field "id" Draft.id (fun d v => { d with id := some v }) uint32,
    field "name" Draft.name (fun d v => { d with name := some v }) text,
    (field "specializations" Draft.specializations
      (fun d v => { d with specializations := some v }) (list text)).orDefault,
    field "maxWeeklyHours" Draft.maxWeeklyHours
      (fun d v => { d with maxWeeklyHours := some v }) uint32,
    (field "availability" Draft.availability
      (fun d v => { d with availability := some v }) (list uint32)).orDefault]

def Draft.finish? (d : Draft) : Option Teacher := do
  return {
    id := ← d.id
    name := ← d.name
    specializations := d.specializations.getD []
    maxWeeklyHours := ← d.maxWeeklyHours
    availability := d.availability.getD [] }

def read : Reader Teacher := record fields {} Draft.finish?

def write (t : Teacher) : List Char :=
  writeRecord
    [("id", writeNatural t.id.toNat),
      ("name", Quoted.quote t.name),
      ("specializations", writeList Quoted.quote t.specializations),
      ("maxWeeklyHours", writeNatural t.maxWeeklyHours.toNat),
      ("availability", writeList (fun s => writeNatural s.toNat) t.availability)]

end Teacher

namespace Subject

structure Draft where
  id : Option SubjectId := none
  code : Option String := none
  weeklyHours : Option UInt32 := none
  requiredSpecializations : Option (List String) := none

def fields : List (RecordField Draft) :=
  [field "id" Draft.id (fun d v => { d with id := some v }) uint32,
    field "code" Draft.code (fun d v => { d with code := some v }) text,
    field "weeklyHours" Draft.weeklyHours (fun d v => { d with weeklyHours := some v }) uint32,
    (field "requiredSpecializations" Draft.requiredSpecializations
      (fun d v => { d with requiredSpecializations := some v }) (list text)).orDefault]

def Draft.finish? (d : Draft) : Option Subject := do
  return {
    id := ← d.id
    code := ← d.code
    weeklyHours := ← d.weeklyHours
    requiredSpecializations := d.requiredSpecializations.getD [] }

def read : Reader Subject := record fields {} Draft.finish?

def write (s : Subject) : List Char :=
  writeRecord
    [("id", writeNatural s.id.toNat),
      ("code", Quoted.quote s.code),
      ("weeklyHours", writeNatural s.weeklyHours.toNat),
      ("requiredSpecializations", writeList Quoted.quote s.requiredSpecializations)]

end Subject

namespace Room

structure Draft where
  id : Option RoomId := none
  capacity : Option UInt32 := none
  roomType : Option String := none

def fields : List (RecordField Draft) :=
  [field "id" Draft.id (fun d v => { d with id := some v }) uint32,
    field "capacity" Draft.capacity (fun d v => { d with capacity := some v }) uint32,
    (field "roomType" Draft.roomType (fun d v => { d with roomType := some v }) text).orDefault]

def Draft.finish? (d : Draft) : Option Room := do
  return { id := ← d.id, capacity := ← d.capacity, roomType := d.roomType.getD "" }

def read : Reader Room := record fields {} Draft.finish?

def write (r : Room) : List Char :=
  writeRecord
    [("id", writeNatural r.id.toNat),
      ("capacity", writeNatural r.capacity.toNat),
      ("roomType", Quoted.quote r.roomType)]

end Room

namespace TimeSlot

structure Draft where
  id : Option SlotId := none
  dayOfWeek : Option UInt8 := none
  startPeriod : Option UInt32 := none
  endPeriod : Option UInt32 := none

def fields : List (RecordField Draft) :=
  [field "id" Draft.id (fun d v => { d with id := some v }) uint32,
    field "dayOfWeek" Draft.dayOfWeek (fun d v => { d with dayOfWeek := some v }) uint8,
    field "startPeriod" Draft.startPeriod (fun d v => { d with startPeriod := some v }) uint32,
    field "endPeriod" Draft.endPeriod (fun d v => { d with endPeriod := some v }) uint32]

def Draft.finish? (d : Draft) : Option TimeSlot := do
  return {
    id := ← d.id
    dayOfWeek := ← d.dayOfWeek
    startPeriod := ← d.startPeriod
    endPeriod := ← d.endPeriod }

def read : Reader TimeSlot := record fields {} Draft.finish?

def write (s : TimeSlot) : List Char :=
  writeRecord
    [("id", writeNatural s.id.toNat),
      ("dayOfWeek", writeNatural s.dayOfWeek.toNat),
      ("startPeriod", writeNatural s.startPeriod.toNat),
      ("endPeriod", writeNatural s.endPeriod.toNat)]

end TimeSlot

namespace Snapshot

structure Draft where
  teachers : Option (List Teacher) := none
  subjects : Option (List Subject) := none
  rooms : Option (List Room) := none
  timeSlots : Option (List TimeSlot) := none

def fields : List (RecordField Draft) :=
  [field "teachers" Draft.teachers
      (fun d v => { d with teachers := some v }) (list Teacher.read),
    field "subjects" Draft.subjects
      (fun d v => { d with subjects := some v }) (list Subject.read),
    field "rooms" Draft.rooms (fun d v => { d with rooms := some v }) (list Room.read),
    field "timeSlots" Draft.timeSlots
      (fun d v => { d with timeSlots := some v }) (list TimeSlot.read)]

def Draft.finish? (d : Draft) : Option Snapshot := do
  return {
    teachers := ← d.teachers
    subjects := ← d.subjects
    rooms := ← d.rooms
    timeSlots := ← d.timeSlots }

def read : Reader Snapshot := record fields {} Draft.finish?

def write (s : Snapshot) : List Char :=
  writeRecord
    [("teachers", writeList Teacher.write s.teachers),
      ("subjects", writeList Subject.write s.subjects),
      ("rooms", writeList Room.write s.rooms),
      ("timeSlots", writeList TimeSlot.write s.timeSlots)]

/-- Reads a text that holds a snapshot and nothing else. -/
def ofJson (s : String) : Except Fault Snapshot := read.whole s

def toJson (s : Snapshot) : String := String.ofList s.write

end Snapshot

namespace Entry

structure Draft where
  subject : Option SubjectId := none
  teacher : Option TeacherId := none
  room : Option RoomId := none
  slot : Option SlotId := none

def fields : List (RecordField Draft) :=
  [field "subjectId" Draft.subject (fun d v => { d with subject := some v }) uint32,
    field "teacherId" Draft.teacher (fun d v => { d with teacher := some v }) uint32,
    field "roomId" Draft.room (fun d v => { d with room := some v }) uint32,
    field "slotId" Draft.slot (fun d v => { d with slot := some v }) uint32]

def Draft.finish? (d : Draft) : Option Entry := do
  return { subject := ← d.subject, teacher := ← d.teacher, room := ← d.room, slot := ← d.slot }

def read : Reader Entry := record fields {} Draft.finish?

def write (e : Entry) : List Char :=
  writeRecord
    [("subjectId", writeNatural e.subject.toNat),
      ("teacherId", writeNatural e.teacher.toNat),
      ("roomId", writeNatural e.room.toNat),
      ("slotId", writeNatural e.slot.toNat)]

end Entry

/-- Reads a text that holds a list of entries and nothing else. -/
def Entry.listOfJson (s : String) : Except Fault (List Entry) := (list Entry.read).whole s

end Timetabling
