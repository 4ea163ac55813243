import Timetabling.Number.Decimal
import Timetabling.Snapshot

/-!
# Bookings, schedules and entries

A schedule gives some subjects a booking. It is written down as a list of entries, one a subject,
in the order of `Entry.le`.
-/

namespace Timetabling

/-- A teacher, a room and a slot: what a subject may be given. -/
structure Booking where
  teacher : TeacherId
  room : RoomId
  slot : SlotId
deriving Repr, DecidableEq, Inhabited

/-- The bookings made so far, by subject. -/
abbrev Schedule := Table SubjectId Booking

/-- The bookings still open to each subject, in the order in which to consider them. -/
abbrev Domains := Table SubjectId (List Booking)

/-- One line of a written timetable. -/
structure Entry where
  subject : SubjectId
  teacher : TeacherId
  room : RoomId
  slot : SlotId
deriving Repr, DecidableEq, Inhabited

namespace Entry

def booking (e : Entry) : Booking := ⟨e.teacher, e.room, e.slot⟩

def ofBooking (x : SubjectId) (v : Booking) : Entry := ⟨x, v.teacher, v.room, v.slot⟩

@[simp] theorem booking_ofBooking (x : SubjectId) (v : Booking) : (ofBooking x v).booking = v := rfl

@[simp] theorem subject_ofBooking (x : SubjectId) (v : Booking) : (ofBooking x v).subject = x := rfl

@[simp] theorem ofBooking_booking (e : Entry) : ofBooking e.subject e.booking = e := rfl

/-- Entries are ordered by subject, then teacher, then room, then slot. -/
def le (a b : Entry) : Bool :=
  a.subject < b.subject || a.subject = b.subject &&
    (a.teacher < b.teacher || a.teacher = b.teacher &&
      (a.room < b.room || a.room = b.room && a.slot ≤ b.slot))

def sort (es : List Entry) : List Entry := es.mergeSort le

def text (e : Entry) : String :=
  "subject " ++ Decimal.text e.subject.toNat ++ " -> teacher " ++ Decimal.text e.teacher.toNat ++
    ", room " ++ Decimal.text e.room.toNat ++ ", slot " ++ Decimal.text e.slot.toNat

end Entry

namespace Schedule

/-- The last entry of a subject gives its booking. -/
def ofEntries (es : List Entry) : Schedule :=
  Table.ofList (es.map fun e => (e.subject, e.booking))

/-- The written form of a schedule, in order. -/
def toEntries (p : Schedule) : List Entry :=
  Entry.sort (p.entries.map fun e => Entry.ofBooking e.1 e.2)

end Schedule

end Timetabling
