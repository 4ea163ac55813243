import Timetabling.Slot

/-!
# Reference data

What a school knows before a timetable is made: who teaches, what is taught, in which rooms, and
when.
-/

namespace Timetabling

abbrev TeacherId := UInt32

abbrev SubjectId := UInt32

abbrev RoomId := UInt32

/-- A teacher. An empty list of specializations or of available slots says that nothing is known,
not that there are none. -/
structure Teacher where
  id : TeacherId
  name : String
  specializations : List String
  maxWeeklyHours : UInt32
  availability : List SlotId
deriving Repr, DecidableEq, Inhabited

/-- A subject that waits for a teacher, a room and a slot. -/
structure Subject where
  id : SubjectId
  code : String
  weeklyHours : UInt32
  requiredSpecializations : List String
deriving Repr, DecidableEq, Inhabited

structure Room where
  id : RoomId
  capacity : UInt32
  roomType : String
deriving Repr, DecidableEq, Inhabited

/-- All that a timetable is made from, read once. -/
structure Snapshot where
  teachers : List Teacher
  subjects : List Subject
  rooms : List Room
  timeSlots : List TimeSlot
deriving Repr, DecidableEq, Inhabited

def Snapshot.slotIndex (s : Snapshot) : SlotIndex := SlotIndex.ofSlots s.timeSlots

end Timetabling
