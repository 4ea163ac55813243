import Timetabling.Schedule
import Timetabling.Rulebook

/-!
# Timetabling problems

A problem lists the subjects to book, the bookings open to each, and what the rules look at. The
problem of a snapshot offers every teacher, room and slot of the snapshot together, as far as the
teacher may teach the subject and is available.
-/

namespace Timetabling

structure Problem where
  /-- The subjects to book, in order; one that is listed twice is booked once. -/
  subjects : List Subject
  domains : Domains
  slots : SlotIndex
  rules : Rulebook
deriving Repr, DecidableEq

namespace Problem

def ids (p : Problem) : List SubjectId := p.subjects.map Subject.id

/-- The bookings of subject `x` that no rule forbids by itself: by teacher, then room, then slot.
-/
def candidates (rules : Rulebook) (s : Snapshot) (x : SubjectId) : List Booking :=
  (s.teachers.filter fun t => rules.mayTeach x t.id).flatMap fun t =>
    s.rooms.flatMap fun r =>
      (s.timeSlots.filter fun l => rules.available t.id l.id).map fun l => ⟨t.id, r.id, l.id⟩

def ofSnapshot (s : Snapshot) : Problem :=
  let rules := Rulebook.ofSnapshot s
  { subjects := s.subjects
    domains := Table.ofList (s.subjects.map fun x => (x.id, candidates rules s x.id))
    slots := s.slotIndex
    rules := rules }

end Problem

end Timetabling
