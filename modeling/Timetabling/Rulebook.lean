import Timetabling.Schedule

/-!
# Who may teach what, and when

A rulebook holds what the records of teachers and subjects say about a single booking. A teacher or
subject without data is left out of the table concerned, and what is left out is not restricted.
-/

namespace Timetabling

structure Rulebook where
  availability : Table TeacherId (List SlotId)
  specializations : Table TeacherId (List String)
  required : Table SubjectId (List String)
  weeklyHours : Table SubjectId UInt32
  maxWeeklyHours : Table TeacherId UInt32
deriving Repr, DecidableEq, Inhabited

namespace Rulebook

/-- Empty lists count as no data; of several records with one id the last that has data counts. -/
def ofRecords (teachers : List Teacher) (subjects : List Subject) : Rulebook where
  availability := Table.ofList
    ((teachers.filter fun t => !t.availability.isEmpty).map fun t => (t.id, t.availability))
  specializations := Table.ofList
    ((teachers.filter fun t => !t.specializations.isEmpty).map fun t => (t.id, t.specializations))
  required := Table.ofList
    ((subjects.filter fun s => !s.requiredSpecializations.isEmpty).map
      fun s => (s.id, s.requiredSpecializations))
  weeklyHours := Table.ofList (subjects.map fun s => (s.id, s.weeklyHours))
  maxWeeklyHours := Table.ofList (teachers.map fun t => (t.id, t.maxWeeklyHours))

def ofSnapshot (s : Snapshot) : Rulebook := ofRecords s.teachers s.subjects

/-- The subject requires nothing, or the teacher holds at least one specialization it requires. -/
def qualified (r : Rulebook) (x : SubjectId) (t : TeacherId) : Bool :=
  match r.required.get? x with
  | none => true
  | some required =>
    match r.specializations.get? t with
    | none => false
    | some held => required.any held.contains

/-- A teacher whose specializations are unknown may teach every subject. -/
def mayTeach (r : Rulebook) (x : SubjectId) (t : TeacherId) : Bool :=
  match r.specializations.get? t with
  | none => true
  | some _ => r.qualified x t

/-- A teacher whose availability is unknown is always available. -/
def available (r : Rulebook) (t : TeacherId) (s : SlotId) : Bool :=
  match r.availability.get? t with
  | none => true
  | some slots => slots.contains s

def knowsAvailability (r : Rulebook) (t : TeacherId) : Bool := t ∈ r.availability

/-- The hours of a subject; an unknown subject has none. -/
def hoursOf (r : Rulebook) (x : SubjectId) : UInt32 := r.weeklyHours.getD x 0

/-- The most hours a teacher may work; an unknown teacher may work none. -/
def maxHoursOf (r : Rulebook) (t : TeacherId) : UInt32 := r.maxWeeklyHours.getD t 0

end Rulebook

end Timetabling
