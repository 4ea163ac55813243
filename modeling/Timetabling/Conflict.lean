import Timetabling.Rulebook

/-!
# Hard rules

Two readings of the same rules. `Rulebook.admits` is the gate: may this booking join that schedule?
`Rulebook.hardViolations` is the audit: how many rules does a schedule break? The gate looks for a
clash of teachers, then of rooms, then at the booking itself; the audit counts conflicting pairs
and faulty entries.
-/

namespace Timetabling

/-- The two bookings need the same teacher or the same room. -/
def Booking.sharesWith (v w : Booking) : Bool := v.teacher = w.teacher || v.room = w.room

/-- Two bookings of different subjects that need one teacher or one room at the same time. -/
def conflict (slots : SlotIndex) (x : SubjectId) (v : Booking) (y : SubjectId) (w : Booking) :
    Bool :=
  x ≠ y && v.sharesWith w && slots.meet v.slot w.slot

theorem Booking.sharesWith_comm (v w : Booking) : v.sharesWith w = w.sharesWith v := by
  simp [sharesWith, eq_comm]

theorem conflict_comm (slots : SlotIndex) (x y : SubjectId) (v w : Booking) :
    conflict slots x v y w = conflict slots y w x v := by
  simp [conflict, Booking.sharesWith_comm v w, SlotIndex.meet_comm slots v.slot, ne_comm]

namespace Rulebook

/-- An entry that breaks a rule by itself: unknown slot, teacher not fit or not available. -/
def faulty (r : Rulebook) (slots : SlotIndex) (x : SubjectId) (v : Booking) : Bool :=
  !(v.slot ∈ slots) || !r.mayTeach x v.teacher || !r.available v.teacher v.slot

/-- Some other subject of the schedule has a booking at the time of `slot` that `shares` says is in
the way. -/
def clashes (slots : SlotIndex) (x : SubjectId) (slot : TimeSlot) (shares : Booking → Bool)
    (p : Schedule) : Bool :=
  (p.entries.filter fun e => e.1 ≠ x).any fun e =>
    shares e.2 &&
      match slots.get? e.2.slot with
      | none => true
      | some other => other.overlaps slot

/-- Whether subject `x` may be booked as `v` beside the rest of `p`; an entry of `x` itself is not
looked at. -/
def admits (r : Rulebook) (slots : SlotIndex) (x : SubjectId) (v : Booking) (p : Schedule) : Bool :=
  match slots.get? v.slot with
  | none => false
  | some slot =>
    !clashes slots x slot (fun w => w.teacher = v.teacher) p &&
      !clashes slots x slot (fun w => w.room = v.room) p &&
      r.mayTeach x v.teacher && r.available v.teacher v.slot

/-- The number of unordered pairs in conflict. -/
def conflictingPairs (slots : SlotIndex) : List (SubjectId × Booking) → Nat
  | [] => 0
  | e :: es => es.countP (fun f => conflict slots e.1 e.2 f.1 f.2) + conflictingPairs slots es

/-- Every conflicting pair counts once, and so does every faulty entry. -/
def hardViolations (r : Rulebook) (slots : SlotIndex) (p : Schedule) : Nat :=
  conflictingPairs slots p.entries + p.entries.countP fun e => r.faulty slots e.1 e.2

end Rulebook

end Timetabling
