import Timetabling.Table

/-!
# Time slots

A slot occupies the periods from its start up to, and not including, its end, on one day of the
week. Nothing obliges the start to lie before the end.
-/

namespace Timetabling

abbrev SlotId := UInt32

structure TimeSlot where
  id : SlotId
  dayOfWeek : UInt8
  startPeriod : UInt32
  endPeriod : UInt32
deriving Repr, DecidableEq, Inhabited

/-- The slots of a calendar by id. -/
abbrev SlotIndex := Table SlotId TimeSlot

namespace TimeSlot

/-- Each slot starts before the other ends, on the same day. -/
def overlaps (a b : TimeSlot) : Bool :=
  a.dayOfWeek = b.dayOfWeek && a.startPeriod < b.endPeriod && b.startPeriod < a.endPeriod

/-- The slot takes place in period `p` of its day. -/
def Covers (s : TimeSlot) (p : UInt32) : Prop :=
  s.startPeriod ≤ p ∧ p < s.endPeriod

instance (s : TimeSlot) (p : UInt32) : Decidable (s.Covers p) :=
  inferInstanceAs (Decidable (_ ∧ _))

theorem overlaps_iff {a b : TimeSlot} : a.overlaps b = true ↔
    a.dayOfWeek = b.dayOfWeek ∧ a.startPeriod < b.endPeriod ∧ b.startPeriod < a.endPeriod := by
  simp [overlaps, and_assoc]

theorem overlaps_comm (a b : TimeSlot) : a.overlaps b = b.overlaps a := by
  rw [Bool.eq_iff_iff, overlaps_iff, overlaps_iff]
  constructor <;> rintro ⟨hd, hs, he⟩ <;> exact ⟨hd.symm, he, hs⟩

end TimeSlot

/-- A repeated id stands for its last slot. -/
def SlotIndex.ofSlots (slots : List TimeSlot) : SlotIndex :=
  Table.ofList (slots.map fun s => (s.id, s))

/-- Whether two slot ids take place at the same time; a slot that the index lacks is taken to meet
every other. -/
def SlotIndex.meet (slots : SlotIndex) (s t : SlotId) : Bool :=
  match slots.get? s, slots.get? t with
  | some a, some b => a.overlaps b
  | _, _ => true

theorem SlotIndex.meet_comm (slots : SlotIndex) (s t : SlotId) :
    slots.meet s t = slots.meet t s := by
  unfold meet
  cases slots.get? s <;> cases slots.get? t <;> simp [TimeSlot.overlaps_comm]

end Timetabling
