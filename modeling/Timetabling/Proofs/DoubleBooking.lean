import Timetabling.Proofs.Verdict

/-!
# Two lessons in one slot

The rules keep bookings apart by time alone. A slot that starts before it ends overlaps itself, so
no teacher and no room is given to two subjects in it. A slot that does not holds no period, and
there are no two times to keep apart: any number of subjects may share it with one teacher and one
room (`twice_in_hollow`).
-/

namespace Timetabling

theorem TimeSlot.overlaps_self {a : TimeSlot} :
    a.overlaps a = true ↔ a.startPeriod < a.endPeriod := by
  rw [overlaps_iff]
  exact ⟨fun h => h.2.1, fun h => ⟨rfl, h, h⟩⟩

/-- The slot of this id holds no period. -/
def SlotIndex.Hollow (slots : SlotIndex) (l : SlotId) : Prop :=
  ∃ a, slots.get? l = some a ∧ a.endPeriod ≤ a.startPeriod

theorem SlotIndex.meet_self {slots : SlotIndex} {l : SlotId} :
    slots.meet l l = false ↔ slots.Hollow l := by
  unfold meet Hollow
  cases slots.get? l with
  | none => simp
  | some a =>
    simp only [Option.some.injEq, exists_eq_left', ← Bool.not_eq_true, TimeSlot.overlaps_self,
      UInt32.not_lt]

/-- Two bookings in one slot, with one teacher or one room, are in conflict unless it is hollow. -/
theorem conflict_of_slot_eq {slots : SlotIndex} {x y : SubjectId} {v w : Booking} (hne : x ≠ y)
    (hslot : v.slot = w.slot) (hshare : v.teacher = w.teacher ∨ v.room = w.room) :
    conflict slots x v y w = false ↔ slots.Hollow v.slot := by
  rw [← SlotIndex.meet_self, ← Bool.not_eq_true, ← Bool.not_eq_true, conflict_eq_true, ← hslot]
  exact not_congr ⟨fun h => h.2.2, fun h => ⟨hne, hshare, h⟩⟩

/-- The two entries do not need one teacher or one room in one slot. -/
def Entry.Elsewhere (e f : Entry) : Prop :=
  e.slot = f.slot → e.teacher ≠ f.teacher ∧ e.room ≠ f.room

instance (e f : Entry) : Decidable (e.Elsewhere f) := inferInstanceAs (Decidable (_ → _))

theorem Entry.Elsewhere.symm {e f : Entry} (h : e.Elsewhere f) : f.Elsewhere e :=
  fun hslot => (h hslot.symm).imp Ne.symm Ne.symm

namespace Solver

variable {s : Solver} {deadline : Deadline} {sol : Solution}

theorem elsewhere_or_hollow (h : (s.run deadline).1 = .ok sol) :
    sol.entries.Pairwise fun e f => e.Elsewhere f ∨ s.problem.slots.Hollow e.slot := by
  obtain ⟨t, d, -, ht, rfl, -⟩ := run_ok h
  have hrules := Rulebook.hardViolations_eq_zero.1 ht.fits.lawful
  refine (Schedule.pairwise_toEntries (R := fun e f => e.Elsewhere f ∨
    e.slot = f.slot ∧ s.problem.slots.Hollow e.slot) ?_ fun e he f hf hne => ?_).imp
      fun h => h.imp_right And.right
  · rintro e f (h | ⟨hslot, h⟩)
    · exact .inl h.symm
    · exact .inr ⟨hslot.symm, hslot ▸ h⟩
  · have hfree := (hrules _ _ (Schedule.mem_toEntries.1 he)).2 _ _ (Schedule.mem_toEntries.1 hf)
    by_cases hslot : e.slot = f.slot
    · by_cases hshare : e.teacher = f.teacher ∨ e.room = f.room
      · exact .inr ⟨hslot, (conflict_of_slot_eq hne hslot hshare).1 hfree⟩
      · exact .inl fun _ => not_or.1 hshare
    · exact .inl fun h => absurd h hslot

end Solver

namespace Snapshot

theorem solve_of_generate {s : Snapshot} {settings : SolverSettings} {budget : UInt64}
    {conditions : Conditions} {answer : Except Infeasibility Solution}
    (h : s.generate settings budget conditions = .ok answer) :
    ∃ deadline, s.solve settings deadline conditions.order = answer := by
  unfold generate at h
  split at h
  · cases h
  · next deadline _ => exact ⟨deadline, Except.ok.inj h⟩

/-- No teacher and no room is given to two subjects in one slot that holds a period, be the search
complete, exhausted or cut short at whatever time. -/
theorem generate_once_per_slot (s : Snapshot) (settings : SolverSettings) (budget : UInt64)
    (conditions : Conditions) (sol : Solution)
    (h : s.generate settings budget conditions = .ok (.ok sol)) :
    sol.entries.Pairwise fun e f => e.Elsewhere f ∨
      ∃ a, s.slotIndex.get? e.slot = some a ∧ a.endPeriod ≤ a.startPeriod := by
  obtain ⟨deadline, hsolve⟩ := solve_of_generate h
  exact Solver.elsewhere_or_hollow (s := s.solver settings conditions.order) hsolve

/-- Four subjects for one room, a slot of one period and one of none. The third subject needs a
teacher who is there in the first slot alone. -/
def brief : Snapshot where
  teachers := [⟨7, "Ada", ["art"], 10, []⟩, ⟨8, "Alan", ["math"], 10, [1]⟩]
  subjects := [⟨1, "S1", 2, []⟩, ⟨2, "S2", 2, []⟩, ⟨3, "S3", 2, ["math"]⟩, ⟨4, "S4", 2, []⟩]
  rooms := [⟨100, 40, "lecture"⟩]
  timeSlots := [⟨1, 0, 1, 2⟩, ⟨2, 0, 3, 3⟩]

/-- The deadline passes when three subjects are booked; given more time, all four would be. -/
theorem generate_once_per_slot_brief :
    brief.generate {} 30 { clock := .minuteAt 3 } =
      .ok (.ok ⟨[⟨1, 7, 100, 2⟩, ⟨2, 7, 100, 2⟩, ⟨3, 8, 100, 1⟩], 0, 3 / 4, [4]⟩) ∧
    [(⟨1, 7, 100, 2⟩ : Entry), ⟨2, 7, 100, 2⟩, ⟨3, 8, 100, 1⟩].Pairwise fun e f =>
      e.Elsewhere f ∨
        ∃ a, brief.slotIndex.get? e.slot = some a ∧ a.endPeriod ≤ a.startPeriod := by
  have hrun : brief.generate {} 30 { clock := .minuteAt 3 } =
      .ok (.ok ⟨[⟨1, 7, 100, 2⟩, ⟨2, 7, 100, 2⟩, ⟨3, 8, 100, 1⟩], 0, 3 / 4, [4]⟩) := by cbv
  exact ⟨hrun, generate_once_per_slot brief {} 30 _ _ hrun⟩

/-- Two subjects for one teacher, one room and one slot, which holds no period. -/
def hollow : Snapshot where
  teachers := [⟨7, "Ada", [], 10, []⟩]
  subjects := [⟨1, "S1", 2, []⟩, ⟨2, "S2", 2, []⟩]
  rooms := [⟨100, 40, ""⟩]
  timeSlots := [⟨1, 0, 3, 3⟩]

theorem twice_in_hollow :
    hollow.generate {} 3600 = .ok (.ok ⟨[⟨1, 7, 100, 1⟩, ⟨2, 7, 100, 1⟩], 0, 0, []⟩) ∧
      ¬ [(⟨1, 7, 100, 1⟩ : Entry), ⟨2, 7, 100, 1⟩].Pairwise Entry.Elsewhere :=
  ⟨by cbv, by decide⟩

end Snapshot

end Timetabling
