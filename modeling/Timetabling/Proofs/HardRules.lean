import Mathlib.Data.List.Pairwise
import Timetabling.Conflict

/-!
# The gate and the audit

`Rulebook.admits` looks at one booking beside a schedule, `Rulebook.hardViolations` at a whole
schedule. Both come down to the same two questions: is a booking `faulty` by itself, and which pairs
of bookings are in `conflict`? A schedule without violations is one in which every entry passes both
(`hardViolations_eq_zero`). What a new entry costs is told by `hardViolations_insert`, and the gate
lets in just the bookings that cost nothing (`admits_iff_hardViolations_insert`).
-/

namespace Timetabling

variable {slots : SlotIndex} {x y : SubjectId} {v w : Booking}

theorem conflict_self : conflict slots x v x w = false := by simp [conflict]

theorem conflict_eq_true : conflict slots x v y w = true ↔
    x ≠ y ∧ (v.teacher = w.teacher ∨ v.room = w.room) ∧ slots.meet v.slot w.slot = true := by
  simp [conflict, Booking.sharesWith, and_assoc]

/-- A conflict depends on what the index says of the two slots alone. -/
theorem conflict_congr {slots' : SlotIndex} (hv : slots'.get? v.slot = slots.get? v.slot)
    (hw : slots'.get? w.slot = slots.get? w.slot) :
    conflict slots' x v y w = conflict slots x v y w := by
  simp only [conflict, SlotIndex.meet, hv, hw]

/-- Two known slots that do not meet have no period in common. -/
theorem SlotIndex.not_covers_of_meet {s t : SlotId} {a b : TimeSlot} (h : slots.meet s t = false)
    (ha : slots.get? s = some a) (hb : slots.get? t = some b) (hd : a.dayOfWeek = b.dayOfWeek)
    (q : UInt32) : ¬ (a.Covers q ∧ b.Covers q) := by
  rintro ⟨⟨ha₁, ha₂⟩, hb₁, hb₂⟩
  have hover : a.overlaps b = false := by simpa [SlotIndex.meet, ha, hb] using h
  have hmeet : a.overlaps b = true :=
    TimeSlot.overlaps_iff.2 ⟨hd, UInt32.lt_of_le_of_lt ha₁ hb₂, UInt32.lt_of_le_of_lt hb₁ ha₂⟩
  rw [hover] at hmeet
  cases hmeet

namespace Rulebook

variable {r : Rulebook} {p : Schedule}

theorem faulty_eq_false : r.faulty slots x v = false ↔
    v.slot ∈ slots ∧ r.mayTeach x v.teacher = true ∧ r.available v.teacher v.slot = true := by
  simp [faulty, and_assoc]

/-! ### The gate -/

theorem clashes_eq_false {slot : TimeSlot} {shares : Booking → Bool} :
    clashes slots x slot shares p = false ↔ ∀ e ∈ p.entries, e.1 ≠ x → shares e.2 = true →
      ∃ other, slots.get? e.2.slot = some other ∧ other.overlaps slot = false := by
  simp only [clashes, List.any_eq_false, List.mem_filter, decide_eq_true_eq, and_imp]
  refine forall_congr' fun e => forall_congr' fun _ => forall_congr' fun _ => ?_
  cases slots.get? e.2.slot <;> cases shares e.2 <;> simp

/-- Beside an entry whose booking stands in nobody's way there is no conflict, and the other way
round. -/
theorem conflict_eq_false_iff {slot : TimeSlot} (hs : slots.get? v.slot = some slot) :
    conflict slots x v y w = false ↔ (y ≠ x → w.teacher = v.teacher ∨ w.room = v.room →
      ∃ other, slots.get? w.slot = some other ∧ other.overlaps slot = false) := by
  rw [← Bool.not_eq_true, conflict_eq_true, ne_comm, eq_comm (a := v.teacher),
    eq_comm (a := v.room)]
  simp only [SlotIndex.meet, hs]
  cases slots.get? w.slot <;> simp [TimeSlot.overlaps_comm slot]

/-- For a booking in a known slot, the gate's looks for a clash of teachers and of rooms together
find the conflicts. -/
theorem clashes_eq_false_iff_conflict {slot : TimeSlot} (hs : slots.get? v.slot = some slot) :
    (clashes slots x slot (fun w => w.teacher = v.teacher) p = false ∧
      clashes slots x slot (fun w => w.room = v.room) p = false) ↔
    ∀ y w, p.get? y = some w → conflict slots x v y w = false := by
  simp only [clashes_eq_false, decide_eq_true_eq, conflict_eq_false_iff hs, ← Table.mem_entries]
  constructor
  · rintro ⟨ht, hr⟩ y w hw hy hshare
    rcases hshare with h | h
    · exact ht (y, w) hw hy h
    · exact hr (y, w) hw hy h
  · intro h
    exact ⟨fun e he hx ht => h e.1 e.2 he hx (.inl ht),
      fun e he hx hr => h e.1 e.2 he hx (.inr hr)⟩

/-- The gate lets a booking in when it is not faulty and in conflict with no entry. -/
theorem admits_iff : r.admits slots x v p = true ↔
    r.faulty slots x v = false ∧
      ∀ y w, p.get? y = some w → conflict slots x v y w = false := by
  rw [faulty_eq_false]
  cases hs : slots.get? v.slot with
  | none =>
    have hn : ¬ v.slot ∈ slots := Table.get?_eq_none.1 hs
    simp [admits, hs, hn]
  | some slot =>
    have hm : v.slot ∈ slots := Table.isSome_get?.1 (by simp [hs])
    rw [← clashes_eq_false_iff_conflict hs]
    simp only [admits, hs, Bool.and_eq_true, Bool.not_eq_true', hm, true_and]
    constructor
    · rintro ⟨⟨hclash, hmay⟩, hav⟩
      exact ⟨⟨hmay, hav⟩, hclash⟩
    · rintro ⟨⟨hmay, hav⟩, hclash⟩
      exact ⟨⟨hclash, hmay⟩, hav⟩

/-! ### The audit -/

instance : Std.Symm fun e f : SubjectId × Booking => conflict slots e.1 e.2 f.1 f.2 = false :=
  ⟨fun e f h => by rw [conflict_comm]; exact h⟩

theorem conflictingPairs_eq_zero {es : List (SubjectId × Booking)} :
    conflictingPairs slots es = 0 ↔
      es.Pairwise fun e f => conflict slots e.1 e.2 f.1 f.2 = false := by
  induction es with
  | nil => simp [conflictingPairs]
  | cons e es ih => simp [conflictingPairs, List.countP_eq_zero, ih]

/-- No violations: no entry is faulty and no two are in conflict. -/
theorem hardViolations_eq_zero : r.hardViolations slots p = 0 ↔
    ∀ x v, p.get? x = some v → r.faulty slots x v = false ∧
      ∀ y w, p.get? y = some w → conflict slots x v y w = false := by
  rw [hardViolations, Nat.add_eq_zero_iff, conflictingPairs_eq_zero, List.countP_eq_zero]
  constructor
  · rintro ⟨hpairs, hfaulty⟩ x v hx
    refine ⟨by simpa using hfaulty _ (Table.mem_entries.2 hx), fun y w hy => ?_⟩
    exact hpairs.forall_of_forall (fun _ _ => conflict_self) (Table.mem_entries.2 hx)
      (Table.mem_entries.2 hy)
  · intro h
    refine ⟨List.pairwise_of_forall_mem_list fun e he f hf => ?_, fun e he => ?_⟩
    · exact (h _ _ (Table.mem_entries.1 he)).2 _ _ (Table.mem_entries.1 hf)
    · simpa using (h _ _ (Table.mem_entries.1 he)).1

theorem hardViolations_empty : r.hardViolations slots ∅ = 0 := rfl

/-! ### One more entry -/

/-- The gate does not look at the entry of the subject itself. -/
theorem admits_erase : r.admits slots x v (p.erase x) = r.admits slots x v p := by
  rw [Bool.eq_iff_iff, admits_iff, admits_iff]
  refine and_congr_right fun _ => ⟨fun h y w hy => ?_, fun h y w hy => ?_⟩
  · by_cases hyx : y = x
    · rw [hyx]; exact conflict_self
    · exact h y w (by rw [Table.get?_erase, if_neg hyx, hy])
  · rw [Table.get?_erase] at hy
    split at hy
    · cases hy
    · exact h y w hy

theorem conflictingPairs_perm {es fs : List (SubjectId × Booking)} (h : es.Perm fs) :
    conflictingPairs slots es = conflictingPairs slots fs := by
  induction h with
  | nil => rfl
  | cons e h ih => rw [conflictingPairs, conflictingPairs, h.countP_eq, ih]
  | swap e f es =>
    have hcomm : conflict slots f.1 f.2 e.1 e.2 = conflict slots e.1 e.2 f.1 f.2 :=
      conflict_comm slots f.1 e.1 f.2 e.2
    simp only [conflictingPairs, List.countP_cons, hcomm]
    omega
  | trans _ _ ih₁ ih₂ => exact ih₁.trans ih₂

theorem hardViolations_perm {q : Schedule} (h : q.entries.Perm p.entries) :
    r.hardViolations slots q = r.hardViolations slots p := by
  rw [hardViolations, hardViolations, conflictingPairs_perm h, h.countP_eq]

/-- A new entry costs one for every entry that it is in conflict with, and one if it is faulty. -/
theorem hardViolations_insert (hx : ¬ x ∈ p) (v : Booking) :
    r.hardViolations slots (p.insert x v) = r.hardViolations slots p +
      p.entries.countP (fun e => conflict slots x v e.1 e.2) +
      if r.faulty slots x v then 1 else 0 := by
  have hperm : (p.insert x v).entries.Perm ((x, v) :: p.entries) := by
    rw [Table.entries_insert_of_not_mem v hx]
    exact List.perm_append_singleton _ _
  have hpairs : conflictingPairs slots (p.insert x v).entries =
      p.entries.countP (fun e => conflict slots x v e.1 e.2) + conflictingPairs slots p.entries :=
    conflictingPairs_perm hperm
  have hfaulty : (p.insert x v).entries.countP (fun e => r.faulty slots e.1 e.2) =
      p.entries.countP (fun e => r.faulty slots e.1 e.2) + if r.faulty slots x v then 1 else 0 := by
    rw [hperm.countP_eq, List.countP_cons]
  rw [hardViolations, hardViolations, hpairs, hfaulty]
  omega

theorem countP_conflict_eq_zero :
    p.entries.countP (fun e => conflict slots x v e.1 e.2) = 0 ↔
      ∀ y w, p.get? y = some w → conflict slots x v y w = false := by
  simp only [List.countP_eq_zero, Bool.not_eq_true, Prod.forall, Table.mem_entries]

/-- What the gate lets in keeps a schedule free of violations. -/
theorem hardViolations_insert_eq_zero (hx : ¬ x ∈ p) (h : r.hardViolations slots p = 0)
    (hv : r.admits slots x v p = true) : r.hardViolations slots (p.insert x v) = 0 := by
  obtain ⟨hfaulty, hfree⟩ := admits_iff.1 hv
  rw [hardViolations_insert hx, h, countP_conflict_eq_zero.2 hfree, hfaulty]
  rfl

/-- The gate lets a booking in just when it costs the rest of the schedule no violation. What it
costs does not depend on the order of the entries, and a schedule breaks no rule just when the gate
would let in each of its entries beside the others. -/
theorem admits_iff_hardViolations_insert (r : Rulebook) (slots : SlotIndex) (x : SubjectId)
    (v : Booking) (p : Schedule) :
    (r.admits slots x v p = true ↔
      r.hardViolations slots ((p.erase x).insert x v) = r.hardViolations slots (p.erase x)) ∧
    r.hardViolations slots ((p.erase x).insert x v) = r.hardViolations slots (p.erase x) +
      (p.erase x).entries.countP (fun e => conflict slots x v e.1 e.2) +
      (if r.faulty slots x v then 1 else 0) ∧
    (∀ q : Schedule, q.entries.Perm p.entries →
      r.hardViolations slots q = r.hardViolations slots p) ∧
    (r.hardViolations slots p = 0 ↔
      ∀ y w, p.get? y = some w → r.admits slots y w (p.erase y) = true) := by
  have hx : ¬ x ∈ p.erase x := fun h => (Table.mem_erase.1 h).1 rfl
  have hcost : r.hardViolations slots ((p.erase x).insert x v) =
      r.hardViolations slots (p.erase x) +
        (p.erase x).entries.countP (fun e => conflict slots x v e.1 e.2) +
        (if r.faulty slots x v then 1 else 0) := hardViolations_insert hx v
  refine ⟨?_, hcost, fun q h => hardViolations_perm h, ?_⟩
  · rw [← admits_erase, admits_iff, ← countP_conflict_eq_zero, hcost]
    cases r.faulty slots x v with
    | false => simp only [true_and, Bool.false_eq_true, if_false]; omega
    | true => simp only [Bool.true_eq_false, false_and, if_true, false_iff]; omega
  · rw [hardViolations_eq_zero]
    refine forall_congr' fun y => forall_congr' fun w => forall_congr' fun _ => ?_
    rw [admits_erase, admits_iff]

end Rulebook

end Timetabling
