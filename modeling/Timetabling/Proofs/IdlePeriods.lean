import Timetabling.Proofs.Pricing

/-!
# Idle periods

A period of a day is idle for a teacher if it lies between the teacher's first start and last end
and none of the teacher's slots covers it. The gap penalty does not look at ends: of the stretch
from the first start to the last it takes off one period for each slot, however long, the last slot
included. On a day on which no two slots overlap that stretch holds the idle periods and those
taught before the last start (`Orderly.lastStart_eq`), and so where slots are one period long the
penalty comes to one idle period a day less (`gap_idle`).
-/

namespace Timetabling

/-- No two bookings of one teacher or room are at the same time. -/
theorem Rulebook.pairwise_values {r : Rulebook} {slots : SlotIndex} {p : Schedule}
    (h : r.hardViolations slots p = 0) :
    p.values.Pairwise fun v w => v.sharesWith w = true → slots.meet v.slot w.slot = false := by
  rw [Rulebook.hardViolations, Nat.add_eq_zero_iff, conflictingPairs_eq_zero] at h
  have hkeys : p.entries.Pairwise fun e f => e.1 ≠ f.1 := List.pairwise_map.1 p.nodup
  rw [Table.values, List.pairwise_map]
  refine (h.1.and hkeys).imp ?_
  rintro e f ⟨hfree, hne⟩ hshare
  simpa [conflict, hne, hshare] using hfree

/-- The periods that a slot takes. -/
def TimeSlot.periods (s : TimeSlot) : Finset ℕ := Finset.Ico s.startPeriod.toNat s.endPeriod.toNat

/-- Every slot of the schedule has a period. -/
def Schedule.Proper (slots : SlotIndex) (p : Schedule) : Prop :=
  ∀ v ∈ p.values, ∀ s ∈ slots.get? v.slot, s.startPeriod < s.endPeriod

instance (slots : SlotIndex) (p : Schedule) : Decidable (p.Proper slots) :=
  inferInstanceAs (Decidable (∀ v ∈ p.values, ∀ s ∈ slots.get? v.slot, _))

namespace Penalty

variable {slots : SlotIndex} {p : Schedule} {w : Workday} {day : List TimeSlot} {s : TimeSlot}

/-- The slots in which the teacher of `w` works on the day of `w`. -/
def slotsOn (slots : SlotIndex) (p : Schedule) (w : Workday) : List TimeSlot :=
  (p.values.filter fun v => v.teacher = w.1).filterMap fun v =>
    (slots.get? v.slot).filter fun s => s.dayOfWeek = w.2

theorem mem_slotsOn : s ∈ slotsOn slots p w ↔ ∃ v ∈ p.values, v.teacher = w.1 ∧
    slots.get? v.slot = some s ∧ s.dayOfWeek = w.2 := by
  simp [slotsOn, List.mem_filterMap, Option.filter_eq_some_iff, and_assoc]

def firstStart (day : List TimeSlot) : ℕ :=
  earliest (day.map fun s => s.startPeriod.toNat : List ℕ)

def lastStart (day : List TimeSlot) : ℕ :=
  latest (day.map fun s => s.startPeriod.toNat : List ℕ)

def lastEnd (day : List TimeSlot) : ℕ :=
  latest (day.map fun s => s.endPeriod.toNat : List ℕ)

/-- The periods from the first start to the last end that no slot takes. -/
def idle (day : List TimeSlot) : Finset ℕ :=
  (Finset.Ico (firstStart day) (lastEnd day)).filter fun n => ¬ ∃ s ∈ day, n ∈ s.periods

/-- The periods from the first start up to the last that a slot takes. -/
def taught (day : List TimeSlot) : Finset ℕ :=
  (Finset.Ico (firstStart day) (lastStart day)).filter fun n => ∃ s ∈ day, n ∈ s.periods

/-- The idle periods of all working days beyond two a day. -/
def idleExcess (slots : SlotIndex) (p : Schedule) : ℤ :=
  ∑ w ∈ workdays slots p.duties, max 0 (((idle (slotsOn slots p w)).card : ℤ) - 2)

/-! ### The ends of a day -/

theorem earliest_le (f : TimeSlot → ℕ) (hs : s ∈ day) : earliest (day.map f : List ℕ) ≤ f s := by
  have hne : ((day.map f : List ℕ) : Multiset ℕ) ≠ 0 := by simpa using List.ne_nil_of_mem hs
  exact (isLeast_earliest hne).2 (List.mem_map_of_mem hs)

theorem le_latest (f : TimeSlot → ℕ) (hs : s ∈ day) : f s ≤ latest (day.map f : List ℕ) := by
  have hne : ((day.map f : List ℕ) : Multiset ℕ) ≠ 0 := by simpa using List.ne_nil_of_mem hs
  exact (isGreatest_latest hne).2 (List.mem_map_of_mem hs)

theorem exists_latest (f : TimeSlot → ℕ) (h : day ≠ []) :
    ∃ l ∈ day, f l = latest (day.map f : List ℕ) := by
  have hne : ((day.map f : List ℕ) : Multiset ℕ) ≠ 0 := by simpa using h
  exact List.mem_map.1 (isGreatest_latest hne).1

/-! ### One day -/

/-- Slots of one day that are not empty and do not overlap. -/
structure Orderly (day : List TimeSlot) : Prop where
  proper : ∀ s ∈ day, s.startPeriod.toNat < s.endPeriod.toNat
  apart : day.Pairwise fun a b =>
    a.endPeriod.toNat ≤ b.startPeriod.toNat ∨ b.endPeriod.toNat ≤ a.startPeriod.toNat

namespace Orderly

theorem end_le_start (h : Orderly day) {a b : TimeSlot} (ha : a ∈ day) (hb : b ∈ day)
    (hab : a.startPeriod.toNat ≤ b.startPeriod.toNat) :
    a = b ∨ a.endPeriod.toNat ≤ b.startPeriod.toNat := by
  have hsymm : Std.Symm fun a b : TimeSlot =>
      a.endPeriod.toNat ≤ b.startPeriod.toNat ∨ b.endPeriod.toNat ≤ a.startPeriod.toNat :=
    ⟨fun _ _ => Or.symm⟩
  by_cases heq : a = b
  · exact .inl heq
  · have hproper := h.proper b hb
    rcases h.apart.forall ha hb heq with hle | hle
    · exact .inr hle
    · omega

/-- The slot that starts last ends last, and so no period is idle from its start on. -/
theorem idle_eq (h : Orderly day) : idle day =
    (Finset.Ico (firstStart day) (lastStart day)).filter fun n => ¬ ∃ s ∈ day, n ∈ s.periods := by
  by_cases hne : day = []
  · rw [hne]
    rfl
  obtain ⟨l, hl, hstart⟩ := exists_latest (fun s => s.startPeriod.toNat) hne
  obtain ⟨e, he, hend⟩ := exists_latest (fun s => s.endPeriod.toNat) hne
  change _ = lastStart day at hstart
  change _ = lastEnd day at hend
  have hproper := h.proper l hl
  have hle : l.endPeriod.toNat ≤ lastEnd day := le_latest (fun s => s.endPeriod.toNat) hl
  have hge : lastEnd day ≤ l.endPeriod.toNat := by
    have hel : e.startPeriod.toNat ≤ lastStart day := le_latest (fun s => s.startPeriod.toNat) he
    rcases h.end_le_start he hl (hstart ▸ hel) with rfl | hlt
    · exact hend.ge
    · omega
  ext n
  simp only [idle, Finset.mem_filter, Finset.mem_Ico]
  constructor
  · rintro ⟨⟨hfirst, hlast⟩, hfree⟩
    refine ⟨⟨hfirst, ?_⟩, hfree⟩
    by_contra hn
    exact hfree ⟨l, hl, Finset.mem_Ico.2 ⟨by omega, by omega⟩⟩
  · rintro ⟨⟨hfirst, hlast⟩, hfree⟩
    exact ⟨⟨hfirst, by omega⟩, hfree⟩

theorem lastStart_eq (h : Orderly day) :
    lastStart day = firstStart day + (taught day).card + (idle day).card := by
  have hsplit := Finset.card_filter_add_card_filter_not
    (s := Finset.Ico (firstStart day) (lastStart day)) fun n => ∃ s ∈ day, n ∈ s.periods
  have hle : firstStart day ≤ lastStart day := by
    by_cases hne : day = []
    · rw [hne]
      rfl
    · obtain ⟨s, hs⟩ := List.exists_mem_of_ne_nil day hne
      exact (earliest_le _ hs).trans (le_latest (fun s => s.startPeriod.toNat) hs)
  rw [Nat.card_Ico] at hsplit
  rw [h.idle_eq, taught]
  omega

/-- Where slots are one period long, the last start is the only one that is not counted. -/
theorem card_taught (h : Orderly day) (hne : day ≠ [])
    (hhour : ∀ s ∈ day, s.endPeriod.toNat = s.startPeriod.toNat + 1) :
    (taught day).card + 1 = day.length := by
  have hstarts : taught day =
      (day.map fun s => s.startPeriod.toNat).toFinset.erase (lastStart day) := by
    ext n
    simp only [taught, Finset.mem_filter, Finset.mem_Ico, Finset.mem_erase, List.mem_toFinset,
      List.mem_map, TimeSlot.periods]
    constructor
    · rintro ⟨⟨-, hlast⟩, s, hs, hsn⟩
      have := hhour s hs
      exact ⟨by omega, s, hs, by omega⟩
    · rintro ⟨hlast, s, hs, rfl⟩
      have hfirst : firstStart day ≤ s.startPeriod.toNat := earliest_le _ hs
      have hle : s.startPeriod.toNat ≤ lastStart day := le_latest (fun s => s.startPeriod.toNat) hs
      have := hhour s hs
      exact ⟨⟨hfirst, by omega⟩, s, hs, by omega⟩
  have hnodup : (day.map fun s => s.startPeriod.toNat).Nodup := by
    rw [List.Nodup, List.pairwise_map]
    refine h.apart.imp_of_mem fun {a b} ha hb hab => ?_
    have hpa := h.proper a ha
    have hpb := h.proper b hb
    omega
  obtain ⟨l, hl, hstart⟩ := exists_latest (fun s => s.startPeriod.toNat) hne
  have hlast : lastStart day ∈ (day.map fun s => s.startPeriod.toNat).toFinset :=
    List.mem_toFinset.2 (List.mem_map.2 ⟨l, hl, hstart⟩)
  rw [hstarts, Finset.card_erase_add_one hlast, List.toFinset_card_of_nodup hnodup,
    List.length_map]

end Orderly

/-! ### All days -/

theorem startsOn_eq (slots : SlotIndex) (p : Schedule) (w : Workday) :
    startsOn slots p.duties w =
      ((slotsOn slots p w).map fun s => s.startPeriod.toNat : List ℕ) := by
  rw [startsOn, shifts, Schedule.duties, Multiset.filterMap_coe, Multiset.filter_coe,
    Multiset.map_coe, List.filterMap_map, slotsOn]
  congr 1
  obtain ⟨t, day⟩ := w
  induction p.values with
  | nil => rfl
  | cons v vs ih =>
    simp only [Function.comp_def] at ih ⊢
    by_cases ht : v.teacher = t
    · cases hs : slots.get? v.slot with
      | none => simpa [hs, ht] using ih
      | some s => by_cases hd : s.dayOfWeek = day <;>
          simpa [List.filterMap_cons, Option.filter_some, hs, ht, hd] using ih
    · cases hs : slots.get? v.slot <;> simpa [hs, ht] using ih

theorem slotsOn_ne_nil (hw : w ∈ workdays slots p.duties) : slotsOn slots p w ≠ [] := by
  intro hnil
  obtain ⟨e, he, hew⟩ := Multiset.mem_map.1 (Multiset.mem_toFinset.1 hw)
  have hmem : e.2 ∈ startsOn slots p.duties w :=
    Multiset.mem_map_of_mem _ (Multiset.mem_filter.2 ⟨he, hew⟩)
  rw [startsOn_eq, hnil] at hmem
  simp at hmem

theorem orderly_slotsOn {r : Rulebook} (h : r.hardViolations slots p = 0)
    (hproper : p.Proper slots) (w : Workday) : Orderly (slotsOn slots p w) where
  proper s hs := by
    obtain ⟨v, hv, -, hget, -⟩ := mem_slotsOn.1 hs
    exact UInt32.lt_iff_toNat_lt.1 (hproper v hv s hget)
  apart := by
    have hmeet : (p.values.filter fun v => v.teacher = w.1).Pairwise fun u v =>
        slots.meet u.slot v.slot = false := by
      rw [List.pairwise_filter]
      refine (Rulebook.pairwise_values h).imp fun {u v} hfree hu hv => hfree ?_
      simp only [decide_eq_true_eq] at hu hv
      simp [Booking.sharesWith, hu, hv]
    refine hmeet.filterMap _ fun u v huv a ha b hb => ?_
    obtain ⟨ha, had⟩ := Option.filter_eq_some_iff.1 ha
    obtain ⟨hb, hbd⟩ := Option.filter_eq_some_iff.1 hb
    simp only [decide_eq_true_eq] at had hbd
    have hover : ¬ a.overlaps b = true := by simpa [SlotIndex.meet, ha, hb] using huv
    rw [TimeSlot.overlaps_iff, had, hbd, UInt32.lt_iff_toNat_lt, UInt32.lt_iff_toNat_lt] at hover
    simp only [true_and] at hover
    omega

theorem gap_eq_sum_slotsOn (slots : SlotIndex) (p : Schedule) : gap slots p =
    ∑ w ∈ workdays slots p.duties, max 0 ((lastStart (slotsOn slots p w) : ℤ) -
      firstStart (slotsOn slots p w) - (slotsOn slots p w).length - 2) := by
  rw [gap_eq_sum, sum_excess_eq]
  refine Finset.sum_congr rfl fun w _ => ?_
  rw [surplus, startsOn_eq, Multiset.coe_card, List.length_map]
  rfl

/-- Without violations, the gap penalty counts the idle periods of each day and the periods taught
before the last start, less one for each slot and two more. So where all slots are one period long,
three idle periods a day cost nothing. -/
theorem gap_idle (r : Rulebook) (slots : SlotIndex) (p : Schedule)
    (hlawful : r.hardViolations slots p = 0) (hproper : p.Proper slots) :
    gap slots p = ∑ w ∈ workdays slots p.duties, max 0 (((idle (slotsOn slots p w)).card : ℤ) +
      (taught (slotsOn slots p w)).card - (slotsOn slots p w).length - 2) ∧
    ((∀ v ∈ p.values, ∀ s ∈ slots.get? v.slot, s.endPeriod.toNat = s.startPeriod.toNat + 1) →
      gap slots p = ∑ w ∈ workdays slots p.duties,
        max 0 (((idle (slotsOn slots p w)).card : ℤ) - 3)) := by
  have hday := orderly_slotsOn hlawful hproper
  have hgap : gap slots p =
      ∑ w ∈ workdays slots p.duties, max 0 (((idle (slotsOn slots p w)).card : ℤ) +
        (taught (slotsOn slots p w)).card - (slotsOn slots p w).length - 2) := by
    rw [gap_eq_sum_slotsOn]
    refine Finset.sum_congr rfl fun w _ => ?_
    have := (hday w).lastStart_eq
    omega
  refine ⟨hgap, fun hhour => ?_⟩
  rw [hgap]
  refine Finset.sum_congr rfl fun w hw => ?_
  have := (hday w).card_taught (slotsOn_ne_nil hw) fun s hs => by
    obtain ⟨v, hv, -, hget, -⟩ := mem_slotsOn.1 hs
    exact hhour v hv s hget
  omega

/-- Teacher 7 has three slots on one day, of two, one and two periods; teacher 8 has one. -/
def unevenSlots : SlotIndex :=
  SlotIndex.ofSlots [⟨1, 0, 1, 3⟩, ⟨2, 0, 5, 6⟩, ⟨3, 0, 12, 14⟩]

def uneven : Schedule :=
  Table.ofList [(1, ⟨7, 100, 1⟩), (2, ⟨7, 100, 2⟩), (3, ⟨7, 100, 3⟩), (4, ⟨8, 101, 2⟩)]

theorem gap_idle_uneven : (default : Rulebook).hardViolations unevenSlots uneven = 0 ∧
    uneven.Proper unevenSlots ∧ (idle (slotsOn unevenSlots uneven (7, 0))).card = 8 ∧
    (taught (slotsOn unevenSlots uneven (7, 0))).card = 3 ∧
    ∑ w ∈ workdays unevenSlots uneven.duties,
      max 0 (((idle (slotsOn unevenSlots uneven w)).card : ℤ) +
        (taught (slotsOn unevenSlots uneven w)).card - (slotsOn unevenSlots uneven w).length - 2) =
      6 := by
  have hlawful : (default : Rulebook).hardViolations unevenSlots uneven = 0 := by decide
  have hproper : uneven.Proper unevenSlots := by decide
  have hgap : gap unevenSlots uneven = 6 := by decide
  obtain ⟨hsum, -⟩ := gap_idle default unevenSlots uneven hlawful hproper
  exact ⟨hlawful, hproper, by decide, by decide, hsum.symm.trans hgap⟩

def sparseSlots : SlotIndex := SlotIndex.ofSlots [⟨1, 0, 1, 2⟩, ⟨2, 0, 10, 11⟩]

def sparse : Schedule := Table.ofList [(1, ⟨7, 100, 1⟩), (2, ⟨7, 100, 2⟩)]

/-- Two slots of one period, with eight idle periods between them, six more than two: the gap
penalty counts five. -/
theorem gap_ne_idleExcess_sparse : (default : Rulebook).hardViolations sparseSlots sparse = 0 ∧
    sparse.Proper sparseSlots ∧ gap sparseSlots sparse = 5 ∧
    idleExcess sparseSlots sparse = 6 := by
  decide

end Penalty

end Timetabling
