import Mathlib.Data.List.Nodup
import Mathlib.Data.List.ProdSigma
import Timetabling.Problem
import Timetabling.Proofs.HardRules
import Timetabling.Proofs.Narrowing

/-!
# What a snapshot offers

The problem of a snapshot offers each subject the bookings that no rule forbids by itself. So the
gate lets every one of them into the empty schedule (`admits_empty`), also where ids are repeated,
and turns away every other triple of the snapshot: the offer is a filter of all triples
(`Problem.ofSnapshot_offers`).

A rulebook goes by ids, and of several records with one id the last decides. Where no id is repeated
(`Snapshot.Distinct`), what it says is what the records say, and the offer can be read off them
(`mem_candidates_of_distinct`).
-/

namespace Timetabling

variable {s : Snapshot} {rules : Rulebook} {x : SubjectId} {v : Booking}

theorem SlotIndex.mem_ofSlots {ls : List TimeSlot} {l : SlotId} :
    l ∈ SlotIndex.ofSlots ls ↔ l ∈ ls.map TimeSlot.id := by
  simp [SlotIndex.ofSlots, Table.mem_ofList, List.map_map, Function.comp_def]

theorem Rulebook.admits_empty {slots : SlotIndex} :
    rules.admits slots x v ∅ = true ↔ rules.faulty slots x v = false := by
  simp [Rulebook.admits_iff]

namespace Problem

theorem mem_candidates : v ∈ candidates rules s x ↔
    v.teacher ∈ s.teachers.map Teacher.id ∧ v.room ∈ s.rooms.map Room.id ∧
      v.slot ∈ s.timeSlots.map TimeSlot.id ∧
      rules.mayTeach x v.teacher = true ∧ rules.available v.teacher v.slot = true := by
  simp only [candidates, List.mem_flatMap, List.mem_map, List.mem_filter]
  constructor
  · rintro ⟨t, ⟨ht, hmay⟩, r, hr, l, ⟨hl, hav⟩, rfl⟩
    exact ⟨⟨t, ht, rfl⟩, ⟨r, hr, rfl⟩, ⟨l, hl, rfl⟩, hmay, hav⟩
  · rintro ⟨⟨t, ht, htv⟩, ⟨r, hr, hrv⟩, ⟨l, hl, hlv⟩, hmay, hav⟩
    rw [← htv] at hmay hav
    rw [← hlv] at hav
    exact ⟨t, ⟨ht, hmay⟩, r, hr, l, ⟨hl, hav⟩, by rw [htv, hrv, hlv]⟩

theorem get?_ofSnapshot (s : Snapshot) (x : SubjectId) : (ofSnapshot s).domains.get? x =
    if x ∈ (ofSnapshot s).ids then some (candidates (Rulebook.ofSnapshot s) s x) else none :=
  Table.get?_ofList_map s.subjects Subject.id (candidates (Rulebook.ofSnapshot s) s) x

theorem candidates_ofSnapshot (hx : x ∈ (ofSnapshot s).ids) :
    (ofSnapshot s).domains.candidates x = candidates (Rulebook.ofSnapshot s) s x :=
  Domains.candidates_eq (by rw [get?_ofSnapshot, if_pos hx])

theorem mem_ids_of_mem_candidates (hv : v ∈ (ofSnapshot s).domains.candidates x) :
    x ∈ (ofSnapshot s).ids := by
  have h := Domains.get?_of_mem_candidates hv
  rw [get?_ofSnapshot] at h
  by_contra hx
  rw [if_neg hx] at h
  cases h

/-- What is offered to a subject breaks no rule by itself. -/
theorem faulty_eq_false_of_mem (hv : v ∈ (ofSnapshot s).domains.candidates x) :
    (ofSnapshot s).rules.faulty (ofSnapshot s).slots x v = false := by
  rw [candidates_ofSnapshot (mem_ids_of_mem_candidates hv)] at hv
  obtain ⟨-, -, hl, hmay, hav⟩ := mem_candidates.1 hv
  exact Rulebook.faulty_eq_false.2 ⟨SlotIndex.mem_ofSlots.2 hl, hmay, hav⟩

end Problem

/-! ### Snapshots without repeated ids -/

/-- No two teachers, no two subjects and no two slots have one id. -/
structure Snapshot.Distinct (s : Snapshot) : Prop where
  teachers : (s.teachers.map Teacher.id).Nodup
  subjects : (s.subjects.map Subject.id).Nodup
  timeSlots : (s.timeSlots.map TimeSlot.id).Nodup

/-- The subject requires nothing, or nothing is known of the teacher, or the teacher holds at least
one specialization that it requires. -/
def Teacher.mayTeach (t : Teacher) (x : Subject) : Bool :=
  x.requiredSpecializations.isEmpty || t.specializations.isEmpty ||
    x.requiredSpecializations.any t.specializations.contains

/-- The teacher lists the slot, or no slot at all. -/
def Teacher.available (t : Teacher) (l : SlotId) : Bool :=
  t.availability.isEmpty || t.availability.contains l

theorem Table.nodup_filled {ρ κ β : Type} {rs : List ρ} {key : ρ → κ} (f : ρ → List β)
    (h : (rs.map key).Nodup) :
    (((rs.filter fun r => !(f r).isEmpty).map fun r => (key r, f r)).map Prod.fst).Nodup := by
  rw [List.map_map]
  exact h.sublist (List.filter_sublist.map key)

/-- In a table of the records with data, a record without data is missing. -/
theorem Table.get?_ofList_filled {ρ κ β : Type} [DecidableEq κ] {rs : List ρ} {key : ρ → κ}
    (f : ρ → List β) (h : (rs.map key).Nodup) {r : ρ} (hr : r ∈ rs) :
    (Table.ofList ((rs.filter fun r => !(f r).isEmpty).map fun r => (key r, f r))).get? (key r) =
      if (f r).isEmpty then none else some (f r) := by
  split
  · next he =>
    rw [Table.get?_eq_none, Table.mem_ofList, List.map_map]
    intro hm
    obtain ⟨r', hr', hk⟩ := List.mem_map.1 hm
    obtain ⟨hr', hf⟩ := List.mem_filter.1 hr'
    rw [List.inj_on_of_nodup_map h hr' hr hk, he] at hf
    cases hf
  · next he =>
    exact (Table.get?_ofList_eq_some (Table.nodup_filled f h)).2 (List.mem_map.2
      ⟨r, List.mem_filter.2 ⟨hr, by simpa using he⟩, rfl⟩)

namespace Rulebook

variable {t : Teacher} {y : Subject}

theorem mayTeach_ofSnapshot (hts : (s.teachers.map Teacher.id).Nodup)
    (hss : (s.subjects.map Subject.id).Nodup) (ht : t ∈ s.teachers) (hy : y ∈ s.subjects) :
    (ofSnapshot s).mayTeach y.id t.id = t.mayTeach y := by
  have hheld := Table.get?_ofList_filled Teacher.specializations hts ht
  have hreq := Table.get?_ofList_filled Subject.requiredSpecializations hss hy
  simp only [Rulebook.mayTeach, qualified, ofSnapshot, ofRecords, hheld, hreq, Teacher.mayTeach]
  cases t.specializations.isEmpty <;> cases y.requiredSpecializations.isEmpty <;> simp

theorem available_ofSnapshot (hts : (s.teachers.map Teacher.id).Nodup) (ht : t ∈ s.teachers)
    (l : SlotId) : (ofSnapshot s).available t.id l = t.available l := by
  have hfree := Table.get?_ofList_filled Teacher.availability hts ht
  simp only [Rulebook.available, ofSnapshot, ofRecords, hfree, Teacher.available]
  cases t.availability.isEmpty <;> simp

end Rulebook

theorem Snapshot.Distinct.get?_slotIndex {l : TimeSlot} (h : s.Distinct) (hl : l ∈ s.timeSlots) :
    s.slotIndex.get? l.id = some l := by
  refine (Table.get?_ofList_eq_some ?_).2 (List.mem_map.2 ⟨l, hl, rfl⟩)
  simpa [List.map_map, Function.comp_def] using h.timeSlots

/-- What is offered, read off the records. -/
theorem Problem.mem_candidates_of_distinct (h : s.Distinct) {y : Subject} (hy : y ∈ s.subjects) :
    v ∈ (ofSnapshot s).domains.candidates y.id ↔
      ∃ t ∈ s.teachers, ∃ r ∈ s.rooms, ∃ l ∈ s.timeSlots,
        v = ⟨t.id, r.id, l.id⟩ ∧ t.mayTeach y = true ∧ t.available l.id = true := by
  rw [candidates_ofSnapshot (List.mem_map_of_mem hy), mem_candidates]
  constructor
  · rintro ⟨ht, hr, hl, hmay, hav⟩
    obtain ⟨t, ht, htv⟩ := List.mem_map.1 ht
    obtain ⟨r, hr, hrv⟩ := List.mem_map.1 hr
    obtain ⟨l, hl, hlv⟩ := List.mem_map.1 hl
    rw [← htv, Rulebook.mayTeach_ofSnapshot h.teachers h.subjects ht hy] at hmay
    rw [← htv, ← hlv, Rulebook.available_ofSnapshot h.teachers ht] at hav
    exact ⟨t, ht, r, hr, l, hl, by rw [htv, hrv, hlv], hmay, hav⟩
  · rintro ⟨t, ht, r, hr, l, hl, rfl, hmay, hav⟩
    exact ⟨List.mem_map_of_mem ht, List.mem_map_of_mem hr, List.mem_map_of_mem hl,
      (Rulebook.mayTeach_ofSnapshot h.teachers h.subjects ht hy).trans hmay,
      (Rulebook.available_ofSnapshot h.teachers ht l.id).trans hav⟩

/-! ### The offer as a list -/

/-- Every teacher with every room and every slot: by teacher, then room, then slot. -/
def Snapshot.triples (s : Snapshot) : List (Teacher × Room × TimeSlot) :=
  s.teachers ×ˢ s.rooms ×ˢ s.timeSlots

def Booking.ofRecords (q : Teacher × Room × TimeSlot) : Booking := ⟨q.1.id, q.2.1.id, q.2.2.id⟩

theorem Snapshot.mem_triples {q : Teacher × Room × TimeSlot} :
    q ∈ s.triples ↔ q.1 ∈ s.teachers ∧ q.2.1 ∈ s.rooms ∧ q.2.2 ∈ s.timeSlots := by
  obtain ⟨t, r, l⟩ := q
  simp [triples]

/-- The gate of the empty schedule, for a slot of the snapshot. -/
theorem Rulebook.admits_ofRecords {q : Teacher × Room × TimeSlot} (hq : q ∈ s.triples) :
    rules.admits s.slotIndex x (Booking.ofRecords q) ∅ =
      (rules.mayTeach x q.1.id && rules.available q.1.id q.2.2.id) := by
  have hslot : (Booking.ofRecords q).slot ∈ s.slotIndex :=
    SlotIndex.mem_ofSlots.2 (List.mem_map_of_mem (Snapshot.mem_triples.1 hq).2.2)
  rw [Bool.eq_iff_iff, admits_empty, faulty_eq_false, Bool.and_eq_true]
  exact ⟨fun h => h.2, fun h => ⟨hslot, h⟩⟩

namespace Problem

/-- The teacher is looked at before rooms and slots are, the slot after; together the two looks are
one filter of all triples. -/
theorem candidates_eq_filter (rules : Rulebook) (s : Snapshot) (x : SubjectId) :
    candidates rules s x = (s.triples.filter fun q =>
      rules.mayTeach x q.1.id && rules.available q.1.id q.2.2.id).map Booking.ofRecords := by
  unfold candidates Snapshot.triples
  induction s.teachers with
  | nil => rfl
  | cons t ts ih =>
    rw [List.product_cons, List.filter_append, List.map_append, ← ih, List.filter_map]
    cases hmay : rules.mayTeach x t.id with
    | false =>
      rw [List.filter_cons_of_neg (by simp [hmay])]
      simp [Function.comp_def, hmay]
    | true =>
      rw [List.filter_cons_of_pos (by simpa using hmay), List.flatMap_cons]
      congr 1
      simp [SProd.sprod, List.product, List.filter_flatMap, List.filter_map, List.map_flatMap,
        Function.comp_def, hmay, Booking.ofRecords]

/-- The problem of a snapshot lists its subjects and offers each of them the triples of the snapshot
that the gate lets into the empty schedule, in order. If no two teachers and no two subjects have
one id, the records themselves tell which these are. -/
theorem ofSnapshot_offers (s : Snapshot) :
    (ofSnapshot s).subjects = s.subjects ∧
    (∀ x, x ∈ (ofSnapshot s).domains ↔ x ∈ s.subjects.map Subject.id) ∧
    (∀ y ∈ s.subjects, (ofSnapshot s).domains.get? y.id =
      some ((s.triples.map Booking.ofRecords).filter fun v =>
        (Rulebook.ofSnapshot s).admits s.slotIndex y.id v ∅)) ∧
    ((s.teachers.map Teacher.id).Nodup → (s.subjects.map Subject.id).Nodup →
      ∀ y ∈ s.subjects, (ofSnapshot s).domains.get? y.id =
        some ((s.triples.filter fun q => q.1.mayTeach y && q.1.available q.2.2.id).map
          Booking.ofRecords)) := by
  have hget : ∀ y ∈ s.subjects, (ofSnapshot s).domains.get? y.id =
      some (candidates (Rulebook.ofSnapshot s) s y.id) := by
    intro y hy
    have hids : y.id ∈ (ofSnapshot s).ids := List.mem_map_of_mem hy
    rw [get?_ofSnapshot, if_pos hids]
  refine ⟨rfl, fun x => ?_, fun y hy => ?_, fun hts hss y hy => ?_⟩
  · rw [← Table.isSome_get?, get?_ofSnapshot]
    show _ ↔ x ∈ (ofSnapshot s).ids
    split <;> simp [*]
  · rw [hget y hy, candidates_eq_filter, List.filter_map]
    refine congrArg (fun qs => some (List.map Booking.ofRecords qs)) ?_
    exact List.filter_congr fun q hq => (Rulebook.admits_ofRecords hq).symm
  · rw [hget y hy, candidates_eq_filter]
    refine congrArg (fun qs => some (List.map Booking.ofRecords qs)) ?_
    refine List.filter_congr fun q hq => ?_
    obtain ⟨ht, -, -⟩ := Snapshot.mem_triples.1 hq
    rw [Rulebook.mayTeach_ofSnapshot hts hss ht hy, Rulebook.available_ofSnapshot hts ht]

/-- A teacher who fits and is there in one slot, one of whom nothing is known, and one who does not
fit. -/
def staffed : Snapshot where
  teachers := [
    ⟨7, "Ada", ["math"], 10, [1]⟩, ⟨8, "Grace", [], 10, []⟩, ⟨9, "Alan", ["art"], 10, []⟩]
  subjects := [⟨1, "S1", 2, ["logic", "math"]⟩, ⟨2, "S2", 2, []⟩]
  rooms := [⟨100, 40, "lecture"⟩]
  timeSlots := [⟨1, 0, 1, 2⟩, ⟨2, 0, 2, 3⟩]

theorem ofSnapshot_offers_staffed :
    (staffed.teachers.map Teacher.id).Nodup ∧ (staffed.subjects.map Subject.id).Nodup ∧
    (ofSnapshot staffed).domains.get? 1 = some [⟨7, 100, 1⟩, ⟨8, 100, 1⟩, ⟨8, 100, 2⟩] := by
  have hts : (staffed.teachers.map Teacher.id).Nodup := by decide
  have hss : (staffed.subjects.map Subject.id).Nodup := by decide
  obtain ⟨-, -, -, hoffer⟩ := ofSnapshot_offers staffed
  exact ⟨hts, hss, (hoffer hts hss ⟨1, "S1", 2, ["logic", "math"]⟩ (by decide)).trans (by decide)⟩

end Problem

end Timetabling
