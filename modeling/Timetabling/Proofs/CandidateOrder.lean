import Timetabling.Proofs.ForwardCheck
import Timetabling.Proofs.StableOrder

/-!
# The order of candidates foretells the forward check

The search tries first the candidates that rule out the fewest candidates of other subjects, and the
forward check of a booking drops what the booking rules out. The two counts agree whenever the check
passes, provided that no subject is listed twice: the order counts a subject as often as it is
listed, but its candidates can be dropped only once (`Domains.leastConstraining_foretells`).
-/

namespace Timetabling

variable {slots : SlotIndex} {ids ys : List SubjectId} {p : Schedule} {x y : SubjectId}
  {v : Booking} {ws : List Booking} {d d' : Domains}

/-- The listed subjects without a booking, other than `x`. -/
def Schedule.others (p : Schedule) (ids : List SubjectId) (x : SubjectId) : List SubjectId :=
  (p.unassigned ids).filter fun y => y ≠ x

theorem Schedule.mem_others : y ∈ p.others ids x ↔ y ∈ ids ∧ ¬ y ∈ p ∧ y ≠ x := by
  simp [Schedule.others, Schedule.mem_unassigned, and_assoc]

/-- The subjects that the forward check of a booking for `x` does not pass over. -/
theorem Schedule.others_eq_filter (p : Schedule) (ids : List SubjectId) (x : SubjectId)
    (v : Booking) :
    p.others ids x = ids.filter fun y => !(y = x || y ∈ p.insert x v) := by
  rw [Schedule.others, Schedule.unassigned, List.filter_filter]
  refine List.filter_congr fun y _ => ?_
  by_cases hy : y = x <;> simp [hy, Table.mem_insert]

namespace Domains

/-! ### The order -/

theorem stablySorted_leastConstraining (slots : SlotIndex) (d : Domains) (ids : List SubjectId)
    (p : Schedule) (x : SubjectId) :
    StablySorted (d.ruledOut slots (p.others ids x) x) (d.candidates x)
      (d.leastConstraining slots ids p x) := by
  have hsort := stablySorted_mergeSort (d.ruledOut slots (p.others ids x) x) (d.candidates x)
  have heq : d.leastConstraining slots ids p x = (d.candidates x).mergeSort fun v w =>
      d.ruledOut slots (p.others ids x) x v ≤ d.ruledOut slots (p.others ids x) x w := by
    unfold leastConstraining
    rw [List.map_mergeSort (s := fun v w =>
      d.ruledOut slots (p.others ids x) x v ≤ d.ruledOut slots (p.others ids x) x w)]
    · simp [List.map_map, Function.comp_def]
    · intro a ha b hb
      obtain ⟨v, -, rfl⟩ := List.mem_map.1 ha
      obtain ⟨w, -, rfl⟩ := List.mem_map.1 hb
      rfl
  rw [heq]
  exact hsort

theorem ruledOut_congr (h : ∀ y ∈ ys, d'.candidates y = d.candidates y) :
    d'.ruledOut slots ys x v = d.ruledOut slots ys x v := by
  induction ys with
  | nil => rfl
  | cons y ys ih =>
    obtain ⟨hy, hys⟩ := List.forall_mem_cons.1 h
    simp only [ruledOut, List.foldr_cons, hy]
    exact congrArg _ (ih hys)

theorem length_filter_compatible (slots : SlotIndex) (x : SubjectId) (v : Booking) (y : SubjectId)
    (ws : List Booking) : ws.countP (fun w => conflict slots x v y w) +
      (ws.filter (Search.compatible slots x v y)).length = ws.length := by
  rw [← List.countP_eq_length_filter,
    List.length_eq_countP_add_countP (fun w => conflict slots x v y w) (l := ws)]
  refine congrArg _ (List.countP_congr fun w _ => ?_)
  simp [Search.compatible]

end Domains

/-! ### The forward check -/

namespace Search

open Domains

theorem narrows_forwardCheck (slots : SlotIndex) (x : SubjectId) (v : Booking) (p : Schedule)
    (ys : List SubjectId) (d : Domains) : d.Narrows (forwardCheck slots x v p ys d).2 := by
  induction ys, d using forwardCheck_induction with
  | nil d => exact .refl d
  | skip y ys d _ ih => exact ih
  | stop y ys d ws _ _ hd hkept => exact hkept ▸ .insert_filter hd _
  | go y ys d ws _ _ hd _ ih => exact (Narrows.insert_filter hd _).trans ih

theorem ne_of_skipped {z : SubjectId} (hx : y ≠ x) (hp : ¬ y ∈ p) (hd : d.get? y = some ws)
    (hz : z ∈ y :: ys → z ≠ x → ¬ z ∈ p → ¬ z ∈ d) : z ≠ y := by
  rintro rfl
  refine hz List.mem_cons_self hx hp (Table.isSome_get?.1 ?_)
  rw [hd]
  rfl

/-- Passed or not, the check leaves those alone that it passes over. -/
theorem get?_forwardCheck_of_skipped (slots : SlotIndex) (x : SubjectId) (v : Booking)
    (p : Schedule) (ys : List SubjectId) (d : Domains) :
    ∀ z, (z ∈ ys → z ≠ x → ¬ z ∈ p → ¬ z ∈ d) →
      (forwardCheck slots x v p ys d).2.get? z = d.get? z := by
  induction ys, d using forwardCheck_induction with
  | nil d => exact fun z _ => rfl
  | skip y ys d _ ih => exact fun z hz => ih z fun hm => hz (List.mem_cons_of_mem y hm)
  | stop y ys d ws hx hp hd _ =>
    exact fun z hz => Table.get?_insert_of_ne d _ (ne_of_skipped hx hp hd hz)
  | go y ys d ws hx hp hd _ ih =>
    intro z hz
    have hzy := ne_of_skipped hx hp hd hz
    rw [ih z, Table.get?_insert_of_ne d _ hzy]
    intro hm hzx hzp hzd
    exact hz (List.mem_cons_of_mem y hm) hzx hzp ((Table.mem_insert.1 hzd).resolve_left hzy)

/-- What a check that passes has dropped is what the booking rules out. -/
theorem total_forwardCheck (slots : SlotIndex) (x : SubjectId) (v : Booking) (p : Schedule)
    (ys : List SubjectId) (d : Domains) : ys.Nodup → (forwardCheck slots x v p ys d).1 = true →
      (forwardCheck slots x v p ys d).2.total +
        d.ruledOut slots (ys.filter fun y => !(y = x || y ∈ p)) x v = d.total := by
  induction ys, d using forwardCheck_induction with
  | nil d => exact fun _ _ => rfl
  | skip y ys d hskip ih =>
    intro hnd hok
    rw [← ih hnd.of_cons hok]
    refine congrArg _ ?_
    by_cases hy : y = x ∨ y ∈ p
    · rw [List.filter_cons_of_neg (by rcases hy with h | h <;> simp [h])]
    · have hnone : d.get? y = none := by tauto
      rw [List.filter_cons_of_pos (by simpa using hy)]
      simp [ruledOut, candidates, Table.getD, hnone]
  | stop y ys d ws _ _ _ _ =>
    intro _ hok
    cases hok
  | go y ys d ws hx hp hd _ ih =>
    intro hnd hok
    obtain ⟨hy, hys⟩ := List.nodup_cons.1 hnd
    -- the candidates of the subjects further down are those of `d`, for `y` is not among them
    have hrest : Domains.ruledOut slots (d.insert y (ws.filter (compatible slots x v y)))
        (ys.filter fun y => !(y = x || y ∈ p)) x v =
          d.ruledOut slots (ys.filter fun y => !(y = x || y ∈ p)) x v := by
      refine ruledOut_congr fun z hz => ?_
      have hzy : z ≠ y := fun h => hy (h ▸ List.mem_of_mem_filter hz)
      simp only [candidates, Table.getD, Table.get?_insert_of_ne d _ hzy]
    have htotal := total_insert (ws.filter (compatible slots x v y)) hd
    have hlength := length_filter_compatible slots x v y ws
    have hih := ih hys hok
    have hcons : d.ruledOut slots ((y :: ys).filter fun y => !(y = x || y ∈ p)) x v =
        ws.countP (fun w => conflict slots x v y w) +
          d.ruledOut slots (ys.filter fun y => !(y = x || y ∈ p)) x v := by
      rw [List.filter_cons_of_pos (by simp [hx, hp])]
      simp only [ruledOut, List.foldr_cons, candidates_eq hd]
    omega

end Search

namespace Domains

/-- The candidates of `x` are ordered by how many candidates of the other subjects without a booking
they rule out, equals as they stand. That is how many candidates the forward check drops if it
passes. It passes just when each of those subjects, if present, keeps a candidate, and in any case
it drops candidates of those subjects only. -/
theorem leastConstraining_foretells (slots : SlotIndex) (d : Domains) {ids : List SubjectId}
    (hids : ids.Nodup) (p : Schedule) (x : SubjectId) :
    (d.leastConstraining slots ids p x).Perm (d.candidates x) ∧
    StablySorted (d.ruledOut slots (p.others ids x) x) (d.candidates x)
      (d.leastConstraining slots ids p x) ∧
    ∀ v ok d', Search.forwardCheck slots x v (p.insert x v) ids d = (ok, d') →
      (ok = true → d'.total + d.ruledOut slots (p.others ids x) x v = d.total) ∧
      (ok = true ↔ ∀ y ∈ p.others ids x, ∀ ws, d.get? y = some ws →
        ∃ w ∈ ws, conflict slots x v y w = false) ∧
      (∀ y, (d'.candidates y).Sublist (d.candidates y)) ∧
      ∀ y, ¬ (y ∈ p.others ids x ∧ y ∈ d) → d'.get? y = d.get? y := by
  refine ⟨leastConstraining_perm slots d ids p x, stablySorted_leastConstraining slots d ids p x,
    fun v ok d' hcheck => ?_⟩
  have hok : ok = (Search.forwardCheck slots x v (p.insert x v) ids d).1 := by rw [hcheck]
  have hd' : d' = (Search.forwardCheck slots x v (p.insert x v) ids d).2 := by rw [hcheck]
  subst hok hd'
  have hmem : ∀ y, y ∈ p.others ids x ↔ y ∈ ids ∧ y ≠ x ∧ ¬ y ∈ p.insert x v := by
    intro y
    rw [Schedule.mem_others, Table.mem_insert]
    tauto
  refine ⟨?_, ?_, fun y => ?_, fun y hy => ?_⟩
  · rw [Schedule.others_eq_filter p ids x v]
    exact Search.total_forwardCheck slots x v (p.insert x v) ids d hids
  · rw [Search.forwardCheck_fst]
    simp [hmem, Search.Keeps, Search.compatible]
  · exact (Search.narrows_forwardCheck slots x v (p.insert x v) ids d).sublist y
  · refine Search.get?_forwardCheck_of_skipped slots x v (p.insert x v) ids d y ?_
    intro hys hx hp hd
    exact hy ⟨(hmem y).2 ⟨hys, hx, hp⟩, hd⟩

/-- In slot 1 subject 1 gets into the way of both others, in slot 2 of neither. -/
def tangled : Domains := Table.ofList [
  (1, [⟨7, 100, 1⟩, ⟨7, 100, 2⟩]),
  (2, [⟨7, 101, 1⟩, ⟨8, 101, 2⟩]),
  (3, [⟨8, 100, 1⟩, ⟨8, 102, 1⟩])]

def tangledSlots : SlotIndex := SlotIndex.ofSlots [⟨1, 0, 1, 2⟩, ⟨2, 0, 2, 3⟩]

theorem leastConstraining_foretells_tangled :
    ([1, 2, 3] : List SubjectId).Nodup ∧
    tangled.leastConstraining tangledSlots [1, 2, 3] ∅ 1 = [⟨7, 100, 2⟩, ⟨7, 100, 1⟩] ∧
    (Search.forwardCheck tangledSlots 1 ⟨7, 100, 1⟩ (Table.insert ∅ 1 ⟨7, 100, 1⟩) [1, 2, 3]
      tangled).1 = true ∧
    Domains.total (Search.forwardCheck tangledSlots 1 ⟨7, 100, 1⟩ (Table.insert ∅ 1 ⟨7, 100, 1⟩)
      [1, 2, 3] tangled).2 + 2 = tangled.total := by
  have hids : ([1, 2, 3] : List SubjectId).Nodup := by decide
  have hok : (Search.forwardCheck tangledSlots 1 ⟨7, 100, 1⟩ (Table.insert ∅ 1 ⟨7, 100, 1⟩)
      [1, 2, 3] tangled).1 = true := by decide
  obtain ⟨-, -, hcheck⟩ := leastConstraining_foretells tangledSlots tangled hids ∅ 1
  obtain ⟨htotal, -⟩ := hcheck ⟨7, 100, 1⟩ _ _ rfl
  exact ⟨hids, by cbv, hok, htotal hok⟩

end Domains

end Timetabling
