import Mathlib
import Timetabling.Proofs.ArcConsistency

/-!
# What propagation counts

The worklist grows while it is worked off. Each turn of the loop lowers `Stage.fuel`: either the
list gets shorter, or a subject loses candidates, and each of these is worth as many turns as there
are subjects. So the loop ends (`iterate_turn`).

`Tallied` is what the counters keep true. Every revision that drops something brings back the arcs
into its subject, of which there are two fewer than subjects if no subject is listed twice; so the
arcs looked at and the arcs still to come are told by the number of revisions
(`Domains.propagate_counted`).
-/

namespace Timetabling

variable {slots : SlotIndex} {ids : List SubjectId} {d d₀ : Domains} {a : Arc} {t : Tally}

/-! ### Arcs without repetitions -/

theorem length_filter_ne {x : SubjectId} (h : ids.Nodup) (hx : x ∈ ids) :
    (ids.filter fun y => y ≠ x).length = ids.length - 1 := by
  have herase : ids.erase x = ids.filter fun y => y ≠ x := by
    rw [h.erase_eq_filter]
    exact List.filter_congr fun y _ => by by_cases hy : y = x <;> simp [hy]
  rw [← herase, List.length_erase_of_mem hx]

theorem length_allArcs (h : ids.Nodup) :
    (allArcs ids).length = ids.length * (ids.length - 1) := by
  have hrow : ∀ x ∈ ids, ((ids.filter fun y => y ≠ x).map fun y => (x, y)).length =
      ids.length - 1 := by
    intro x hx
    rw [List.length_map, length_filter_ne h hx]
  rw [allArcs, List.length_flatMap, List.map_congr_left hrow, List.map_const',
    List.sum_replicate_nat]

/-- Of the subjects, `a.1` and `a.2` do not count. -/
theorem length_arcsInto (h : ids.Nodup) (ha : a ∈ allArcs ids) :
    (arcsInto ids a).length + 2 = ids.length := by
  obtain ⟨h₁, h₂, hne⟩ := mem_allArcs.1 ha
  have hsplit : (ids.filter fun z => z ≠ a.1 && z ≠ a.2) =
      (ids.filter fun z => z ≠ a.2).filter fun z => z ≠ a.1 := by
    rw [List.filter_filter]
  have h₁' : a.1 ∈ ids.filter fun z => z ≠ a.2 := List.mem_filter.2 ⟨h₁, by simpa using hne.symm⟩
  have hpos := List.length_pos_of_mem h₁'
  have hlen := length_filter_ne h h₂
  rw [arcsInto, List.length_map, hsplit, length_filter_ne (h.filter _) h₁']
  omega

/-! ### Candidates of the listed subjects -/

namespace Domains

/-- The number of candidates of the listed subjects, each subject counted once. -/
def held (d : Domains) (ids : List SubjectId) : ℕ :=
  ∑ x ∈ ids.toFinset, (d.candidates x).length

theorem length_candidates_revise (slots : SlotIndex) (d : Domains) (a : Arc) :
    ((d.revise slots a).1.candidates a.1).length + (d.revise slots a).2 =
      (d.candidates a.1).length := by
  rw [candidates_revise_self]
  unfold revise
  cases h : d.get? a.1 with
  | none => simp [candidates, Table.getD, h]
  | some vs =>
    have := List.length_filter_le (d.supports slots a.2 a.1) vs
    simp only [candidates_eq h]
    omega

/-- What a revision drops, the listed subjects lose. -/
theorem held_revise (slots : SlotIndex) (d : Domains) (ha : a.1 ∈ ids) :
    (d.revise slots a).1.held ids + (d.revise slots a).2 = d.held ids := by
  have hmem : a.1 ∈ ids.toFinset := List.mem_toFinset.2 ha
  have hrest : ∑ x ∈ ids.toFinset.erase a.1, ((d.revise slots a).1.candidates x).length =
      ∑ x ∈ ids.toFinset.erase a.1, (d.candidates x).length := by
    refine Finset.sum_congr rfl fun x hx => ?_
    rw [candidates_revise_of_ne (Finset.ne_of_mem_erase hx)]
  have hself := length_candidates_revise slots d a
  unfold held
  rw [← Finset.add_sum_erase _ _ hmem, ← Finset.add_sum_erase _ (fun x => (d.candidates x).length)
    hmem, hrest]
  omega

end Domains

namespace Propagation

/-! ### The loop ends -/

/-- Where the loop stands: arcs are still to be looked at, or the outcome is known. -/
inductive Stage where
  | working (queue : List Arc) (domains : Domains) (tally : Tally)
  | done (result : Propagation)

namespace Stage

/-- Before the first turn. -/
def start (ids : List SubjectId) (d : Domains) : Stage :=
  match ids.find? d.exhausted with
  | some x => .done ⟨.error x, d⟩
  | none => .working (allArcs ids) d {}

/-- One turn of the loop: it looks at one arc. -/
def turn (slots : SlotIndex) (ids : List SubjectId) : Stage → Stage
  | .working [] d t => .done ⟨.ok t, d⟩
  | .working (a :: rest) d t =>
    let r := d.revise slots a
    if r.2 = 0 then .working rest r.1 { t with arcsProcessed := t.arcsProcessed + 1 }
    else if r.1.exhausted a.1 then .done ⟨.error a.1, r.1⟩
    else .working (rest ++ arcsInto ids a) r.1
      { arcsProcessed := t.arcsProcessed + 1
        arcsRevised := t.arcsRevised + 1
        valuesPruned := t.valuesPruned + r.2 }
  | .done r => .done r

/-- What `Propagation.run` makes of it. -/
def result (slots : SlotIndex) (ids : List SubjectId) : Stage → Propagation
  | .working queue d t => run ids slots queue d t
  | .done r => r

/-- The most turns that can still follow. -/
def fuel (ids : List SubjectId) : Stage → ℕ
  | .working queue d _ => queue.length + ids.length * d.total + 1
  | .done _ => 0

theorem result_start : (start ids d).result slots ids = d.propagate slots ids := by
  unfold start Domains.propagate
  cases ids.find? d.exhausted <;> rfl

theorem result_turn (s : Stage) : (s.turn slots ids).result slots ids = s.result slots ids := by
  rcases s with ⟨_ | ⟨a, rest⟩, d, t⟩ | r
  · exact (run.eq_1 ..).symm
  · show _ = run ids slots (a :: rest) d t
    rw [run_cons, turn]
    split
    · rfl
    · split <;> rfl
  · rfl

theorem fuel_turn_lt (slots : SlotIndex) (ids : List SubjectId) (queue : List Arc) (d : Domains)
    (t : Tally) : ((Stage.working queue d t).turn slots ids).fuel ids <
      (Stage.working queue d t).fuel ids := by
  cases queue with
  | nil => exact Nat.succ_pos _
  | cons a rest =>
    have htotal := Domains.total_revise slots d a
    rw [turn]
    split
    · next h0 =>
      rw [h0, Nat.add_zero] at htotal
      simp only [fuel, htotal, List.length_cons]
      omega
    · next h0 =>
      split
      · exact Nat.succ_pos _
      · -- one candidate less pays for the arcs that come back
        have hle : ids.length * ((d.revise slots a).1.total + 1) ≤ ids.length * d.total :=
          Nat.mul_le_mul_left _ (by omega)
        have hinto := length_arcsInto_le ids a
        rw [Nat.mul_add, Nat.mul_one] at hle
        simp only [fuel, List.length_append, List.length_cons]
        omega

/-- Turn by turn, the loop comes to what `run` answers. -/
theorem iterate_turn (slots : SlotIndex) (ids : List SubjectId) (s : Stage) :
    ∃ n ≤ s.fuel ids, (turn slots ids)^[n] s = .done (s.result slots ids) := by
  -- on the turns that are left: the worklist itself can get longer
  induction hf : s.fuel ids using Nat.strong_induction_on generalizing s with
  | _ k ih =>
    rcases s with ⟨queue, d, t⟩ | r
    · have hlt := fuel_turn_lt slots ids queue d t
      obtain ⟨n, hn, hdone⟩ := ih _ (hf ▸ hlt) _ rfl
      refine ⟨n + 1, by omega, ?_⟩
      rw [Function.iterate_succ_apply, hdone, result_turn]
    · exact ⟨0, Nat.zero_le _, rfl⟩

end Stage

/-! ### The counters -/

/-- What the counters keep true while the loop runs from the domains `d₀`. -/
structure Tallied (ids : List SubjectId) (d₀ : Domains) (queue : List Arc) (d : Domains)
    (t : Tally) : Prop where
  arcs : ∀ a ∈ queue, a ∈ allArcs ids
  pruned : t.valuesPruned + d.held ids = d₀.held ids
  revised : t.arcsRevised ≤ t.valuesPruned
  processed : ids.Nodup → (t.arcsProcessed + queue.length : ℤ) =
    ids.length * (ids.length - 1) + (ids.length - 2) * t.arcsRevised

namespace Tallied

variable {rest : List Arc}

theorem start (ids : List SubjectId) (d : Domains) : Tallied ids d (allArcs ids) d {} where
  arcs _ ha := ha
  pruned := Nat.zero_add _
  revised := Nat.le_refl _
  processed hnd := by
    rw [length_allArcs hnd]
    cases ids with
    | nil => simp
    | cons x xs => simp

theorem keep (h : Tallied ids d₀ (a :: rest) d t) (h0 : (d.revise slots a).2 = 0) :
    Tallied ids d₀ rest (d.revise slots a).1
      { t with arcsProcessed := t.arcsProcessed + 1 } := by
  obtain ⟨ha, -, -⟩ := mem_allArcs.1 (h.arcs a List.mem_cons_self)
  have hheld := Domains.held_revise slots d ha
  refine ⟨fun b hb => h.arcs b (List.mem_cons_of_mem _ hb), ?_, h.revised, fun hnd => ?_⟩
  · have := h.pruned
    show t.valuesPruned + _ = _
    omega
  · have := h.processed hnd
    rw [List.length_cons] at this
    push_cast at this ⊢
    omega

theorem drop (h : Tallied ids d₀ (a :: rest) d t) (h0 : (d.revise slots a).2 ≠ 0) :
    Tallied ids d₀ (rest ++ arcsInto ids a) (d.revise slots a).1
      { arcsProcessed := t.arcsProcessed + 1
        arcsRevised := t.arcsRevised + 1
        valuesPruned := t.valuesPruned + (d.revise slots a).2 } := by
  have haq : a ∈ allArcs ids := h.arcs a List.mem_cons_self
  obtain ⟨ha, -, -⟩ := mem_allArcs.1 haq
  have hheld := Domains.held_revise slots d ha
  refine ⟨fun b hb => ?_, ?_, ?_, fun hnd => ?_⟩
  · rcases List.mem_append.1 hb with hb | hb
    · exact h.arcs b (List.mem_cons_of_mem _ hb)
    · obtain ⟨hb₁, hne, -, hb₂⟩ := mem_arcsInto.1 hb
      exact mem_allArcs.2 ⟨hb₁, hb₂ ▸ ha, hb₂ ▸ hne.symm⟩
  · have := h.pruned
    show t.valuesPruned + (d.revise slots a).2 + _ = _
    omega
  · have := h.revised
    show t.arcsRevised + 1 ≤ t.valuesPruned + (d.revise slots a).2
    omega
  · -- one arc has been looked at and is gone from the list; the `n - 2` that come back are those
    -- of one more revision
    have hcount := h.processed hnd
    have hinto : ((arcsInto ids a).length : ℤ) = ids.length - 2 := by
      have := length_arcsInto hnd haq
      omega
    rw [List.length_cons] at hcount
    rw [List.length_append]
    push_cast at hcount ⊢
    rw [hinto]
    linarith

end Tallied

theorem run_tallied {queue : List Arc} {t' : Tally} (h : Tallied ids d₀ queue d t)
    (ht : (run ids slots queue d t).outcome = .ok t') :
    Tallied ids d₀ [] (run ids slots queue d t).domains t' :=
  (run_induction (fun _ _ _ _ h h0 => h.keep h0) (fun _ _ _ _ h h0 _ => h.drop h0) h).1 t' ht

end Propagation

namespace Domains

open Propagation

theorem propagate_tallied (ht : (d.propagate slots ids).outcome = .ok t) :
    Tallied ids d [] (d.propagate slots ids).domains t := by
  rcases propagate_cases slots ids d with hd | ⟨x, -, -, hx⟩
  · rw [propagate_eq_run hd] at ht ⊢
    exact run_tallied (.start ids d) ht
  · rw [hx] at ht
    cases ht

/-- Propagation comes to its answer after finitely many turns. If it succeeds, what it has pruned is
what the listed subjects have lost, each revision has pruned something, and without repeated
subjects the number of revisions tells how many arcs were looked at. -/
theorem propagate_counted (slots : SlotIndex) (ids : List SubjectId) (d : Domains) :
    (∃ n, (Stage.turn slots ids)^[n] (Stage.start ids d) = .done (d.propagate slots ids)) ∧
    ∀ t, (d.propagate slots ids).outcome = .ok t →
      (t.valuesPruned : ℤ) = d.held ids - (d.propagate slots ids).domains.held ids ∧
      t.arcsRevised ≤ t.valuesPruned ∧
      (ids.Nodup →
        (t.arcsProcessed : ℤ) =
          ids.length * (ids.length - 1) + (ids.length - 2) * t.arcsRevised ∧
        (2 ≤ ids.length →
          t.arcsProcessed ≤ ids.length * (ids.length - 1) + (ids.length - 2) * d.held ids)) := by
  constructor
  · obtain ⟨n, -, hn⟩ := Stage.iterate_turn slots ids (.start ids d)
    exact ⟨n, hn.trans (by rw [Stage.result_start])⟩
  · intro t ht
    have htally := propagate_tallied ht
    have hpruned := htally.pruned
    refine ⟨by omega, htally.revised, fun hnd => ?_⟩
    have hcount : (t.arcsProcessed : ℤ) =
        ids.length * (ids.length - 1) + (ids.length - 2) * t.arcsRevised := by
      simpa using htally.processed hnd
    refine ⟨hcount, fun h2 => ?_⟩
    have hheld : t.arcsRevised ≤ d.held ids := htally.revised.trans (by omega)
    have hmul := Nat.mul_le_mul_left (ids.length - 2) hheld
    zify [h2, Nat.le_of_succ_le h2] at hmul ⊢
    linarith

/-- Three subjects, of which the last has one candidate and settles the others one by one. -/
def chain : Domains := Table.ofList [
  (1, [⟨7, 100, 1⟩, ⟨8, 100, 2⟩]), (2, [⟨7, 101, 1⟩, ⟨9, 102, 2⟩]), (3, [⟨8, 103, 2⟩])]

def chainSlots : SlotIndex := SlotIndex.ofSlots [⟨1, 0, 1, 2⟩, ⟨2, 0, 2, 3⟩]

/-- Six arcs to begin with, and one more for each of two revisions. -/
theorem propagate_counted_chain :
    (chain.propagate chainSlots [1, 2, 3]).outcome = .ok ⟨8, 2, 2⟩ ∧ [1, 2, 3].Nodup ∧
    (2 : ℤ) = chain.held [1, 2, 3] - (chain.propagate chainSlots [1, 2, 3]).domains.held [1, 2, 3] ∧
    (8 : ℤ) = 3 * (3 - 1) + (3 - 2) * 2 ∧ 8 ≤ 3 * (3 - 1) + (3 - 2) * chain.held [1, 2, 3] := by
  have hrun : (chain.propagate chainSlots [1, 2, 3]).outcome = .ok ⟨8, 2, 2⟩ := by cbv
  have hnd : ([1, 2, 3] : List SubjectId).Nodup := by decide
  obtain ⟨hpruned, -, hcount⟩ := (propagate_counted chainSlots [1, 2, 3] chain).2 _ hrun
  obtain ⟨hprocessed, hbound⟩ := hcount hnd
  exact ⟨hrun, by decide, hpruned, hprocessed, hbound (by decide)⟩

end Domains

end Timetabling
