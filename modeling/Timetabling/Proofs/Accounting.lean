import Timetabling.Proofs.Completeness

/-!
# What a solution accounts for

A solution is written down from one schedule, and so its two lists share out the subjects of the
problem: who has an entry and who has none (`accounted_ofSchedule`). Which schedule that is, the one
that the search ended with or the largest that it came by, does not show: either is as large as the
search has been deep (`Solver.run_accounted`).
-/

namespace Timetabling

/-! ### The order of entries -/

namespace Entry

variable {a b : Entry}

theorem le_iff : a.le b = true ↔ a.subject < b.subject ∨ a.subject = b.subject ∧
    (a.teacher < b.teacher ∨ a.teacher = b.teacher ∧
      (a.room < b.room ∨ a.room = b.room ∧ a.slot ≤ b.slot)) := by
  simp [le]

theorem le_total (a b : Entry) : (a.le b || b.le a) = true := by
  rw [Bool.or_eq_true, le_iff, le_iff]
  simp only [UInt32.lt_iff_toNat_lt, UInt32.le_iff_toNat_le, ← UInt32.toNat_inj]
  omega

theorem le_trans (a b c : Entry) (hab : a.le b = true) (hbc : b.le c = true) : a.le c = true := by
  rw [le_iff] at hab hbc ⊢
  simp only [UInt32.lt_iff_toNat_lt, UInt32.le_iff_toNat_le, ← UInt32.toNat_inj] at hab hbc ⊢
  omega

theorem subject_lt_of_le (h : a.le b = true) (hne : a.subject ≠ b.subject) :
    a.subject < b.subject := by
  rcases le_iff.1 h with hlt | ⟨heq, -⟩
  · exact hlt
  · exact absurd heq hne

end Entry

namespace Schedule

variable {t : Schedule}

/-- No subject has two entries, so sorted entries have growing subjects. -/
theorem toEntries_sorted (t : Schedule) :
    t.toEntries.Pairwise fun e f => e.subject < f.subject := by
  have hle : t.toEntries.Pairwise fun e f => e.le f = true :=
    List.pairwise_mergeSort Entry.le_trans Entry.le_total _
  have hne : t.toEntries.Pairwise fun e f => e.subject ≠ f.subject :=
    pairwise_toEntries Ne.symm fun _ _ _ _ h => h
  exact (hle.and hne).imp fun h => Entry.subject_lt_of_le h.1 h.2

theorem exists_toEntries {x : SubjectId} : (∃ e ∈ t.toEntries, e.subject = x) ↔ x ∈ t := by
  rw [← Table.isSome_get?, Option.isSome_iff_exists]
  constructor
  · rintro ⟨e, he, rfl⟩
    exact ⟨e.booking, mem_toEntries.1 he⟩
  · rintro ⟨v, hv⟩
    exact ⟨Entry.ofBooking x v, mem_toEntries.2 hv, rfl⟩

/-- A schedule for some of the listed subjects leaves someone out just when it is smaller than their
number. -/
theorem unassigned_ne_nil {ids : List SubjectId} (h : ∀ x ∈ t, x ∈ ids) :
    t.unassigned ids ≠ [] ↔ t.size < ids.toFinset.card := by
  have hsize : t.keys.toFinset.card = t.size := by
    rw [List.toFinset_card_of_nodup t.nodup_keys, Table.length_keys]
  have hsub : t.keys.toFinset ⊆ ids.toFinset := by
    intro x hx
    rw [List.mem_toFinset] at hx ⊢
    exact h x hx
  have hall : (∀ x ∈ ids, x ∈ t) ↔ ids.toFinset ⊆ t.keys.toFinset := by
    simp only [Finset.subset_iff, List.mem_toFinset]
    rfl
  rw [ne_eq, unassigned_eq_nil, hall, ← hsize, ← not_le, not_iff_not]
  constructor
  · exact Finset.card_le_card
  · intro hcard
    exact (Finset.eq_of_subset_of_card_le hsub hcard).ge

end Schedule

/-! ### The two lists of a solution -/

/-- The entries of a solution and the subjects that it leaves out share out those of the problem. -/
structure Solution.Accounted (p : Problem) (s : Solution) : Prop where
  sorted : s.entries.Pairwise fun e f => e.subject < f.subject
  listed : ∀ e ∈ s.entries, e.subject ∈ p.ids
  shared : ∀ x ∈ p.ids, Xor (∃ e ∈ s.entries, e.subject = x) (x ∈ s.unassigned)
  rest : s.unassigned = p.ids.filter fun x => ∀ e ∈ s.entries, e.subject ≠ x
  isPartial_iff : s.isPartial = true ↔ s.unassigned ≠ []
  fewer : s.isPartial = true ↔ s.entries.length < p.ids.toFinset.card

theorem Solution.accounted_ofSchedule {p : Problem} {order : Penalty.Order} {t : Schedule}
    (h : ∀ x ∈ t, x ∈ p.ids) : (Solution.ofSchedule p order t).Accounted p := by
  have hpartial : (Solution.ofSchedule p order t).isPartial = true ↔ t.unassigned p.ids ≠ [] := by
    simp [isPartial, ofSchedule]
  refine ⟨t.toEntries_sorted, fun e he => ?_, fun x hx => ?_, ?_, hpartial, ?_⟩
  · exact h _ (Schedule.exists_toEntries.1 ⟨e, he, rfl⟩)
  · show Xor (∃ e ∈ t.toEntries, e.subject = x) (x ∈ t.unassigned p.ids)
    rw [Schedule.exists_toEntries, Schedule.mem_unassigned]
    by_cases hxt : x ∈ t
    · exact .inl ⟨hxt, fun h => h.2 hxt⟩
    · exact .inr ⟨⟨hx, hxt⟩, hxt⟩
  · show t.unassigned p.ids = p.ids.filter fun x => ∀ e ∈ t.toEntries, e.subject ≠ x
    refine List.filter_congr fun x _ => ?_
    have hmem : (∀ e ∈ t.toEntries, e.subject ≠ x) ↔ ¬ x ∈ t := by
      rw [← Schedule.exists_toEntries]
      simp
    simp [hmem]
  · show _ ↔ t.toEntries.length < p.ids.toFinset.card
    rw [hpartial, t.length_toEntries, Schedule.unassigned_ne_nil h]

/-! ### Runs -/

namespace Solver

theorem answer_error {o : Search.Outcome} {best : Schedule} {i : Infeasibility}
    (h : answer o best = .error i) : best.size = 0 := by
  cases o with
  | complete t => cases h
  | timedOut | exhausted =>
    rw [answer] at h
    split at h
    · next hempty => exact Table.isEmpty_iff.1 hempty
    · cases h

/-- A run that fails has booked no one at any time. -/
theorem maxDepth_of_run_error {s : Solver} {deadline : Deadline} {i : Infeasibility}
    (h : (s.run deadline).1 = .error i) : (s.run deadline).2.stats.maxDepth = 0 := by
  cases hp : s.propagated.outcome with
  | error x => rw [run_of_error hp]
  | ok tally =>
    rw [run_of_ok hp] at h ⊢
    -- the best schedule is as large as the search was deep, and the answer has found it empty
    have hsize := (Search.run_yields (s.context deadline) s.narrowed).recorded.size
    cases ha : answer (s.search deadline).1 (s.search deadline).2.best with
    | error j => exact hsize.symm.trans (answer_error ha)
    | ok t => rw [ha] at h; cases h

/-- A solution has as many entries as the search has been deep, sorted by subject, and together with
the subjects left out they account for every subject of the problem. A run that fails has not come
to any depth. -/
theorem run_accounted (s : Solver) (deadline : Deadline) :
    (∀ sol, (s.run deadline).1 = .ok sol →
      sol.entries.length = (s.run deadline).2.stats.maxDepth ∧ sol.Accounted s.problem) ∧
    (∀ i, (s.run deadline).1 = .error i → (s.run deadline).2.stats.maxDepth = 0) := by
  refine ⟨fun sol h => ⟨length_entries h, ?_⟩, fun i h => maxDepth_of_run_error h⟩
  obtain ⟨t, d, -, ht, rfl, -⟩ := run_ok h
  exact Solution.accounted_ofSchedule fun x hx => ht.mem_ids hx

/-- The three rivals, one of them listed twice. -/
def rivalsRepeated : Solver where
  problem := { rivals.problem with subjects := rivals.problem.subjects ++ [⟨3, "S3", 2, []⟩] }

theorem run_accounted_rivalsRepeated :
    (rivalsRepeated.run .never).1 = .ok ⟨[⟨1, 7, 100, 1⟩], 0, 0, [2, 3, 3]⟩ ∧
    (rivalsRepeated.run .never).2.stats.maxDepth = 1 ∧
    Solution.Accounted rivalsRepeated.problem ⟨[⟨1, 7, 100, 1⟩], 0, 0, [2, 3, 3]⟩ := by
  have hrun : (rivalsRepeated.run .never).1 = .ok ⟨[⟨1, 7, 100, 1⟩], 0, 0, [2, 3, 3]⟩ := by cbv
  obtain ⟨hdepth, haccounted⟩ := (run_accounted rivalsRepeated .never).1 _ hrun
  exact ⟨hrun, hdepth.symm, haccounted⟩

end Solver

end Timetabling
