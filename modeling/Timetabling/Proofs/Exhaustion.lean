import Timetabling.Proofs.Verdict

/-!
# Exhausted searches

A search never leaves a subject out: if the gate turns away all that its first subject has left, it
is over. So `Infeasibility.searchExhausted` tells of this one subject alone (`run_exhausted_iff`).
Others may well have a candidate to which no rule objects, as in `absentee`, and whether they are
tried depends on which of the subjects with the fewest candidates is listed first.
-/

namespace Timetabling

/-- The gate lets no candidate of any subject into the empty schedule. -/
def Problem.NonePlaceable (p : Problem) : Prop :=
  ∀ x ∈ p.ids, ∀ v ∈ p.domains.candidates x, p.rules.admits p.slots x v ∅ = false

namespace Search

variable {c : Context} {d : Domains} {x : SubjectId} {vs : List Booking} {s : State}
  {ex : State → Outcome × State}

theorem tryEach_reject_all (h : ∀ v ∈ vs, c.rules.admits c.slots x v s.schedule = false) :
    tryEach c ex x vs s = (.exhausted, s) := by
  induction vs with
  | nil => rfl
  | cons v vs ih =>
    rw [tryEach_reject (h v List.mem_cons_self)]
    exact ih fun w hw => h w (List.mem_cons_of_mem _ hw)

/-- A search that can do nothing with its first subject gives up at once. -/
theorem run_of_reject_all (hl : c.deadline.late 0 = false)
    (hx : d.mostConstrained c.ids ∅ = some x)
    (h : ∀ v ∈ d.candidates x, c.rules.admits c.slots x v ∅ = false) :
    run c d = (.exhausted, (State.start d).record.countNode) := by
  refine (visit_of_some (s := State.start d) hl hx).trans ?_
  refine tryEach_reject_all fun v hv => h v ?_
  exact (Domains.leastConstraining_perm c.orderSlots d c.ids ∅ x).mem_iff.1 hv

end Search

namespace Solver

variable {s : Solver} {tally : Tally} {x : SubjectId}

theorem run_of_reject_all (hp : s.propagated.outcome = .ok tally) (hx : s.first? = some x)
    (h : ∀ v ∈ s.narrowed.candidates x, s.problem.rules.admits s.problem.slots x v ∅ = false) :
    (s.run .never).1 = .error .searchExhausted := by
  have hrun := Search.run_of_reject_all (c := s.context .never) rfl hx h
  rw [run_of_ok hp, search, hrun]
  rfl

theorem reject_all_of_run (h : (s.run .never).1 = .error .searchExhausted) :
    (∃ tally, s.propagated.outcome = .ok tally) ∧ ∃ x, s.first? = some x ∧
      ∀ v ∈ s.narrowed.candidates x, s.problem.rules.admits s.problem.slots x v ∅ = false := by
  cases hp : s.propagated.outcome with
  | error x => rw [run_of_error hp] at h; cases h
  | ok tally =>
    refine ⟨⟨tally, rfl⟩, ?_⟩
    cases hx : s.first? with
    | none =>
      rw [run_of_ok hp, search, Search.run_of_none (c := s.context .never) rfl hx] at h
      cases h
    | some x =>
      refine ⟨x, rfl, fun v hv => ?_⟩
      -- had the gate let in `v`, the run would have booked someone
      by_contra ha
      have hpos := maxDepth_pos hp (Deadline.late_never 0) hx hv (Bool.not_eq_false _ ▸ ha)
      exact hpos.ne' (maxDepth_of_run_error h)

/-- A run with time enough ends as exhausted just when arc consistency succeeds and the gate turns
away all candidates that it leaves to the first subject. If the gate turns away all candidates of
all subjects, there is no other end; but it may let in candidates of the other subjects. -/
theorem run_exhausted_iff (s : Solver) :
    ((s.run .never).1 = .error .searchExhausted ↔
      (∃ tally, s.propagated.outcome = .ok tally) ∧ ∃ x, s.first? = some x ∧
        ∀ v ∈ s.narrowed.candidates x, s.problem.rules.admits s.problem.slots x v ∅ = false) ∧
    (s.problem.NonePlaceable → s.problem.ids ≠ [] → (∃ tally, s.propagated.outcome = .ok tally) →
      (s.run .never).1 = .error .searchExhausted) := by
  refine ⟨⟨reject_all_of_run, fun ⟨⟨tally, hp⟩, x, hx, h⟩ => run_of_reject_all hp hx h⟩,
    fun hnone hids ⟨tally, hp⟩ => ?_⟩
  obtain ⟨x, hx⟩ := first?_isSome hids
  obtain ⟨hxi, -⟩ := Domains.unassigned_of_mostConstrained hx
  exact run_of_reject_all hp hx fun v hv => hnone x hxi v (mem_of_mem_narrowed hp hv)

/-- Two subjects with one candidate each; the teacher of the one listed first is not there at the
time. -/
def absentee : Solver where
  problem := {
    subjects := [⟨2, "S2", 2, []⟩, ⟨1, "S1", 2, []⟩]
    domains := Table.ofList [(1, [⟨8, 100, 1⟩]), (2, [⟨7, 101, 3⟩])]
    slots := SlotIndex.ofSlots [⟨1, 0, 1, 2⟩, ⟨2, 0, 2, 3⟩, ⟨3, 0, 3, 4⟩, ⟨4, 0, 4, 5⟩]
    rules := Rulebook.ofRecords [⟨7, "Alan", [], 8, [1]⟩] [] }

/-- The search is exhausted, though the other subject could have been placed. -/
theorem run_exhausted_absentee :
    (absentee.run .never).1 = .error .searchExhausted ∧ ¬ absentee.problem.NonePlaceable := by
  refine ⟨by cbv, fun h => ?_⟩
  have hplaced : absentee.problem.rules.admits absentee.problem.slots 1 ⟨8, 100, 1⟩ ∅ = true := by
    decide
  rw [h 1 (by decide) ⟨8, 100, 1⟩ (by decide)] at hplaced
  cases hplaced

end Solver

end Timetabling
