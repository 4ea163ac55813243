import Mathlib
import Timetabling.Proofs.ArcConsistency
import Timetabling.Proofs.SearchInvariant
import Timetabling.Solver

/-!
# Solutions are sound

Whatever a run hands back, complete or partial, is the written form of a schedule that the search
has reached (`Solver.run_ok`), and so it breaks no rule.
-/

namespace Timetabling

/-! ### The written form of a schedule -/

namespace Schedule

variable {t : Schedule} {e : Entry}

theorem toEntries_perm (t : Schedule) :
    t.toEntries.Perm (t.entries.map fun e => Entry.ofBooking e.1 e.2) :=
  List.mergeSort_perm _ _

theorem length_toEntries (t : Schedule) : t.toEntries.length = t.size := by
  rw [t.toEntries_perm.length_eq, List.length_map]
  rfl

theorem mem_toEntries : e ∈ t.toEntries ↔ t.get? e.subject = some e.booking := by
  rw [t.toEntries_perm.mem_iff, List.mem_map, ← Table.mem_entries]
  constructor
  · rintro ⟨f, hf, rfl⟩
    exact hf
  · intro h
    exact ⟨(e.subject, e.booking), h, rfl⟩

/-- A symmetric relation holds between all entries if it holds between the bookings of any two
subjects. -/
theorem pairwise_toEntries {R : Entry → Entry → Prop} (hsymm : ∀ {e f}, R e f → R f e)
    (h : ∀ e ∈ t.toEntries, ∀ f ∈ t.toEntries, e.subject ≠ f.subject → R e f) :
    t.toEntries.Pairwise R := by
  rw [t.toEntries_perm.pairwise_iff hsymm, List.pairwise_map]
  refine (List.pairwise_map.1 t.nodup).imp_of_mem fun {a b} ha hb hab => ?_
  exact h _ (mem_toEntries.2 (Table.mem_entries.1 ha)) _
    (mem_toEntries.2 (Table.mem_entries.1 hb)) hab

end Schedule

/-- Two entries that need one teacher or one room share no period of a day. -/
def Entry.Apart (slots : SlotIndex) (e f : Entry) : Prop :=
  e.teacher = f.teacher ∨ e.room = f.room → ∀ a b, slots.get? e.slot = some a →
    slots.get? f.slot = some b → a.dayOfWeek = b.dayOfWeek → ∀ q, ¬ (a.Covers q ∧ b.Covers q)

theorem Entry.Apart.symm {slots : SlotIndex} {e f : Entry} (h : e.Apart slots f) :
    f.Apart slots e :=
  fun hshare a b ha hb hd q hq =>
    h (hshare.imp Eq.symm Eq.symm) b a hb ha hd.symm q hq.symm

/-- What a problem asks of a solution, be it complete or partial. -/
structure Solution.Sound (p : Problem) (s : Solution) : Prop where
  lawful : s.hardViolations = 0
  drawn : ∀ e ∈ s.entries, e.subject ∈ p.ids ∧ e.booking ∈ p.domains.candidates e.subject
  permitted : ∀ e ∈ s.entries, e.slot ∈ p.slots ∧
    p.rules.mayTeach e.subject e.teacher = true ∧ p.rules.available e.teacher e.slot = true
  apart : s.entries.Pairwise (Entry.Apart p.slots)

namespace Solver

variable {s : Solver} {deadline : Deadline} {sol : Solution}

/-! ### Where solutions come from -/

/-- What arc consistency makes of the problem. -/
def propagated (s : Solver) : Propagation :=
  s.problem.domains.propagate s.problem.slots s.problem.ids

/-- The domains that arc consistency leaves. -/
def narrowed (s : Solver) : Domains := s.propagated.domains

/-- The search of a run. -/
def search (s : Solver) (deadline : Deadline) : Search.Outcome × Search.State :=
  Search.run (s.context deadline) s.narrowed

theorem run_of_error {x : SubjectId} (h : s.propagated.outcome = .error x) :
    s.run deadline = (.error (.domainWipeout x), { s with stats := {} }) := by
  rw [propagated] at h
  rw [run]
  split
  · next heq => rw [heq] at h; cases h; rfl
  · next heq => rw [heq] at h; cases h

theorem run_of_ok {tally : Tally} (h : s.propagated.outcome = .ok tally) :
    s.run deadline = ((answer (s.search deadline).1 (s.search deadline).2.best).map
      (Solution.ofSchedule s.problem s.order), { s with stats := (s.search deadline).2.stats }) := by
  rw [propagated] at h
  rw [run]
  split
  · next heq => rw [heq] at h; cases h
  · next heq => rw [search, narrowed, propagated, heq]

theorem answer_ok {o : Search.Outcome} {best t : Schedule} (h : answer o best = .ok t) :
    o = .complete t ∨ t = best := by
  cases o with
  | complete t' => cases h; exact .inl rfl
  | timedOut | exhausted =>
    rw [answer] at h
    split at h
    · cases h
    · cases h; exact .inr rfl

/-- A solution is the written form of a schedule that the search has reached, as large as the depth
counted. -/
theorem run_ok (h : (s.run deadline).1 = .ok sol) : ∃ t d,
    (∃ tally, s.propagated.outcome = .ok tally) ∧
    Search.Reached (s.context deadline) s.narrowed t d ∧
    sol = Solution.ofSchedule s.problem s.order t ∧ t.size = (s.run deadline).2.stats.maxDepth := by
  cases hp : s.propagated.outcome with
  | error x => rw [run_of_error hp] at h; cases h
  | ok tally =>
    rw [run_of_ok hp] at h ⊢
    obtain ⟨hrec, hcomplete⟩ := Search.run_yields (s.context deadline) s.narrowed
    cases ha : answer (s.search deadline).1 (s.search deadline).2.best with
    | error i => rw [ha] at h; cases h
    | ok t =>
      rw [ha] at h
      cases h
      rcases answer_ok ha with ho | rfl
      · -- the largest schedule seen books no one but listed subjects, so it is no larger than `t`
        obtain ⟨⟨d, ht⟩, hall, hle⟩ := hcomplete t ho
        obtain ⟨d', hb⟩ := hrec.reached
        refine ⟨t, d, ⟨tally, rfl⟩, ht, rfl, Nat.le_antisymm ?_ ?_⟩
        · exact hrec.size ▸ hle
        · exact hrec.size ▸ Table.size_le fun x hx => hall x (hb.mem_ids hx)
      · obtain ⟨d, hb⟩ := hrec.reached
        exact ⟨_, d, ⟨tally, rfl⟩, hb, rfl, hrec.size⟩

/-- A solution has as many entries as the run has booked subjects at one time. -/
theorem length_entries (h : (s.run deadline).1 = .ok sol) :
    sol.entries.length = (s.run deadline).2.stats.maxDepth := by
  obtain ⟨t, d, -, -, rfl, hsize⟩ := run_ok h
  exact t.length_toEntries.trans hsize

theorem mem_of_mem_narrowed {tally : Tally} {x : SubjectId} {v : Booking}
    (h : s.propagated.outcome = .ok tally) (hv : v ∈ s.narrowed.candidates x) :
    v ∈ s.problem.domains.candidates x :=
  (Domains.propagate_ok h).narrows.mem hv

theorem sound_ofSchedule {tally : Tally} {t : Schedule} {d : Domains}
    (hp : s.propagated.outcome = .ok tally)
    (ht : Search.Reached (s.context deadline) s.narrowed t d) (order : Penalty.Order) :
    (Solution.ofSchedule s.problem order t).Sound s.problem := by
  have hlawful := ht.fits.lawful
  have hrules := Rulebook.hardViolations_eq_zero.1 hlawful
  refine ⟨hlawful, fun e he => ?_, fun e he => ?_, ?_⟩
  · obtain ⟨hx, hv⟩ := ht.fits.drawn _ _ (Schedule.mem_toEntries.1 he)
    exact ⟨hx, mem_of_mem_narrowed hp hv⟩
  · exact Rulebook.faulty_eq_false.1 (hrules _ _ (Schedule.mem_toEntries.1 he)).1
  · refine Schedule.pairwise_toEntries Entry.Apart.symm ?_
    intro e he f hf hne hshare a b ha hb hd q
    have hfree := (hrules _ _ (Schedule.mem_toEntries.1 he)).2 _ _ (Schedule.mem_toEntries.1 hf)
    have hmeet : s.problem.slots.meet e.slot f.slot = false := by
      by_contra hm
      rw [conflict_eq_true.2 ⟨hne, hshare, Bool.not_eq_false _ ▸ hm⟩] at hfree
      cases hfree
    exact SlotIndex.not_covers_of_meet hmeet ha hb hd q

/-- Every solution, complete or partial, breaks no rule, draws on the domains of the problem and
books no teacher and no room twice in one period. -/
theorem run_sound (s : Solver) (deadline : Deadline) (sol : Solution)
    (h : (s.run deadline).1 = .ok sol) : sol.Sound s.problem := by
  obtain ⟨t, d, ⟨tally, hp⟩, ht, rfl, -⟩ := run_ok h
  exact sound_ofSchedule hp ht s.order

/-- Three subjects for one teacher and one room, and two slots. -/
def rivals : Solver where
  problem := {
    subjects := [⟨1, "S1", 2, []⟩, ⟨2, "S2", 2, []⟩, ⟨3, "S3", 2, []⟩]
    domains := Table.ofList [
      (1, [⟨7, 100, 1⟩, ⟨7, 100, 2⟩]),
      (2, [⟨7, 100, 1⟩, ⟨7, 100, 2⟩]),
      (3, [⟨7, 100, 1⟩, ⟨7, 100, 2⟩])]
    slots := SlotIndex.ofSlots [⟨1, 0, 1, 2⟩, ⟨2, 0, 2, 3⟩]
    rules := Rulebook.ofRecords [] [] }

theorem run_sound_rivals : (rivals.run .never).1 = .ok ⟨[⟨1, 7, 100, 1⟩], 0, 0, [2, 3]⟩ ∧
    Solution.Sound rivals.problem ⟨[⟨1, 7, 100, 1⟩], 0, 0, [2, 3]⟩ :=
  ⟨by cbv, run_sound rivals .never _ (by cbv)⟩

end Solver

end Timetabling
