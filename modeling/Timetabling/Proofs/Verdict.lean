import Timetabling.Generation
import Timetabling.Proofs.Accounting
import Timetabling.Proofs.Offer

/-!
# How a generation ends

After arc consistency every candidate has support among those of everyone else, so the forward check
of the first booking passes, whatever the booking. In the problem of a snapshot the gate lets every
candidate into the empty schedule. Together: unless arc consistency fails, a generation whose search
begins in time books someone (`Search.Deepens`), and what it has booked is handed back whenever the
deadline comes. `Infeasibility.searchExhausted` never comes out of one (`generate_ends`).
-/

namespace Timetabling

/-! ### The first booking -/

namespace Search

variable {c : Context} {d : Domains} {p : Schedule} {x : SubjectId} {v : Booking} {s s' : State}

/-- If every candidate of `x` has support among those of all others, the check of `x` passes. -/
theorem forwardCheck_of_settled {slots : SlotIndex} {ids : List SubjectId}
    (h : ∀ y ∈ ids, y ≠ x → d.Settled slots (x, y)) (hv : v ∈ d.candidates x) :
    (forwardCheck slots x v p ids d).1 = true := by
  refine forwardCheck_fst.2 fun y hy hyx _ ws hws => ?_
  obtain ⟨w, hw, hc⟩ := Domains.supports_eq_true.1 (h y hy hyx v hv)
  exact ⟨w, Domains.candidates_eq hws ▸ hw, by simp [compatible, hc]⟩

/-- One of `vs` passes both gate and forward check when it is booked for `x`. -/
def Bookable (c : Context) (x : SubjectId) (vs : List Booking) (s : State) : Prop :=
  ∃ v ∈ vs, c.rules.admits c.slots x v s.schedule = true ∧
    (forwardCheck c.slots x v (s.schedule.insert x v) c.ids s.domains).1 = true

/-- The depth counted does not fall and is at least that of the schedule. It is greater if the
exploration begins in time and can book its subject. -/
structure Deepens (c : Context) (s s' : State) : Prop where
  mono : s.stats.maxDepth ≤ s'.stats.maxDepth
  size : s.schedule.size ≤ s'.stats.maxDepth
  books : c.deadline.late s.stats.nodes = false →
    ∀ x, s.domains.mostConstrained c.ids s.schedule = some x →
      Bookable c x (s.domains.candidates x) s → s.schedule.size < s'.stats.maxDepth

/-- An exploration that goes no further than to record where it is. -/
theorem Deepens.of_record (hs : s'.stats.maxDepth = max s.stats.maxDepth s.schedule.size)
    (h : c.deadline.late s.stats.nodes = true ∨
      s.domains.mostConstrained c.ids s.schedule = none) : Deepens c s s' where
  mono := hs ▸ Nat.le_max_left _ _
  size := hs ▸ Nat.le_max_right _ _
  books hl x hx := by
    rcases h with h | h
    · rw [hl] at h
      cases h
    · rw [hx] at h
      cases h

theorem Bookable.tail {vs : List Booking} (h : Bookable c x (v :: vs) s)
    (hv : ¬ (c.rules.admits c.slots x v s.schedule = true ∧
      (forwardCheck c.slots x v (s.schedule.insert x v) c.ids s.domains).1 = true)) :
    Bookable c x vs s := by
  obtain ⟨w, hw, hpass⟩ := h
  rcases List.mem_cons.1 hw with rfl | hw
  · exact absurd hpass hv
  · exact ⟨w, hw, hpass⟩

/-- What is below a new booking of the trials comes to a greater depth than the schedule has. -/
theorem Deepens.of_place (hx : ¬ x ∈ s.schedule) (h : Deepens c (s.place x v d) s') :
    s.stats.maxDepth ≤ s'.stats.maxDepth ∧ s.schedule.size < s'.stats.maxDepth := by
  have hsize : (s.schedule.insert x v).size ≤ s'.stats.maxDepth := h.size
  rw [Table.size_insert_of_not_mem v hx] at hsize
  exact ⟨h.mono, hsize⟩

theorem deepens_stepwise (c : Context) : Stepwise c (fun s _ s' => Deepens c s s')
    (fun x vs s _ s' => s.stats.maxDepth ≤ s'.stats.maxDepth ∧
      (Bookable c x vs s → s.schedule.size < s'.stats.maxDepth)) where
  expire s hl := .of_record rfl (.inl hl)
  complete s _ hm := .of_record rfl (.inr hm)
  branch s x o s' _ hm h := by
    have hmono : max s.stats.maxDepth s.schedule.size ≤ s'.stats.maxDepth := h.1
    refine ⟨le_of_max_le_left hmono, le_of_max_le_right hmono, fun _ y hy hbook => h.2 ?_⟩
    cases hm.symm.trans hy
    obtain ⟨v, hv, hpass⟩ := hbook
    -- the trials come in an order of their own
    have hperm := Domains.leastConstraining_perm c.orderSlots s.domains c.ids s.schedule x
    exact ⟨v, hperm.mem_iff.2 hv, hpass⟩
  nil x s := ⟨Nat.le_refl _, fun ⟨_, hv, _⟩ => absurd hv List.not_mem_nil⟩
  reject x v vs s o s' _ ha h := by
    refine ⟨h.1, fun hbook => h.2 (hbook.tail fun hpass => ?_)⟩
    rw [ha] at hpass
    cases hpass.1
  wipeout x v vs s d o s' _ _ hf h := by
    refine ⟨h.1, fun hbook => h.2 (hbook.tail fun hpass => ?_)⟩
    rw [hf] at hpass
    cases hpass.2
  giveUp x v vs s d s₁ o s' hx _ _ hP h := by
    obtain ⟨hmono, hdeep⟩ := hP.of_place hx
    exact ⟨hmono.trans h.1, fun _ => hdeep.trans_le h.1⟩
  finish x v vs s d o s' hx _ _ _ hP := by
    obtain ⟨hmono, hdeep⟩ := hP.of_place hx
    exact ⟨hmono, fun _ => hdeep⟩

/-- A search that begins in time, and whose first subject has a candidate that passes both gate and
check, comes to depth one. -/
theorem maxDepth_pos (hl : c.deadline.late 0 = false) (hx : d.mostConstrained c.ids ∅ = some x)
    (hv : v ∈ d.candidates x) (ha : c.rules.admits c.slots x v ∅ = true)
    (hf : (forwardCheck c.slots x v (Table.insert ∅ x v) c.ids d).1 = true) :
    0 < (run c d).2.stats.maxDepth :=
  ((deepens_stepwise c).explore (unassigned_start_lt c d)).books hl x hx ⟨v, hv, ha, hf⟩

end Search

/-! ### Runs -/

namespace Solver

variable {s : Solver} {tally : Tally} {deadline : Deadline} {x : SubjectId} {v : Booking}

theorem settled_narrowed (hp : s.propagated.outcome = .ok tally) :
    ∀ x ∈ s.problem.ids, ∀ y ∈ s.problem.ids, y ≠ x →
      s.narrowed.Settled s.problem.slots (x, y) :=
  fun x hx y hy hne => ((Domains.propagate_ok hp).settled x hx y hy hne).resolve_left
    List.not_mem_nil

theorem run_of_late (hp : s.propagated.outcome = .ok tally) (hl : deadline.late 0 = true) :
    (s.run deadline).1 = .error .outOfTime := by
  rw [run_of_ok hp, search, Search.run_of_late (c := s.context deadline) hl]
  rfl

/-- The subject that a run books first: of those to which arc consistency leaves the fewest
candidates the first. -/
def first? (s : Solver) : Option SubjectId := s.narrowed.mostConstrained s.problem.ids ∅

theorem first?_isSome (h : s.problem.ids ≠ []) : ∃ x, s.first? = some x := by
  refine Option.ne_none_iff_exists'.1 fun hnone => h ?_
  have hnil : Schedule.unassigned ∅ s.problem.ids = [] := leastBy_eq_none.1 hnone
  simpa [Schedule.unassigned] using hnil

/-- A run whose search begins in time books someone, if the gate lets in a candidate of the first
subject. -/
theorem maxDepth_pos (hp : s.propagated.outcome = .ok tally) (hl : deadline.late 0 = false)
    (hx : s.first? = some x) (hv : v ∈ s.narrowed.candidates x)
    (ha : s.problem.rules.admits s.problem.slots x v ∅ = true) :
    0 < (s.run deadline).2.stats.maxDepth := by
  obtain ⟨hxi, -⟩ := Domains.unassigned_of_mostConstrained hx
  rw [run_of_ok hp]
  exact Search.maxDepth_pos (c := s.context deadline) hl hx hv ha
    (Search.forwardCheck_of_settled (settled_narrowed hp x hxi) hv)

/-- A run whose search begins in time hands back a solution that books someone, if arc consistency
succeeds and no candidate of the problem breaks a rule by itself. -/
theorem run_inTime (hp : s.propagated.outcome = .ok tally) (hl : deadline.late 0 = false)
    (hr : ∀ x ∈ s.problem.ids, ∀ v ∈ s.problem.domains.candidates x,
      s.problem.rules.faulty s.problem.slots x v = false) :
    ∃ sol, (s.run deadline).1 = .ok sol ∧ (s.problem.ids ≠ [] → sol.entries ≠ []) := by
  cases hx : s.first? with
  | none =>
    have hids : s.problem.ids = [] := by
      by_contra hne
      obtain ⟨x, hsome⟩ := first?_isSome hne
      rw [hx] at hsome
      cases hsome
    refine ⟨Solution.ofSchedule s.problem s.order ∅, ?_, fun hne => absurd hids hne⟩
    rw [run_of_ok hp, search, Search.run_of_none (c := s.context deadline) hl hx]
    rfl
  | some x =>
    obtain ⟨hxi, -⟩ := Domains.unassigned_of_mostConstrained hx
    obtain ⟨v, hv⟩ := Domains.exhausted_eq_false.1 ((Domains.propagate_ok hp).inhabited x hxi)
    have hpos : 0 < (s.run deadline).2.stats.maxDepth := maxDepth_pos hp hl hx hv
      (Rulebook.admits_empty.2 (hr x hxi v (mem_of_mem_narrowed hp hv)))
    cases hrun : (s.run deadline).1 with
    | error i => exact absurd (maxDepth_of_run_error hrun) hpos.ne'
    | ok sol =>
      refine ⟨sol, rfl, fun _ hnil => hpos.ne' ?_⟩
      rw [← length_entries hrun, hnil]
      rfl

end Solver

/-! ### Generations -/

/-- What arc consistency makes of the problem of a snapshot. -/
def Snapshot.propagated (s : Snapshot) : Propagation :=
  let p := Problem.ofSnapshot s
  p.domains.propagate p.slots p.ids

/-- How a generation ends: with a subject that has run out of candidates if arc consistency fails;
out of time if the deadline has passed when the search begins; and otherwise, even if the deadline
comes in the middle of the search, with a solution that books someone if there is anyone to book. -/
structure Snapshot.Ends (s : Snapshot) (deadline : Deadline)
    (answer : Except Infeasibility Solution) : Prop where
  wipeout : ∀ x, s.propagated.outcome = .error x → answer = .error (.domainWipeout x)
  late : ∀ t, s.propagated.outcome = .ok t → deadline.late 0 = true → answer = .error .outOfTime
  inTime : ∀ t, s.propagated.outcome = .ok t → deadline.late 0 = false →
    ∃ sol, answer = .ok sol ∧ (s.subjects ≠ [] → sol.entries ≠ [])

/-- A clock that starts at zero and by which a minute goes by right before a look. -/
def Clock.minuteAt (look : Nat) : Clock :=
  ⟨0, fun n => if n < look then 0 else 60 * second, fun _ => Nat.zero_le _⟩

namespace Deadline

/-- A budget that is used up when it is taken up. -/
theorem after?_zero {clock : Clock} (h : clock.start < Clock.second * Clock.range) :
    after? clock 0 = some expired := by
  simp [after?, h, expired, clock.start_le]

theorem after?_eq_some {clock : Clock} {budget : UInt64} {deadline : Deadline} :
    after? clock budget = some deadline ↔
      clock.start + Clock.second * budget.toNat < Clock.second * Clock.range ∧
        deadline = ⟨fun n => clock.start + Clock.second * budget.toNat ≤ clock.look n⟩ := by
  simp only [after?]
  split_ifs with h <;> simp [h, eq_comm]

theorem after?_eq_none {clock : Clock} {budget : UInt64} : after? clock budget = none ↔
    Clock.second * Clock.range ≤ clock.start + Clock.second * budget.toNat := by
  simp [after?]

end Deadline

namespace Snapshot

variable {s : Snapshot} {settings : SolverSettings} {deadline : Deadline} {order : Penalty.Order}
  {x : SubjectId} {t : Tally}

theorem solve_of_error (h : s.propagated.outcome = .error x) :
    s.solve settings deadline order = .error (.domainWipeout x) := by
  rw [solve, Solver.run_of_error (s := s.solver settings order) h]

theorem solve_of_late (h : s.propagated.outcome = .ok t) (hl : deadline.late 0 = true) :
    s.solve settings deadline order = .error .outOfTime :=
  Solver.run_of_late (s := s.solver settings order) h hl

theorem solve_inTime (settings : SolverSettings) (order : Penalty.Order)
    (h : s.propagated.outcome = .ok t) (hl : deadline.late 0 = false) :
    ∃ sol, s.solve settings deadline order = .ok sol ∧ (s.subjects ≠ [] → sol.entries ≠ []) := by
  obtain ⟨sol, hsol, hbook⟩ := Solver.run_inTime (s := s.solver settings order) h hl
    fun x _ v hv => Problem.faulty_eq_false_of_mem hv
  exact ⟨sol, hsol, fun hs => hbook fun hnil => hs (List.map_eq_nil_iff.1 hnil)⟩

theorem solve_ends (s : Snapshot) (settings : SolverSettings) (deadline : Deadline)
    (order : Penalty.Order) : s.Ends deadline (s.solve settings deadline order) where
  wipeout _ hx := solve_of_error hx
  late _ ht hl := solve_of_late ht hl
  inTime _ ht hl := solve_inTime settings order ht hl

theorem Ends.ne_searchExhausted {answer : Except Infeasibility Solution}
    (h : s.Ends deadline answer) : answer ≠ .error .searchExhausted := by
  rintro rfl
  cases hp : s.propagated.outcome with
  | error x => cases h.wipeout x hp
  | ok t =>
    cases hl : deadline.late 0 with
    | true => cases h.late t hp hl
    | false =>
      obtain ⟨sol, hsol, -⟩ := h.inTime t hp hl
      cases hsol

/-- A generation whose budget fits the clock is answered as `Ends` says, and so never for an
exhausted search; its deadline has passed when the clock has gone on by the budget. The reason is
that no candidate is turned away by the gate from an empty schedule and that, after arc consistency,
no first booking empties a domain. -/
theorem generate_ends (s : Snapshot) (settings : SolverSettings) (budget : UInt64)
    (conditions : Conditions) (deadline : Deadline)
    (h : Deadline.after? conditions.clock budget = some deadline) :
    let p := Problem.ofSnapshot s
    (∃ answer, s.generate settings budget conditions = .ok answer ∧ s.Ends deadline answer ∧
      answer ≠ .error .searchExhausted) ∧
    (∀ look, deadline.late look = true ↔
      conditions.clock.start + Clock.second * budget.toNat ≤ conditions.clock.look look) ∧
    (budget = 0 → deadline = .expired) ∧
    (∀ x, ∀ v ∈ p.domains.candidates x, p.rules.admits p.slots x v ∅ = true) ∧
    (∀ t, s.propagated.outcome = .ok t →
      ∀ x ∈ p.ids, ∀ v ∈ s.propagated.domains.candidates x,
        (Search.forwardCheck p.slots x v (Table.insert ∅ x v) p.ids
          s.propagated.domains).1 = true) := by
  intro p
  have hends := solve_ends s settings deadline conditions.order
  obtain ⟨hrange, hdeadline⟩ := Deadline.after?_eq_some.1 h
  refine ⟨⟨_, ?_, hends, hends.ne_searchExhausted⟩, fun look => ?_, ?_, fun x v hv => ?_,
    fun t ht x hx v hv => ?_⟩
  · rw [generate, h]
  · rw [hdeadline, decide_eq_true_iff]
  · rintro rfl
    rw [Deadline.after?_zero (by simpa using hrange)] at h
    exact (Option.some.inj h).symm
  · exact Rulebook.admits_empty.2 (Problem.faulty_eq_false_of_mem hv)
  · have hset := Solver.settled_narrowed (s := s.solver settings conditions.order) ht
    exact Search.forwardCheck_of_settled (hset x hx) hv

/-- Three subjects, one of them listed twice, for one teacher and one room, and two slots. -/
def crowded : Snapshot where
  teachers := [⟨7, "Ada", [], 10, []⟩]
  subjects := [⟨1, "S1", 2, []⟩, ⟨2, "S2", 2, []⟩, ⟨3, "S3", 2, []⟩, ⟨3, "S3", 2, []⟩]
  rooms := [⟨100, 40, "lecture"⟩]
  timeSlots := [⟨1, 0, 1, 2⟩, ⟨2, 0, 2, 3⟩]

/-- The deadline comes after the first booking, which is what is handed back. -/
theorem generate_ends_crowded :
    let deadline : Deadline := ⟨fun n => 30000000000 ≤ (Clock.minuteAt 1).look n⟩
    Deadline.after? (.minuteAt 1) 30 = some deadline ∧
    deadline.late 0 = false ∧ deadline.late 1 = true ∧
    crowded.generate {} 30 { clock := .minuteAt 1 } =
      .ok (.ok ⟨[⟨1, 7, 100, 1⟩], 0, 0, [2, 3, 3]⟩) ∧
    crowded.Ends deadline (.ok ⟨[⟨1, 7, 100, 1⟩], 0, 0, [2, 3, 3]⟩) := by
  intro deadline
  have hdue : Deadline.after? (.minuteAt 1) 30 = some deadline := rfl
  have hrun : crowded.generate {} 30 { clock := .minuteAt 1 } =
      .ok (.ok ⟨[⟨1, 7, 100, 1⟩], 0, 0, [2, 3, 3]⟩) := by cbv
  obtain ⟨⟨answer, h, hends, -⟩, -⟩ :=
    generate_ends crowded {} 30 { clock := .minuteAt 1 } deadline hdue
  rw [hrun] at h
  cases h
  exact ⟨hdue, rfl, rfl, hrun, hends⟩

end Snapshot

end Timetabling
