import Timetabling.Proofs.Lifecycle
import Timetabling.Proofs.Pricing
import Timetabling.Proofs.Verdict

/-!
# Jobs do not interfere

What a service holds about some of its jobs is a service itself (`restrict`). A step of one of these
jobs does there what it does here, and a step of any other job does nothing there. So a run can be
cut down to the steps of some jobs (`Run.restrict`). Cut down to one job, it passes through the few
states of `Lone`; cut down to all jobs but one, it shows that this one changed nothing for the rest.

What a job ends with is then up to its own snapshot and budget, the settings, and the conditions of
its own step. Of these the clock tells when its deadline comes, and the order of its pricing matters
no more than rounding does (`Snapshot.solve_alike`).
-/

namespace Timetabling

namespace Job

/-- The job that a step is about. -/
def Step.job : Step → JobId
  | .submit job _ _ => job
  | .finish job _ => job
  | .publish job => job
  | .die job _ => job

theorem Step.job_of_newId? {e : Step} {job : JobId} (h : e.newId? = some job) : e.job = job := by
  cases e <;> cases h
  rfl

theorem mem_submitted {es : List Step} {job : JobId} :
    job ∈ submitted es ↔ ∃ e ∈ es, e.newId? = some job :=
  List.mem_filterMap

theorem submitted_filter_sublist (p : Step → Bool) (es : List Step) :
    (submitted (es.filter p)).Sublist (submitted es) :=
  List.filter_sublist.filterMap _

/-- The generation of a job that came in with `snapshot` and `budget`. -/
def generation (settings : SolverSettings) (snapshot : Snapshot) (budget : Option UInt64)
    (conditions : Conditions) : Except Breakdown (Except Infeasibility Solution) :=
  snapshot.generate settings (budget.getD settings.deadlineSecs) conditions

end Job

namespace Service

open Job

variable {s s' r : Service} {e : Step} {es : List Step} {job : JobId} {keep : JobId → Bool}
  {publisher : Publisher} {settings : SolverSettings} {snapshot : Snapshot}
  {budget : Option UInt64} {conditions : Conditions} {o : Except Infeasibility Solution}

/-- What a service holds about the jobs that `keep` picks. -/
def restrict (keep : JobId → Bool) (s : Service) : Service where
  settings := s.settings
  jobs := s.jobs.restrict keep
  running := s.running.filter fun t => keep t.job
  unsent := s.unsent.filter fun e => keep e.job
  sent := s.sent.filter fun e => keep e.job

theorem status?_restrict (hk : keep job = true) (s : Service) :
    (s.restrict keep).status? job = s.status? job :=
  (Table.get?_restrict keep s.jobs job).trans (if_pos hk)

theorem events_restrict (keep : JobId → Bool) (s : Service) :
    (s.restrict keep).events = s.events.filter fun e => keep e.job := by
  rw [events, events, List.filter_append]
  rfl

/-! ### Steps and runs of some jobs -/

section Lists

variable {α : Type} {key : α → JobId} {l : List α}

theorem find?_filter_of_pos (hk : keep job = true) :
    (l.filter fun a => keep (key a)).find? (fun a => key a = job) =
      l.find? fun a => key a = job := by
  rw [List.find?_filter]
  congr 1
  funext a
  by_cases ha : key a = job <;> simp [ha, hk]

theorem filter_and_ne (hk : keep job = false) :
    (l.filter fun a => keep (key a) && !decide (key a = job)) = l.filter fun a => keep (key a) := by
  refine List.filter_congr fun a _ => ?_
  by_cases ha : key a = job <;> simp [ha, hk]

end Lists

theorem restrict_submit_of_pos (hk : keep job = true) (s : Service) (snapshot : Snapshot)
    (budget : Option UInt64) :
    (s.submit job snapshot budget).restrict keep =
      (s.restrict keep).submit job snapshot budget := by
  simp [submit, restrict, Table.restrict_insert_of_pos hk, hk]

theorem restrict_finish_of_pos (hk : keep job = true) (s : Service) (conditions : Conditions) :
    (s.finish job conditions).restrict keep = (s.restrict keep).finish job conditions := by
  have htask : (s.restrict keep).task? job = s.task? job := find?_filter_of_pos hk
  unfold finish
  rw [htask]
  cases s.task? job with
  | none => rfl
  | some t =>
    have hout : (s.restrict keep).outcome t conditions = s.outcome t conditions := rfl
    dsimp only
    rw [hout]
    cases s.outcome t conditions with
    | error b => rfl
    | ok result =>
      simp [restrict, endTask, Table.restrict_insert_of_pos hk, hk, Bool.and_comm]

theorem restrict_die_of_pos (hk : keep job = true) (s : Service) (conditions : Conditions) :
    (s.die job conditions).restrict keep = (s.restrict keep).die job conditions := by
  have htask : (s.restrict keep).task? job = s.task? job := find?_filter_of_pos hk
  unfold die
  rw [htask]
  cases s.task? job with
  | none => rfl
  | some t =>
    have hout : (s.restrict keep).outcome t conditions = s.outcome t conditions := rfl
    dsimp only
    rw [hout]
    cases s.outcome t conditions with
    | error b => simp [restrict, endTask, Bool.and_comm]
    | ok result => rfl

theorem restrict_publish_of_pos (hk : keep job = true) (publisher : Publisher) (s : Service) :
    (s.publish publisher job).restrict keep = (s.restrict keep).publish publisher job := by
  have hfind : (s.restrict keep).unsent.find? (fun e => e.job = job) =
      s.unsent.find? fun e => e.job = job := find?_filter_of_pos hk
  unfold publish
  rw [hfind]
  cases he : s.unsent.find? fun e => e.job = job with
  | none => rfl
  | some e =>
    have hjob : e.job = job := by simpa using List.find?_some he
    dsimp only
    split <;> simp [restrict, hjob, hk, Bool.and_comm]

/-- A step of a job that is kept does with what is kept what it does with all. -/
theorem restrict_step_of_pos (hk : keep e.job = true) (publisher : Publisher) (s : Service) :
    (s.step publisher e).restrict keep = (s.restrict keep).step publisher e := by
  cases e with
  | submit job snapshot budget => exact restrict_submit_of_pos hk s snapshot budget
  | finish job conditions => exact restrict_finish_of_pos hk s conditions
  | publish job => exact restrict_publish_of_pos hk publisher s
  | die job conditions => exact restrict_die_of_pos hk s conditions

/-- A step of another job does nothing with what is kept. -/
theorem restrict_step_of_neg (hk : keep e.job = false) (publisher : Publisher) (s : Service) :
    (s.step publisher e).restrict keep = s.restrict keep := by
  cases e with
  | submit job snapshot budget =>
    simp only [Step.job] at hk
    simp [step, submit, restrict, Table.restrict_insert_of_neg hk, hk]
  | finish job conditions =>
    simp only [Step.job] at hk
    rcases finish_cases s job conditions with heq | ⟨t, -, -, result, -, heq⟩ <;> rw [step, heq]
    simp [restrict, endTask, Table.restrict_insert_of_neg hk, filter_and_ne hk, hk]
  | publish job =>
    simp only [Step.job] at hk
    rcases publish_cases publisher s job with heq | ⟨e, -, hjob, heq⟩ <;> rw [step, heq]
    simp [restrict, filter_and_ne hk, hjob, hk]
  | die job conditions =>
    simp only [Step.job] at hk
    rcases die_cases s job conditions with heq | ⟨t, -, -, b, -, heq⟩ <;> rw [step, heq]
    simp [restrict, endTask, filter_and_ne hk]

/-- A run, cut down to the steps of some jobs, leads to what is held about these jobs. -/
theorem Run.restrict (h : Run s es s') (keep : JobId → Bool) :
    Run (s.restrict keep) (es.filter fun e => keep e.job) (s'.restrict keep) := by
  induction h with
  | nil s => exact .nil _
  | @cons s s' e es publisher _ ih =>
    cases hk : keep e.job with
    | true =>
      rw [List.filter_cons_of_pos (by simpa using hk)]
      exact .cons publisher (restrict_step_of_pos hk publisher s ▸ ih)
    | false =>
      rw [List.filter_cons_of_neg (by simpa using hk), ← restrict_step_of_neg hk publisher s]
      exact ih

/-! ### One job alone -/

/-- Wherever a task runs, its outcome is that of its generation. -/
theorem outcome_eq (h : s.settings = settings) (conditions : Conditions) :
    s.outcome ⟨job, snapshot, budget.getD settings.deadlineSecs⟩ conditions =
      generation settings snapshot budget conditions := by
  rw [outcome, h]
  rfl

/-- How a service can stand that knows of one job alone and has gone through some of `steps`. -/
inductive Lone (settings : SolverSettings) (steps : List Step) (job : JobId) (snapshot : Snapshot)
    (budget : Option UInt64) : Service → Prop
  | running : Lone settings steps job snapshot budget
      { settings := settings
        jobs := Table.insert ∅ job .solving
        running := [⟨job, snapshot, budget.getD settings.deadlineSecs⟩] }
  | dead {conditions : Conditions} {b : Breakdown} (hm : .die job conditions ∈ steps)
      (h : generation settings snapshot budget conditions = .error b) :
      Lone settings steps job snapshot budget
        { settings := settings, jobs := Table.insert ∅ job .solving }
  | stored {conditions : Conditions} {o : Except Infeasibility Solution}
      (hm : .finish job conditions ∈ steps)
      (h : generation settings snapshot budget conditions = .ok o) :
      Lone settings steps job snapshot budget
        { settings := settings
          jobs := Table.insert ∅ job (.ofOutcome o)
          unsent := [.ofOutcome job o] }
  | told {conditions : Conditions} {o : Except Infeasibility Solution}
      (hm : .finish job conditions ∈ steps)
      (h : generation settings snapshot budget conditions = .ok o) :
      Lone settings steps job snapshot budget
        { settings := settings
          jobs := Table.insert ∅ job (.ofOutcome o)
          sent := [.ofOutcome job o] }

namespace Lone

variable {steps : List Step}

theorem finish (h : Lone settings steps job snapshot budget s)
    (hm : .finish job conditions ∈ steps) :
    Lone settings steps job snapshot budget (s.finish job conditions) := by
  cases h with
  | running =>
    cases hg : generation settings snapshot budget conditions with
    | error b => simpa [Service.finish, task?, outcome_eq, hg] using running
    | ok o =>
      simpa [Service.finish, task?, outcome_eq, hg, endTask, Table.insert_insert] using
        stored hm hg
  | dead hd hg => exact .dead hd hg
  | stored hf hg => exact .stored hf hg
  | told hf hg => exact .told hf hg

theorem die (h : Lone settings steps job snapshot budget s) (hm : .die job conditions ∈ steps) :
    Lone settings steps job snapshot budget (s.die job conditions) := by
  cases h with
  | running =>
    cases hg : generation settings snapshot budget conditions with
    | error b => simpa [Service.die, task?, outcome_eq, hg, endTask] using dead hm hg
    | ok o => simpa [Service.die, task?, outcome_eq, hg] using running
  | dead hd hg => exact .dead hd hg
  | stored hf hg => exact .stored hf hg
  | told hf hg => exact .told hf hg

theorem publish (h : Lone settings steps job snapshot budget s) (publisher : Publisher) :
    Lone settings steps job snapshot budget (s.publish publisher job) := by
  cases h with
  | running => exact .running
  | dead hd hg => exact .dead hd hg
  | @stored _ o hf hg =>
    have hfind : [Event.ofOutcome job o].find? (fun e => e.job = job) =
        some (Event.ofOutcome job o) := by simp
    simp only [Service.publish, hfind]
    split <;> simpa using told hf hg
  | told hf hg => exact .told hf hg

theorem step (h : Lone settings steps job snapshot budget s) (hm : e ∈ steps) (hjob : e.job = job)
    (hnew : e.newId? = none) (publisher : Publisher) :
    Lone settings steps job snapshot budget (s.step publisher e) := by
  subst hjob
  cases e with
  | submit => cases hnew
  | finish => exact h.finish hm
  | publish => exact h.publish publisher
  | die => exact h.die hm

theorem run (h : Lone settings steps job snapshot budget s) (hr : Run s es s')
    (hes : ∀ e ∈ es, e ∈ steps ∧ e.job = job ∧ e.newId? = none) :
    Lone settings steps job snapshot budget s' := by
  induction hr with
  | nil s => exact h
  | cons publisher _ ih =>
    obtain ⟨hm, hjob, hnew⟩ := hes _ List.mem_cons_self
    exact ih (h.step hm hjob hnew publisher) fun e he => hes e (List.mem_cons_of_mem _ he)

/-- A run of the steps of one job, which comes in once, ends in one of the states above. -/
theorem of_run (hr : Run { settings := settings } es s) (hes : ∀ e ∈ es, e ∈ steps ∧ e.job = job)
    (hids : (submitted es).Nodup) (hm : Step.submit job snapshot budget ∈ es) :
    Lone settings steps job snapshot budget s := by
  induction es with
  | nil => cases hm
  | cons e es ih =>
    have hrest : ∀ e ∈ es, e ∈ steps ∧ e.job = job := fun e he => hes e (List.mem_cons_of_mem _ he)
    cases hr with
    | cons publisher hr =>
      cases e with
      | submit job' snapshot' budget' =>
        obtain ⟨-, rfl⟩ : _ ∧ job' = job := hes _ List.mem_cons_self
        obtain ⟨hnew, -⟩ := List.nodup_cons.1 hids
        rcases List.mem_cons.1 hm with heq | hm
        · cases heq
          refine running.run hr fun e he => ⟨(hrest e he).1, (hrest e he).2, ?_⟩
          -- the job does not come in again
          cases hn : e.newId? with
          | none => rfl
          | some job =>
            obtain rfl := (Step.job_of_newId? hn).symm.trans (hrest e he).2
            exact absurd (mem_submitted.2 ⟨e, he, hn⟩) hnew
        · exact absurd (mem_submitted.2 ⟨_, hm, rfl⟩) hnew
      | finish | publish | die =>
        -- there is nothing to do yet
        exact ih hr hrest hids ((List.mem_cons.1 hm).resolve_left nofun)

theorem settings_eq (h : Lone settings steps job snapshot budget s) : s.settings = settings := by
  cases h <;> rfl

theorem eq_of_mem_running (h : Lone settings steps job snapshot budget s) {t : Task}
    (ht : t ∈ s.running) : t = ⟨job, snapshot, budget.getD settings.deadlineSecs⟩ := by
  cases h with
  | running => exact List.mem_singleton.1 ht
  | dead | stored | told => exact absurd ht List.not_mem_nil

/-- The job is being solved, and nothing has been told, or it has ended as its generation does. -/
theorem status_cases (h : Lone settings steps job snapshot budget s) :
    s.status? job = some .solving ∧ s.events = [] ∨
      ∃ conditions o, .finish job conditions ∈ steps ∧
        generation settings snapshot budget conditions = .ok o ∧
        s.status? job = some (.ofOutcome o) := by
  cases h with
  | running | dead => exact .inl ⟨Table.get?_insert_self _ _ _, rfl⟩
  | stored hm hg | told hm hg => exact .inr ⟨_, _, hm, hg, Table.get?_insert_self _ _ _⟩

/-- While a job is being solved, its task runs, unless that has died. -/
theorem mem_running (h : Lone settings steps job snapshot budget s)
    (hs : s.status? job = some .solving) :
    ⟨job, snapshot, budget.getD settings.deadlineSecs⟩ ∈ s.running ∨
      ∃ conditions b, .die job conditions ∈ steps ∧
        generation settings snapshot budget conditions = .error b := by
  cases h with
  | running => exact .inl (List.mem_singleton.2 rfl)
  | dead hm hg => exact .inr ⟨_, _, hm, hg⟩
  | @stored _ o | @told _ o =>
    have hfin := Status.isFinished_ofOutcome o
    rw [status?, Table.get?_insert_self, Option.some.injEq] at hs
    rw [hs] at hfin
    cases hfin

end Lone

/-- Cut down to one job that came in, a run ends in one of the states of `Lone`. -/
theorem lone_restrict (h : Run { settings := settings } es s) (hids : (submitted es).Nodup)
    (hm : Step.submit job snapshot budget ∈ es) :
    Lone settings es job snapshot budget (s.restrict fun other => other = job) := by
  refine Lone.of_run (h.restrict fun other => other = job) (fun e he => ?_)
    (hids.sublist (submitted_filter_sublist _ es)) (List.mem_filter.2 ⟨hm, decide_eq_true rfl⟩)
  obtain ⟨he, hjob⟩ := List.mem_filter.1 he
  exact ⟨he, of_decide_eq_true hjob⟩

end Service

/-! ### One generation in different orders -/

/-- The same timetable, with a penalty that rounding has not taken far away. -/
structure Solution.Alike (slots : SlotIndex) (sol sol' : Solution) : Prop where
  entries : sol.entries = sol'.entries
  hardViolations : sol.hardViolations = sol'.hardViolations
  unassigned : sol.unassigned = sol'.unassigned
  close : |sol.softPenalty - sol'.softPenalty| ≤
    2 * Penalty.tolerance slots (Schedule.ofEntries sol.entries)

/-- The order of the loads makes no more difference than rounding can. -/
theorem Solution.alike_ofSchedule (p : Problem) (order order' : Penalty.Order) (t : Schedule) :
    (Solution.ofSchedule p order t).Alike p.slots (Solution.ofSchedule p order' t) := by
  have hclose := (Solution.priced_ofSchedule p order t).close
  have hclose' := (Solution.priced_ofSchedule p order' t).close
  rw [abs_sub_comm] at hclose'
  refine ⟨rfl, rfl, rfl, (abs_sub_le _ (Penalty.exactTotal p.slots
    (Schedule.ofEntries t.toEntries)) _).trans ?_⟩
  rw [two_mul]
  exact add_le_add hclose hclose'

/-- The same, or both completed with solutions that are alike. -/
def Job.Status.Alike (slots : SlotIndex) (st st' : Job.Status) : Prop :=
  st = st' ∨ ∃ sol sol', st = .completed sol ∧ st' = .completed sol' ∧ sol.Alike slots sol'

/-- Before the pricing the order of the loads plays no part. -/
theorem Snapshot.solve_eq_map (s : Snapshot) (settings : SolverSettings) (deadline : Deadline) :
    ∃ r : Except Infeasibility Schedule, ∀ order, s.solve settings deadline order =
      r.map (Solution.ofSchedule (Problem.ofSnapshot s) order) := by
  cases hp : s.propagated.outcome with
  | error x => exact ⟨.error (.domainWipeout x), fun _ => solve_of_error hp⟩
  | ok t =>
    let search := (s.solver settings .asListed).search deadline
    refine ⟨Solver.answer search.1 search.2.best, fun order => ?_⟩
    rw [solve, Solver.run_of_ok (s := s.solver settings order) hp]
    rfl

theorem Snapshot.solve_alike (s : Snapshot) (settings : SolverSettings) (deadline : Deadline)
    (order order' : Penalty.Order) :
    (Job.Status.ofOutcome (s.solve settings deadline order)).Alike (Problem.ofSnapshot s).slots
      (.ofOutcome (s.solve settings deadline order')) := by
  obtain ⟨r, hr⟩ := s.solve_eq_map settings deadline
  rw [hr, hr]
  cases r with
  | error reason =>
    -- no solution is priced here, and none should be
    simp only [Except.map]
    exact .inl rfl
  | ok t => exact .inr ⟨_, _, rfl, rfl, Solution.alike_ofSchedule _ order order' t⟩

namespace Service

open Job

/-! ### One job among others -/

/-- What is promised of a job that came in with `snapshot` and `budget`, in the state `s` to which
`steps` lead. Steps of other jobs may stand anywhere between its own. -/
structure Undisturbed (settings : SolverSettings) (steps : List Step) (s : Service) (job : JobId)
    (snapshot : Snapshot) (budget : Option UInt64) : Prop where
  /-- Whenever its task comes to be solved, the outcome is that of its own generation. -/
  solved : ∀ t ∈ s.running, t.job = job → ∀ conditions,
    s.outcome t conditions = generation settings snapshot budget conditions
  /-- It is being solved, or has ended as its generation tells, under the conditions of a step of
  its own. -/
  status : s.status? job = some .solving ∨
    ∃ conditions, .finish job conditions ∈ steps ∧
      ((∃ sol, generation settings snapshot budget conditions = .ok (.ok sol) ∧
        s.status? job = some (.completed sol)) ∨
      ∃ reason, generation settings snapshot budget conditions = .ok (.error reason) ∧
        s.status? job = some (.failed reason.report (-1)))
  /-- With the same deadline it always ends alike, for instance if that has passed when the search
  begins or never comes. Only the last bits of a penalty may be others. -/
  determined : ∀ deadline, (∀ conditions, .finish job conditions ∈ steps →
      Deadline.after? conditions.clock (budget.getD settings.deadlineSecs) = some deadline) →
    s.status? job = some .solving ∨ ∀ order, ∃ st, s.status? job = some st ∧
      st.Alike (Problem.ofSnapshot snapshot).slots
        (.ofOutcome (snapshot.solve settings deadline order))
  /-- As long as it is being solved, it can end so, unless its task has died of its own budget. -/
  ends : s.status? job = some .solving →
    (∃ conditions b, .die job conditions ∈ steps ∧
      generation settings snapshot budget conditions = .error b) ∨
    ∀ conditions o, generation settings snapshot budget conditions = .ok o →
      ∀ publisher, (s.step publisher (.finish job conditions)).status? job = some (.ofOutcome o)
  /-- With a budget beyond the clock it never ends, and nobody is told about it. -/
  overflow : (∀ conditions, .finish job conditions ∈ steps → Clock.second * Clock.range ≤
      conditions.clock.start + Clock.second * (budget.getD settings.deadlineSecs).toNat) →
    s.status? job = some .solving ∧ ∀ e ∈ s.events, e.job ≠ job
  /-- Had there been no other job, its status and its events would be the same. -/
  alone : ∀ s', Run { settings := settings } (steps.filter fun e => e.job = job) s' →
    s'.status? job = s.status? job ∧ s'.events = s.events.filter fun e => e.job = job
  /-- Had it not been there, the status and the events of every other job would be the same. -/
  harmless : ∀ s', Run { settings := settings } (steps.filter fun e => e.job ≠ job) s' →
    (∀ other, other ≠ job → s'.status? other = s.status? other) ∧
      s'.events = s.events.filter fun e => e.job ≠ job

/-- Each job ends as if it were alone, in whatever order the steps of all jobs come, under whatever
conditions each is solved, and whatever publishers take or refuse, if no id comes in twice. -/
theorem noninterference (settings : SolverSettings) (steps : List Step) (s : Service) (job : JobId)
    (snapshot : Snapshot) (budget : Option UInt64) (hids : (submitted steps).Nodup)
    (h : Run { settings := settings } steps s) (hm : Step.submit job snapshot budget ∈ steps) :
    Undisturbed settings steps s job snapshot budget := by
  have hlone := lone_restrict h hids hm
  have hkeep : decide (job = job) = true := decide_eq_true rfl
  have hstatus : (s.restrict fun other => other = job).status? job = s.status? job :=
    status?_restrict hkeep s
  have hcases := hlone.status_cases
  rw [hstatus, events_restrict] at hcases
  have hset : s.settings = settings := hlone.settings_eq
  have horderly : s.Orderly := (h.follows (.start settings) hids).orderly
  refine ⟨fun t ht hjob conditions => ?_, ?_, fun deadline hd => ?_, fun hs => ?_, fun hb => ?_,
    fun s' h' => ?_, fun s' h' => ?_⟩
  · have hmem : t ∈ (s.restrict fun other => other = job).running :=
      List.mem_filter.2 ⟨ht, decide_eq_true hjob⟩
    rw [hlone.eq_of_mem_running hmem, outcome_eq hset]
  · rcases hcases with ⟨hs, -⟩ | ⟨conditions, o, hf, hg, hs⟩
    · exact .inl hs
    · refine .inr ⟨conditions, hf, ?_⟩
      cases o with
      | ok sol => exact .inl ⟨sol, hg, hs⟩
      | error reason => exact .inr ⟨reason, hg, hs⟩
  · rcases hcases with ⟨hs, -⟩ | ⟨conditions, o, hf, hg, hs⟩
    · exact .inl hs
    · rw [generation, Snapshot.generate, hd conditions hf] at hg
      cases hg
      exact .inr fun order => ⟨_, hs, snapshot.solve_alike settings deadline _ order⟩
  · rcases hlone.mem_running (hstatus.trans hs) with hmem | hdied
    · refine .inr fun conditions o hg publisher => ?_
      exact (horderly.finish_of_outcome (List.mem_filter.1 hmem).1
        ((outcome_eq hset conditions).trans hg)).1
    · exact .inl hdied
  · rcases hcases with ⟨hs, he⟩ | ⟨conditions, o, hf, hg, -⟩
    · exact ⟨hs, fun e hmem hjob => by
        have := List.filter_eq_nil_iff.1 he e hmem
        simp [hjob] at this⟩
    · rw [generation, Snapshot.generate, Deadline.after?_eq_none.2 (hb conditions hf)] at hg
      cases hg
  · obtain rfl := h'.unique (h.restrict fun other => other = job)
    exact ⟨hstatus, events_restrict _ s⟩
  · have hrun := h.restrict fun other => other ≠ job
    obtain rfl := h'.unique hrun
    exact ⟨fun other hne => status?_restrict (decide_eq_true hne) s, events_restrict _ s⟩

theorem noninterference_mixed : (submitted mixedSteps).Nodup ∧
    Run { settings := {} } mixedSteps mixed ∧
    Undisturbed {} mixedSteps mixed ⟨1⟩ lesson none ∧
    mixed.status? ⟨1⟩ = some (.completed ⟨[⟨1, 7, 100, 1⟩], 0, 0, []⟩) ∧
    Undisturbed {} mixedSteps mixed ⟨2⟩ lesson (some 9223372036854775806) ∧
    Deadline.after? (.standing 2) 9223372036854775806 = none ∧ mixed.status? ⟨2⟩ = some .solving :=
  have hids : (submitted mixedSteps).Nodup := by decide
  have h : Run { settings := {} } mixedSteps mixed := .foldl refusal {} mixedSteps
  ⟨hids, h, noninterference {} mixedSteps mixed ⟨1⟩ lesson none hids h List.mem_cons_self, by cbv,
    noninterference {} mixedSteps mixed ⟨2⟩ lesson (some 9223372036854775806) hids h
      (List.mem_cons_of_mem _ List.mem_cons_self), by decide, by cbv⟩

end Service

end Timetabling
