import Timetabling.Proofs.Completeness

/-!
# What the counters say

Every booking that the search makes is in the end either taken back, which counts a backtrack, or
part of the complete schedule. Below it there is either a node or a wipeout. So the surplus of nodes
and wipeouts over backtracks grows by one with each exploration, for its own node, and by the
bookings that it leaves in place (`surplus_stepwise`). And the deepest point has a node for each
booking that leads to it, and one at the root (`leads_stepwise`). `Solver.run_balanced` is the
balance of a run.
-/

namespace Timetabling

namespace Search

variable {c : Context} {s s' s₁ : State} {o : Outcome} {d : Domains} {x : SubjectId}

/-- Nodes and wipeouts beyond the backtracks. -/
def Stats.surplus (a : Stats) : Int := a.nodes + a.wipeouts - a.backtracks

/-- The bookings by which the search has grown when it ends at a schedule; `p` is where it began. -/
def Outcome.gain (o : Outcome) (p : Schedule) : Int :=
  match o with
  | .complete t => t.size - p.size
  | .timedOut => 0
  | .exhausted => 0

/-- The surplus grows by `k` and by what the search gains. -/
structure Grows (k : Int) (s : State) (o : Outcome) (s' : State) : Prop where
  inTime : o ≠ .timedOut
  surplus : s'.stats.surplus = s.stats.surplus + k + o.gain s.schedule

theorem Grows.of_surplus_eq {k : Int} {s₀ : State} (h : Grows k s₀ o s')
    (hp : s₀.schedule = s.schedule) (hs : s₀.stats.surplus = s.stats.surplus) : Grows k s o s' :=
  ⟨h.inTime, by rw [h.surplus, hs, hp]⟩

theorem surplus_stepwise (hc : c.deadline = .never) :
    Stepwise c (Grows 1) (fun _ _ => Grows 0) where
  expire s h := by rw [hc] at h; cases h
  complete s _ _ := by
    refine ⟨fun h => (nomatch h), ?_⟩
    simp only [State.countNode, State.record, Stats.surplus, Outcome.gain]
    omega
  branch s x o s' _ _ h := by
    refine ⟨h.inTime, ?_⟩
    rw [h.surplus]
    simp only [State.countNode, State.record, Stats.surplus]
    omega
  nil x s := ⟨fun h => (nomatch h), by simp [Outcome.gain]⟩
  reject x v vs s o s' _ _ h := h
  wipeout x v vs s d o s' _ _ _ h := by
    refine h.of_surplus_eq rfl ?_
    simp only [Stats.surplus]
    omega
  giveUp x v vs s d s₁ o s' _ _ _ hP h := by
    -- the node below and the backtrack cancel
    have hbelow : s₁.stats.surplus = s.stats.surplus + 1 + 0 := hP.surplus
    refine h.of_surplus_eq rfl ?_
    simp only [Stats.surplus] at hbelow ⊢
    omega
  finish x v vs s d o s' hx _ _ ho hP := by
    refine ⟨hP.inTime, ?_⟩
    have hsize : (s.schedule.insert x v).size = s.schedule.size + 1 :=
      Table.size_insert_of_not_mem v hx
    have hbelow : s'.stats.surplus = s.stats.surplus + 1 + o.gain (s.schedule.insert x v) :=
      hP.surplus
    cases o with
    | complete t =>
      simp only [Outcome.gain, hsize] at hbelow ⊢
      omega
    | timedOut => exact absurd rfl hP.inTime
    | exhausted => exact absurd rfl ho

/-- The count of nodes does not fall. If before it was ahead of depth and schedule by `k`, then
afterwards it is ahead of the depth by one. -/
structure Leads (k : Nat) (s s' : State) : Prop where
  mono : s.stats.nodes ≤ s'.stats.nodes
  deep : s.stats.maxDepth + k ≤ s.stats.nodes → s.schedule.size + k ≤ s.stats.nodes →
    s'.stats.maxDepth + 1 ≤ s'.stats.nodes

/-- The new booking takes the schedule one step nearer to the nodes. -/
theorem Leads.of_place {v : Booking} (hx : ¬ x ∈ s.schedule) (h : Leads 0 (s.place x v d) s') :
    Leads 1 s s' := by
  constructor
  · exact h.mono
  · intro hd hs
    refine h.deep (Nat.le_of_succ_le hd) ?_
    show (s.schedule.insert x v).size ≤ s.stats.nodes
    rw [Table.size_insert_of_not_mem v hx]
    exact hs

theorem leads_stepwise (hc : c.deadline = .never) :
    Stepwise c (fun s _ => Leads 0 s) (fun _ _ s _ => Leads 1 s) where
  expire s h := by rw [hc] at h; cases h
  complete s _ _ := by
    constructor
    · exact Nat.le_succ _
    · intro hd hs
      simp only [State.countNode, State.record]
      omega
  branch s x o s' _ _ h := by
    constructor
    · exact Nat.le_trans (Nat.le_succ _) h.mono
    · intro hd hs
      refine h.deep ?_ ?_
      · simp only [State.countNode, State.record]
        omega
      · exact Nat.succ_le_succ hs
  nil x s := ⟨Nat.le_refl _, fun hd _ => hd⟩
  reject x v vs s o s' _ _ h := h
  wipeout x v vs s d o s' _ _ _ h := ⟨h.mono, h.deep⟩
  giveUp x v vs s d s₁ o s' hx _ _ hP h := by
    have h₁ : Leads 1 s s₁ := hP.of_place hx
    constructor
    · exact Nat.le_trans h₁.mono h.mono
    · intro hd hs
      exact h.deep (h₁.deep hd hs) (Nat.le_trans hs h₁.mono)
  finish x v vs s d o s' hx _ _ _ hP := hP.of_place hx

theorem run_grows (hc : c.deadline = .never) (d₀ : Domains) :
    Grows 1 (State.start d₀) (run c d₀).1 (run c d₀).2 :=
  (surplus_stepwise hc).explore (unassigned_start_lt c d₀)

theorem run_leads (hc : c.deadline = .never) (d₀ : Domains) :
    Leads 0 (State.start d₀) (run c d₀).2 :=
  (leads_stepwise hc).explore (unassigned_start_lt c d₀)

end Search

namespace Solver

variable {s : Solver} {tally : Tally}

/-- The bookings that are in place when the search of a run is over. A partial solution shows
bookings that the search has since taken back. -/
def standing : Except Infeasibility Solution → Nat
  | .ok sol => if sol.isPartial then 0 else sol.entries.length
  | .error _ => 0

/-- What the search has gained is what stands in the end. -/
theorem gain_eq_standing (hp : s.propagated.outcome = .ok tally) :
    (s.search .never).1.gain ∅ = standing (s.run .never).1 := by
  rcases Search.run_ends (c := s.context .never) rfl s.narrowed with ⟨δ, hδ, ho, -⟩ | ⟨-, t, ht⟩
  · have hgain : (s.search .never).1.gain ∅ = 0 := by rw [search, ho]; rfl
    obtain ⟨-, ⟨hrun, -⟩ | ⟨sol, hrun, hpart, -⟩⟩ := run_of_survey_eq_coe hp hδ
    · rw [hgain, hrun]; rfl
    · rw [hgain, hrun, standing, if_pos hpart]; rfl
  · obtain ⟨-, hall, -⟩ := (Search.run_yields (s.context .never) s.narrowed).complete t ht
    have hrun : (s.run .never).1 = .ok (Solution.ofSchedule s.problem s.order t) := by
      rw [run_of_ok hp, search, ht]
      rfl
    have hpart : (Solution.ofSchedule s.problem s.order t).isPartial = false :=
      Solution.isPartial_ofSchedule.2 hall
    have hlen : (Solution.ofSchedule s.problem s.order t).entries.length = t.size :=
      t.length_toEntries
    rw [hrun, standing, hpart, hlen, search, ht]
    simp [Search.Outcome.gain]

theorem stats_run_of_late {deadline : Deadline} (hl : deadline.late 0 = true) :
    (s.run deadline).2.stats = ⟨0, 0, 0, 0⟩ := by
  cases hp : s.propagated.outcome with
  | error x => rw [run_of_error hp]
  | ok tally =>
    rw [run_of_ok hp, search, Search.run_of_late (c := s.context deadline) hl]
    rfl

/-- With time enough, nodes and wipeouts are one more than the backtracks and the bookings that
stand in the end, and there are more nodes than the search is deep. Where there is no search, or the
deadline has passed when it begins, nothing is counted, whatever earlier runs of the solver have
counted. -/
theorem run_balanced (s : Solver) :
    (∀ tally, s.propagated.outcome = .ok tally →
      (s.run .never).2.stats.nodes + (s.run .never).2.stats.wipeouts =
          1 + (s.run .never).2.stats.backtracks + standing (s.run .never).1 ∧
        (s.run .never).2.stats.maxDepth + 1 ≤ (s.run .never).2.stats.nodes) ∧
    (∀ deadline, (∃ x, s.propagated.outcome = .error x) ∨ deadline.late 0 = true →
      (s.run deadline).2.stats = ⟨0, 0, 0, 0⟩) := by
  refine ⟨fun tally hp => ?_, fun deadline h => ?_⟩
  · have hgain := gain_eq_standing hp
    have hstats : (s.run .never).2.stats = (s.search .never).2.stats := by rw [run_of_ok hp]
    have hgrows := (Search.run_grows (c := s.context .never) rfl s.narrowed).surplus
    have hleads := Search.run_leads (c := s.context .never) rfl s.narrowed
    rw [hstats]
    constructor
    · change (s.search .never).2.stats.surplus = 0 + 1 + (s.search .never).1.gain ∅ at hgrows
      rw [hgain, Search.Stats.surplus] at hgrows
      omega
    · exact hleads.deep (Nat.le_refl _) (Nat.le_refl _)
  · rcases h with ⟨x, hp⟩ | hl
    · rw [run_of_error hp]
    · exact stats_run_of_late hl

example : (rivals.run .never).2.stats = ⟨3, 4, 2, 1⟩ ∧ standing (rivals.run .never).1 = 0 := by
  cbv

end Solver

end Timetabling
