import Timetabling.Proofs.Soundness
import Timetabling.Proofs.Survey

/-!
# The search is complete

Suppose that some choice of bookings solves a problem. Arc consistency keeps it, and as long as the
schedule of the search agrees with it, the gate lets the next choice in, the forward check passes
and the choice is still open to everyone else. So a search without a deadline finds a complete
schedule, though maybe another one: `survey` is `⊤`.
-/

namespace Timetabling

namespace Search

variable {c : Context} {d d₀ : Domains} {p : Schedule} {x : SubjectId}
  {choice : SubjectId → Booking}

/-- `choice` gives every subject a candidate that is not faulty, and no two are in conflict. -/
structure Solves (c : Context) (d : Domains) (choice : SubjectId → Booking) : Prop where
  drawn : ∀ x ∈ c.ids, choice x ∈ d.candidates x
  faultless : ∀ x ∈ c.ids, c.rules.faulty c.slots x (choice x) = false
  free : ∀ x ∈ c.ids, ∀ y ∈ c.ids, conflict c.slots x (choice x) y (choice y) = false

/-- Every booking of `p` is the one that `choice` makes. -/
def Agrees (p : Schedule) (choice : SubjectId → Booking) : Prop :=
  ∀ x v, p.get? x = some v → v = choice x

theorem Agrees.insert (h : Agrees p choice) (x : SubjectId) :
    Agrees (Table.insert p x (choice x)) choice := by
  intro y v hy
  rw [Table.get?_insert] at hy
  split at hy
  · next hyx => cases hy; rw [hyx]
  · exact h y v hy

namespace Solves

theorem compatible (h : Solves c d₀ choice) (hf : Fits c d₀ p d) (hp : Agrees p choice)
    (hx : x ∈ c.ids) : p.compatible c.slots x (choice x) = true := by
  rw [Schedule.compatible_eq_true]
  intro y w hy
  rw [hp y w hy]
  exact h.free y (hf.drawn y w hy).1 x hx

theorem mem_candidates (h : Solves c d₀ choice) (hf : Fits c d₀ p d) (hp : Agrees p choice)
    (hx : x ∈ c.ids) (hxp : ¬ x ∈ p) : choice x ∈ d.candidates x :=
  (hf.mem_candidates_iff hx hxp).2 ⟨h.drawn x hx, h.compatible hf hp hx⟩

theorem admits (h : Solves c d₀ choice) (hf : Fits c d₀ p d) (hp : Agrees p choice)
    (hx : x ∈ c.ids) : c.rules.admits c.slots x (choice x) p = true := by
  refine Rulebook.admits_iff.2 ⟨h.faultless x hx, fun y w hy => ?_⟩
  rw [hp y w hy]
  exact h.free x hx y (hf.drawn y w hy).1

theorem forwardCheck (h : Solves c d₀ choice) (hf : Fits c d₀ p d) (hp : Agrees p choice)
    (hx : x ∈ c.ids) :
    (forwardCheck c.slots x (choice x) (p.insert x (choice x)) c.ids d).1 = true := by
  refine forwardCheck_fst.2 fun y hy hyx hyp ws hws => ⟨choice y, ?_, ?_⟩
  · have hyp' : ¬ y ∈ p := fun hm => hyp (Table.mem_insert.2 (.inr hm))
    exact Domains.candidates_eq hws ▸ h.mem_candidates hf hp hy hyp'
  · simp [Search.compatible, h.free x hx y hy]

end Solves

theorem sum_eq_top {ks : List (WithTop Stats)} (h : ⊤ ∈ ks) : ks.sum = ⊤ := by
  classical
  rw [← List.sum_erase h, WithTop.top_add]

/-- Below a schedule that agrees with a solution a complete schedule is found. -/
theorem survey_eq_top (h : Solves c d₀ choice) (hf : Fits c d₀ p d) (hp : Agrees p choice) :
    survey c p d = ⊤ := by
  induction p, d using survey.induct c with
  | case1 p d hm => exact survey_of_none hm
  | case2 p d x hm ih =>
    obtain ⟨hx, hxp⟩ := Domains.unassigned_of_mostConstrained hm
    have hmem := h.mem_candidates hf hp hx hxp
    have ha := h.admits hf hp hx
    have hfc := h.forwardCheck hf hp hx
    -- the trial of `choice x` already costs `⊤`
    have htrial : trial c p d x (choice x) (survey c (p.insert x (choice x))) = ⊤ := by
      rw [trial_descend ha (Prod.ext hfc rfl)]
      have hstep := hf.step hm hmem ha (Prod.ext hfc rfl)
      rw [ih _ _ hstep (hp.insert x), WithTop.top_add]
    rw [survey_of_some hm, sum_eq_top (List.mem_map.2 ⟨_, hmem, htrial⟩), WithTop.add_top]

end Search

/-- `t` books every subject with one of its candidates and violates nothing. -/
structure Problem.Completes (p : Problem) (t : Schedule) : Prop where
  assigns : ∀ x ∈ p.ids, ∃ v ∈ p.domains.candidates x, t.get? x = some v
  lawful : p.rules.hardViolations p.slots t = 0

theorem Solution.isPartial_ofSchedule {p : Problem} {order : Penalty.Order} {t : Schedule} :
    (Solution.ofSchedule p order t).isPartial = false ↔ ∀ x ∈ p.ids, x ∈ t := by
  simp only [isPartial, ofSchedule, Bool.not_eq_false', List.isEmpty_iff,
    Schedule.unassigned_eq_nil]

namespace Solver

variable {s : Solver} {t : Schedule} {sol : Solution} {tally : Tally}

theorem solves_of_completes (h : s.problem.Completes t) (deadline : Deadline) :
    Search.Solves (s.context deadline) s.problem.domains fun x => t.getD x default := by
  have hget : ∀ x ∈ s.problem.ids, t.get? x = some (t.getD x default) := by
    intro x hx
    obtain ⟨v, -, hv⟩ := h.assigns x hx
    simp [Table.getD, hv]
  have hrules := Rulebook.hardViolations_eq_zero.1 h.lawful
  refine ⟨fun x hx => ?_, fun x hx => (hrules x _ (hget x hx)).1,
    fun x hx y hy => (hrules x _ (hget x hx)).2 y _ (hget y hy)⟩
  obtain ⟨v, hv, hvt⟩ := h.assigns x hx
  simpa [Table.getD, hvt] using hv

/-- Arc consistency does not fail where there is a solution, and keeps it. -/
theorem solves_narrowed {choice : SubjectId → Booking} {deadline : Deadline}
    (h : Search.Solves (s.context deadline) s.problem.domains choice) :
    (∃ tally, s.propagated.outcome = .ok tally) ∧
      Search.Solves (s.context deadline) s.narrowed choice := by
  obtain ⟨hok, hmem⟩ := Domains.propagate_of_choice h.drawn fun x hx y hy _ => h.free x hx y hy
  exact ⟨hok, hmem, h.faultless, h.free⟩

/-- What a run without a deadline will cost. -/
def survey (s : Solver) : WithTop Search.Stats :=
  Search.survey (s.context .never) ∅ s.narrowed

theorem survey_of_completes (h : s.problem.Completes t) :
    (∃ tally, s.propagated.outcome = .ok tally) ∧
      s.survey = ⊤ := by
  obtain ⟨hok, hsolves⟩ := solves_narrowed (solves_of_completes h .never)
  exact ⟨hok, Search.survey_eq_top hsolves (.start _ _) fun x v hx => by simp at hx⟩

theorem completes_of_run_ok {deadline : Deadline} (h : (s.run deadline).1 = .ok sol)
    (hpart : sol.isPartial = false) : ∃ t, s.problem.Completes t := by
  obtain ⟨t, d, ⟨tally, hp⟩, ht, rfl, -⟩ := run_ok h
  refine ⟨t, fun x hx => ?_, ht.fits.lawful⟩
  obtain ⟨v, hv⟩ := Option.isSome_iff_exists.1
    (Table.isSome_get?.2 (Solution.isPartial_ofSchedule.1 hpart x hx))
  exact ⟨v, mem_of_mem_narrowed hp (ht.fits.drawn x v hv).2, hv⟩

/-! ### Runs without a deadline -/

theorem run_of_survey_eq_top (hp : s.propagated.outcome = .ok tally) (h : s.survey = ⊤) :
    ∃ sol, (s.run .never).1 = .ok sol ∧ sol.isPartial = false := by
  rcases Search.run_ends (c := s.context .never) rfl s.narrowed with ⟨δ, hδ, -, -⟩ | ⟨-, t, ht⟩
  · rw [survey, hδ] at h
    cases h
  · obtain ⟨-, hall, -⟩ := (Search.run_yields (s.context .never) s.narrowed).complete t ht
    refine ⟨Solution.ofSchedule s.problem s.order t, ?_, Solution.isPartial_ofSchedule.2 hall⟩
    rw [run_of_ok hp, search, ht]
    rfl

theorem isPartial_of_survey_eq_coe {δ : Search.Stats} (h : s.survey = δ)
    (hsol : (s.run .never).1 = .ok sol) : sol.isPartial = true := by
  by_contra hpart
  obtain ⟨t, ht⟩ := completes_of_run_ok hsol (Bool.not_eq_true _ ▸ hpart)
  rw [(survey_of_completes ht).2] at h
  cases h

/-- Where nothing complete is to be found, the run counts what `survey` says, and hands back a
partial solution if it has booked anything at all. -/
theorem run_of_survey_eq_coe {δ : Search.Stats} (hp : s.propagated.outcome = .ok tally)
    (h : s.survey = δ) : (s.run .never).2.stats = δ ∧
      ((s.run .never).1 = .error .searchExhausted ∧ δ.maxDepth = 0 ∨
        ∃ sol, (s.run .never).1 = .ok sol ∧ sol.isPartial = true ∧ δ.maxDepth ≠ 0) := by
  rcases Search.run_ends (c := s.context .never) rfl s.narrowed with ⟨δ', hδ, ho, hs⟩ | ⟨ht, -⟩
  · have hδ' : δ' = δ := WithTop.coe_injective (hδ.symm.trans h)
    have hstats : (s.search .never).2.stats = δ := hs.trans ((zero_add δ').trans hδ')
    have hsize : (s.search .never).2.best.size = δ.maxDepth := by
      rw [← hstats]
      exact (Search.run_yields (s.context .never) s.narrowed).recorded.size
    have hrun : (s.run .never).1 = (answer .exhausted (s.search .never).2.best).map
        (Solution.ofSchedule s.problem s.order) := by
      rw [run_of_ok hp, search, ho]
    refine ⟨by rw [run_of_ok hp]; exact hstats, ?_⟩
    rw [answer] at hrun
    split at hrun
    · next hempty => exact .inl ⟨hrun, hsize ▸ Table.isEmpty_iff.1 hempty⟩
    · next hne =>
      refine .inr ⟨_, hrun, isPartial_of_survey_eq_coe h hrun, fun h0 => hne ?_⟩
      exact Table.isEmpty_iff.2 (hsize.trans h0)
  · rw [survey, ht] at h
    cases h

theorem run_never_ne_outOfTime (s : Solver) : (s.run .never).1 ≠ .error .outOfTime := by
  intro hi
  cases hp : s.propagated.outcome with
  | error x => rw [run_of_error hp] at hi; cases hi
  | ok tally =>
    cases hk : s.survey with
    | top =>
      obtain ⟨sol, hsol, -⟩ := run_of_survey_eq_top hp hk
      rw [hi] at hsol
      cases hsol
    | coe δ =>
      rcases (run_of_survey_eq_coe hp hk).2 with ⟨he, -⟩ | ⟨sol, hsol, -⟩
      · rw [hi] at he; cases he
      · rw [hi] at hsol; cases hsol

theorem run_of_completes (h : s.problem.Completes t) :
    ∃ sol, (s.run .never).1 = .ok sol ∧ sol.isPartial = false := by
  obtain ⟨⟨tally, hp⟩, htop⟩ := survey_of_completes h
  exact run_of_survey_eq_top hp htop

/-- Without a deadline, a run ends in a solution that leaves nobody out just when there is one. So a
failure, and likewise a partial solution, proves that there is none. -/
theorem run_complete (s : Solver) :
    ((∃ sol, (s.run .never).1 = .ok sol ∧ sol.isPartial = false) ↔
      ∃ t, s.problem.Completes t) ∧
    (∀ i, (s.run .never).1 = .error i → i ≠ .outOfTime ∧ ¬ ∃ t, s.problem.Completes t) ∧
    (∀ sol, (s.run .never).1 = .ok sol → sol.isPartial = true →
      ¬ ∃ t, s.problem.Completes t) := by
  refine ⟨⟨fun ⟨sol, h, hpart⟩ => completes_of_run_ok h hpart, fun ⟨t, ht⟩ => run_of_completes ht⟩,
    fun i hi => ⟨?_, ?_⟩, fun sol hsol hpart => ?_⟩
  · rintro rfl
    exact run_never_ne_outOfTime s hi
  · rintro ⟨t, ht⟩
    obtain ⟨sol, hsol, -⟩ := run_of_completes ht
    rw [hi] at hsol
    cases hsol
  · rintro ⟨t, ht⟩
    obtain ⟨sol', hsol', hpart'⟩ := run_of_completes ht
    rw [hsol] at hsol'
    cases hsol'
    rw [hpart] at hpart'
    cases hpart'

end Solver

end Timetabling
