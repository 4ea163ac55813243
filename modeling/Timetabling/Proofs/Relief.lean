import Timetabling.Proofs.Verdict

/-!
# More to choose from, less to do

A problem relaxes another when it asks for no other subjects, offers them all that the other did,
and judges what the other offered no harder. Two runs on such problems have no step in common, but
the tests that tell how far they come pass from one to the other: an arc consistent family stays one
(`Relaxes.arcConsistent`), and so does a choice of bookings that solves the problem
(`Relaxes.solves`). For a snapshot without repeated ids, another teacher, room or slot, or one
subject less, makes such a problem.
-/

namespace Timetabling

/-- `q` asks for no other subjects than `p` and offers each of them all that `p` did; what was
lawful in `p` still is. -/
structure Problem.Relaxes (p q : Problem) : Prop where
  ids : ∀ x ∈ q.ids, x ∈ p.ids
  offers : ∀ x ∈ q.ids, ∀ v ∈ p.domains.candidates x, v ∈ q.domains.candidates x
  free : ∀ x ∈ q.ids, ∀ v ∈ p.domains.candidates x, ∀ y ∈ q.ids, ∀ w ∈ p.domains.candidates y,
    conflict p.slots x v y w = false → conflict q.slots x v y w = false
  faultless : ∀ x ∈ q.ids, ∀ v ∈ p.domains.candidates x,
    p.rules.faulty p.slots x v = false → q.rules.faulty q.slots x v = false

namespace Problem.Relaxes

variable {p q : Problem}

theorem arcConsistent (h : p.Relaxes q) {F : Family}
    (hF : ArcConsistent p.slots p.ids p.domains F) :
    ArcConsistent q.slots q.ids q.domains F where
  within x hx v hv := h.offers x hx v (hF.within x (h.ids x hx) v hv)
  supported x hx v hv y hy hne := by
    obtain ⟨w, hw, hc⟩ := hF.supported x (h.ids x hx) v hv y (h.ids y hy) hne
    have hvp := hF.within x (h.ids x hx) v hv
    have hwp := hF.within y (h.ids y hy) w hw
    exact ⟨w, hw, h.free x hx v hvp y hy w hwp hc⟩

theorem propagate_ok (h : p.Relaxes q) {t : Tally}
    (hp : (p.domains.propagate p.slots p.ids).outcome = .ok t) :
    ∃ t', (q.domains.propagate q.slots q.ids).outcome = .ok t' := by
  rw [Domains.propagate_ok_iff]
  intro x hx
  obtain ⟨v, F, hF, hv⟩ := Domains.propagate_ok_iff.1 ⟨t, hp⟩ x (h.ids x hx)
  exact ⟨v, F, h.arcConsistent hF, hv⟩

theorem solves {s₁ s₂ : Solver} {deadline : Deadline} {choice : SubjectId → Booking}
    (h : s₁.problem.Relaxes s₂.problem)
    (hc : Search.Solves (s₁.context deadline) s₁.problem.domains choice) :
    Search.Solves (s₂.context deadline) s₂.problem.domains choice where
  drawn x hx := h.offers x hx _ (hc.drawn x (h.ids x hx))
  faultless x hx :=
    h.faultless x hx _ (hc.drawn x (h.ids x hx)) (hc.faultless x (h.ids x hx))
  free x hx y hy := h.free x hx _ (hc.drawn x (h.ids x hx)) y hy _ (hc.drawn y (h.ids y hy))
    (hc.free x (h.ids x hx) y (h.ids y hy))

/-- What can be completed can be completed in a relaxed problem. -/
theorem complete_of_complete (s₁ s₂ : Solver) (h : s₁.problem.Relaxes s₂.problem) {sol : Solution}
    (hsol : (s₁.run .never).1 = .ok sol) (hpart : sol.isPartial = false) :
    ∃ sol', (s₂.run .never).1 = .ok sol' ∧ sol'.isPartial = false := by
  obtain ⟨t, ht⟩ := Solver.completes_of_run_ok hsol hpart
  obtain ⟨⟨tally, hp⟩, hsolves⟩ :=
    Solver.solves_narrowed (h.solves (Solver.solves_of_completes ht .never))
  refine Solver.run_of_survey_eq_top hp (Search.survey_eq_top hsolves (.start _ _) ?_)
  intro x v hx
  simp at hx

end Problem.Relaxes

/-! ### Snapshots -/

/-- How far an answer comes: no schedule, one for some of the subjects, one for all of them. -/
def grade : Except Infeasibility Solution → Nat
  | .error _ => 0
  | .ok sol => if sol.isPartial then 1 else 2

theorem one_le_grade_ok (sol : Solution) : 1 ≤ grade (.ok sol) := by
  rw [grade]
  split <;> simp

theorem grade_of_partial {sol : Solution} (h : sol.isPartial = true) : grade (.ok sol) = 1 := by
  rw [grade, if_pos h]

theorem grade_of_complete {sol : Solution} (h : sol.isPartial = false) : grade (.ok sol) = 2 := by
  rw [grade, h]
  rfl

theorem isPartial_eq_of_grade {sol sol' : Solution} (h : grade (.ok sol) = grade (.ok sol')) :
    sol.isPartial = sol'.isPartial := by
  cases hp : sol.isPartial <;> cases hp' : sol'.isPartial
  · rfl
  · rw [grade_of_complete hp, grade_of_partial hp'] at h; cases h
  · rw [grade_of_partial hp, grade_of_complete hp'] at h; cases h
  · rfl

/-- `s'` has every teacher, room and slot of `s` and no other subjects. -/
structure Snapshot.Eases (s s' : Snapshot) : Prop where
  teachers : s.teachers ⊆ s'.teachers
  subjects : s'.subjects ⊆ s.subjects
  rooms : s.rooms ⊆ s'.rooms
  timeSlots : s.timeSlots ⊆ s'.timeSlots

namespace Snapshot

variable {s s' : Snapshot}

namespace Eases

theorem relaxes (h : s.Eases s') (hs : s.Distinct) (hs' : s'.Distinct) :
    (Problem.ofSnapshot s).Relaxes (Problem.ofSnapshot s') := by
  have hoffers : ∀ x ∈ (Problem.ofSnapshot s').ids,
      ∀ v ∈ (Problem.ofSnapshot s).domains.candidates x,
        v ∈ (Problem.ofSnapshot s').domains.candidates x := by
    intro x hx v hv
    obtain ⟨y, hy, rfl⟩ := List.mem_map.1 hx
    obtain ⟨t, ht, r, hr, l, hl, rfl, hmay, hav⟩ :=
      (Problem.mem_candidates_of_distinct hs (h.subjects hy)).1 hv
    exact (Problem.mem_candidates_of_distinct hs' hy).2
      ⟨t, h.teachers ht, r, h.rooms hr, l, h.timeSlots hl, rfl, hmay, hav⟩
  have hslot : ∀ x ∈ (Problem.ofSnapshot s').ids,
      ∀ v ∈ (Problem.ofSnapshot s).domains.candidates x,
        s'.slotIndex.get? v.slot = s.slotIndex.get? v.slot := by
    intro x hx v hv
    obtain ⟨y, hy, rfl⟩ := List.mem_map.1 hx
    obtain ⟨t, -, r, -, l, hl, rfl, -, -⟩ :=
      (Problem.mem_candidates_of_distinct hs (h.subjects hy)).1 hv
    rw [hs.get?_slotIndex hl, hs'.get?_slotIndex (h.timeSlots hl)]
  refine ⟨fun x hx => ?_, hoffers, fun x hx v hv y hy w hw hc => ?_, fun x hx v hv _ => ?_⟩
  · obtain ⟨y, hy, rfl⟩ := List.mem_map.1 hx
    exact List.mem_map_of_mem (h.subjects hy)
  · exact (conflict_congr (hslot x hx v hv) (hslot y hy w hw)).trans hc
  · exact Problem.faulty_eq_false_of_mem (hoffers x hx v hv)

/-- A snapshot that is eased comes no less far. -/
theorem grade_le (h : s.Eases s') (hs : s.Distinct) (hs' : s'.Distinct)
    (settings : SolverSettings) (order order' : Penalty.Order) :
    grade (s.solve settings .never order) ≤ grade (s'.solve settings .never order') := by
  have hrel := h.relaxes hs hs'
  cases hp : s.propagated.outcome with
  | error x => rw [solve_of_error hp]; exact Nat.zero_le _
  | ok t =>
    obtain ⟨t', hp'⟩ := hrel.propagate_ok hp
    obtain ⟨sol, hsol, -⟩ := solve_inTime settings order hp (Deadline.late_never 0)
    obtain ⟨sol', hsol', -⟩ := solve_inTime settings order' hp' (Deadline.late_never 0)
    rw [hsol, hsol']
    cases hpart : sol.isPartial with
    | true => exact (grade_of_partial hpart).le.trans (one_le_grade_ok sol')
    | false =>
      obtain ⟨sol'', hsol'', hpart'⟩ := Problem.Relaxes.complete_of_complete
        (s.solver settings order) (s'.solver settings order') hrel hsol hpart
      cases hsol'.symm.trans hsol''
      exact ((grade_of_complete hpart).trans (grade_of_complete hpart').symm).le

end Eases

/-- One change: a new teacher, a further room or a new slot anywhere in its list, or one subject
less. -/
inductive Relieved : Snapshot → Snapshot → Prop
  | teacher {before after : List Teacher} {subjects : List Subject} {rooms : List Room}
      {slots : List TimeSlot} (t : Teacher) (h : ¬ t.id ∈ (before ++ after).map Teacher.id) :
      Relieved ⟨before ++ after, subjects, rooms, slots⟩
        ⟨before ++ t :: after, subjects, rooms, slots⟩
  | room {before after : List Room} {teachers : List Teacher} {subjects : List Subject}
      {slots : List TimeSlot} (r : Room) :
      Relieved ⟨teachers, subjects, before ++ after, slots⟩
        ⟨teachers, subjects, before ++ r :: after, slots⟩
  | slot {before after : List TimeSlot} {teachers : List Teacher} {subjects : List Subject}
      {rooms : List Room} (l : TimeSlot) (h : ¬ l.id ∈ (before ++ after).map TimeSlot.id) :
      Relieved ⟨teachers, subjects, rooms, before ++ after⟩
        ⟨teachers, subjects, rooms, before ++ l :: after⟩
  | subject {before after : List Subject} {teachers : List Teacher} {rooms : List Room}
      {slots : List TimeSlot} (x : Subject) :
      Relieved ⟨teachers, before ++ x :: after, rooms, slots⟩
        ⟨teachers, before ++ after, rooms, slots⟩

namespace Relieved

theorem eases (h : s.Relieved s') : s.Eases s' := by
  have hsub {α : Type} (a : α) (before after : List α) : before ++ after ⊆ before ++ a :: after :=
    ((List.sublist_cons_self a after).append_left before).subset
  cases h with
  | teacher t _ => exact ⟨hsub t _ _, .refl _, .refl _, .refl _⟩
  | room r => exact ⟨.refl _, .refl _, hsub r _ _, .refl _⟩
  | slot l _ => exact ⟨.refl _, .refl _, .refl _, hsub l _ _⟩
  | subject x => exact ⟨.refl _, hsub x _ _, .refl _, .refl _⟩

theorem distinct (h : s.Relieved s') (hs : s.Distinct) : s'.Distinct := by
  have hnew {α κ : Type} {key : α → κ} {a : α} {before after : List α}
      (ha : ¬ key a ∈ (before ++ after).map key) (hn : ((before ++ after).map key).Nodup) :
      ((before ++ a :: after).map key).Nodup :=
    (List.perm_middle.map key).nodup_iff.2 (List.nodup_cons.2 ⟨ha, hn⟩)
  cases h with
  | teacher t ht => exact ⟨hnew ht hs.teachers, hs.subjects, hs.timeSlots⟩
  | room r => exact ⟨hs.teachers, hs.subjects, hs.timeSlots⟩
  | slot l hl => exact ⟨hs.teachers, hs.subjects, hnew hl hs.timeSlots⟩
  | subject x =>
    refine ⟨hs.teachers, hs.subjects.sublist (.map _ ?_), hs.timeSlots⟩
    exact (List.sublist_cons_self x _).append_left _

end Relieved

/-- Another teacher, room or slot, or one subject less, never makes the answer to a generation with
time enough worse: it comes no less far than before. -/
theorem grade_solve_mono (s s' : Snapshot) (settings : SolverSettings)
    (order order' : Penalty.Order) (hs : s.Distinct) (h : s.Relieved s') :
    grade (s.solve settings .never order) ≤ grade (s'.solve settings .never order') :=
  h.eases.grade_le hs (h.distinct hs) settings order order'

/-- Three subjects for one teacher, one room and two slots. -/
def tight : Snapshot where
  teachers := [⟨7, "Ada", [], 10, []⟩]
  subjects := [⟨1, "S1", 2, []⟩, ⟨2, "S2", 2, []⟩, ⟨3, "S3", 2, []⟩]
  rooms := [⟨100, 40, "lecture"⟩]
  timeSlots := [⟨1, 0, 1, 2⟩, ⟨2, 0, 2, 3⟩]

/-- The same with a third slot. -/
def loosened : Snapshot := { tight with timeSlots := [⟨1, 0, 1, 2⟩, ⟨3, 1, 1, 2⟩, ⟨2, 0, 2, 3⟩] }

theorem grade_solve_mono_tight : tight.Distinct ∧ tight.Relieved loosened ∧
    grade (tight.solve {} .never) = 1 ∧ grade (loosened.solve {} .never) = 2 ∧
    grade (tight.solve {} .never) ≤ grade (loosened.solve {} .never) :=
  have hd : tight.Distinct := ⟨by decide, by decide, by decide⟩
  have hr : tight.Relieved loosened :=
    @Relieved.slot [⟨1, 0, 1, 2⟩] [⟨2, 0, 2, 3⟩] _ _ _ ⟨3, 1, 1, 2⟩ (by decide)
  ⟨hd, hr, by cbv, by cbv, grade_solve_mono tight loosened {} .asListed .asListed hd hr⟩

end Snapshot

end Timetabling
