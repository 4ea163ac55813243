import Timetabling.Proofs.HardRules
import Timetabling.Proofs.SearchSteps

/-!
# What the search comes by

`Reached c d₀ p d`: a search that sets out with the domains `d₀` may come by the schedule `p` with
the domains `d`. A schedule that is reached breaks no rule, draws on `d₀`, and leaves each subject
without a booking just the candidates of `d₀` that are in conflict with no booking made (`Fits`).

The largest schedule seen is always one that was reached, and its size is the depth counted
(`Recorded`).
-/

namespace Timetabling

/-- `v` for `x` is in conflict with no booking of `p`. -/
def Schedule.compatible (slots : SlotIndex) (p : Schedule) (x : SubjectId) (v : Booking) : Bool :=
  p.entries.all fun e => Search.compatible slots e.1 e.2 x v

theorem Schedule.compatible_insert {slots : SlotIndex} {p : Schedule} {x y : SubjectId}
    (hx : ¬ x ∈ p) (v w : Booking) : Schedule.compatible slots (p.insert x v) y w =
      (p.compatible slots y w && Search.compatible slots x v y w) := by
  simp [Schedule.compatible, Table.entries_insert_of_not_mem v hx]

theorem Schedule.compatible_eq_true {slots : SlotIndex} {p : Schedule} {x : SubjectId}
    {v : Booking} : p.compatible slots x v = true ↔
      ∀ y w, p.get? y = some w → conflict slots y w x v = false := by
  simp only [Schedule.compatible, List.all_eq_true, Search.compatible, Bool.not_eq_true',
    Prod.forall, Table.mem_entries]

namespace Search

variable {c : Context} {d₀ d d' : Domains} {p t : Schedule} {x : SubjectId} {v : Booking}
  {s s' : State} {o : Outcome}

inductive Reached (c : Context) (d₀ : Domains) : Schedule → Domains → Prop
  | start : Reached c d₀ ∅ d₀
  | step {p : Schedule} {d d' : Domains} {x : SubjectId} {v : Booking} (h : Reached c d₀ p d)
      (hx : d.mostConstrained c.ids p = some x) (hv : v ∈ d.candidates x)
      (ha : c.rules.admits c.slots x v p = true)
      (hf : forwardCheck c.slots x v (p.insert x v) c.ids d = (true, d')) :
      Reached c d₀ (p.insert x v) d'

/-- The schedule `p` and the domains `d` fit the domains `d₀` of the start. -/
structure Fits (c : Context) (d₀ : Domains) (p : Schedule) (d : Domains) : Prop where
  lawful : c.rules.hardViolations c.slots p = 0
  drawn : ∀ x v, p.get? x = some v → x ∈ c.ids ∧ v ∈ d₀.candidates x
  remaining : ∀ x ∈ c.ids, ¬ x ∈ p →
    d.get? x = (d₀.get? x).map (List.filter (p.compatible c.slots x))

namespace Fits

theorem start (c : Context) (d₀ : Domains) : Fits c d₀ ∅ d₀ where
  lawful := Rulebook.hardViolations_empty
  drawn x v h := by simp at h
  remaining x _ _ := by
    cases d₀.get? x with
    | none => rfl
    | some vs => exact congrArg some (List.filter_eq_self.2 fun _ _ => rfl).symm

theorem mem_candidates_iff (h : Fits c d₀ p d) (hx : x ∈ c.ids) (hp : ¬ x ∈ p) :
    v ∈ d.candidates x ↔ v ∈ d₀.candidates x ∧ p.compatible c.slots x v = true := by
  rw [Domains.candidates_of_get?_eq (h.remaining x hx hp), List.mem_filter]

theorem step (h : Fits c d₀ p d) (hx : d.mostConstrained c.ids p = some x)
    (hv : v ∈ d.candidates x) (ha : c.rules.admits c.slots x v p = true)
    (hf : forwardCheck c.slots x v (p.insert x v) c.ids d = (true, d')) :
    Fits c d₀ (p.insert x v) d' := by
  obtain ⟨hxi, hxp⟩ := Domains.unassigned_of_mostConstrained hx
  refine ⟨Rulebook.hardViolations_insert_eq_zero hxp h.lawful ha, fun y w hy => ?_,
    fun y hyi hyp => ?_⟩
  · rw [Table.get?_insert] at hy
    split at hy
    · next hyx =>
      cases hy
      subst hyx
      exact ⟨hxi, ((h.mem_candidates_iff hxi hxp).1 hv).1⟩
    · exact h.drawn y w hy
  · have hyx : y ≠ x := fun hyx => hyp (Table.mem_insert.2 (.inl hyx))
    have hyp' : ¬ y ∈ p := fun hy => hyp (Table.mem_insert.2 (.inr hy))
    have hget := get?_forwardCheck (by rw [hf]) y
    rw [hf, if_pos ⟨hyi, hyx, hyp⟩, h.remaining y hyi hyp'] at hget
    rw [hget, Option.map_map]
    refine congrArg (Option.map · (d₀.get? y)) (funext fun ws => ?_)
    rw [Function.comp_apply, List.filter_filter]
    refine List.filter_congr fun w _ => ?_
    rw [Schedule.compatible_insert hxp, Bool.and_comm]

end Fits

theorem Reached.fits (h : Reached c d₀ p d) : Fits c d₀ p d := by
  induction h with
  | start => exact .start c d₀
  | step _ hx hv ha hf ih => exact ih.step hx hv ha hf

theorem Reached.mem_ids (h : Reached c d₀ p d) (hx : x ∈ p) : x ∈ c.ids :=
  let ⟨v, hv⟩ := Option.isSome_iff_exists.1 (Table.isSome_get?.2 hx)
  (h.fits.drawn x v hv).1

/-! ### The largest schedule seen -/

/-- The largest schedule seen was reached, and its size is the depth counted. -/
structure Recorded (c : Context) (d₀ : Domains) (s : State) : Prop where
  reached : ∃ d, Reached c d₀ s.best d
  size : s.best.size = s.stats.maxDepth

theorem Recorded.record (h : Recorded c d₀ s) (hs : Reached c d₀ s.schedule s.domains) :
    Recorded c d₀ s.record := by
  obtain ⟨hb, hsize⟩ := h
  unfold State.record
  constructor
  · dsimp only
    split
    · exact ⟨_, hs⟩
    · exact hb
  · dsimp only
    split <;> omega

theorem size_schedule_le_record (s : State) : s.schedule.size ≤ s.record.best.size := by
  unfold State.record
  dsimp only
  split <;> omega

/-- What an exploration hands back: a record, and with luck a schedule of all subjects. -/
structure Yields (c : Context) (d₀ : Domains) (o : Outcome) (s : State) : Prop where
  recorded : Recorded c d₀ s
  complete : ∀ t, o = .complete t →
    (∃ d, Reached c d₀ t d) ∧ (∀ x ∈ c.ids, x ∈ t) ∧ t.size ≤ s.best.size

theorem yields_stepwise (c : Context) (d₀ : Domains) : Stepwise c
    (fun s o s' => Reached c d₀ s.schedule s.domains → Recorded c d₀ s → Yields c d₀ o s')
    (fun x vs s o s' => s.domains.mostConstrained c.ids s.schedule = some x →
      (∀ v ∈ vs, v ∈ s.domains.candidates x) →
      Reached c d₀ s.schedule s.domains → Recorded c d₀ s → Yields c d₀ o s') where
  expire s _ hs hr := ⟨hr.record hs, fun _ h => (nomatch h)⟩
  complete s _ hm hs hr := by
    refine ⟨⟨(hr.record hs).reached, (hr.record hs).size⟩, fun t ht => ?_⟩
    cases ht
    have hnil : s.schedule.unassigned c.ids = [] := leastBy_eq_none.1 hm
    exact ⟨⟨_, hs⟩, Schedule.unassigned_eq_nil.1 hnil, size_schedule_le_record s⟩
  branch s x o s' _ hm ih hs hr := by
    refine ih hm (fun v hv => ?_) hs ⟨(hr.record hs).reached, (hr.record hs).size⟩
    exact (Domains.leastConstraining_perm _ _ _ _ _).mem_iff.1 hv
  nil x s _ _ hs hr := ⟨hr, fun _ h => (nomatch h)⟩
  reject x v vs s o s' _ _ ih hm hvs := ih hm fun w hw => hvs w (List.mem_cons_of_mem _ hw)
  wipeout x v vs s d o s' _ _ _ ih hm hvs hs hr :=
    ih hm (fun w hw => hvs w (List.mem_cons_of_mem _ hw)) hs ⟨hr.reached, hr.size⟩
  giveUp x v vs s d s₁ o s' _ ha hf ihP ih hm hvs hs hr := by
    have h₁ := (ihP (hs.step hm (hvs v (by simp)) ha hf) ⟨hr.reached, hr.size⟩).recorded
    exact ih hm (fun w hw => hvs w (List.mem_cons_of_mem _ hw)) hs ⟨h₁.reached, h₁.size⟩
  finish x v vs s d o s' _ ha hf _ ihP hm hvs hs hr :=
    ihP (hs.step hm (hvs v (by simp)) ha hf) ⟨hr.reached, hr.size⟩

theorem unassigned_start_lt (c : Context) (d : Domains) :
    ((State.start d).schedule.unassigned c.ids).length < c.ids.length + 1 :=
  Nat.lt_succ_of_le (List.length_filter_le _ _)

theorem run_yields (c : Context) (d₀ : Domains) :
    Yields c d₀ (run c d₀).1 (run c d₀).2 :=
  (yields_stepwise c d₀).explore (unassigned_start_lt c d₀) .start ⟨⟨d₀, .start⟩, rfl⟩

end Search

end Timetabling
