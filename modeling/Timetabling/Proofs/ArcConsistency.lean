import Mathlib.Order.Bounds.Basic
import Timetabling.Proofs.Narrowing

/-!
# The greatest arc consistent family

A family offers each subject a set of bookings. It is arc consistent within given domains when each
booking that it offers can stand beside some booking that it offers to any other listed subject.
The union of all arc consistent families is arc consistent, and so the greatest of them; it is what
`Domains.propagate` leaves.

`Pending` is what the worklist keeps true. An arc that is not in the queue is settled. When `x`
loses candidates to `y`, the arc from `y` to `x` need not come back: what `x` has lost was in
conflict with all of `y`, and conflict is symmetric, so no candidate of `y` leant on it.
-/

namespace Timetabling

variable {slots : SlotIndex} {ids : List SubjectId} {d d₀ : Domains} {a : Arc} {x y : SubjectId}
  {v : Booking}

/-- The bookings on offer for each subject. -/
abbrev Family := SubjectId → Set Booking

/-- Within the domains `d`, every booking of `F` has one beside it for every other subject. -/
structure ArcConsistent (slots : SlotIndex) (ids : List SubjectId) (d : Domains) (F : Family) :
    Prop where
  within : ∀ x ∈ ids, ∀ v ∈ F x, v ∈ d.candidates x
  supported : ∀ x ∈ ids, ∀ v ∈ F x, ∀ y ∈ ids, y ≠ x → ∃ w ∈ F y, conflict slots x v y w = false

/-- All bookings that some arc consistent family offers. -/
def greatestFamily (slots : SlotIndex) (ids : List SubjectId) (d : Domains) : Family :=
  fun x => {v | ∃ F, ArcConsistent slots ids d F ∧ v ∈ F x}

namespace ArcConsistent

theorem le_greatest {F : Family} (h : ArcConsistent slots ids d F) (x : SubjectId) :
    F x ⊆ greatestFamily slots ids d x :=
  fun _ hv => ⟨F, h, hv⟩

theorem greatest (slots : SlotIndex) (ids : List SubjectId) (d : Domains) :
    ArcConsistent slots ids d (greatestFamily slots ids d) where
  within := fun x hx v ⟨_, hF, hv⟩ => hF.within x hx v hv
  supported := fun x hx v ⟨_, hF, hv⟩ y hy hne =>
    let ⟨w, hw, hc⟩ := hF.supported x hx v hv y hy hne
    ⟨w, hF.le_greatest y hw, hc⟩

/-- Neither the order nor the repetition of the subjects matters. -/
theorem of_mem_iff {ids' : List SubjectId} (hids : ∀ x, x ∈ ids' ↔ x ∈ ids) {F : Family}
    (h : ArcConsistent slots ids d F) : ArcConsistent slots ids' d F where
  within x hx := h.within x ((hids x).1 hx)
  supported x hx v hv y hy := h.supported x ((hids x).1 hx) v hv y ((hids y).1 hy)

theorem of_choice {choice : SubjectId → Booking} (hd : ∀ x ∈ ids, choice x ∈ d.candidates x)
    (hc : ∀ x ∈ ids, ∀ y ∈ ids, x ≠ y → conflict slots x (choice x) y (choice y) = false) :
    ArcConsistent slots ids d fun x => {choice x} where
  within := fun x hx _ hv => hv ▸ hd x hx
  supported := fun x hx _ hv y hy hne => ⟨choice y, rfl, hv ▸ hc x hx y hy hne.symm⟩

end ArcConsistent

theorem greatestFamily_congr {ids' : List SubjectId} (hids : ∀ x, x ∈ ids' ↔ x ∈ ids) :
    greatestFamily slots ids' d = greatestFamily slots ids d := by
  funext x
  ext v
  constructor <;> rintro ⟨F, hF, hv⟩
  · exact ⟨F, hF.of_mem_iff fun x => (hids x).symm, hv⟩
  · exact ⟨F, hF.of_mem_iff hids, hv⟩

theorem mem_allArcs : (x, y) ∈ allArcs ids ↔ x ∈ ids ∧ y ∈ ids ∧ y ≠ x := by
  simp [allArcs]

theorem mem_arcsInto : (x, y) ∈ arcsInto ids a ↔ x ∈ ids ∧ x ≠ a.1 ∧ x ≠ a.2 ∧ y = a.1 := by
  simp only [arcsInto, List.mem_map, List.mem_filter, Prod.mk.injEq, Bool.and_eq_true,
    decide_eq_true_eq]
  constructor
  · rintro ⟨z, ⟨hz, h1, h2⟩, rfl, rfl⟩
    exact ⟨hz, h1, h2, rfl⟩
  · rintro ⟨hx, h1, h2, rfl⟩
    exact ⟨x, ⟨hx, h1, h2⟩, rfl, rfl⟩

/-! ### One revision -/

namespace Domains

/-- Every candidate of `a.1` is supported by `a.2`. -/
def Settled (slots : SlotIndex) (d : Domains) (a : Arc) : Prop :=
  ∀ v ∈ d.candidates a.1, d.supports slots a.2 a.1 v = true

theorem get?_revise (x : SubjectId) : (d.revise slots a).1.get? x =
    if x = a.1 then (d.get? x).map (List.filter (d.supports slots a.2 a.1)) else d.get? x := by
  unfold revise
  split
  · next h => split <;> simp_all
  · next vs h =>
    rw [Table.get?_insert]
    split
    · next hx => simp [hx, h]
    · rfl

theorem candidates_revise_self : (d.revise slots a).1.candidates a.1 =
    (d.candidates a.1).filter (d.supports slots a.2 a.1) :=
  candidates_of_get?_eq (by rw [get?_revise, if_pos rfl])

theorem candidates_revise_of_ne (h : x ≠ a.1) :
    (d.revise slots a).1.candidates x = d.candidates x := by
  simp only [candidates, Table.getD, get?_revise, if_neg h]

theorem mem_candidates_revise_self : v ∈ (d.revise slots a).1.candidates a.1 ↔
    v ∈ d.candidates a.1 ∧ d.supports slots a.2 a.1 v = true := by
  rw [candidates_revise_self, List.mem_filter]

theorem narrows_revise (slots : SlotIndex) (d : Domains) (a : Arc) :
    d.Narrows (d.revise slots a).1 := by
  unfold revise
  split
  · exact .refl d
  · next vs h => exact .insert_filter h _

theorem revise_snd_eq_zero : (d.revise slots a).2 = 0 ↔ d.Settled slots a := by
  unfold revise Settled
  cases h : d.get? a.1 with
  | none => simp [candidates, Table.getD, h]
  | some vs =>
    rw [candidates_eq h, ← List.length_filter_eq_length_iff]
    have := List.length_filter_le (d.supports slots a.2 a.1) vs
    simp only
    omega

theorem revise_of_settled (h : d.Settled slots a) : d.revise slots a = (d, 0) := by
  refine Prod.ext ?_ (revise_snd_eq_zero.2 h)
  unfold revise
  split
  · rfl
  · next vs hvs =>
    rw [Settled, candidates_eq hvs] at h
    refine Table.insert_eq_self ?_
    rw [hvs, List.filter_eq_self.2 h]

end Domains

/-! ### The worklist -/

namespace Propagation

theorem run_cons (rest : List Arc) (t : Tally) : run ids slots (a :: rest) d t =
    if (d.revise slots a).2 = 0 then
      run ids slots rest (d.revise slots a).1 { t with arcsProcessed := t.arcsProcessed + 1 }
    else if (d.revise slots a).1.exhausted a.1 then ⟨.error a.1, (d.revise slots a).1⟩
    else
      run ids slots (rest ++ arcsInto ids a) (d.revise slots a).1
        { arcsProcessed := t.arcsProcessed + 1
          arcsRevised := t.arcsRevised + 1
          valuesPruned := t.valuesPruned + (d.revise slots a).2 } := by
  rw [run]
  rfl

/-- What a revision keeps true, a run keeps true. A run that fails does so at a revision that drops
something and leaves its subject without candidates. -/
theorem run_induction {P : List Arc → Domains → Tally → Prop}
    (keep : ∀ a rest d t, P (a :: rest) d t → (d.revise slots a).2 = 0 →
      P rest (d.revise slots a).1 { t with arcsProcessed := t.arcsProcessed + 1 })
    (drop : ∀ a rest d t, P (a :: rest) d t → (d.revise slots a).2 ≠ 0 →
      (d.revise slots a).1.exhausted a.1 = false →
      P (rest ++ arcsInto ids a) (d.revise slots a).1
        { arcsProcessed := t.arcsProcessed + 1
          arcsRevised := t.arcsRevised + 1
          valuesPruned := t.valuesPruned + (d.revise slots a).2 })
    {queue : List Arc} {t : Tally} (h : P queue d t) :
    (∀ t', (run ids slots queue d t).outcome = .ok t' →
      P [] (run ids slots queue d t).domains t') ∧
    (∀ x, (run ids slots queue d t).outcome = .error x → ∃ a rest d' t',
      P (a :: rest) d' t' ∧ (d'.revise slots a).2 ≠ 0 ∧ a.1 = x ∧
      (run ids slots queue d t).domains = (d'.revise slots a).1 ∧
      (d'.revise slots a).1.exhausted a.1 = true) := by
  induction queue, d, t using run.induct ids slots with
  | case1 d t =>
    rw [run]
    exact ⟨fun t' ht => by cases ht; exact h, fun x hx => (nomatch hx)⟩
  | case2 d t a rest d' hr ih =>
    have h' := keep a rest d t h (by rw [hr])
    rw [run_cons]
    simp only [hr, ↓reduceIte] at h' ⊢
    exact ih h'
  | case3 d t a rest d' removed hr h0 hex =>
    rw [run_cons]
    simp only [hr, h0, hex, ↓reduceIte]
    refine ⟨fun t' ht => (nomatch ht), fun x hx => ?_⟩
    cases hx
    exact ⟨a, rest, d, t, h, by rw [hr]; exact h0, rfl, by rw [hr], by rw [hr]; exact hex⟩
  | case4 d t a rest d' removed hr h0 hex ih =>
    have h' := drop a rest d t h (by rw [hr]; exact h0) (by rw [hr]; simpa using hex)
    rw [run_cons]
    simp only [hr, h0, hex, ↓reduceIte] at h' ⊢
    exact ih h'

/-- What holds between two steps of the worklist, begun with the domains `d₀`. -/
structure Pending (slots : SlotIndex) (ids : List SubjectId) (d₀ : Domains) (queue : List Arc)
    (d : Domains) : Prop where
  arcs : ∀ x y, (x, y) ∈ queue → x ∈ ids ∧ y ∈ ids ∧ y ≠ x
  narrows : d₀.Narrows d
  frame : ∀ x, ¬ x ∈ ids → d.get? x = d₀.get? x
  /-- No arc consistent family has lost a booking. -/
  keeps : ∀ F, ArcConsistent slots ids d₀ F → ∀ x ∈ ids, ∀ v ∈ F x, v ∈ d.candidates x
  settled : ∀ x ∈ ids, ∀ y ∈ ids, y ≠ x → (x, y) ∈ queue ∨ d.Settled slots (x, y)
  inhabited : ∀ x ∈ ids, d.exhausted x = false

namespace Pending

variable {rest : List Arc}

theorem start (h : ∀ x ∈ ids, d.exhausted x = false) : Pending slots ids d (allArcs ids) d where
  arcs _ _ := mem_allArcs.1
  narrows := .refl d
  frame _ _ := rfl
  keeps _ hF := hF.within
  settled _ hx _ hy hne := .inl (mem_allArcs.2 ⟨hx, hy, hne⟩)
  inhabited := h

theorem tail (h : Pending slots ids d₀ (a :: rest) d) (ha : d.Settled slots a) :
    Pending slots ids d₀ rest d := by
  refine ⟨fun x y hm => h.arcs x y (List.mem_cons_of_mem _ hm), h.narrows, h.frame, h.keeps,
    fun x hx y hy hne => ?_, h.inhabited⟩
  rcases h.settled x hx y hy hne with hm | hs
  · rcases List.mem_cons.1 hm with rfl | hm
    · exact .inr ha
    · exact .inl hm
  · exact .inr hs

theorem keeps_revise (h : Pending slots ids d₀ (a :: rest) d) {F : Family}
    (hF : ArcConsistent slots ids d₀ F) :
    ∀ x ∈ ids, ∀ v ∈ F x, v ∈ (d.revise slots a).1.candidates x := by
  intro x hx v hv
  obtain ⟨-, hy, hne⟩ := h.arcs a.1 a.2 (by simp)
  have hd : v ∈ d.candidates x := h.keeps F hF x hx v hv
  by_cases hxa : x = a.1
  · subst hxa
    obtain ⟨w, hw, hc⟩ := hF.supported a.1 hx v hv a.2 hy hne
    exact Domains.mem_candidates_revise_self.2
      ⟨hd, Domains.supports_eq_true.2 ⟨w, h.keeps F hF a.2 hy w hw, hc⟩⟩
  · rwa [Domains.candidates_revise_of_ne hxa]

/-- After the revision of `a` every arc is settled that was so before, and `a` itself, but for the
arcs that lead to `a.1` from a third subject. -/
theorem settled_revise (hne : a.2 ≠ a.1) (hxy : y = a.1 → x = a.2)
    (h : (x, y) = a ∨ d.Settled slots (x, y)) : (d.revise slots a).1.Settled slots (x, y) := by
  intro v hv
  rw [Domains.supports_eq_true]
  by_cases hy : y = a.1
  · -- the arc back: what `a.1` has lost was in conflict with all candidates of `a.2`
    obtain rfl := hxy hy
    subst hy
    rcases h with h | h
    · exact absurd (congrArg Prod.snd h).symm hne
    · rw [Domains.candidates_revise_of_ne hne] at hv
      obtain ⟨w, hw, hc⟩ := Domains.supports_eq_true.1 (h v hv)
      refine ⟨w, Domains.mem_candidates_revise_self.2 ⟨hw, ?_⟩, hc⟩
      exact Domains.supports_eq_true.2 ⟨v, hv, by rw [conflict_comm]; exact hc⟩
  · simp only [Domains.candidates_revise_of_ne hy]
    rcases h with rfl | h
    · exact Domains.supports_eq_true.1 (Domains.mem_candidates_revise_self.1 hv).2
    · exact Domains.supports_eq_true.1 (h v ((Domains.narrows_revise slots d a).mem hv))

theorem frame_revise (h : Pending slots ids d₀ (a :: rest) d) :
    ∀ x, ¬ x ∈ ids → (d.revise slots a).1.get? x = d₀.get? x := by
  intro x hx
  obtain ⟨ha, -, -⟩ := h.arcs a.1 a.2 (by simp)
  rw [Domains.get?_revise, if_neg fun hxa : x = a.1 => hx (hxa ▸ ha)]
  exact h.frame x hx

/-- A revision can empty the domain of its own subject only. -/
theorem inhabited_revise (h : Pending slots ids d₀ (a :: rest) d) (hx : x ∈ ids) (hxa : x ≠ a.1) :
    (d.revise slots a).1.exhausted x = false := by
  rw [Domains.exhausted, Domains.candidates_revise_of_ne hxa]
  exact h.inhabited x hx

theorem revise (h : Pending slots ids d₀ (a :: rest) d)
    (hex : (d.revise slots a).1.exhausted a.1 = false) :
    Pending slots ids d₀ (rest ++ arcsInto ids a) (d.revise slots a).1 := by
  obtain ⟨ha, -, hne⟩ := h.arcs a.1 a.2 (by simp)
  refine ⟨fun x y hm => ?_, h.narrows.trans (Domains.narrows_revise slots d a), h.frame_revise,
    fun F hF => h.keeps_revise hF, fun x hx y hy hxy => ?_, fun x hx => ?_⟩
  · rcases List.mem_append.1 hm with hm | hm
    · exact h.arcs x y (List.mem_cons_of_mem _ hm)
    · obtain ⟨hx, hxa, -, rfl⟩ := mem_arcsInto.1 hm
      exact ⟨hx, ha, hxa.symm⟩
  · rw [List.mem_append, mem_arcsInto]
    -- the arcs into `a.1` from a third subject are the ones that come back
    by_cases hin : y = a.1 ∧ x ≠ a.2
    · exact .inl (.inr ⟨hx, hin.1 ▸ hxy.symm, hin.2, hin.1⟩)
    · have hback : y = a.1 → x = a.2 := fun hy => not_not.1 fun hx => hin ⟨hy, hx⟩
      rcases h.settled x hx y hy hxy with hm | hs
      · rcases List.mem_cons.1 hm with hm | hm
        · exact .inr (settled_revise hne hback (.inl hm))
        · exact .inl (.inl hm)
      · exact .inr (settled_revise hne hback (.inr hs))
  · by_cases hxa : x = a.1
    · rw [hxa]; exact hex
    · exact h.inhabited_revise hx hxa

/-- With an empty queue, what is left is an arc consistent family. -/
theorem arcConsistent (h : Pending slots ids d₀ [] d) :
    ArcConsistent slots ids d₀ fun x => {v | v ∈ d.candidates x} where
  within _ _ _ hv := h.narrows.mem hv
  supported x hx v hv y hy hne := by
    rcases h.settled x hx y hy hne with hm | hs
    · cases hm
    · exact Domains.supports_eq_true.1 (hs v hv)

theorem mem_candidates_iff (h : Pending slots ids d₀ [] d) (hx : x ∈ ids) :
    v ∈ d.candidates x ↔ v ∈ greatestFamily slots ids d₀ x :=
  ⟨fun hv => h.arcConsistent.le_greatest x hv,
    h.keeps _ (.greatest slots ids d₀) x hx v⟩

end Pending

/-- A run that succeeds has nothing left to do; one that fails breaks off right after a revision. -/
theorem run_pending {queue : List Arc} {t : Tally} (h : Pending slots ids d₀ queue d) :
    (∀ t', (run ids slots queue d t).outcome = .ok t' →
      Pending slots ids d₀ [] (run ids slots queue d t).domains) ∧
    (∀ x, (run ids slots queue d t).outcome = .error x → ∃ a rest d',
      Pending slots ids d₀ (a :: rest) d' ∧ a.1 = x ∧
      (run ids slots queue d t).domains = (d'.revise slots a).1 ∧
      (d'.revise slots a).1.exhausted a.1 = true) := by
  have hrun := @run_induction slots ids d (fun queue d _ => Pending slots ids d₀ queue d)
    (fun a rest d t h h0 => by
      have hs := Domains.revise_snd_eq_zero.1 h0
      rw [Domains.revise_of_settled hs]
      exact h.tail hs)
    (fun a rest d t h _ hex => h.revise hex) queue t h
  refine ⟨hrun.1, fun x hx => ?_⟩
  obtain ⟨a, rest, d', t', hp, -, hax, hdom, hex⟩ := hrun.2 x hx
  exact ⟨a, rest, d', hp, hax, hdom, hex⟩

/-- A queue of settled arcs runs empty without a change. -/
theorem run_of_settled {queue : List Arc} {t : Tally} (h : ∀ a ∈ queue, d.Settled slots a) :
    run ids slots queue d t =
      ⟨.ok { t with arcsProcessed := t.arcsProcessed + queue.length }, d⟩ := by
  induction queue generalizing t with
  | nil => rw [run]; rfl
  | cons a rest ih =>
    have ha : d.revise slots a = (d, 0) := Domains.revise_of_settled (h a (by simp))
    rw [run_cons, ha, if_pos rfl, ih fun b hb => h b (List.mem_cons_of_mem _ hb)]
    simp only [List.length_cons, Nat.add_assoc, Nat.add_comm 1]

end Propagation

namespace Domains

open Propagation

/-! ### Propagation -/

theorem propagate_eq_run (h : ∀ x ∈ ids, d.exhausted x = false) :
    d.propagate slots ids = run ids slots (allArcs ids) d {} := by
  have hnone : ids.find? d.exhausted = none :=
    List.find?_eq_none.2 fun x hx => by simp [h x hx]
  rw [propagate, hnone]

theorem propagate_cases (slots : SlotIndex) (ids : List SubjectId) (d : Domains) :
    (∀ x ∈ ids, d.exhausted x = false) ∨
      ∃ x ∈ ids, d.exhausted x = true ∧ d.propagate slots ids = ⟨.error x, d⟩ := by
  cases hf : ids.find? d.exhausted with
  | none => exact .inl fun x hx => by simpa using List.find?_eq_none.1 hf x hx
  | some x =>
    refine .inr ⟨x, List.mem_of_find?_eq_some hf, List.find?_some hf, ?_⟩
    rw [propagate, hf]

theorem propagate_ok {t : Tally} (h : (d.propagate slots ids).outcome = .ok t) :
    Pending slots ids d [] (d.propagate slots ids).domains := by
  rcases propagate_cases slots ids d with hd | ⟨x, -, -, hx⟩
  · rw [propagate_eq_run hd] at h ⊢
    exact (run_pending (.start hd)).1 t h
  · rw [hx] at h; cases h

theorem propagate_error (h : (d.propagate slots ids).outcome = .error x) :
    x ∈ ids ∧ greatestFamily slots ids d x = ∅ := by
  rcases propagate_cases slots ids d with hd | ⟨y, hy, hex, hrun⟩
  · rw [propagate_eq_run hd] at h
    obtain ⟨a, rest, d', hp, rfl, -, hex⟩ := (run_pending (.start hd)).2 x h
    obtain ⟨ha, -, -⟩ := hp.arcs a.1 a.2 (by simp)
    refine ⟨ha, Set.eq_empty_iff_forall_notMem.2 fun v hv => ?_⟩
    exact exhausted_eq_true.1 hex v (hp.keeps_revise (.greatest slots ids d) a.1 ha v hv)
  · rw [hrun] at h
    cases h
    refine ⟨hy, Set.eq_empty_iff_forall_notMem.2 fun v hv => ?_⟩
    exact exhausted_eq_true.1 hex v ((ArcConsistent.greatest slots ids d).within x hy v hv)

/-- Propagation succeeds just when the greatest family offers something to everyone. -/
theorem propagate_ok_iff : (∃ t, (d.propagate slots ids).outcome = .ok t) ↔
    ∀ x ∈ ids, (greatestFamily slots ids d x).Nonempty := by
  constructor
  · rintro ⟨t, ht⟩ x hx
    have hp := propagate_ok ht
    obtain ⟨v, hv⟩ := exhausted_eq_false.1 (hp.inhabited x hx)
    exact ⟨v, (hp.mem_candidates_iff hx).1 hv⟩
  · intro h
    cases hout : (d.propagate slots ids).outcome with
    | ok t => exact ⟨t, rfl⟩
    | error x =>
      obtain ⟨hx, hempty⟩ := propagate_error hout
      exact absurd (h x hx) (by simp [hempty])

theorem greatestFamily_isGreatest (slots : SlotIndex) (ids : List SubjectId) (d : Domains) :
    IsGreatest {F | ArcConsistent slots ids d F} (greatestFamily slots ids d) :=
  ⟨.greatest slots ids d, fun _ hF => hF.le_greatest⟩

/-- What is left of a listed subject after success, told from the greatest family alone. -/
theorem get?_propagate {t : Tally} (h : (d.propagate slots ids).outcome = .ok t) (hx : x ∈ ids)
    {P : Booking → Bool} (hP : ∀ v, P v = true ↔ v ∈ greatestFamily slots ids d x) :
    (d.propagate slots ids).domains.get? x = some ((d.candidates x).filter P) := by
  have hp := propagate_ok h
  obtain ⟨v, hv⟩ := exhausted_eq_false.1 (hp.inhabited x hx)
  rw [hp.narrows.get?_eq_filter fun v _ => (hP v).trans (hp.mem_candidates_iff hx).symm,
    get?_of_mem_candidates (hp.narrows.mem hv)]
  rfl

theorem get?_propagate_congr {ids' : List SubjectId} (hids : ∀ x, x ∈ ids' ↔ x ∈ ids)
    {t t' : Tally} (h : (d.propagate slots ids).outcome = .ok t)
    (h' : (d.propagate slots ids').outcome = .ok t') (x : SubjectId) :
    (d.propagate slots ids').domains.get? x = (d.propagate slots ids).domains.get? x := by
  classical
  by_cases hx : x ∈ ids
  · have hP : ∀ v, decide (v ∈ greatestFamily slots ids d x) = true ↔
        v ∈ greatestFamily slots ids d x := fun _ => decide_eq_true_iff
    rw [get?_propagate h hx hP]
    refine get?_propagate h' ((hids x).2 hx) fun v => ?_
    rw [greatestFamily_congr hids]
    exact hP v
  · rw [(propagate_ok h).frame x hx, (propagate_ok h').frame x fun hx' => hx ((hids x).1 hx')]

theorem propagate_propagate {t : Tally} (h : (d.propagate slots ids).outcome = .ok t) :
    (d.propagate slots ids).domains.propagate slots ids =
      ⟨.ok { arcsProcessed := (allArcs ids).length }, (d.propagate slots ids).domains⟩ := by
  have hp := propagate_ok h
  rw [propagate_eq_run hp.inhabited, run_of_settled fun a ha => ?_]
  · simp
  · obtain ⟨hx, hy, hne⟩ := mem_allArcs.1 ha
    exact (hp.settled a.1 hx a.2 hy hne).resolve_left List.not_mem_nil

/-- A choice of bookings without conflicts is not lost. -/
theorem propagate_of_choice {choice : SubjectId → Booking}
    (hd : ∀ x ∈ ids, choice x ∈ d.candidates x)
    (hc : ∀ x ∈ ids, ∀ y ∈ ids, x ≠ y → conflict slots x (choice x) y (choice y) = false) :
    (∃ t, (d.propagate slots ids).outcome = .ok t) ∧
      ∀ x ∈ ids, choice x ∈ (d.propagate slots ids).domains.candidates x := by
  have hF := ArcConsistent.of_choice hd hc
  have hmem : ∀ x, choice x ∈ greatestFamily slots ids d x := fun x => hF.le_greatest x rfl
  obtain ⟨t, ht⟩ := propagate_ok_iff.2 fun x _ => ⟨_, hmem x⟩
  exact ⟨⟨t, ht⟩, fun x hx => ((propagate_ok ht).mem_candidates_iff hx).2 (hmem x)⟩

open Classical in
/-- Propagation succeeds just when the greatest arc consistent family offers something to every
listed subject, and then leaves what this family offers, in the old order; otherwise it names a
subject to which the family offers nothing. So the order and the repetition of the subjects do not
matter, no choice of bookings without conflicts is lost, and a second run drops nothing. -/
theorem propagate_greatest (slots : SlotIndex) (ids : List SubjectId) (d : Domains) :
    let G := greatestFamily slots ids d
    let r := d.propagate slots ids
    IsGreatest {F | ArcConsistent slots ids d F} G ∧
    ((∃ t, r.outcome = .ok t) ↔ ∀ x ∈ ids, (G x).Nonempty) ∧
    ((¬ ∀ x ∈ ids, (G x).Nonempty) → ∃ x ∈ ids, G x = ∅ ∧ r.outcome = .error x) ∧
    (∀ t, r.outcome = .ok t → ∀ x ∈ ids,
      r.domains.get? x = some ((d.candidates x).filter fun v => v ∈ G x)) ∧
    (∀ ids', (∀ x, x ∈ ids' ↔ x ∈ ids) →
      ((∃ t, (d.propagate slots ids').outcome = .ok t) ↔ ∃ t, r.outcome = .ok t) ∧
      ((∃ t, r.outcome = .ok t) →
        ∀ x, (d.propagate slots ids').domains.get? x = r.domains.get? x)) ∧
    (∀ choice : SubjectId → Booking, (∀ x ∈ ids, choice x ∈ d.candidates x) →
      (∀ x ∈ ids, ∀ y ∈ ids, x ≠ y → conflict slots x (choice x) y (choice y) = false) →
      (∃ t, r.outcome = .ok t) ∧ ∀ x ∈ ids, choice x ∈ r.domains.candidates x) ∧
    (∀ t, r.outcome = .ok t →
      ∃ n, r.domains.propagate slots ids = ⟨.ok { arcsProcessed := n }, r.domains⟩) := by
  intro G r
  refine ⟨greatestFamily_isGreatest slots ids d, propagate_ok_iff, fun hG => ?_,
    fun t ht x hx => get?_propagate ht hx fun v => decide_eq_true_iff, fun ids' hids => ?_,
    fun choice hd hc => propagate_of_choice hd hc, fun t ht => ⟨_, propagate_propagate ht⟩⟩
  · cases hout : r.outcome with
    | ok t => exact absurd (propagate_ok_iff.1 ⟨t, hout⟩) hG
    | error x =>
      obtain ⟨hx, hempty⟩ := propagate_error hout
      exact ⟨x, hx, hempty, rfl⟩
  · have hok : (∃ t, (d.propagate slots ids').outcome = .ok t) ↔ ∃ t, r.outcome = .ok t := by
      rw [propagate_ok_iff, propagate_ok_iff, greatestFamily_congr hids]
      exact forall_congr' fun x => by rw [hids]
    refine ⟨hok, fun ⟨t, ht⟩ x => ?_⟩
    obtain ⟨t', ht'⟩ := hok.2 ⟨t, ht⟩
    exact get?_propagate_congr hids ht ht' x

end Domains

end Timetabling
