import Timetabling.Proofs.Completeness

/-!
# The order of candidates does not decide

Two problems are compared that differ in the order of candidates alone, with whatever order the
search tries them in. Arc consistency treats both alike, step by step, and leaves domains that again
differ in order alone; the next subject depends on numbers of candidates, and the cost of a branch
is a sum over its candidates. So `survey` is the same for both, and with it the verdict of a run
without a deadline.

Nor does it matter how the two problems write their rules and slots down, as long as conflicts and
the gate are the same (`Problem.Alike`).
-/

namespace Timetabling

variable {slots slots' : SlotIndex} {ids : List SubjectId} {d d' : Domains} {x y : SubjectId} {v : Booking}
  {p : Schedule}

namespace Domains

/-- The same subjects with the same candidates, possibly in another order. -/
def Permuted (d d' : Domains) : Prop := ∀ x, Option.Rel List.Perm (d.get? x) (d'.get? x)

namespace Permuted

theorem get? (h : d.Permuted d') (x : SubjectId) : (d.get? x = none ∧ d'.get? x = none) ∨
    ∃ vs ws, d.get? x = some vs ∧ d'.get? x = some ws ∧ vs.Perm ws := by
  have hx := h x
  cases hd : d.get? x <;> cases hd' : d'.get? x <;> rw [hd, hd'] at hx <;> cases hx
  · exact .inl ⟨rfl, rfl⟩
  · next hp => exact .inr ⟨_, _, rfl, rfl, hp⟩

theorem symm (h : d.Permuted d') : d'.Permuted d := by
  intro x
  rcases h.get? x with ⟨hd, hd'⟩ | ⟨vs, ws, hd, hd', hp⟩
  · rw [hd, hd']; exact .none
  · rw [hd, hd']; exact .some hp.symm

theorem candidates (h : d.Permuted d') (x : SubjectId) :
    (d.candidates x).Perm (d'.candidates x) := by
  rcases h.get? x with ⟨hd, hd'⟩ | ⟨vs, ws, hd, hd', hp⟩
  · simp [Domains.candidates, Table.getD, hd, hd']
  · rwa [candidates_eq hd, candidates_eq hd']

theorem exhausted (h : d.Permuted d') (x : SubjectId) : d.exhausted x = d'.exhausted x := by
  rw [Bool.eq_iff_iff, exhausted_eq_true, exhausted_eq_true]
  exact forall_congr' fun v => not_congr (h.candidates x).mem_iff

theorem supports (h : d.Permuted d') (hs : conflict slots = conflict slots') (y x : SubjectId) :
    d.supports slots y x = d'.supports slots' y x := by
  funext v
  rw [Domains.supports, Domains.supports, hs]
  exact (h.candidates y).any_eq

theorem insert (h : d.Permuted d') {vs vs' : List Booking} (hp : vs.Perm vs') :
    Permuted (Table.insert d x vs) (Table.insert d' x vs') := by
  intro y
  rw [Table.get?_insert, Table.get?_insert]
  split
  · exact .some hp
  · exact h y

theorem map_filter (h : d.Permuted d') (x : SubjectId) (keep : Booking → Bool) :
    Option.Rel List.Perm ((d.get? x).map (List.filter keep))
      ((d'.get? x).map (List.filter keep)) := by
  rcases h.get? x with ⟨hd, hd'⟩ | ⟨vs, ws, hd, hd', hp⟩
  · rw [hd, hd']; exact .none
  · rw [hd, hd']; exact .some (hp.filter keep)

/-! ### Arc consistency -/

theorem revise_snd (h : d.Permuted d') (hs : conflict slots = conflict slots') (a : Arc) :
    (d.revise slots a).2 = (d'.revise slots' a).2 := by
  unfold Domains.revise
  rcases h.get? a.1 with ⟨hd, hd'⟩ | ⟨vs, ws, hd, hd', hp⟩
  · rw [hd, hd']
  · have hkept := (hp.filter (d'.supports slots' a.2 a.1)).length_eq
    simp only [hd, hd', h.supports hs, hp.length_eq, hkept]

theorem revise (h : d.Permuted d') (hs : conflict slots = conflict slots') (a : Arc) :
    (d.revise slots a).1.Permuted (d'.revise slots' a).1 := by
  intro x
  rw [get?_revise, get?_revise, h.supports hs]
  split
  · exact h.map_filter x _
  · exact h x

/-- Two runs of the worklist go through the same arcs and count the same. -/
theorem run {queue : List Arc} {t : Tally} (h : d.Permuted d')
    (hs : conflict slots = conflict slots') :
    (Propagation.run ids slots queue d t).outcome =
        (Propagation.run ids slots' queue d' t).outcome ∧
      (Propagation.run ids slots queue d t).domains.Permuted
        (Propagation.run ids slots' queue d' t).domains := by
  induction queue, d, t using Propagation.run.induct ids slots generalizing d' with
  | case1 d t =>
    rw [Propagation.run, Propagation.run]
    exact ⟨rfl, h⟩
  | case2 d t a rest d₁ hr ih =>
    have h₁ := h.revise hs a
    have hr' := h.revise_snd hs a
    rw [Propagation.run_cons, Propagation.run_cons, ← hr']
    simp only [hr, ↓reduceIte] at h₁ ⊢
    exact ih h₁
  | case3 d t a rest d₁ removed hr h0 hex =>
    have h₁ := h.revise hs a
    have hr' := h.revise_snd hs a
    rw [Propagation.run_cons, Propagation.run_cons, ← hr', ← h₁.exhausted]
    simp only [hr, h0, hex, ↓reduceIte] at h₁ ⊢
    exact ⟨trivial, h₁⟩
  | case4 d t a rest d₁ removed hr h0 hex ih =>
    have h₁ := h.revise hs a
    have hr' := h.revise_snd hs a
    rw [Propagation.run_cons, Propagation.run_cons, ← hr', ← h₁.exhausted]
    simp only [hr, h0, hex, ↓reduceIte] at h₁ ⊢
    exact ih h₁

theorem propagate (h : d.Permuted d') (hs : conflict slots = conflict slots') :
    (d.propagate slots ids).outcome = (d'.propagate slots' ids).outcome ∧
      (d.propagate slots ids).domains.Permuted (d'.propagate slots' ids).domains := by
  have hex : d.exhausted = d'.exhausted := funext h.exhausted
  unfold Domains.propagate
  rw [hex]
  split
  · exact ⟨rfl, h⟩
  · exact h.run hs

/-! ### The search -/

theorem mostConstrained (h : d.Permuted d') (ids : List SubjectId) (p : Schedule) :
    d.mostConstrained ids p = d'.mostConstrained ids p := by
  have hlen : (fun x => (d.candidates x).length) = fun x => (d'.candidates x).length :=
    funext fun x => (h.candidates x).length_eq
  rw [Domains.mostConstrained, hlen, Domains.mostConstrained]

theorem keeps (h : d.Permuted d') (hs : conflict slots = conflict slots')
    (hk : Search.Keeps slots x v d y) : Search.Keeps slots' x v d' y := by
  intro ws hws
  rcases h.get? y with ⟨-, hd'⟩ | ⟨vs, ws', hd, hd', hp⟩
  · rw [hd'] at hws; cases hws
  · obtain ⟨w, hw, hc⟩ := hk vs hd
    rw [hd'] at hws
    cases hws
    exact ⟨w, hp.mem_iff.1 hw, by rwa [Search.compatible, ← hs]⟩

theorem forwardCheck_fst (h : d.Permuted d') (hs : conflict slots = conflict slots')
    (x : SubjectId) (v : Booking) (p : Schedule) (ids : List SubjectId) :
    (Search.forwardCheck slots x v p ids d).1 = (Search.forwardCheck slots' x v p ids d').1 := by
  rw [Bool.eq_iff_iff, Search.forwardCheck_fst, Search.forwardCheck_fst]
  constructor
  · intro hk y hy hyx hyp
    exact h.keeps hs (hk y hy hyx hyp)
  · intro hk y hy hyx hyp
    exact h.symm.keeps hs.symm (hk y hy hyx hyp)

theorem forwardCheck (h : d.Permuted d') (hs : conflict slots = conflict slots')
    (hf : (Search.forwardCheck slots x v p ids d).1 = true) :
    (Search.forwardCheck slots x v p ids d).2.Permuted
      (Search.forwardCheck slots' x v p ids d').2 := by
  have hf' := h.forwardCheck_fst hs x v p ids ▸ hf
  have hcomp : Search.compatible slots = Search.compatible slots' := by
    funext x v y w
    rw [Search.compatible, Search.compatible, hs]
  intro y
  rw [Search.get?_forwardCheck hf, Search.get?_forwardCheck hf', hcomp]
  split
  · exact h.map_filter y _
  · exact h y

end Permuted

end Domains

namespace Search

/-- Two searches for the same subjects under the same rules, however these are written down. -/
structure Context.Alike (c c' : Context) : Prop where
  ids : c.ids = c'.ids
  conflict : Timetabling.conflict c.slots = Timetabling.conflict c'.slots
  admits : c.rules.admits c.slots = c'.rules.admits c'.slots

theorem trial_permuted {c c' : Context} {below below' : Domains → WithTop Stats}
    (hc : c.Alike c') (h : d.Permuted d')
    (hb : ∀ e e', Domains.Permuted e e' → below e = below' e') :
    trial c p d x v below = trial c' p d' x v below' := by
  cases ha : c.rules.admits c.slots x v p with
  | false => rw [trial_reject ha, trial_reject (hc.admits ▸ ha)]
  | true =>
    have ha' := hc.admits ▸ ha
    have hfst := h.forwardCheck_fst hc.conflict x v (p.insert x v) c.ids
    cases hf : (forwardCheck c.slots x v (p.insert x v) c.ids d).1 with
    | false =>
      have hf' : (forwardCheck c'.slots x v (p.insert x v) c'.ids d').1 = false := by
        rw [← hc.ids, ← hfst, hf]
      rw [trial_wipeout ha (Prod.ext hf rfl), trial_wipeout ha' (Prod.ext hf' rfl)]
    | true =>
      have hf' : (forwardCheck c'.slots x v (p.insert x v) c'.ids d').1 = true := by
        rw [← hc.ids, ← hfst, hf]
      rw [trial_descend ha (Prod.ext hf rfl), trial_descend ha' (Prod.ext hf' rfl),
        hb _ _ (h.forwardCheck hc.conflict hf), hc.ids]

/-- Neither the order of candidates nor the slots that it looks at change what a search costs. -/
theorem survey_permuted {c c' : Context} (hc : c.Alike c') (h : d.Permuted d') :
    survey c p d = survey c' p d' := by
  induction p, d using survey.induct c generalizing d' with
  | case1 p d hm =>
    rw [survey_of_none hm, survey_of_none]
    rw [← hc.ids, ← h.mostConstrained, hm]
  | case2 p d x hm ih =>
    have hm' : d'.mostConstrained c'.ids p = some x := by rw [← hc.ids, ← h.mostConstrained, hm]
    rw [survey_of_some hm, survey_of_some hm']
    refine congrArg (_ + ·) ?_
    have htrial : ∀ v, trial c p d x v (survey c (p.insert x v)) =
        trial c' p d' x v (survey c' (p.insert x v)) :=
      fun v => trial_permuted hc h fun e e' he => ih v e he
    rw [List.map_congr_left fun v _ => htrial v]
    exact ((h.candidates x).map _).sum_eq

end Search

/-- The same problem but for the order of candidates. -/
structure Problem.Reordered (p q : Problem) : Prop where
  subjects : p.subjects = q.subjects
  domains : p.domains.Permuted q.domains
  slots : p.slots = q.slots
  rules : p.rules = q.rules

/-- The same subjects with the same candidates in whatever order, judged alike. -/
structure Problem.Alike (p q : Problem) : Prop where
  subjects : p.subjects = q.subjects
  domains : p.domains.Permuted q.domains
  conflict : Timetabling.conflict p.slots = Timetabling.conflict q.slots
  admits : p.rules.admits p.slots = q.rules.admits q.slots

theorem Problem.Reordered.alike {p q : Problem} (h : p.Reordered q) : p.Alike q :=
  ⟨h.subjects, h.domains, by rw [h.slots], by rw [h.slots, h.rules]⟩

namespace Solver

variable {s s₁ s₂ : Solver} {deadline : Deadline} {sol sol₁ sol₂ : Solution}

theorem ids_alike (h : s₁.problem.Alike s₂.problem) : s₁.problem.ids = s₂.problem.ids :=
  congrArg (List.map _) h.subjects

theorem propagate_alike (h : s₁.problem.Alike s₂.problem) :
    s₁.propagated.outcome = s₂.propagated.outcome ∧ s₁.narrowed.Permuted s₂.narrowed := by
  simp only [narrowed, propagated, ids_alike h]
  exact h.domains.propagate h.conflict

theorem survey_alike (h : s₁.problem.Alike s₂.problem) : s₁.survey = s₂.survey :=
  Search.survey_permuted ⟨ids_alike h, h.conflict, h.admits⟩ (propagate_alike h).2

/-- A complete solution has no fewer entries than any solution for some of its subjects. -/
theorem length_entries_le (hids : ∀ x, x ∈ s₁.problem.ids → x ∈ s₂.problem.ids)
    (h₁ : (s₁.run deadline).1 = .ok sol₁) (h₂ : (s₂.run deadline).1 = .ok sol₂)
    (hpart : sol₂.isPartial = false) : sol₁.entries.length ≤ sol₂.entries.length := by
  obtain ⟨t₁, d₁, -, ht₁, rfl, -⟩ := run_ok h₁
  obtain ⟨t₂, d₂, -, -, rfl, -⟩ := run_ok h₂
  refine (t₁.length_toEntries.trans_le ?_).trans t₂.length_toEntries.ge
  refine Table.size_le fun x hx => ?_
  exact Solution.isPartial_ofSchedule.1 hpart x (hids x (ht₁.mem_ids hx))

/-- Two runs that end alike: with the same failure, or with solutions that are both complete or both
partial and of one size; unless they are complete, all counters agree. -/
def SameVerdict (r₁ r₂ : Except Infeasibility Solution × Solver) : Prop :=
  match r₁.1, r₂.1 with
  | .error i, .error j => i = j ∧ r₁.2.stats = r₂.2.stats
  | .ok sol₁, .ok sol₂ =>
    sol₁.isPartial = sol₂.isPartial ∧ sol₁.entries.length = sol₂.entries.length ∧
      r₁.2.stats.maxDepth = r₂.2.stats.maxDepth ∧
      (sol₁.isPartial = true → r₁.2.stats = r₂.2.stats)
  | _, _ => False

namespace SameVerdict

variable {r₁ r₂ : Except Infeasibility Solution × Solver}

theorem error_iff (h : SameVerdict r₁ r₂) (i : Infeasibility) :
    r₁.1 = .error i ↔ r₂.1 = .error i := by
  unfold SameVerdict at h
  split at h
  · next h₁ h₂ => rw [h₁, h₂, h.1]
  · next h₁ h₂ => simp [h₁, h₂]
  · exact h.elim

theorem length_entries (h : SameVerdict r₁ r₂) (h₁ : r₁.1 = .ok sol₁) (h₂ : r₂.1 = .ok sol₂) :
    sol₁.entries.length = sol₂.entries.length := by
  rw [SameVerdict, h₁, h₂] at h
  exact h.2.1

end SameVerdict

/-- Without a deadline, what arc consistency says and what the search is foretold to cost tell how a
run ends. -/
theorem sameVerdict (hids : s₁.problem.ids = s₂.problem.ids)
    (hout : s₁.propagated.outcome = s₂.propagated.outcome) (hsurvey : s₁.survey = s₂.survey) :
    SameVerdict (s₁.run .never) (s₂.run .never) := by
  cases hp : s₁.propagated.outcome with
  | error x =>
    rw [run_of_error hp, run_of_error (hout ▸ hp)]
    exact ⟨rfl, rfl⟩
  | ok tally =>
    have hp₂ := hout ▸ hp
    cases hk : s₁.survey with
    | top =>
      obtain ⟨sol₁, h₁, hpart₁⟩ := run_of_survey_eq_top hp hk
      obtain ⟨sol₂, h₂, hpart₂⟩ := run_of_survey_eq_top hp₂ (hsurvey ▸ hk)
      have hlen : sol₁.entries.length = sol₂.entries.length := Nat.le_antisymm
        (length_entries_le (fun x hx => hids ▸ hx) h₁ h₂ hpart₂)
        (length_entries_le (fun x hx => hids ▸ hx) h₂ h₁ hpart₁)
      rw [SameVerdict, h₁, h₂]
      refine ⟨hpart₁.trans hpart₂.symm, hlen, ?_, fun hpart => ?_⟩
      · rw [← length_entries h₁, hlen, length_entries h₂]
      · rw [hpart₁] at hpart; cases hpart
    | coe δ =>
      obtain ⟨hs₁, hend₁⟩ := run_of_survey_eq_coe hp hk
      obtain ⟨hs₂, hend₂⟩ := run_of_survey_eq_coe hp₂ (hsurvey ▸ hk)
      have hstats : (s₁.run .never).2.stats = (s₂.run .never).2.stats := hs₁.trans hs₂.symm
      rcases hend₁ with ⟨h₁, h0⟩ | ⟨sol₁, h₁, hpart₁, h0⟩ <;>
        rcases hend₂ with ⟨h₂, h0'⟩ | ⟨sol₂, h₂, hpart₂, h0'⟩
      · rw [SameVerdict, h₁, h₂]
        exact ⟨rfl, hstats⟩
      · exact absurd h0 h0'
      · exact absurd h0' h0
      · have hlen : sol₁.entries.length = sol₂.entries.length := by
          rw [length_entries h₁, hstats, length_entries h₂]
        rw [SameVerdict, h₁, h₂]
        exact ⟨hpart₁.trans hpart₂.symm, hlen, congrArg _ hstats, fun _ => hstats⟩

theorem sameVerdict_alike (h : s₁.problem.Alike s₂.problem) :
    SameVerdict (s₁.run .never) (s₂.run .never) :=
  sameVerdict (ids_alike h) (propagate_alike h).1 (survey_alike h)

/-- The order of candidates, and what orders them in the search, do not change the verdict of a run
without a deadline. -/
theorem run_reordered (s₁ s₂ : Solver) (h : s₁.problem.Reordered s₂.problem) :
    SameVerdict (s₁.run .never) (s₂.run .never) :=
  sameVerdict_alike h.alike

/-- The rivals with some candidates the other way round, and with an order blind to slots. -/
def rivalsTurned : Solver where
  problem := { rivals.problem with
    domains := Table.ofList [
      (1, [⟨7, 100, 2⟩, ⟨7, 100, 1⟩]),
      (2, [⟨7, 100, 1⟩, ⟨7, 100, 2⟩]),
      (3, [⟨7, 100, 2⟩, ⟨7, 100, 1⟩])] }
  slotAware := false

theorem reordered_rivals : rivals.problem.Reordered rivalsTurned.problem where
  subjects := rfl
  domains :=
    have h : Domains.Permuted ∅ ∅ := fun _ => .none
    ((h.insert (.swap _ _ [])).insert (.refl _)).insert (.swap _ _ [])
  slots := rfl
  rules := rfl

theorem run_reordered_rivals : rivals.problem.Reordered rivalsTurned.problem ∧
    SameVerdict (rivals.run .never) (rivalsTurned.run .never) :=
  ⟨reordered_rivals, run_reordered rivals rivalsTurned reordered_rivals⟩

end Solver

end Timetabling
