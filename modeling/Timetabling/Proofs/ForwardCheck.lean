import Timetabling.Proofs.Narrowing

/-!
# Forward checking

After a booking the search filters the domains of all subjects without a booking. The check passes
just when each of these keeps a candidate, and then it has filtered every one of them; that a
subject is listed twice makes no difference, since filtering twice by one conflict is filtering
once.
-/

namespace Timetabling.Search

open Domains

variable {slots : SlotIndex} {x y : SubjectId} {v : Booking} {p : Schedule} {ys : List SubjectId}
  {d d' : Domains}

/-- `w` for `y` is not in conflict with `v` for `x`. -/
def compatible (slots : SlotIndex) (x : SubjectId) (v : Booking) (y : SubjectId) (w : Booking) :
    Bool :=
  !conflict slots x v y w

theorem forwardCheck_cons_skip {ys : List SubjectId} (h : y = x ∨ y ∈ p ∨ d.get? y = none) :
    forwardCheck slots x v p (y :: ys) d = forwardCheck slots x v p ys d := by
  rw [forwardCheck]
  rcases h with h | h | h
  · simp [h]
  · simp [h]
  · rw [h]; simp

theorem forwardCheck_cons_empty {ws : List Booking} (hx : y ≠ x) (hp : ¬ y ∈ p)
    (hd : d.get? y = some ws) (h : ws.filter (compatible slots x v y) = []) :
    forwardCheck slots x v p (y :: ys) d = (false, d.insert y []) := by
  have h' : (ws.filter fun w => !conflict slots x v y w) = [] := h
  rw [forwardCheck]
  simp [hx, hp, hd, h']

theorem forwardCheck_cons {ws : List Booking} (hx : y ≠ x) (hp : ¬ y ∈ p)
    (hd : d.get? y = some ws) (h : ws.filter (compatible slots x v y) ≠ []) :
    forwardCheck slots x v p (y :: ys) d =
      forwardCheck slots x v p ys (d.insert y (ws.filter (compatible slots x v y))) := by
  have h' : (ws.filter fun w => !conflict slots x v y w).isEmpty = false := by
    rw [List.isEmpty_eq_false_iff]; exact h
  rw [forwardCheck]
  simp only [hx, hp, hd, h', decide_false, Bool.or_self, Bool.false_eq_true, if_false]
  rfl

/-- The check goes down the list: it passes a subject over, stops at one that loses all candidates,
or filters the candidates of one and goes on. -/
theorem forwardCheck_induction {P : List SubjectId → Domains → Bool × Domains → Prop}
    (nil : ∀ d, P [] d (true, d))
    (skip : ∀ y ys d, y = x ∨ y ∈ p ∨ d.get? y = none →
      P ys d (forwardCheck slots x v p ys d) → P (y :: ys) d (forwardCheck slots x v p ys d))
    (stop : ∀ y ys d ws, y ≠ x → ¬ y ∈ p → d.get? y = some ws →
      ws.filter (compatible slots x v y) = [] → P (y :: ys) d (false, d.insert y []))
    (go : ∀ y ys d ws, y ≠ x → ¬ y ∈ p → d.get? y = some ws →
      ws.filter (compatible slots x v y) ≠ [] →
      P ys (d.insert y (ws.filter (compatible slots x v y)))
        (forwardCheck slots x v p ys (d.insert y (ws.filter (compatible slots x v y)))) →
      P (y :: ys) d (forwardCheck slots x v p ys (d.insert y (ws.filter (compatible slots x v y)))))
    (ys : List SubjectId) (d : Domains) : P ys d (forwardCheck slots x v p ys d) := by
  induction ys generalizing d with
  | nil => exact nil d
  | cons y ys ih =>
    by_cases hskip : y = x ∨ y ∈ p ∨ d.get? y = none
    · rw [forwardCheck_cons_skip hskip]
      exact skip y ys d hskip (ih d)
    · simp only [not_or, ← ne_eq, Option.ne_none_iff_exists'] at hskip
      obtain ⟨hx, hp, ws, hd⟩ := hskip
      by_cases hkept : ws.filter (compatible slots x v y) = []
      · rw [forwardCheck_cons_empty hx hp hd hkept]
        exact stop y ys d ws hx hp hd hkept
      · rw [forwardCheck_cons hx hp hd hkept]
        exact go y ys d ws hx hp hd hkept (ih _)

/-- If `y` is present, it keeps a candidate. -/
def Keeps (slots : SlotIndex) (x : SubjectId) (v : Booking) (d : Domains) (y : SubjectId) : Prop :=
  ∀ ws, d.get? y = some ws → ∃ w ∈ ws, compatible slots x v y w = true

theorem keeps_insert {ws : List Booking} (hd : d.get? y = some ws) (z : SubjectId) :
    Keeps slots x v (d.insert y (ws.filter (compatible slots x v y))) z ↔ Keeps slots x v d z := by
  unfold Keeps
  by_cases hzy : z = y
  · subst hzy
    simp [hd]
  · simp only [Table.get?_insert_of_ne _ _ hzy]

/-- The check passes just when every listed subject without a booking keeps a candidate. -/
theorem forwardCheck_fst : (forwardCheck slots x v p ys d).1 = true ↔
    ∀ y ∈ ys, y ≠ x → ¬ y ∈ p → Keeps slots x v d y := by
  induction ys, d using forwardCheck_induction with
  | nil d => simp
  | skip y ys d hskip ih =>
    rw [ih, List.forall_mem_cons]
    refine ⟨fun h => ⟨fun hx hp ws hd => ?_, h⟩, And.right⟩
    rcases hskip with hs | hs | hs
    · exact absurd hs hx
    · exact absurd hs hp
    · rw [hs] at hd; cases hd
  | stop y ys d ws hx hp hd hkept =>
    refine iff_of_false (by simp) fun h => ?_
    obtain ⟨w, hw, hl⟩ := h y List.mem_cons_self hx hp ws hd
    exact List.filter_eq_nil_iff.1 hkept w hw hl
  | go y ys d ws hx hp hd hkept ih =>
    obtain ⟨w, hw⟩ := List.exists_mem_of_ne_nil _ hkept
    rw [ih, List.forall_mem_cons]
    simp only [keeps_insert hd]
    refine ⟨fun h => ⟨fun _ _ ws' hd' => ?_, h⟩, And.right⟩
    rw [hd] at hd'
    cases hd'
    exact ⟨w, List.mem_filter.1 hw⟩

/-- A check that passes has filtered every listed subject without a booking. -/
theorem get?_forwardCheck (h : (forwardCheck slots x v p ys d).1 = true) (z : SubjectId) :
    (forwardCheck slots x v p ys d).2.get? z =
      if z ∈ ys ∧ z ≠ x ∧ ¬ z ∈ p then (d.get? z).map (List.filter (compatible slots x v z))
      else d.get? z := by
  induction ys, d using forwardCheck_induction with
  | nil d => simp
  | skip y ys d hskip ih =>
    rw [ih h]
    by_cases hzy : z = y
    · subst hzy
      rcases hskip with hs | hs | hs <;> simp [hs]
    · simp [hzy]
  | stop y ys d ws hx hp hd hkept => cases h
  | go y ys d ws hx hp hd hkept ih =>
    rw [ih h]
    by_cases hzy : z = y
    · subst hzy
      simp [hx, hp, hd, List.filter_filter]
    · simp [hzy, Table.get?_insert_of_ne]

end Timetabling.Search
