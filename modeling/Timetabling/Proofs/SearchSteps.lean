import Timetabling.Proofs.ForwardCheck

/-!
# Induction over a search

`Search.explore` and `Search.tryEach` call each other through a function argument, thread one state
through all branches and carry a bound on the depth. `Stepwise c P Q` lists what a property `P` of
explorations, with a property `Q` of the trials inside them, has to satisfy at each step;
`Stepwise.explore` then gives `P` of every exploration that has depth enough. The steps may use that
a branch in which nothing was found is taken back without a trace (`explore_restores`).
-/

namespace Timetabling

theorem Schedule.unassigned_insert_lt {p : Schedule} {ids : List SubjectId} {x : SubjectId}
    (hx : x ∈ ids) (hp : ¬ x ∈ p) (v : Booking) :
    (Schedule.unassigned (p.insert x v) ids).length < (p.unassigned ids).length := by
  have hsplit : Schedule.unassigned (p.insert x v) ids =
      (p.unassigned ids).filter fun y => y ≠ x := by
    simp only [Schedule.unassigned, List.filter_filter, Table.mem_insert]
    refine List.filter_congr fun y _ => ?_
    by_cases hy : y = x <;> simp [hy]
  rw [hsplit]
  exact List.length_filter_lt_length_iff_exists.2
    ⟨x, Schedule.mem_unassigned.2 ⟨hx, hp⟩, by simp⟩

namespace Search

variable {c : Context} {s s' s₁ : State} {x : SubjectId} {v : Booking} {vs : List Booking}
  {d : Domains} {o : Outcome} {ex : State → Outcome × State}

/-! ### One trial -/

/-- Taking back a booking that emptied a domain leaves nothing but the counters changed. -/
theorem retract_wipeout (hx : ¬ x ∈ s.schedule) (v : Booking) (d : Domains) :
    (s.place x v d).countWipeout.retract x s.domains =
      { s with
        stats := { s.stats with
          wipeouts := s.stats.wipeouts + 1
          backtracks := s.stats.backtracks + 1 } } := by
  simp only [State.place, State.countWipeout, State.retract, Table.erase_insert v hx]

/-- Taking back a booking below which nothing was found leaves the counters and the largest schedule
seen. -/
theorem retract_of_restores (hx : ¬ x ∈ s.schedule) (hs : s₁.schedule = s.schedule.insert x v) :
    s₁.retract x s.domains =
      ⟨s.schedule, s.domains, s₁.best,
        { s₁.stats with backtracks := s₁.stats.backtracks + 1 }⟩ := by
  simp only [State.retract, hs, Table.erase_insert v hx]

theorem tryEach_reject (h : c.rules.admits c.slots x v s.schedule = false) :
    tryEach c ex x (v :: vs) s = tryEach c ex x vs s := by
  rw [tryEach, h]; rfl

theorem tryEach_wipeout (h : c.rules.admits c.slots x v s.schedule = true)
    (hf : forwardCheck c.slots x v (s.schedule.insert x v) c.ids s.domains = (false, d)) :
    tryEach c ex x (v :: vs) s =
      tryEach c ex x vs ((s.place x v d).countWipeout.retract x s.domains) := by
  rw [tryEach, if_pos h, hf]

theorem tryEach_giveUp (h : c.rules.admits c.slots x v s.schedule = true)
    (hf : forwardCheck c.slots x v (s.schedule.insert x v) c.ids s.domains = (true, d))
    (he : ex (s.place x v d) = (.exhausted, s₁)) :
    tryEach c ex x (v :: vs) s = tryEach c ex x vs (s₁.retract x s.domains) := by
  rw [tryEach, if_pos h, hf]
  simp only [he]

theorem tryEach_finish (h : c.rules.admits c.slots x v s.schedule = true)
    (hf : forwardCheck c.slots x v (s.schedule.insert x v) c.ids s.domains = (true, d))
    (he : (ex (s.place x v d)).1 ≠ .exhausted) :
    tryEach c ex x (v :: vs) s = ex (s.place x v d) := by
  rw [tryEach, if_pos h, hf]
  simp only
  split
  · next heq => rw [heq] at he; exact absurd rfl he
  · rfl

/-! ### All trials and explorations -/

/-- If nothing was found below `s`, the result has the schedule and the domains of `s`. -/
def Restores (s : State) (r : Outcome × State) : Prop :=
  r.1 = .exhausted → r.2.schedule = s.schedule ∧ r.2.domains = s.domains

structure Stepwise (c : Context) (P : State → Outcome → State → Prop)
    (Q : SubjectId → List Booking → State → Outcome → State → Prop) : Prop where
  expire : ∀ s, c.deadline.late s.stats.nodes = true → P s .timedOut s.record
  complete : ∀ s, c.deadline.late s.stats.nodes = false →
    s.domains.mostConstrained c.ids s.schedule = none →
    P s (.complete s.schedule) s.record.countNode
  branch : ∀ s x o s', c.deadline.late s.stats.nodes = false →
    s.domains.mostConstrained c.ids s.schedule = some x →
    Q x (s.domains.leastConstraining c.orderSlots c.ids s.schedule x) s.record.countNode o s' →
    P s o s'
  nil : ∀ x s, Q x [] s .exhausted s
  reject : ∀ x v vs s o s', ¬ x ∈ s.schedule → c.rules.admits c.slots x v s.schedule = false →
    Q x vs s o s' → Q x (v :: vs) s o s'
  wipeout : ∀ x v vs s d o s', ¬ x ∈ s.schedule →
    c.rules.admits c.slots x v s.schedule = true →
    forwardCheck c.slots x v (s.schedule.insert x v) c.ids s.domains = (false, d) →
    Q x vs { s with
      stats := { s.stats with
        wipeouts := s.stats.wipeouts + 1
        backtracks := s.stats.backtracks + 1 } } o s' →
    Q x (v :: vs) s o s'
  giveUp : ∀ x v vs s d s₁ o s', ¬ x ∈ s.schedule →
    c.rules.admits c.slots x v s.schedule = true →
    forwardCheck c.slots x v (s.schedule.insert x v) c.ids s.domains = (true, d) →
    P (s.place x v d) .exhausted s₁ →
    Q x vs ⟨s.schedule, s.domains, s₁.best,
      { s₁.stats with backtracks := s₁.stats.backtracks + 1 }⟩ o s' →
    Q x (v :: vs) s o s'
  finish : ∀ x v vs s d o s', ¬ x ∈ s.schedule →
    c.rules.admits c.slots x v s.schedule = true →
    forwardCheck c.slots x v (s.schedule.insert x v) c.ids s.domains = (true, d) →
    o ≠ .exhausted → P (s.place x v d) o s' → Q x (v :: vs) s o s'

namespace Stepwise

variable {P : State → Outcome → State → Prop}
  {Q : SubjectId → List Booking → State → Outcome → State → Prop}

theorem tryEach (h : Stepwise c P Q) (hx : ¬ x ∈ s.schedule)
    (hex : ∀ s₁ v, s₁.schedule = s.schedule.insert x v →
      P s₁ (ex s₁).1 (ex s₁).2 ∧ Restores s₁ (ex s₁)) :
    Q x vs s (Search.tryEach c ex x vs s).1 (Search.tryEach c ex x vs s).2 ∧
      Restores s (Search.tryEach c ex x vs s) := by
  induction vs generalizing s with
  | nil => exact ⟨h.nil x s, fun _ => ⟨rfl, rfl⟩⟩
  | cons v vs ih =>
    cases ha : c.rules.admits c.slots x v s.schedule with
    | false =>
      rw [tryEach_reject ha]
      obtain ⟨hQ, hR⟩ := ih hx hex
      exact ⟨h.reject x v vs s _ _ hx ha hQ, hR⟩
    | true =>
      rcases hf : forwardCheck c.slots x v (s.schedule.insert x v) c.ids s.domains with ⟨b, d⟩
      cases b with
      | false =>
        rw [tryEach_wipeout ha hf, retract_wipeout hx]
        obtain ⟨hQ, hR⟩ := ih (s := { s with
          stats := { s.stats with
            wipeouts := s.stats.wipeouts + 1
            backtracks := s.stats.backtracks + 1 } }) hx hex
        exact ⟨h.wipeout x v vs s d _ _ hx ha hf hQ, hR⟩
      | true =>
        obtain ⟨hP, hback⟩ := hex (s.place x v d) v rfl
        by_cases he : (ex (s.place x v d)).1 = .exhausted
        · obtain ⟨hs, -⟩ := hback he
          rw [he] at hP
          rw [tryEach_giveUp ha hf (Prod.ext he rfl), retract_of_restores hx hs]
          obtain ⟨hQ, hR⟩ := ih (s := ⟨s.schedule, s.domains, (ex (s.place x v d)).2.best,
            { (ex (s.place x v d)).2.stats with
              backtracks := (ex (s.place x v d)).2.stats.backtracks + 1 }⟩) hx hex
          exact ⟨h.giveUp x v vs s d _ _ _ hx ha hf hP hQ, hR⟩
        · rw [tryEach_finish ha hf he]
          exact ⟨h.finish x v vs s d _ _ hx ha hf he hP, fun h => absurd h he⟩

end Stepwise

/-! ### A branch without success -/

theorem stepwise_true (c : Context) :
    Stepwise c (fun _ _ _ => True) (fun _ _ _ _ _ => True) := by
  constructor <;> intros <;> trivial

theorem tryEach_restores (hx : ¬ x ∈ s.schedule) (hex : ∀ s₁, Restores s₁ (ex s₁)) :
    Restores s (tryEach c ex x vs s) :=
  ((stepwise_true c).tryEach hx fun s₁ _ _ => ⟨trivial, hex s₁⟩).2

theorem visit_of_late (h : c.deadline.late s.stats.nodes = true) :
    visit c ex s = (.timedOut, s.record) := by
  rw [visit, if_pos h]

theorem visit_of_none (h : c.deadline.late s.stats.nodes = false)
    (hm : s.domains.mostConstrained c.ids s.schedule = none) :
    visit c ex s = (.complete s.schedule, s.record.countNode) := by
  rw [visit, h, hm]
  rfl

theorem visit_of_some (h : c.deadline.late s.stats.nodes = false)
    (hm : s.domains.mostConstrained c.ids s.schedule = some x) :
    visit c ex s = tryEach c ex x
      (s.domains.leastConstraining c.orderSlots c.ids s.schedule x) s.record.countNode := by
  rw [visit, h, hm]
  rfl

theorem run_of_late (hl : c.deadline.late 0 = true) (d : Domains) :
    run c d = (.timedOut, State.start d) :=
  visit_of_late (s := State.start d) hl

theorem run_of_none (hl : c.deadline.late 0 = false) (hm : d.mostConstrained c.ids ∅ = none) :
    run c d = (.complete ∅, (State.start d).countNode) :=
  visit_of_none (s := State.start d) hl hm

theorem visit_restores (hex : ∀ s₁, Restores s₁ (ex s₁)) : Restores s (visit c ex s) := by
  cases hl : c.deadline.late s.stats.nodes with
  | true =>
    rw [visit_of_late hl]
    exact fun h => (nomatch h)
  | false =>
    cases hm : s.domains.mostConstrained c.ids s.schedule with
    | none =>
      rw [visit_of_none hl hm]
      exact fun h => (nomatch h)
    | some x =>
      obtain ⟨-, hx⟩ := Domains.unassigned_of_mostConstrained hm
      rw [visit_of_some hl hm]
      exact tryEach_restores (s := s.record.countNode) hx hex

/-- Whatever the depth, whenever the deadline comes, and wherever the search stands. -/
theorem explore_restores (c : Context) (depth : Nat) (s : State) :
    Restores s (explore c depth s) := by
  induction depth generalizing s with
  | zero => exact fun h => (nomatch h)
  | succ depth ih => exact visit_restores ih

/-! ### All explorations -/

/-- What each step keeps true is true of every exploration with depth enough. -/
theorem Stepwise.explore {P : State → Outcome → State → Prop}
    {Q : SubjectId → List Booking → State → Outcome → State → Prop} (h : Stepwise c P Q)
    {depth : Nat} (hd : (s.schedule.unassigned c.ids).length < depth) :
    P s (Search.explore c depth s).1 (Search.explore c depth s).2 := by
  induction depth generalizing s with
  | zero => exact absurd hd (Nat.not_lt_zero _)
  | succ depth ih =>
    rw [Search.explore]
    cases hl : c.deadline.late s.stats.nodes with
    | true =>
      rw [visit_of_late hl]
      exact h.expire s hl
    | false =>
      cases hm : s.domains.mostConstrained c.ids s.schedule with
      | none =>
        rw [visit_of_none hl hm]
        exact h.complete s hl hm
      | some x =>
        obtain ⟨hx, hxp⟩ := Domains.unassigned_of_mostConstrained hm
        have hex : ∀ s₁ v, s₁.schedule = s.schedule.insert x v →
            P s₁ (Search.explore c depth s₁).1 (Search.explore c depth s₁).2 := by
          intro s₁ v hs₁
          refine ih ?_
          have := Schedule.unassigned_insert_lt hx hxp v
          rw [hs₁]
          omega
        rw [visit_of_some hl hm]
        refine h.branch s x _ _ hl hm ?_
        exact (h.tryEach (s := s.record.countNode) hxp
          fun s₁ v hs₁ => ⟨hex s₁ v hs₁, explore_restores c depth s₁⟩).1

end Search

end Timetabling
