import Mathlib.Algebra.BigOperators.Group.List.Basic
import Mathlib.Algebra.Order.Monoid.Unbundled.WithTop
import Timetabling.Proofs.SearchInvariant

/-!
# What an exploration costs

`survey` foretells an exploration without a deadline from its schedule and its domains alone: the
counters that it adds if nothing is found, and `⊤` if a complete schedule is. The trials at one
subject add up, so their order does not matter, and the slots that the order of candidates looks at
do not occur. `run_ends` is the comparison with the search itself.
-/

namespace Timetabling.Search

namespace Stats

instance : Add Stats where
  add a b := ⟨a.nodes + b.nodes, a.backtracks + b.backtracks, a.wipeouts + b.wipeouts,
    max a.maxDepth b.maxDepth⟩

instance : Zero Stats := ⟨{}⟩

@[ext] theorem ext {a b : Stats} (hn : a.nodes = b.nodes) (hb : a.backtracks = b.backtracks)
    (hw : a.wipeouts = b.wipeouts) (hd : a.maxDepth = b.maxDepth) : a = b := by
  cases a; cases b; simp_all

theorem add_def (a b : Stats) : a + b = ⟨a.nodes + b.nodes, a.backtracks + b.backtracks,
    a.wipeouts + b.wipeouts, max a.maxDepth b.maxDepth⟩ := rfl

theorem zero_def : (0 : Stats) = {} := rfl

/-- One node at the depth of `p`. -/
def node (p : Schedule) : Stats := { nodes := 1, maxDepth := p.size }

/-- A booking taken back. -/
def backtrack : Stats := { backtracks := 1 }

/-- A booking that empties a domain. -/
def wipeout : Stats := { wipeouts := 1 }

/-- Numbers add up; of two depths the greater counts. -/
instance : AddCommMonoid Stats where
  add_assoc a b c := by
    simp only [add_def, Nat.add_assoc, Nat.max_assoc]
  zero_add a := by simp [add_def, zero_def]
  add_zero a := by simp [add_def, zero_def]
  add_comm a b := by
    simp only [add_def, Nat.add_comm, Nat.max_comm]
  nsmul := nsmulRec

theorem add_backtrack (a : Stats) : a + backtrack = { a with backtracks := a.backtracks + 1 } := by
  simp [add_def, backtrack]

theorem add_wipeout_backtrack (a : Stats) : a + (wipeout + backtrack) =
    { a with wipeouts := a.wipeouts + 1, backtracks := a.backtracks + 1 } := by
  simp [add_def, backtrack, wipeout]

end Stats

variable {c : Context} {p : Schedule} {d d' d₀ : Domains} {x : SubjectId} {v : Booking}
  {below : Domains → WithTop Stats}

/-- What it costs to try `v` for `x`, if `below` says what the branch below costs. -/
def trial (c : Context) (p : Schedule) (d : Domains) (x : SubjectId) (v : Booking)
    (below : Domains → WithTop Stats) : WithTop Stats :=
  if c.rules.admits c.slots x v p then
    match forwardCheck c.slots x v (p.insert x v) c.ids d with
    | (false, _) => ↑(Stats.wipeout + Stats.backtrack)
    | (true, d') => below d' + Stats.backtrack
  else 0

/-- What it costs to explore below `p` and `d`. -/
def survey (c : Context) (p : Schedule) (d : Domains) : WithTop Stats :=
  match _h : d.mostConstrained c.ids p with
  | none => ⊤
  | some x =>
    Stats.node p +
      ((d.candidates x).map fun v => trial c p d x v fun d' => survey c (p.insert x v) d').sum
termination_by (p.unassigned c.ids).length
decreasing_by
  obtain ⟨hx, hp⟩ := Domains.unassigned_of_mostConstrained _h
  exact Schedule.unassigned_insert_lt hx hp v

theorem survey_of_none (h : d.mostConstrained c.ids p = none) : survey c p d = ⊤ := by
  rw [survey]
  split
  · rfl
  · next h' => rw [h] at h'; cases h'

theorem survey_of_some (h : d.mostConstrained c.ids p = some x) : survey c p d = Stats.node p +
    ((d.candidates x).map fun v => trial c p d x v (survey c (p.insert x v))).sum := by
  rw [survey]
  split
  · next h' => rw [h] at h'; cases h'
  · next h' => rw [h] at h'; cases h'; rfl

theorem trial_reject (h : c.rules.admits c.slots x v p = false) : trial c p d x v below = 0 := by
  simp [trial, h]

theorem trial_wipeout (h : c.rules.admits c.slots x v p = true)
    (hf : forwardCheck c.slots x v (p.insert x v) c.ids d = (false, d')) :
    trial c p d x v below = ↑(Stats.wipeout + Stats.backtrack) := by
  simp only [trial, if_pos h, hf]

theorem trial_descend (h : c.rules.admits c.slots x v p = true)
    (hf : forwardCheck c.slots x v (p.insert x v) c.ids d = (true, d')) :
    trial c p d x v below = below d' + Stats.backtrack := by
  simp only [trial, if_pos h, hf]

/-! ### The search ends as foretold -/

/-- An exploration or a row of trials that costs `k`. -/
def Ends (k : WithTop Stats) (s : State) (o : Outcome) (s' : State) : Prop :=
  (∃ δ : Stats, k = δ ∧ o = .exhausted ∧ s'.stats = s.stats + δ) ∨
    (k = ⊤ ∧ ∃ t, o = .complete t)

namespace Ends

variable {k : WithTop Stats} {s s₀ s' : State} {o : Outcome}

/-- A part of the cost that has been paid before. -/
theorem add {a : Stats} (h : Ends k s₀ o s') (hs : s₀.stats = s.stats + a) :
    Ends (a + k) s o s' := by
  rcases h with ⟨δ, rfl, ho, hs'⟩ | ⟨rfl, ht⟩
  · exact .inl ⟨a + δ, rfl, ho, by rw [hs', hs, add_assoc]⟩
  · exact .inr ⟨WithTop.add_top _, ht⟩

end Ends

theorem ends_stepwise (hc : c.deadline = .never) : Stepwise c
    (fun s => Ends (survey c s.schedule s.domains) s)
    (fun x vs s => Ends (vs.map fun v =>
      trial c s.schedule s.domains x v (survey c (s.schedule.insert x v))).sum s) where
  expire s h := by rw [hc] at h; cases h
  complete s _ hm := .inr ⟨survey_of_none hm, _, rfl⟩
  branch s x o s' _ hm h := by
    rw [survey_of_some hm]
    -- the trials come in an order of their own; their sum does not depend on it
    have hperm := (Domains.leastConstraining_perm c.orderSlots s.domains c.ids s.schedule x).map
      fun v => trial c s.schedule s.domains x v (survey c (s.schedule.insert x v))
    rw [← hperm.sum_eq]
    exact h.add rfl
  nil x s := .inl ⟨0, rfl, rfl, (add_zero _).symm⟩
  reject x v vs s o s' _ ha h := by
    rw [List.map_cons, List.sum_cons, trial_reject ha, zero_add]
    exact h
  wipeout x v vs s d o s' _ ha hf h := by
    rw [List.map_cons, List.sum_cons, trial_wipeout ha hf]
    exact h.add (Stats.add_wipeout_backtrack _).symm
  giveUp x v vs s d s₁ o s' _ ha hf hP h := by
    rw [List.map_cons, List.sum_cons, trial_descend ha hf]
    rcases hP with ⟨δ, hk, -, hs₁⟩ | ⟨-, t, ht⟩
    · rw [State.place] at hk
      rw [hk, ← WithTop.coe_add]
      refine h.add ?_
      rw [← add_assoc, Stats.add_backtrack, hs₁]
      rfl
    · cases ht
  finish x v vs s d o s' _ ha hf ho hP := by
    rcases hP with ⟨δ, -, he, -⟩ | ⟨hk, ht⟩
    · exact absurd he ho
    · refine .inr ⟨?_, ht⟩
      rw [List.map_cons, List.sum_cons, trial_descend ha hf]
      rw [State.place] at hk
      rw [hk, WithTop.top_add, WithTop.top_add]

theorem run_ends (hc : c.deadline = .never) (d₀ : Domains) :
    Ends (survey c ∅ d₀) (State.start d₀) (run c d₀).1 (run c d₀).2 :=
  (ends_stepwise hc).explore (unassigned_start_lt c d₀)

end Timetabling.Search
