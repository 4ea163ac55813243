import Timetabling.Proofs.Calls
import Timetabling.Proofs.CandidateOrder
import Timetabling.Proofs.Counters

/-!
# How large a search can grow

Each booking takes one subject off those that wait for one, however often that subject is listed. So
no branch is longer than there are subjects: more depth than subjects waiting makes no difference
(`explore_deep`), and there are no more nodes than in a full tree of that depth, with a branch for
each candidate (`nodes_stepwise`).
-/

namespace Timetabling

/-- How many of the listed subjects have no booking, each counted once. -/
def Schedule.waiting (p : Schedule) (ids : List SubjectId) : ℕ := (p.unassigned ids).toFinset.card

namespace Schedule

variable {p : Schedule} {ids : List SubjectId} {x : SubjectId}

theorem waiting_empty (ids : List SubjectId) : Schedule.waiting ∅ ids = ids.toFinset.card := by
  simp [waiting, unassigned]

theorem waiting_insert (hx : x ∈ ids) (hp : ¬ x ∈ p) (v : Booking) :
    Schedule.waiting (p.insert x v) ids + 1 = p.waiting ids := by
  have hset : (Schedule.unassigned (p.insert x v) ids).toFinset =
      (p.unassigned ids).toFinset.erase x := by
    ext y
    simp only [List.mem_toFinset, Finset.mem_erase, mem_unassigned, Table.mem_insert, not_or]
    tauto
  rw [waiting, hset]
  exact Finset.card_erase_add_one (List.mem_toFinset.2 (mem_unassigned.2 ⟨hx, hp⟩))

end Schedule

namespace Domains

/-- The most candidates that a listed subject has. -/
def widest (d : Domains) (ids : List SubjectId) : ℕ :=
  ids.toFinset.sup fun x => (d.candidates x).length

/-- No listed subject has more than `m` candidates. -/
def Within (d : Domains) (ids : List SubjectId) (m : ℕ) : Prop :=
  ∀ x ∈ ids, (d.candidates x).length ≤ m

theorem within_widest (d : Domains) (ids : List SubjectId) : d.Within ids (d.widest ids) :=
  fun _ hx => Finset.le_sup (f := fun x => (d.candidates x).length) (List.mem_toFinset.2 hx)

theorem Within.narrows {d d' : Domains} {ids : List SubjectId} {m : ℕ} (h : d.Within ids m)
    (hn : d.Narrows d') : d'.Within ids m :=
  fun x hx => (hn.sublist x).length_le.trans (h x hx)

end Domains

namespace Search

variable {c : Context} {s : State} {d d₀ : Domains} {p : Schedule} {x : SubjectId} {v : Booking}
  {depth : ℕ} {t u : State}

/-! ### Depth -/

theorem waiting_of_descent (ha : Attempt c (explore c depth) s x v t) :
    (t.place x v d).schedule.waiting c.ids + 1 = s.schedule.waiting c.ids := by
  obtain ⟨hx, hxs⟩ := Domains.unassigned_of_mostConstrained ha.next
  obtain ⟨hts, -⟩ := ha.restored (explore_restores c depth)
  rw [State.place, hts]
  exact Schedule.waiting_insert hx hxs v

/-- More depth than there are subjects waiting is never used. -/
theorem explore_deep {depth' : ℕ} (h : s.schedule.waiting c.ids < depth)
    (h' : s.schedule.waiting c.ids < depth') : explore c depth s = explore c depth' s := by
  induction depth generalizing s depth' with
  | zero => omega
  | succ depth ih =>
    cases depth' with
    | zero => omega
    | succ depth' =>
      refine visit_congr fun _ x v t d ha _ => ?_
      have hlt := waiting_of_descent (d := d) ha
      exact ih (by omega) (by omega)

/-- At every call, there is more depth left than there are subjects waiting. -/
theorem Called.waiting_lt (h : Called c d₀ depth s) : s.schedule.waiting c.ids < depth :=
  (List.toFinset_card_le _).trans_lt h.unassigned_lt

/-- Each subject has its booking or waits for it. -/
theorem Reached.size_add_waiting (h : Reached c d₀ p d) :
    p.size + p.waiting c.ids = c.ids.toFinset.card := by
  induction h with
  | start => simp [Schedule.waiting_empty]
  | @step p d d' x v _ hx _ _ _ ih =>
    obtain ⟨hxi, hxp⟩ := Domains.unassigned_of_mostConstrained hx
    have hlt := Schedule.waiting_insert hxi hxp v
    rw [Table.size_insert_of_not_mem v hxp]
    omega

theorem maxDepth_run_le (c : Context) (d₀ : Domains) :
    (run c d₀).2.stats.maxDepth ≤ c.ids.toFinset.card := by
  obtain ⟨⟨d, hd⟩, hsize⟩ := (run_yields c d₀).recorded
  have := hd.size_add_waiting
  omega

/-! ### Nodes -/

/-- The nodes of a tree of depth `n` with `m` branches everywhere. -/
def treeSize (m n : ℕ) : ℕ := ∑ k ∈ Finset.range (n + 1), m ^ k

theorem treeSize_succ (m n : ℕ) : treeSize m (n + 1) = 1 + m * treeSize m n := by
  rw [treeSize, geom_sum_succ, add_comm]
  rfl

theorem one_le_treeSize (m n : ℕ) : 1 ≤ treeSize m n := by
  cases n with
  | zero => simp [treeSize]
  | succ n => rw [treeSize_succ]; omega

/-- No more nodes than in a tree with `m` branches for each subject that waits in `s`. -/
def Bounded (c : Context) (m : ℕ) (s s' : State) : Prop :=
  s.domains.Within c.ids m →
    s'.stats.nodes ≤ s.stats.nodes + treeSize m (s.schedule.waiting c.ids)

/-- A booking narrows the domains and leaves one subject less to wait. -/
theorem Bounded.of_place {m n : ℕ} {s' : State} (h : Bounded c m (s.place x v d) s')
    (hx : x ∈ c.ids) (hxs : ¬ x ∈ s.schedule)
    (hf : forwardCheck c.slots x v (s.schedule.insert x v) c.ids s.domains = (true, d))
    (hd : s.domains.Within c.ids m) (hn : s.schedule.waiting c.ids = n + 1) :
    s'.stats.nodes ≤ s.stats.nodes + treeSize m n := by
  have hnarrows := narrows_forwardCheck c.slots x v (s.schedule.insert x v) c.ids s.domains
  rw [hf] at hnarrows
  have hwait : Schedule.waiting (s.schedule.insert x v) c.ids = n := by
    have := Schedule.waiting_insert hx hxs v
    omega
  have hbelow := h (hd.narrows hnarrows)
  simp only [State.place, hwait] at hbelow
  exact hbelow

/-- A row of trials has no more nodes than one tree of a subject less for each. -/
theorem nodes_stepwise (c : Context) (m : ℕ) : Stepwise c
    (fun s _ s' => Bounded c m s s')
    (fun x vs s _ s' => x ∈ c.ids → s.domains.Within c.ids m → ∀ n,
      s.schedule.waiting c.ids = n + 1 →
      s'.stats.nodes ≤ s.stats.nodes + vs.length * treeSize m n) where
  expire s _ _ := Nat.le_add_right _ _
  complete s _ _ _ := by
    have := one_le_treeSize m (s.schedule.waiting c.ids)
    simp only [State.countNode, State.record]
    omega
  branch s x o s' _ hm ih hd := by
    obtain ⟨hx, hxs⟩ := Domains.unassigned_of_mostConstrained hm
    have hwait := Schedule.waiting_insert hx hxs default
    have htrials := ih hx hd _ hwait.symm
    rw [(Domains.leastConstraining_perm _ _ _ _ _).length_eq] at htrials
    have hwide := Nat.mul_le_mul_right
      (treeSize m (Schedule.waiting (s.schedule.insert x default) c.ids)) (hd x hx)
    rw [← hwait, treeSize_succ]
    simp only [State.countNode, State.record] at htrials
    omega
  nil x s _ _ n _ := by simp
  reject x v vs s o s' _ _ ih hx hd n hn := by
    have := ih hx hd n hn
    rw [List.length_cons, Nat.succ_mul]
    omega
  wipeout x v vs s d o s' _ _ _ ih hx hd n hn := by
    have : s'.stats.nodes ≤ s.stats.nodes + vs.length * treeSize m n := ih hx hd n hn
    rw [List.length_cons, Nat.succ_mul]
    omega
  giveUp x v vs s d s₁ o s' hxs _ hf hP ih hx hd n hn := by
    have hbelow := hP.of_place hx hxs hf hd hn
    have hrest : s'.stats.nodes ≤ s₁.stats.nodes + vs.length * treeSize m n := ih hx hd n hn
    rw [List.length_cons, Nat.succ_mul]
    omega
  finish x v vs s d o s' hxs _ hf _ hP hx hd n hn := by
    have hbelow := hP.of_place hx hxs hf hd hn
    rw [List.length_cons, Nat.succ_mul]
    omega

theorem nodes_run_le (c : Context) (d₀ : Domains) :
    (run c d₀).2.stats.nodes ≤ treeSize (d₀.widest c.ids) c.ids.toFinset.card := by
  have h := (nodes_stepwise c (d₀.widest c.ids)).explore (unassigned_start_lt c d₀)
    (d₀.within_widest c.ids)
  rw [State.start, Schedule.waiting_empty] at h
  exact h.trans_eq (Nat.zero_add _)

end Search

namespace Solver

open Search

/-- The search of a run comes to an end: more depth than there are subjects makes no difference to
it, and without a deadline it is not cut short. At every call there is depth left, and the calls
below it have one subject less to book. So, whenever the deadline comes, it is no deeper than there
are subjects, and it has no more nodes than a full tree of that depth with a branch for each
candidate of the subject that has the most of them after arc consistency. -/
theorem run_bounded (s : Solver) :
    (∀ deadline depth, s.problem.ids.toFinset.card < depth →
      explore (s.context deadline) depth (State.start s.narrowed) = s.search deadline) ∧
    (s.search .never).1 ≠ .timedOut ∧
    (∀ deadline depth t, Called (s.context deadline) s.narrowed depth t →
      t.schedule.waiting s.problem.ids < depth ∧
      ∀ below x v u d, depth = below + 1 →
        Attempt (s.context deadline) (explore (s.context deadline) below) t x v u →
        Descends (s.context deadline) x v u d →
        (u.place x v d).schedule.waiting s.problem.ids < t.schedule.waiting s.problem.ids) ∧
    ∀ deadline, (s.run deadline).2.stats.maxDepth ≤ s.problem.ids.toFinset.card ∧
      (s.run deadline).2.stats.nodes ≤ ∑ k ∈ Finset.range (s.problem.ids.toFinset.card + 1),
        s.narrowed.widest s.problem.ids ^ k := by
  have hstart : (State.start s.narrowed).schedule.waiting s.problem.ids =
      s.problem.ids.toFinset.card := Schedule.waiting_empty _
  refine ⟨fun deadline depth hdepth => ?_, (run_grows rfl s.narrowed).inTime,
    fun deadline depth t ht => ?_, fun deadline => ?_⟩
  · refine explore_deep (c := s.context deadline) (hstart.trans_lt hdepth) (hstart.trans_lt ?_)
    exact Nat.lt_succ_of_le (List.toFinset_card_le _)
  · refine ⟨ht.waiting_lt, fun below x v u d _ ha _ => ?_⟩
    exact Nat.lt_of_succ_le (waiting_of_descent ha).le
  · cases hp : s.propagated.outcome with
    | error x => simp [run_of_error hp]
    | ok tally =>
      rw [run_of_ok hp]
      exact ⟨maxDepth_run_le _ _, nodes_run_le _ _⟩

end Solver

end Timetabling
