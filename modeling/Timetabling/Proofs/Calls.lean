import Timetabling.Proofs.Soundness

/-!
# The calls of a search

`Called c d₀ depth s`: a search that sets out with the domains `d₀` comes to explore the state `s`.
It does so through an `Attempt` at a candidate, in the state that the attempts before it have left
behind; there are no other calls (`visit_congr`). That state has the schedule and the domains with
which the exploration began, since a branch without success is taken back in full
(`explore_leaves_no_trace`), and so `Reached` describes all calls. What holds at each of them is
`Consistent`: on top of `Fits`, no subject without a booking has run out of candidates, and the gate
turns a candidate away for what it is in itself, never for a clash.
-/

namespace Timetabling

namespace Search

variable {c : Context} {d₀ d : Domains} {depth : Nat} {s t : State}
  {x : SubjectId} {v : Booking} {vs : List Booking} {p : Schedule}
  {ex ex' : State → Outcome × State}

/-- Exploring `s` comes to the turn of candidate `v` of subject `x`, in the state `t`: those
before it have been tried without success. What is below is explored by `ex`. -/
structure Attempt (c : Context) (ex : State → Outcome × State) (s : State) (x : SubjectId)
    (v : Booking) (t : State) : Prop where
  next : s.domains.mostConstrained c.ids s.schedule = some x
  turn : ∃ before after,
    s.domains.leastConstraining c.orderSlots c.ids s.schedule x = before ++ v :: after ∧
      tryEach c ex x before s.record.countNode = (.exhausted, t)

/-- In the state `t`, booking `v` for `x` passes the gate and the forward check, which leaves the
domains `d`. -/
structure Descends (c : Context) (x : SubjectId) (v : Booking) (t : State) (d : Domains) :
    Prop where
  admitted : c.rules.admits c.slots x v t.schedule = true
  checked : forwardCheck c.slots x v (t.schedule.insert x v) c.ids t.domains = (true, d)

inductive Called (c : Context) (d₀ : Domains) : Nat → State → Prop
  | start : Called c d₀ (c.ids.length + 1) (State.start d₀)
  | step {depth : Nat} {s t : State} {x : SubjectId} {v : Booking} {d : Domains}
      (h : Called c d₀ (depth + 1) s) (hl : c.deadline.late s.stats.nodes = false)
      (ha : Attempt c (explore c depth) s x v t) (hd : Descends c x v t d) :
      Called c d₀ depth (t.place x v d)

/-! ### No other calls -/

theorem tryEach_congr (h : ∀ before v after t d, vs = before ++ v :: after →
    tryEach c ex x before s = (.exhausted, t) → Descends c x v t d →
    ex' (t.place x v d) = ex (t.place x v d)) :
    tryEach c ex' x vs s = tryEach c ex x vs s := by
  induction vs generalizing s with
  | nil => rfl
  | cons v vs ih =>
    -- wherever the first trial goes on to, the attempts from there are attempts from `s`
    have tail : ∀ s', (∀ ws, tryEach c ex x (v :: ws) s = tryEach c ex x ws s') →
        tryEach c ex' x vs s' = tryEach c ex x vs s' := by
      intro s' hs'
      refine ih fun before w after t d hvs ht hd => ?_
      exact h (v :: before) w after t d (by rw [hvs]; rfl) ((hs' before).trans ht) hd
    cases ha : c.rules.admits c.slots x v s.schedule with
    | false =>
      rw [tryEach_reject ha, tryEach_reject ha]
      exact tail _ fun ws => tryEach_reject ha
    | true =>
      rcases hf : forwardCheck c.slots x v (s.schedule.insert x v) c.ids s.domains with ⟨b, d⟩
      cases b with
      | false =>
        rw [tryEach_wipeout ha hf, tryEach_wipeout ha hf]
        exact tail _ fun ws => tryEach_wipeout ha hf
      | true =>
        have hex : ex' (s.place x v d) = ex (s.place x v d) := h [] v vs s d rfl rfl ⟨ha, hf⟩
        by_cases he : (ex (s.place x v d)).1 = .exhausted
        · have he' : ex (s.place x v d) = (.exhausted, (ex (s.place x v d)).2) := Prod.ext he rfl
          rw [tryEach_giveUp ha hf he', tryEach_giveUp ha hf (hex.trans he')]
          exact tail _ fun ws => tryEach_giveUp ha hf he'
        · rw [tryEach_finish ha hf he, tryEach_finish ha hf (by rwa [hex]), hex]

/-- An exploration looks below only in the states that its attempts hand down: any function that
agrees there with `ex` will do in its place. -/
theorem visit_congr (h : c.deadline.late s.stats.nodes = false → ∀ x v t d,
    Attempt c ex s x v t → Descends c x v t d → ex' (t.place x v d) = ex (t.place x v d)) :
    visit c ex' s = visit c ex s := by
  cases hl : c.deadline.late s.stats.nodes with
  | true => rw [visit_of_late hl, visit_of_late hl]
  | false =>
    cases hx : s.domains.mostConstrained c.ids s.schedule with
    | none => rw [visit_of_none hl hx, visit_of_none hl hx]
    | some x =>
      rw [visit_of_some hl hx, visit_of_some hl hx]
      refine tryEach_congr fun before v after t d hvs ht hd => ?_
      exact h hl x v t d ⟨hx, before, after, hvs, ht⟩ hd

theorem Called.visit_eq (h : Called c d₀ (depth + 1) s)
    (hex : ∀ t, Called c d₀ depth t → ex t = explore c depth t) :
    visit c ex s = explore c (depth + 1) s :=
  visit_congr fun hl _ _ _ _ ha hd => hex _ (h.step hl ha hd)

/-! ### No trace of a failure -/

theorem Attempt.mem_candidates (h : Attempt c ex s x v t) : v ∈ s.domains.candidates x := by
  obtain ⟨before, after, hvs, -⟩ := h.turn
  rw [← (Domains.leastConstraining_perm c.orderSlots _ c.ids s.schedule _).mem_iff, hvs]
  simp

theorem Attempt.restored (hex : ∀ s₁, Restores s₁ (ex s₁)) (h : Attempt c ex s x v t) :
    t.schedule = s.schedule ∧ t.domains = s.domains := by
  obtain ⟨-, hx⟩ := Domains.unassigned_of_mostConstrained h.next
  obtain ⟨before, after, -, ht⟩ := h.turn
  have hback : Restores s.record.countNode (tryEach c ex x before s.record.countNode) :=
    tryEach_restores hx hex
  rw [ht] at hback
  exact hback rfl

/-- Where an exploration has found nothing, schedule and domains are those that it was given. So
they are, too, at each of its attempts, whatever came of the ones before. -/
theorem explore_leaves_no_trace (c : Context) (depth : Nat) (s : State) :
    ((explore c depth s).1 = .exhausted →
      (explore c depth s).2.schedule = s.schedule ∧ (explore c depth s).2.domains = s.domains) ∧
    ∀ x v t, Attempt c (explore c depth) s x v t →
      t.schedule = s.schedule ∧ t.domains = s.domains :=
  ⟨explore_restores c depth s, fun _ _ _ h => h.restored (explore_restores c depth)⟩

/-- Three subjects. The one booking of the third that stands in nobody's way has a teacher who is
away. -/
def stranded : Context where
  ids := [1, 2, 3]
  slots := SlotIndex.ofSlots [⟨1, 0, 1, 2⟩, ⟨2, 0, 2, 3⟩]
  orderSlots := SlotIndex.ofSlots [⟨1, 0, 1, 2⟩, ⟨2, 0, 2, 3⟩]
  rules := Rulebook.ofRecords [⟨8, "Alan", [], 8, [2]⟩] []
  deadline := .never

def strandedDomains : Domains := Table.ofList [
  (1, [⟨7, 100, 1⟩, ⟨7, 100, 2⟩]),
  (2, [⟨7, 101, 1⟩, ⟨7, 101, 2⟩]),
  (3, [⟨8, 100, 1⟩, ⟨7, 102, 1⟩])]

/-- The candidate in slot 2 comes first and fails below. Then the forward check of the one in slot 1
has filtered the domain of subject 2 by the time it empties that of subject 3. -/
theorem explore_leaves_no_trace_stranded :
    let s := State.start strandedDomains
    forwardCheck stranded.slots 1 ⟨7, 100, 1⟩ (Table.insert ∅ 1 ⟨7, 100, 1⟩) stranded.ids
        strandedDomains = (false, Table.ofList [
          (1, [⟨7, 100, 1⟩, ⟨7, 100, 2⟩]), (2, [⟨7, 101, 2⟩]), (3, [])]) ∧
      (∃ t, Attempt stranded (explore stranded 3) s 1 ⟨7, 100, 1⟩ t ∧ t.stats.backtracks = 2 ∧
        t.schedule = ∅ ∧ t.domains = strandedDomains) ∧
      (explore stranded 4 s).1 = .exhausted ∧ (explore stranded 4 s).2.stats.backtracks = 3 ∧
      (explore stranded 4 s).2.schedule = ∅ ∧
      (explore stranded 4 s).2.domains = strandedDomains := by
  intro s
  have hturn : Attempt stranded (explore stranded 3) s 1 ⟨7, 100, 1⟩
      (tryEach stranded (explore stranded 3) 1 [⟨7, 100, 2⟩] s.record.countNode).2 :=
    ⟨by cbv, [⟨7, 100, 2⟩], [], by cbv, Prod.ext (by cbv) rfl⟩
  have hex : (explore stranded 4 s).1 = .exhausted := by cbv
  obtain ⟨ht, htd⟩ := (explore_leaves_no_trace stranded 3 s).2 _ _ _ hturn
  obtain ⟨hs, hsd⟩ := (explore_leaves_no_trace stranded 4 s).1 hex
  exact ⟨by decide, ⟨_, hturn, by cbv, ht, htd⟩, hex, by cbv, hs, hsd⟩

/-! ### Every call is reached -/

theorem Called.reached (h : Called c d₀ depth s) : Reached c d₀ s.schedule s.domains := by
  induction h with
  | start => exact .start
  | step _ _ ha hd ih =>
    obtain ⟨hs, hdom⟩ := ha.restored (explore_restores c _)
    obtain ⟨hgate, hcheck⟩ := hd
    rw [hs] at hgate hcheck
    rw [hdom] at hcheck
    rw [State.place, hs]
    exact ih.step ha.next ha.mem_candidates hgate hcheck

/-- There is always more depth than subjects to book. -/
theorem Called.unassigned_lt (h : Called c d₀ depth s) :
    (s.schedule.unassigned c.ids).length < depth := by
  induction h with
  | start => exact unassigned_start_lt c d₀
  | @step depth s t x v d _ _ ha _ ih =>
    obtain ⟨hx, hxs⟩ := Domains.unassigned_of_mostConstrained ha.next
    obtain ⟨hs, -⟩ := ha.restored (explore_restores c depth)
    have hlt := Schedule.unassigned_insert_lt hx hxs v
    show (Schedule.unassigned (t.schedule.insert x v) c.ids).length < depth
    rw [hs]
    omega

/-! ### What holds at every call -/

theorem Reached.exhausted_eq_false (h : Reached c d₀ p d)
    (h₀ : ∀ x ∈ c.ids, d₀.exhausted x = false) :
    ∀ x ∈ c.ids, ¬ x ∈ p → d.exhausted x = false := by
  induction h with
  | start => exact fun x hx _ => h₀ x hx
  | @step p d d' x v _ _ _ _ hf ih =>
    intro y hy hyp
    have hyx : y ≠ x := fun h => hyp (Table.mem_insert.2 (.inl h))
    have hyp' : ¬ y ∈ p := fun h => hyp (Table.mem_insert.2 (.inr h))
    obtain ⟨w₀, hw₀⟩ := Domains.exhausted_eq_false.1 (ih y hy hyp')
    have hget := Domains.get?_of_mem_candidates hw₀
    -- the forward check has passed, so it has left `y` a candidate
    have hkeeps : Keeps c.slots x v d y := forwardCheck_fst.1 (by rw [hf]) y hy hyx hyp
    obtain ⟨w, hw, hcompat⟩ := hkeeps _ hget
    have hget' := get?_forwardCheck (by rw [hf]) y
    rw [hf, if_pos ⟨hy, hyx, hyp⟩] at hget'
    refine Domains.exhausted_eq_false.2 ⟨w, ?_⟩
    rw [Domains.candidates_of_get?_eq hget']
    exact List.mem_filter.2 ⟨hw, hcompat⟩

/-- The state `s` fits the domains `d₀` with which the search set out, and what is below is explored
by `ex`. -/
structure Consistent (c : Context) (d₀ : Domains) (ex : State → Outcome × State) (s : State) :
    Prop extends Fits c d₀ s.schedule s.domains where
  stocked : ∀ x ∈ c.ids, ¬ x ∈ s.schedule → s.domains.exhausted x = false
  gate : ∀ x v t, Attempt c ex s x v t →
    c.rules.admits c.slots x v t.schedule = !c.rules.faulty c.slots x v
  clashFree : ∀ x v t, Attempt c ex s x v t → ∀ slot, c.slots.get? v.slot = some slot →
    Rulebook.clashes c.slots x slot (fun w => w.teacher = v.teacher) t.schedule = false ∧
      Rulebook.clashes c.slots x slot (fun w => w.room = v.room) t.schedule = false

/-- A candidate whose turn has come is in conflict with no booking. -/
theorem Fits.conflict_eq_false (h : Fits c d₀ s.schedule s.domains)
    (hex : ∀ s₁, Restores s₁ (ex s₁)) (ha : Attempt c ex s x v t) :
    ∀ y w, t.schedule.get? y = some w → conflict c.slots x v y w = false := by
  obtain ⟨hx, hxs⟩ := Domains.unassigned_of_mostConstrained ha.next
  have hcompat := ((h.mem_candidates_iff hx hxs).1 ha.mem_candidates).2
  intro y w hy
  rw [(ha.restored hex).1] at hy
  rw [conflict_comm]
  exact Schedule.compatible_eq_true.1 hcompat y w hy

theorem Fits.consistent (h : Fits c d₀ s.schedule s.domains) (hex : ∀ s₁, Restores s₁ (ex s₁))
    (hs : ∀ x ∈ c.ids, ¬ x ∈ s.schedule → s.domains.exhausted x = false) :
    Consistent c d₀ ex s where
  toFits := h
  stocked := hs
  gate x v t ha := by
    rw [Bool.eq_iff_iff, Rulebook.admits_iff, Bool.not_eq_true']
    exact and_iff_left (h.conflict_eq_false hex ha)
  clashFree x v t ha slot hslot :=
    (Rulebook.clashes_eq_false_iff_conflict hslot).2 (h.conflict_eq_false hex ha)

end Search

namespace Solver

open Search

/-- At every call of the search of a run, up to whatever time it lasts, the bookings made break no
rule and are drawn from what arc consistency has left. Every subject without a booking has just the
candidates left that are in conflict with none of them, and at least one, and no candidate is turned
away for a clash. The calls are all there are: the search of the run is the first of them, and each
explores its state by what the calls right below it find. -/
theorem calls_consistent (s : Solver) (deadline : Deadline) (tally : Tally)
    (hp : s.propagated.outcome = .ok tally) :
    let c := s.context deadline
    let first := State.start s.narrowed
    (s.search deadline = explore c (c.ids.length + 1) first ∧
      Called c s.narrowed (c.ids.length + 1) first) ∧
    ∀ depth t, Called c s.narrowed depth t → ∃ below, depth = below + 1 ∧
      Consistent c s.narrowed (explore c below) t ∧
      ∀ ex, (∀ u, Called c s.narrowed below u → ex u = explore c below u) →
        visit c ex t = explore c depth t := by
  intro c first
  refine ⟨⟨rfl, .start⟩, fun depth t h => ?_⟩
  cases depth with
  | zero => exact absurd h.unassigned_lt (Nat.not_lt_zero _)
  | succ below =>
    have hstocked := h.reached.exhausted_eq_false (Domains.propagate_ok hp).inhabited
    exact ⟨below, rfl, h.reached.fits.consistent (explore_restores c below) hstocked,
      fun ex hex => h.visit_eq hex⟩

/-- Where the search of `rivals` stands when its first booking has come to nothing. -/
def rivalsAgain : State where
  schedule := ∅
  domains := rivals.problem.domains
  best := Table.ofList [(1, ⟨7, 100, 1⟩)]
  stats := ⟨2, 2, 1, 1⟩

def rivalsAgainDomains : Domains := Table.ofList [
  (1, [⟨7, 100, 1⟩, ⟨7, 100, 2⟩]), (2, [⟨7, 100, 1⟩]), (3, [⟨7, 100, 1⟩])]

/-- The deadline passes in the middle of the search: before anything is explored below the second
booking. -/
theorem calls_consistent_rivals :
    let c := rivals.context ⟨fun n => 3 ≤ n⟩
    rivals.propagated.outcome = .ok ⟨6, 0, 0⟩ ∧
    Called c rivals.narrowed 3 (rivalsAgain.place 1 ⟨7, 100, 2⟩ rivalsAgainDomains) ∧
    ∃ below, 3 = below + 1 ∧ Consistent c rivals.narrowed (explore c below)
      (rivalsAgain.place 1 ⟨7, 100, 2⟩ rivalsAgainDomains) := by
  intro c
  have hp : rivals.propagated.outcome = .ok ⟨6, 0, 0⟩ := by cbv
  have hturn : Attempt c (explore c 3) (State.start rivals.narrowed) 1 ⟨7, 100, 2⟩ rivalsAgain :=
    ⟨by cbv, [⟨7, 100, 1⟩], [], by cbv, by cbv⟩
  have hdown : Descends c 1 ⟨7, 100, 2⟩ rivalsAgain rivalsAgainDomains := ⟨by cbv, by cbv⟩
  have hcalled : Called c rivals.narrowed 3 _ := Called.start.step rfl hturn hdown
  obtain ⟨below, hbelow, hconsistent, -⟩ := (calls_consistent rivals _ _ hp).2 3 _ hcalled
  exact ⟨hp, hcalled, below, hbelow, hconsistent⟩

end Solver

end Timetabling
