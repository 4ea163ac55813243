import Mathlib
import Timetabling.Proofs.StableOrder
import Timetabling.Ranking

/-!
# Rankings

A ranking is the stable descending order of a score that each teacher has alone, so it does not
matter who else is ranked (`Ranking.rank_ordered`).

A new booking takes hours from one teacher. The others keep their scores and so their order; the
teacher's own score falls by no more than the hours of the subject, and no one who was ahead of the
teacher falls behind (`Ranking.rank_demotes`).
-/

namespace Timetabling

variable {r : Rulebook} {x y : SubjectId} {v : Booking} {t u : TeacherId} {cs : List TeacherId}
  {p q : Schedule}

/-- The subjects that a schedule gives to teacher `t`. -/
def Schedule.taughtBy (p : Schedule) (t : TeacherId) : Finset SubjectId :=
  p.keys.toFinset.filter fun y => (p.get? y).map Booking.teacher = some t

namespace Ranking

/-! ### Scores -/

theorem assignedHours_eq_sum (r : Rulebook) (p : Schedule) (t : TeacherId) :
    assignedHours r p t = ((p.entries.filter fun e => e.2.teacher = t).map fun e =>
      ((r.hoursOf e.1).toNat : ℤ)).sum := by
  unfold assignedHours
  induction p.entries.filter fun e => e.2.teacher = t with
  | nil => rfl
  | cons e es ih => rw [List.foldr_cons, ih, List.map_cons, List.sum_cons]

/-- The hours of a teacher are those of the subjects that the teacher has, in whatever order the
schedule holds them. -/
theorem assignedHours_eq (r : Rulebook) (p : Schedule) (t : TeacherId) :
    assignedHours r p t = ∑ y ∈ p.taughtBy t, ((r.hoursOf y).toNat : ℤ) := by
  have hmem : p.taughtBy t =
      ((p.entries.filter fun e => e.2.teacher = t).map Prod.fst).toFinset := by
    ext y
    simp only [Schedule.taughtBy, Finset.mem_filter, List.mem_toFinset, List.mem_map,
      List.mem_filter, decide_eq_true_eq, Option.map_eq_some_iff, ← Table.mem_entries]
    constructor
    · rintro ⟨-, v, hv, hvt⟩
      exact ⟨(y, v), ⟨hv, hvt⟩, rfl⟩
    · rintro ⟨e, ⟨he, het⟩, rfl⟩
      exact ⟨List.mem_map_of_mem he, e.2, he, het⟩
  have hnodup : ((p.entries.filter fun e => e.2.teacher = t).map Prod.fst).Nodup :=
    p.nodup.sublist (List.filter_sublist.map Prod.fst)
  rw [assignedHours_eq_sum, hmem, List.sum_toFinset _ hnodup, List.map_map]
  rfl

/-- The hours left, twenty at most, with thirty more for a teacher who fits and five for known
availability. -/
def fitness (r : Rulebook) (x : SubjectId) (p : Schedule) (t : TeacherId) : ℤ :=
  min 20 ((r.maxHoursOf t).toNat - ∑ y ∈ p.taughtBy t, ((r.hoursOf y).toNat : ℤ)) +
    (if r.qualified x t then 30 else 0) + if r.knowsAvailability t then 5 else 0

theorem scoreOf_eq_fitness : scoreOf r x p t = fitness r x p t := by
  rw [scoreOf, headroom, assignedHours_eq, min_comm]
  rfl

theorem assignedHours_perm (r : Rulebook) (h : q.entries.Perm p.entries) (t : TeacherId) :
    assignedHours r q t = assignedHours r p t := by
  rw [assignedHours_eq_sum, assignedHours_eq_sum]
  exact ((h.filter _).map _).sum_eq

theorem assignedHours_insert (r : Rulebook) (hy : ¬ y ∈ p) (v : Booking) (t : TeacherId) :
    assignedHours r (p.insert y v) t =
      assignedHours r p t + if v.teacher = t then ((r.hoursOf y).toNat : ℤ) else 0 := by
  rw [assignedHours_eq_sum, assignedHours_eq_sum, Table.entries_insert_of_not_mem v hy,
    List.filter_append, List.map_append, List.sum_append]
  by_cases ht : v.teacher = t <;> simp [ht]

theorem scoreOf_perm (h : q.entries.Perm p.entries) (t : TeacherId) :
    scoreOf r x q t = scoreOf r x p t := by
  simp only [scoreOf, headroom, assignedHours_perm r h]

theorem scoreOf_insert_of_ne (hy : ¬ y ∈ p) (ht : t ≠ v.teacher) :
    scoreOf r x (p.insert y v) t = scoreOf r x p t := by
  simp only [scoreOf, headroom, assignedHours_insert r hy, if_neg ht.symm, add_zero]

/-- A booked teacher has fewer hours left, but hours beyond the cap do not show. -/
theorem scoreOf_insert_self (hy : ¬ y ∈ p) :
    scoreOf r x (p.insert y v) v.teacher ≤ scoreOf r x p v.teacher ∧
      scoreOf r x p v.teacher - (r.hoursOf y).toNat ≤ scoreOf r x (p.insert y v) v.teacher := by
  have hhead : headroom r (p.insert y v) v.teacher =
      headroom r p v.teacher - (r.hoursOf y).toNat := by
    rw [headroom, headroom, assignedHours_insert r hy, if_pos rfl]
    omega
  rw [scoreOf, scoreOf, hhead]
  omega

/-! ### The order -/

/-- What the ranking sorts by: the higher the score, the earlier. -/
def place (e : Ranking) : ℤᵒᵈ := OrderDual.toDual e.score

theorem stablySorted_rank (r : Rulebook) (x : SubjectId) (cs : List TeacherId) (p : Schedule) :
    StablySorted place (cs.map fun t => ⟨t, scoreOf r x p t⟩) (rank r x cs p) :=
  stablySorted_mergeSort place _

theorem score_of_mem_rank {e : Ranking} (he : e ∈ rank r x cs p) :
    e.score = scoreOf r x p e.teacher := by
  obtain ⟨t, -, rfl⟩ := List.mem_map.1 ((stablySorted_rank r x cs p).perm.mem_iff.1 he)
  rfl

theorem teachers_rank_perm (r : Rulebook) (x : SubjectId) (cs : List TeacherId) (p : Schedule) :
    ((rank r x cs p).map Ranking.teacher).Perm cs := by
  refine ((stablySorted_rank r x cs p).perm.map Ranking.teacher).trans ?_
  rw [List.map_map]
  exact .of_eq (List.map_id cs)

theorem rank_congr (h : ∀ t ∈ cs, scoreOf r x q t = scoreOf r x p t) :
    rank r x cs q = rank r x cs p := by
  rw [rank, rank, List.map_congr_left fun t ht => by rw [h t ht]]

theorem rank_filter (r : Rulebook) (x : SubjectId) (cs : List TeacherId) (p : Schedule)
    (keep : TeacherId → Bool) :
    rank r x (cs.filter keep) p = (rank r x cs p).filter fun e => keep e.teacher := by
  have h := (stablySorted_rank r x cs p).filter fun e => keep e.teacher
  rw [List.filter_map] at h
  exact (stablySorted_rank r x (cs.filter keep) p).unique h

/-- A ranking has every candidate as often as named, by falling fitness and equals as named. Neither
the order in which the schedule holds its entries nor who else is ranked plays a part. -/
theorem rank_ordered (r : Rulebook) (x : SubjectId) (cs : List TeacherId) (p : Schedule) :
    ((rank r x cs p).map Ranking.teacher).Perm cs ∧
    (∀ e ∈ rank r x cs p, e.score = fitness r x p e.teacher) ∧
    (rank r x cs p).Pairwise (fun a b => b.score ≤ a.score) ∧
    (∀ n, ((rank r x cs p).filter fun e => e.score = n).map Ranking.teacher =
      cs.filter fun t => fitness r x p t = n) ∧
    (∀ q : Schedule, q.entries.Perm p.entries → rank r x cs q = rank r x cs p) ∧
    ∀ keep : TeacherId → Bool,
      rank r x (cs.filter keep) p = (rank r x cs p).filter fun e => keep e.teacher := by
  have hsort := stablySorted_rank r x cs p
  refine ⟨teachers_rank_perm r x cs p, fun e he => (score_of_mem_rank he).trans scoreOf_eq_fitness,
    hsort.sorted, fun n => ?_, fun q hq => rank_congr fun t _ => scoreOf_perm hq t,
    rank_filter r x cs p⟩
  have hclass : (rank r x cs p).filter (fun e => e.score = n) =
      (cs.map fun t => (⟨t, scoreOf r x p t⟩ : Ranking)).filter fun e => e.score = n :=
    hsort.stable (OrderDual.toDual n)
  simp only [hclass, List.filter_map, List.map_map, ← scoreOf_eq_fitness]
  exact List.map_id _

/-! ### After a booking -/

/-- Between the rankings `before` and `after`, teacher `t` loses up to `hours` points and no one
else changes. -/
structure Demotes (t : TeacherId) (hours : ℤ) (before after : List Ranking) : Prop where
  /-- The others keep their scores and their order. -/
  others : after.filter (fun e => e.teacher ≠ t) = before.filter fun e => e.teacher ≠ t
  fall : ∀ e ∈ before, ∀ e' ∈ after, e.teacher = t → e'.teacher = t →
    e'.score ≤ e.score ∧ e.score - hours ≤ e'.score
  /-- Those ahead of an occurrence of `t` stay ahead of it. Which occurrence it is, is told by how
  many of `t` come before. -/
  behind : ∀ front e back, before = front ++ e :: back → e.teacher = t →
    ∃ front' e' back', after = front' ++ e' :: back' ∧ e'.teacher = t ∧
      front'.countP (fun e => e.teacher = t) = front.countP (fun e => e.teacher = t) ∧
      front.filter (fun e => e.teacher ≠ t) <+: front'.filter fun e => e.teacher ≠ t

theorem exists_append_of_lt_countP {α : Type} {P : α → Bool} {l : List α} {k : ℕ}
    (h : k < l.countP P) : ∃ front a back,
      l = front ++ a :: back ∧ P a = true ∧ front.countP P = k := by
  induction l generalizing k with
  | nil => simp at h
  | cons b l ih =>
    by_cases hb : P b = true
    · cases k with
      | zero => exact ⟨[], b, l, rfl, hb, rfl⟩
      | succ k =>
        rw [List.countP_cons_of_pos hb] at h
        obtain ⟨front, a, back, rfl, ha, hk⟩ := ih (Nat.lt_of_succ_lt_succ h)
        exact ⟨b :: front, a, back, rfl, ha, by rw [List.countP_cons_of_pos hb, hk]⟩
    · rw [List.countP_cons_of_neg hb] at h
      obtain ⟨front, a, back, rfl, ha, hk⟩ := ih h
      exact ⟨b :: front, a, back, rfl, ha, by rw [List.countP_cons_of_neg hb, hk]⟩

/-- If only the members of `front` and of `front'` may satisfy `P`, and those of `front` do, then
`front` does not go beyond `front'`. -/
theorem isPrefix_of_append_eq {α : Type} {P : α → Prop} {front back front' back' : List α}
    (h : front ++ back = front' ++ back') (hfront : ∀ a ∈ front, P a) (hback : ∀ a ∈ back', ¬ P a) :
    front <+: front' := by
  rcases List.append_eq_append_iff.1 h with ⟨as, rfl, -⟩ | ⟨bs, rfl, rfl⟩
  · exact List.prefix_append front as
  · have hbs : bs = [] := List.eq_nil_iff_forall_not_mem.2 fun b hb =>
      hback b (List.mem_append_left _ hb) (hfront b (List.mem_append_right _ hb))
    rw [hbs, List.append_nil]

theorem filter_ne_append_cons {front back : List Ranking} {e : Ranking} (he : e.teacher = t) :
    (front ++ e :: back).filter (fun e => e.teacher ≠ t) =
      front.filter (fun e => e.teacher ≠ t) ++ back.filter fun e => e.teacher ≠ t := by
  rw [List.filter_append, List.filter_cons_of_neg (by simpa using he)]

/-- In a ranking, those ahead score at least as much, and those behind at most as much. -/
theorem score_le_of_rank_eq {front back : List Ranking} {e : Ranking}
    (h : rank r x cs p = front ++ e :: back) :
    (∀ a ∈ front, e.score ≤ a.score) ∧ ∀ a ∈ back, a.score ≤ e.score := by
  have hsort : (rank r x cs p).Pairwise fun a b => b.score ≤ a.score :=
    (stablySorted_rank r x cs p).sorted
  rw [h, List.pairwise_append, List.pairwise_cons] at hsort
  exact ⟨fun a ha => hsort.2.2 a ha e List.mem_cons_self, hsort.2.1.1⟩

theorem countP_teacher_rank (r : Rulebook) (x : SubjectId) (cs : List TeacherId) (p : Schedule)
    (t : TeacherId) : (rank r x cs p).countP (fun e => e.teacher = t) = cs.count t := by
  rw [← (teachers_rank_perm r x cs p).count_eq, List.count, List.countP_map]
  exact List.countP_congr fun e _ => by simp

theorem rank_behind (hothers : (rank r x cs q).filter (fun e => e.teacher ≠ t) =
      (rank r x cs p).filter fun e => e.teacher ≠ t)
    (hfall : scoreOf r x q t < scoreOf r x p t) {front back : List Ranking} {e : Ranking}
    (h : rank r x cs p = front ++ e :: back) (he : e.teacher = t) :
    ∃ front' e' back', rank r x cs q = front' ++ e' :: back' ∧ e'.teacher = t ∧
      front'.countP (fun e => e.teacher = t) = front.countP (fun e => e.teacher = t) ∧
      front.filter (fun e => e.teacher ≠ t) <+: front'.filter fun e => e.teacher ≠ t := by
  have hcount : front.countP (fun e => e.teacher = t) <
      (rank r x cs q).countP fun e => e.teacher = t := by
    rw [countP_teacher_rank, ← countP_teacher_rank r x cs p t, h, List.countP_append,
      List.countP_cons_of_pos (by simpa using he)]
    omega
  obtain ⟨front', e', back', h', he', hk⟩ := exists_append_of_lt_countP hcount
  have he' : e'.teacher = t := by simpa using he'
  refine ⟨front', e', back', h', he', hk, ?_⟩
  have hscore : e.score = scoreOf r x p t := by
    rw [← he, score_of_mem_rank (h ▸ List.mem_append_right front List.mem_cons_self)]
  have hscore' : e'.score = scoreOf r x q t := by
    rw [← he', score_of_mem_rank (h' ▸ List.mem_append_right front' List.mem_cons_self)]
  have hlt : e'.score < e.score := by rw [hscore, hscore']; exact hfall
  rw [h, h', filter_ne_append_cons he, filter_ne_append_cons he'] at hothers
  refine isPrefix_of_append_eq (P := fun a => e.score ≤ a.score) hothers.symm ?_ ?_
  · intro a ha
    exact (score_le_of_rank_eq h).1 a (List.mem_of_mem_filter ha)
  · intro a ha hle
    have := (score_le_of_rank_eq h').2 a (List.mem_of_mem_filter ha)
    omega

/-- A booking of a further subject never helps the teacher who is booked. -/
theorem rank_demotes (r : Rulebook) (x : SubjectId) (cs : List TeacherId) {p : Schedule}
    {y : SubjectId} (hy : ¬ y ∈ p) (v : Booking) :
    Demotes v.teacher (r.hoursOf y).toNat (rank r x cs p) (rank r x cs (p.insert y v)) := by
  obtain ⟨hle, hge⟩ := scoreOf_insert_self (r := r) (x := x) (v := v) hy
  have hothers : (rank r x cs (p.insert y v)).filter (fun e => e.teacher ≠ v.teacher) =
      (rank r x cs p).filter fun e => e.teacher ≠ v.teacher := by
    rw [← rank_filter r x cs _ fun t => t ≠ v.teacher,
      ← rank_filter r x cs _ fun t => t ≠ v.teacher]
    refine rank_congr fun t ht => scoreOf_insert_of_ne hy ?_
    simpa using (List.mem_filter.1 ht).2
  refine ⟨hothers, fun e he e' he' het het' => ?_, fun front e back h he => ?_⟩
  · rw [score_of_mem_rank he, score_of_mem_rank he', het, het']
    exact ⟨hle, hge⟩
  · rcases hle.lt_or_eq with hlt | heq
    · exact rank_behind hothers hlt h he
    · -- hours beyond the cap: no score changes at all
      have hsame : rank r x cs (p.insert y v) = rank r x cs p := rank_congr fun t _ => by
        by_cases ht : t = v.teacher
        · rw [ht, heq]
        · exact scoreOf_insert_of_ne hy ht
      exact ⟨front, e, back, hsame.trans h, he, rfl, List.prefix_refl _⟩

/-- Two teachers with ten hours and one with eight. -/
def contested : Rulebook :=
  .ofRecords [⟨7, "Ada", [], 10, []⟩, ⟨8, "Grace", [], 10, []⟩, ⟨9, "Alan", [], 8, []⟩]
    [⟨2, "S2", 2, []⟩]

/-- Teacher 9 draws level with teacher 7, and so comes before one of the two occurrences. -/
theorem rank_demotes_contested :
    ¬ (2 : SubjectId) ∈ (∅ : Schedule) ∧
    rank contested 1 [7, 8, 9, 7] ∅ = [⟨7, 40⟩, ⟨8, 40⟩, ⟨7, 40⟩, ⟨9, 38⟩] ∧
    rank contested 1 [7, 8, 9, 7] (Table.insert ∅ 2 ⟨7, 100, 1⟩) =
      [⟨8, 40⟩, ⟨7, 38⟩, ⟨9, 38⟩, ⟨7, 38⟩] ∧
    Demotes 7 2 [⟨7, 40⟩, ⟨8, 40⟩, ⟨7, 40⟩, ⟨9, 38⟩] [⟨8, 40⟩, ⟨7, 38⟩, ⟨9, 38⟩, ⟨7, 38⟩] := by
  have hfree : ¬ (2 : SubjectId) ∈ (∅ : Schedule) := Table.not_mem_empty 2
  have hbefore : rank contested 1 [7, 8, 9, 7] ∅ = [⟨7, 40⟩, ⟨8, 40⟩, ⟨7, 40⟩, ⟨9, 38⟩] := by cbv
  have hafter : rank contested 1 [7, 8, 9, 7] (Table.insert ∅ 2 ⟨7, 100, 1⟩) =
      [⟨8, 40⟩, ⟨7, 38⟩, ⟨9, 38⟩, ⟨7, 38⟩] := by cbv
  have h := rank_demotes contested 1 [7, 8, 9, 7] hfree ⟨7, 100, 1⟩
  rw [hbefore, hafter] at h
  exact ⟨hfree, hbefore, hafter, h⟩

end Ranking

end Timetabling
