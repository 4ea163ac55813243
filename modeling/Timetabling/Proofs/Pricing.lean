import Timetabling.Proofs.Rounding
import Timetabling.Proofs.WrittenForm

/-!
# What a schedule costs

The penalty is worked out over two groupings of the bookings, by working day and by teacher. Here it
is written down from the multiset of duties alone (`Penalty.price`): who works in which slot. That
both agree whatever the order in which bookings and groups are visited is
`Penalty.price_of_visit`; the bounds of the penalty are read off the written-down price
(`Penalty.exactTotal_priced`).

In binary64 arithmetic the order does matter, in the last bits. Each step is rounded by the same
small amount at most (`Penalty.Rounds`), and eleven such amounts bound what becomes of the whole
(`Penalty.abs_total_sub_le`), since the errors of the distances are divided by their number.
-/

namespace Timetabling

/-! ### Groups -/

namespace Table

variable {κ α M : Type} [DecidableEq κ] [AddCommMonoid M]

theorem values_group (es : List (κ × α)) : (group es).values =
    (distinct (es.map Prod.fst)).map fun k => (es.filter fun e => e.1 = k).map Prod.snd := by
  simp [group, values, List.map_map, Function.comp_def]

theorem toFinset_distinct (ks : List κ) : (distinct ks).toFinset = ks.toFinset := by
  ext k
  rw [List.mem_toFinset, List.mem_toFinset, mem_distinct]

theorem sum_map_distinct (ks : List κ) (f : κ → M) :
    ((distinct ks).map f).sum = ∑ k ∈ ks.toFinset, f k := by
  rw [← toFinset_distinct, List.sum_toFinset f (nodup_distinct ks)]

theorem length_distinct (ks : List κ) : (distinct ks).length = ks.toFinset.card := by
  rw [← toFinset_distinct, List.toFinset_card_of_nodup (nodup_distinct ks)]

theorem size_le_two_pow (t : Table UInt32 α) : t.size ≤ 2 ^ 32 := by
  have hkeys : (t.keys.map UInt32.toFin).Nodup :=
    t.nodup_keys.map fun _ _ h => UInt32.toFin_inj.1 h
  have hcard := hkeys.length_le_card
  rwa [List.length_map, length_keys, Fintype.card_fin] at hcard

theorem perm_of_get? {t u : Table κ α} (h : ∀ k, t.get? k = u.get? k) :
    t.entries.Perm u.entries := by
  refine (List.perm_ext_iff_of_nodup t.nodup.of_map u.nodup.of_map).2 fun ⟨k, v⟩ => ?_
  rw [mem_entries, mem_entries, h]

end Table

/-- Who works when: the teacher and the slot of each booking. -/
def Schedule.duties (p : Schedule) : Multiset (TeacherId × SlotId) :=
  (p.values.map fun v => (v.teacher, v.slot) : List (TeacherId × SlotId))

namespace Penalty

variable {slots : SlotIndex} {p q : Schedule} {D : Multiset (TeacherId × SlotId)}

/-! ### The price of duties -/

/-- The working day and the first period of each duty; one in an unknown slot has none. -/
def shifts (slots : SlotIndex) (D : Multiset (TeacherId × SlotId)) : Multiset (Workday × ℕ) :=
  D.filterMap fun w => (slots.get? w.2).map fun s => ((w.1, s.dayOfWeek), s.startPeriod.toNat)

def workdays (slots : SlotIndex) (D : Multiset (TeacherId × SlotId)) : Finset Workday :=
  ((shifts slots D).map Prod.fst).toFinset

/-- When the duties of working day `w` start. -/
def startsOn (slots : SlotIndex) (D : Multiset (TeacherId × SlotId)) (w : Workday) : Multiset ℕ :=
  ((shifts slots D).filter fun e => e.1 = w).map Prod.snd

def earliest (day : Multiset ℕ) : ℕ := day.toFinset.min.untopD 0

def latest (day : Multiset ℕ) : ℕ := day.toFinset.max.unbotD 0

/-- The periods from the first start of a day to the last, beyond one for each duty and two more. -/
def surplus (day : Multiset ℕ) : ℤ :=
  max 0 ((latest day : ℤ) - earliest day - day.card - 2)

/-- The teachers used. -/
def staff (D : Multiset (TeacherId × SlotId)) : Finset TeacherId := (D.map Prod.fst).toFinset

/-- How many duties teacher `t` has, in known slots or not. -/
def load (D : Multiset (TeacherId × SlotId)) (t : TeacherId) : ℕ := (D.map Prod.fst).count t

/-- The mean distance of the loads from the mean load. -/
def imbalance (D : Multiset (TeacherId × SlotId)) : ℚ :=
  (∑ t ∈ staff D, |(load D t : ℚ) - D.card / (staff D).card|) / (staff D).card

/-- Two for each surplus period of a working day, and one and a half times the imbalance. -/
def price (slots : SlotIndex) (D : Multiset (TeacherId × SlotId)) : ℚ :=
  2 * (∑ w ∈ workdays slots D, surplus (startsOn slots D w) : ℤ) + 3 / 2 * imbalance D

theorem isLeast_earliest {day : Multiset ℕ} (h : day ≠ 0) :
    IsLeast {n | n ∈ day} (earliest day) := by
  obtain ⟨n, hn⟩ := Finset.min_of_nonempty (Multiset.toFinset_nonempty.2 h)
  rw [earliest, hn]
  exact ⟨Multiset.mem_toFinset.1 (Finset.mem_of_min hn),
    fun k hk => Finset.min_le_of_eq (Multiset.mem_toFinset.2 hk) hn⟩

theorem isGreatest_latest {day : Multiset ℕ} (h : day ≠ 0) :
    IsGreatest {n | n ∈ day} (latest day) := by
  obtain ⟨n, hn⟩ := Finset.max_of_nonempty (Multiset.toFinset_nonempty.2 h)
  rw [latest, hn]
  exact ⟨Multiset.mem_toFinset.1 (Finset.mem_of_max hn),
    fun k hk => Finset.le_max_of_eq (Multiset.mem_toFinset.2 hk) hn⟩

/-! ### Gaps -/

theorem span_map_natCast (day : List ℕ) :
    span (day.map fun n : ℕ => (n : ℤ)) = (latest day : ℤ) - earliest day := by
  by_cases hday : day = []
  · rw [hday]
    rfl
  · have hne : (day : Multiset ℕ) ≠ 0 := by simpa using hday
    have hmax : (day.map fun n : ℕ => (n : ℤ)).max? = some (latest day : ℤ) := by
      obtain ⟨hmem, hle⟩ := isGreatest_latest hne
      rw [List.max?_eq_some_iff, List.forall_mem_map]
      exact ⟨List.mem_map_of_mem hmem, fun n hn => Int.ofNat_le.2 (hle hn)⟩
    have hmin : (day.map fun n : ℕ => (n : ℤ)).min? = some (earliest day : ℤ) := by
      obtain ⟨hmem, hle⟩ := isLeast_earliest hne
      rw [List.min?_eq_some_iff, List.forall_mem_map]
      exact ⟨List.mem_map_of_mem hmem, fun n hn => Int.ofNat_le.2 (hle hn)⟩
    rw [span, hmax, hmin]
    rfl

theorem excess_map_natCast (day : List ℕ) :
    excess (day.map fun n : ℕ => (n : ℤ)) = surplus day := by
  rw [excess, surplus, span_map_natCast, List.length_map]
  rfl

/-- The shifts in the order in which the bookings are visited. -/
theorem exists_shifts (slots : SlotIndex) (p : Schedule) : ∃ es : List (Workday × ℕ),
    shifts slots p.duties = es ∧ starts slots p = es.map fun e => (e.1, (e.2 : ℤ)) := by
  refine ⟨p.values.filterMap fun v => (slots.get? v.slot).map fun s =>
    ((v.teacher, s.dayOfWeek), s.startPeriod.toNat), ?_, ?_⟩
  · rw [shifts, Schedule.duties, Multiset.filterMap_coe, List.filterMap_map]
    rfl
  · rw [starts, List.map_filterMap]
    refine List.filterMap_congr fun v _ => ?_
    rw [Option.map_map]
    rfl

theorem sum_excess_eq (slots : SlotIndex) (p : Schedule) :
    ((Table.group (starts slots p)).values.map excess).sum =
      ∑ w ∈ workdays slots p.duties, surplus (startsOn slots p.duties w) := by
  obtain ⟨es, hes, hstarts⟩ := exists_shifts slots p
  have hdays : (starts slots p).map Prod.fst = es.map Prod.fst := by
    rw [hstarts, List.map_map]
    rfl
  have hday : ∀ w, excess (((starts slots p).filter fun e => e.1 = w).map Prod.snd) =
      surplus (startsOn slots p.duties w) := by
    intro w
    have hcoe : startsOn slots p.duties w =
        ((es.filter fun e => e.1 = w).map Prod.snd : List ℕ) := by
      rw [startsOn, hes, Multiset.filter_coe, Multiset.map_coe]
    rw [hcoe, ← excess_map_natCast, hstarts, List.filter_map, List.map_map, List.map_map]
    rfl
  rw [Table.values_group, List.map_map, Table.sum_map_distinct, hdays, workdays, hes,
    Multiset.map_coe]
  exact Finset.sum_congr rfl fun w _ => hday w

/-! ### Loads -/

theorem map_fst_duties (p : Schedule) :
    p.duties.map Prod.fst = (p.values.map Booking.teacher : List TeacherId) := by
  rw [Schedule.duties, Multiset.map_coe, List.map_map]
  rfl

theorem loads_eq (p : Schedule) :
    loads p = (Table.distinct (p.values.map Booking.teacher)).map (load p.duties) := by
  rw [loads, Table.values_group, List.map_map, List.map_map]
  refine List.map_congr_left fun t _ => ?_
  rw [load, map_fst_duties, Multiset.coe_count, List.count, List.countP_map]
  simp only [Function.comp_apply, List.filter_map, List.map_map, List.length_map,
    ← List.countP_eq_length_filter]
  exact List.countP_congr fun v _ => by simp

theorem staff_duties (p : Schedule) : staff p.duties = (p.values.map Booking.teacher).toFinset := by
  rw [staff, map_fst_duties, List.toFinset_coe]

theorem sum_loads (p : Schedule) (f : ℕ → ℚ) :
    ((loads p).map f).sum = ∑ t ∈ staff p.duties, f (load p.duties t) := by
  rw [loads_eq, List.map_map, Table.sum_map_distinct, staff_duties]
  rfl

theorem length_loads (p : Schedule) : (loads p).length = (staff p.duties).card := by
  rw [loads_eq, List.length_map, Table.length_distinct, staff_duties]

theorem length_loads_le (p : Schedule) : (loads p).length ≤ p.size := by
  rw [length_loads, staff_duties, ← Table.length_values, ← List.length_map (f := Booking.teacher)]
  exact List.toFinset_card_le _

theorem sum_load (D : Multiset (TeacherId × SlotId)) : ∑ t ∈ staff D, load D t = D.card := by
  rw [← Multiset.card_map Prod.fst D, ← Multiset.toFinset_sum_count_eq (D.map Prod.fst)]
  rfl

theorem sum_loads_eq_size (p : Schedule) : ((loads p).sum : ℚ) = p.size := by
  rw [Nat.cast_list_sum, sum_loads, ← Nat.cast_sum, sum_load, Schedule.duties, Multiset.coe_card,
    List.length_map, Table.length_values]

theorem foldr_distances (ls : List ℕ) (m : ℚ) :
    ls.foldr (fun (n : ℕ) sum => id ((id ((n : ℚ) - m)).abs + sum)) 0 =
      (ls.map fun n : ℕ => |(n : ℚ) - m|).sum := by
  induction ls with
  | nil => rfl
  | cons n ls ih => rw [List.foldr_cons, ih, List.map_cons, List.sum_cons, id, id, rat_abs_eq]

/-- Without rounding, the deviation is the mean of the distances from the mean. -/
theorem deviation_id (ls : List ℕ) : deviation id ls =
    (ls.map fun n : ℕ => |(n : ℚ) - (ls.map fun n : ℕ => (n : ℚ)).sum / ls.length|).sum /
      ls.length := by
  have hmean : mean id ls = (ls.map fun n : ℕ => (n : ℚ)).sum / ls.length := by
    rw [mean, id, ← List.sum_eq_foldr, Nat.cast_list_sum]
  rw [deviation]
  split_ifs with hempty
  · rw [List.isEmpty_iff.1 hempty]
    simp
  · rw [← hmean, ← foldr_distances]
    rfl

theorem deviation_eq_imbalance {ls : List ℕ} (h : ls.Perm (loads p)) :
    deviation id ls = imbalance p.duties := by
  have hsum : ∀ f : ℕ → ℚ, (ls.map f).sum = ∑ t ∈ staff p.duties, f (load p.duties t) :=
    fun f => ((h.map f).sum_eq).trans (sum_loads p f)
  have hlength : ls.length = (staff p.duties).card := h.length_eq.trans (length_loads p)
  have hcard : (ls.map fun n : ℕ => (n : ℚ)).sum = p.duties.card := by
    rw [hsum, ← sum_load, Nat.cast_sum]
  rw [deviation_id, hcard, hlength, hsum, imbalance]

/-! ### The penalty -/

/-- Whatever the order in which bookings and groups are visited, the price is that of the duties. -/
theorem price_of_visit (hq : q.duties = p.duties) {days : List (List ℤ)}
    (hdays : days.Perm (Table.group (starts slots q)).values) {ls : List ℕ}
    (hls : ls.Perm (loads q)) :
    gapWeight * ((days.map excess).sum : ℤ) + loadWeight * deviation id ls =
      price slots p.duties := by
  rw [(hdays.map excess).sum_eq, sum_excess_eq, deviation_eq_imbalance hls, hq]
  rfl

theorem gap_eq_sum (slots : SlotIndex) (p : Schedule) :
    gap slots p = ((Table.group (starts slots p)).values.map excess).sum := by
  rw [gap]
  induction (Table.group (starts slots p)).values with
  | nil => rfl
  | cons day days ih => rw [List.foldr_cons, ih, List.map_cons, List.sum_cons]

theorem surplus_nonneg (day : Multiset ℕ) : 0 ≤ surplus day := le_max_left _ _

theorem sum_surplus_nonneg (slots : SlotIndex) (D : Multiset (TeacherId × SlotId)) :
    (0 : ℚ) ≤ (∑ w ∈ workdays slots D, surplus (startsOn slots D w) : ℤ) :=
  Int.cast_nonneg (Finset.sum_nonneg fun _ _ => surplus_nonneg _)

theorem gap_nonneg (slots : SlotIndex) (p : Schedule) : (0 : ℚ) ≤ gap slots p := by
  rw [gap_eq_sum, sum_excess_eq]
  exact sum_surplus_nonneg slots p.duties

theorem exactTotal_eq_price (slots : SlotIndex) (p : Schedule) :
    exactTotal slots p = price slots p.duties := by
  rw [← price_of_visit rfl (.refl _) (.refl _), ← gap_eq_sum]
  rfl

theorem surplus_eq_zero {day : Multiset ℕ} :
    surplus day = 0 ↔ latest day ≤ earliest day + day.card + 2 := by
  rw [surplus]
  omega

theorem imbalance_nonneg (D : Multiset (TeacherId × SlotId)) : 0 ≤ imbalance D :=
  div_nonneg (Finset.sum_nonneg fun _ _ => abs_nonneg _) (Nat.cast_nonneg _)

/-- Loads do not deviate just when they are all the same. -/
theorem imbalance_eq_zero :
    imbalance D = 0 ↔ ∀ t ∈ staff D, ∀ u ∈ staff D, load D t = load D u := by
  rcases (staff D).eq_empty_or_nonempty with hstaff | hstaff
  · simp [imbalance, hstaff]
  · have hcard : ((staff D).card : ℚ) ≠ 0 := by
      exact_mod_cast hstaff.card_pos.ne'
    rw [imbalance, div_eq_zero_iff, or_iff_left hcard,
      Finset.sum_eq_zero_iff_of_nonneg fun _ _ => abs_nonneg _]
    simp only [abs_eq_zero, sub_eq_zero]
    constructor
    · intro h t ht u hu
      exact_mod_cast (h t ht).trans (h u hu).symm
    · intro h t ht
      have hall : D.card = (staff D).card * load D t := by
        rw [← sum_load, Finset.sum_congr rfl fun u hu => h u hu t ht, Finset.sum_const, smul_eq_mul]
      rw [hall, Nat.cast_mul, mul_div_cancel_left₀ _ hcard]

theorem price_nonneg (slots : SlotIndex) (D : Multiset (TeacherId × SlotId)) :
    0 ≤ price slots D := by
  have hgap := sum_surplus_nonneg slots D
  have hload := imbalance_nonneg D
  rw [price]
  linarith

theorem price_eq_zero : price slots D = 0 ↔
    (∀ t ∈ staff D, ∀ u ∈ staff D, load D t = load D u) ∧
      ∀ w ∈ workdays slots D,
        latest (startsOn slots D w) ≤
          earliest (startsOn slots D w) + (startsOn slots D w).card + 2 := by
  have hgap := sum_surplus_nonneg slots D
  have hload := imbalance_nonneg D
  have hboth : price slots D = 0 ↔ imbalance D = 0 ∧
      ∑ w ∈ workdays slots D, surplus (startsOn slots D w) = 0 := by
    rw [price]
    constructor
    · intro h
      have hzero : ((∑ w ∈ workdays slots D, surplus (startsOn slots D w) : ℤ) : ℚ) = 0 := by
        linarith
      exact ⟨by linarith, by exact_mod_cast hzero⟩
    · rintro ⟨hb, hg⟩
      rw [hb, hg]
      norm_num
  rw [hboth, imbalance_eq_zero, Finset.sum_eq_zero_iff_of_nonneg fun _ _ => surplus_nonneg _]
  simp only [surplus_eq_zero]

/-! ### With rounding -/

theorem foldr_distances_nonneg {round : ℚ → ℚ} (hround : ∀ a, 0 ≤ a → 0 ≤ round a)
    (ls : List ℕ) (m : ℚ) :
    0 ≤ ls.foldr (fun (n : ℕ) sum => round ((round ((n : ℚ) - m)).abs + sum)) 0 := by
  induction ls with
  | nil => exact le_rfl
  | cons n ls ih =>
    rw [List.foldr_cons, rat_abs_eq]
    exact hround _ (add_nonneg (abs_nonneg _) ih)

theorem deviation_nonneg {round : ℚ → ℚ} (hround : ∀ a, 0 ≤ a → 0 ≤ round a) (ls : List ℕ) :
    0 ≤ deviation round ls := by
  rw [deviation]
  split_ifs
  · exact le_rfl
  · exact hround _ (div_nonneg (foldr_distances_nonneg hround ls _) (Nat.cast_nonneg _))

/-- No penalty is negative, whatever the rounding, as long as that keeps the sign. -/
theorem totalBy_nonneg {round : ℚ → ℚ} (hround : ∀ a, 0 ≤ a → 0 ≤ round a) (slots : SlotIndex)
    (p : Schedule) (order : Order) : 0 ≤ totalBy round slots p order := by
  have hload := deviation_nonneg hround (order.arrange (loads p))
  refine hround _ (add_nonneg (hround _ (mul_nonneg ?_ (hround _ (gap_nonneg slots p))))
    (hround _ (mul_nonneg ?_ hload)))
  · norm_num [gapWeight]
  · norm_num [loadWeight]

/-! ### How far rounding takes the penalty -/

/-- Numbers up to `bound` are rounded by no more than `δ`. -/
def Rounds (round : ℚ → ℚ) (bound δ : ℚ) : Prop := ∀ a, |a| ≤ bound → |round a - a| ≤ δ

section Rounds

variable {round : ℚ → ℚ} {bound δ : ℚ}

/-- One more step, from a number `a` that is off `b` by `ε` already. -/
theorem Rounds.off (h : Rounds round bound δ) {a b : ℚ} (ε : ℚ) (hab : |a - b| ≤ ε)
    (hb : |b| + ε ≤ bound) : |round a - b| ≤ ε + δ := by
  have ha : |a| ≤ bound := by
    have := abs_sub_abs_le_abs_sub a b
    linarith
  have hround := h a ha
  have htriangle := abs_sub_le (round a) a b
  linarith

theorem sum_distances_nonneg (ls : List ℕ) (m : ℚ) :
    0 ≤ (ls.map fun n : ℕ => |(n : ℚ) - m|).sum := by
  refine List.sum_nonneg fun a ha => ?_
  obtain ⟨n, -, rfl⟩ := List.mem_map.1 ha
  exact abs_nonneg _

/-- With a mean that is off by `δ`, each load adds three roundings to the sum of the distances. -/
theorem Rounds.sum_distances (h : Rounds round bound δ) {m m' : ℚ} (hm : |m' - m| ≤ δ)
    (ls : List ℕ) (hls : (ls.map fun n : ℕ => |(n : ℚ) - m|).sum + 3 * δ * ls.length ≤ bound) :
    |ls.foldr (fun (n : ℕ) sum => round ((round ((n : ℚ) - m')).abs + sum)) 0 -
      (ls.map fun n : ℕ => |(n : ℚ) - m|).sum| ≤ 3 * δ * ls.length := by
  induction ls with
  | nil => simp
  | cons n ls ih =>
    have hδ : 0 ≤ δ := (abs_nonneg _).trans hm
    have hlen : 0 ≤ 3 * δ * ls.length := by positivity
    have hnonneg := sum_distances_nonneg ls m
    simp only [List.map_cons, List.sum_cons, List.length_cons, List.foldr_cons, Nat.cast_succ,
      mul_add, mul_one, rat_abs_eq] at hls ih ⊢
    have hrest := ih (by have := abs_nonneg ((n : ℚ) - m); linarith)
    have hone : |round ((n : ℚ) - m') - (n - m)| ≤ δ + δ := by
      refine h.off δ ?_ (by linarith)
      rw [sub_sub_sub_cancel_left, abs_sub_comm]
      exact hm
    have hdist : abs (|round ((n : ℚ) - m')| - |(n : ℚ) - m|) ≤ δ + δ :=
      (abs_abs_sub_abs_le _ _).trans hone
    refine (h.off (2 * δ + 3 * δ * ls.length) ?_ ?_).trans_eq (by ring)
    · rw [add_sub_add_comm]
      refine (abs_add_le _ _).trans ?_
      linarith
    · rw [abs_of_nonneg (add_nonneg (abs_nonneg _) hnonneg)]
      linarith

theorem sum_distances_le (ls : List ℕ) {m : ℚ} (hm : 0 ≤ m) :
    (ls.map fun n : ℕ => |(n : ℚ) - m|).sum ≤ ls.sum + ls.length * m := by
  induction ls with
  | nil => simp
  | cons n ls ih =>
    have hn : |(n : ℚ) - m| ≤ n + m := by
      refine (abs_sub _ _).trans_eq ?_
      rw [Nat.abs_cast, abs_of_nonneg hm]
    simp only [List.map_cons, List.sum_cons, List.length_cons, Nat.cast_add, Nat.cast_one, add_mul,
      one_mul]
    linarith

theorem mean_id (ls : List ℕ) : mean id ls = ls.sum / ls.length := by
  rw [mean, id, ← List.sum_eq_foldr]

theorem mean_id_bounds (ls : List ℕ) : 0 ≤ mean id ls ∧ mean id ls ≤ ls.sum := by
  rw [mean_id]
  refine ⟨by positivity, ?_⟩
  rcases ls with _ | ⟨n, ls⟩
  · simp
  · exact div_le_self (Nat.cast_nonneg _) (by simp)

/-- The deviation is off by four roundings: three for each of the distances, which are then divided
by their number, and one for the quotient. -/
theorem Rounds.deviation (h : Rounds round bound δ) (hδ : 0 ≤ δ) (ls : List ℕ)
    (hls : 2 * (ls.sum : ℚ) + 3 * δ * (ls.length + 1) ≤ bound) :
    |Penalty.deviation round ls - Penalty.deviation id ls| ≤ 4 * δ ∧
      0 ≤ Penalty.deviation id ls ∧ Penalty.deviation id ls ≤ 2 * ls.sum := by
  by_cases hnil : ls = []
  · simp [hnil, Penalty.deviation, hδ]
  have hempty : ¬ ls.isEmpty = true := fun h => hnil (List.isEmpty_iff.1 h)
  have hlen : (1 : ℚ) ≤ ls.length := by
    exact_mod_cast List.length_pos_iff.2 hnil
  obtain ⟨hmean, hle⟩ := mean_id_bounds ls
  have hδlen : 0 ≤ 3 * δ * ls.length := by positivity
  have hm : |mean round ls - mean id ls| ≤ δ := by
    refine h (mean id ls) ?_
    rw [abs_of_nonneg hmean]
    linarith
  have hsum : (ls.map fun n : ℕ => |(n : ℚ) - mean id ls|).sum ≤ 2 * ls.sum := by
    refine (sum_distances_le ls hmean).trans_eq ?_
    rw [mean_id, mul_div_cancel₀ _ (by linarith)]
    ring
  have hnonneg := sum_distances_nonneg ls (mean id ls)
  have hdist := h.sum_distances hm ls (by linarith)
  have hexact : Penalty.deviation id ls =
      (ls.map fun n : ℕ => |(n : ℚ) - mean id ls|).sum / ls.length := by
    rw [Penalty.deviation, if_neg hempty, id, ← foldr_distances]
  have hbound : (ls.map fun n : ℕ => |(n : ℚ) - mean id ls|).sum / ls.length ≤ 2 * ls.sum :=
    (div_le_self hnonneg hlen).trans hsum
  rw [hexact]
  refine ⟨?_, by positivity, hbound⟩
  rw [Penalty.deviation, if_neg hempty]
  refine (h.off (3 * δ) ?_ ?_).trans_eq (by ring)
  · rw [← sub_div, abs_div, Nat.abs_cast, div_le_iff₀ (by linarith)]
    exact hdist
  · rw [abs_of_nonneg (by positivity)]
    linarith

/-- The penalty is off by eleven roundings: three for the gap, seven for the deviation, and one for
their sum. -/
theorem Rounds.totalBy (h : Rounds round bound δ) (hδ : 0 ≤ δ) (slots : SlotIndex) (p : Schedule)
    (order : Order) (hb : 2 * (gap slots p : ℚ) + 3 * p.size + 3 * δ * (p.size + 4) ≤ bound) :
    |Penalty.totalBy round slots p order - exactTotal slots p| ≤ 11 * δ := by
  have hsum : ((order.arrange (loads p)).sum : ℚ) = p.size := by
    rw [(order.perm (loads p)).sum_eq, sum_loads_eq_size]
  have hlen : ((order.arrange (loads p)).length : ℚ) ≤ p.size := by
    rw [(order.perm (loads p)).length_eq]
    exact_mod_cast length_loads_le p
  have hgap := gap_nonneg slots p
  have hsize : (0 : ℚ) ≤ p.size := Nat.cast_nonneg _
  have hδsize : 0 ≤ δ * p.size := by positivity
  have hδlen := mul_le_mul_of_nonneg_left hlen hδ
  obtain ⟨hdev, hdev0, hdevle⟩ := h.deviation hδ (order.arrange (loads p)) (by
    rw [hsum]
    linarith)
  rw [hsum] at hdevle
  have hsame : Penalty.deviation id (order.arrange (loads p)) = Penalty.deviation id (loads p) :=
    (deviation_eq_imbalance (order.perm _)).trans (deviation_eq_imbalance (.refl _)).symm
  have hg : |round (gap slots p) - gap slots p| ≤ δ :=
    h _ (by rw [abs_of_nonneg hgap]; linarith)
  have hgapPart :
      |round (gapWeight * round (gap slots p)) - gapWeight * gap slots p| ≤ 2 * δ + δ := by
    refine h.off (2 * δ) ?_ ?_
    · rw [← mul_sub, abs_mul, gapWeight, abs_two]
      linarith
    · rw [abs_of_nonneg (mul_nonneg (by norm_num [gapWeight]) hgap), gapWeight]
      linarith
  have hloadPart : |round (loadWeight * Penalty.deviation round (order.arrange (loads p))) -
      loadWeight * Penalty.deviation id (order.arrange (loads p))| ≤ 6 * δ + δ := by
    refine h.off (6 * δ) ?_ ?_
    · rw [← mul_sub, abs_mul, loadWeight, abs_of_nonneg (by norm_num)]
      linarith
    · rw [abs_of_nonneg (mul_nonneg (by norm_num [loadWeight]) hdev0), loadWeight]
      linarith
  have hexact : exactTotal slots p =
      gapWeight * gap slots p + loadWeight * Penalty.deviation id (order.arrange (loads p)) := by
    rw [hsame]
    rfl
  rw [hexact]
  refine (h.off (10 * δ) ?_ ?_).trans_eq (by ring)
  · rw [add_sub_add_comm]
    refine (abs_add_le _ _).trans ?_
    linarith
  · rw [abs_of_nonneg (by rw [gapWeight, loadWeight]; linarith), gapWeight, loadWeight]
    linarith

end Rounds

theorem rounds_nearest {bound : ℚ} (h : bound = 0 ∨ 1 ≤ bound) :
    Rounds Binary64.nearest bound (bound / 2 ^ 53) := by
  intro a ha
  rcases h with rfl | h
  · simp [abs_nonpos_iff.1 ha, Binary64.nearest]
  · exact Binary64.abs_nearest_sub_le h ha

/-- How far rounding may take the penalty of a schedule from its price. -/
def tolerance (slots : SlotIndex) (p : Schedule) : ℚ :=
  22 * (exactTotal slots p + 4 * p.size) / 2 ^ 53

theorem two_mul_gap_le (slots : SlotIndex) (p : Schedule) :
    2 * (gap slots p : ℚ) ≤ exactTotal slots p := by
  have hload := imbalance_nonneg p.duties
  rw [← deviation_eq_imbalance (.refl (loads p))] at hload
  have hexact : exactTotal slots p =
      gapWeight * gap slots p + loadWeight * deviation id (loads p) := rfl
  rw [hexact, gapWeight, loadWeight]
  linarith

/-- In binary64 arithmetic the penalty stays next to its price, whatever the order of the loads. -/
theorem abs_total_sub_le (slots : SlotIndex) (p : Schedule) (order : Order) :
    |total slots p order - exactTotal slots p| ≤ tolerance slots p := by
  have hgap := gap_nonneg slots p
  have hle := two_mul_gap_le slots p
  have hsize : (0 : ℚ) ≤ p.size := Nat.cast_nonneg _
  have hsize32 : (p.size : ℚ) ≤ 2 ^ 32 := by exact_mod_cast p.size_le_two_pow
  -- twice what the parts of the price come to leaves room for their errors
  have hwhole : (2 * (2 * gap slots p + 4 * p.size) : ℚ) = 0 ∨
      (1 : ℚ) ≤ 2 * (2 * gap slots p + 4 * p.size) := by
    have hgap : 0 ≤ gap slots p := by exact_mod_cast hgap
    have hcases : 2 * (2 * gap slots p + 4 * (p.size : ℤ)) = 0 ∨
        1 ≤ 2 * (2 * gap slots p + 4 * (p.size : ℤ)) := by omega
    exact_mod_cast hcases
  refine ((rounds_nearest hwhole).totalBy (by positivity) slots p order ?_).trans ?_
  · have hparts : (0 : ℚ) ≤ 2 * (2 * gap slots p + 4 * p.size) := by linarith
    have herror : 2 * (2 * (gap slots p : ℚ) + 4 * p.size) / 2 ^ 53 * (p.size + 4) ≤
        2 * (2 * gap slots p + 4 * p.size) / 2 ^ 53 * 2 ^ 33 :=
      mul_le_mul_of_nonneg_left (by linarith) (by positivity)
    linarith
  · rw [tolerance]
    linarith

end Penalty

theorem Score.ofPenalty_le {a : ℚ} (h : 0 ≤ a) : Score.ofPenalty a ≤ 100 := by
  have hle : Score.base - a ≤ (100 : ℕ) := by
    rw [Score.base]
    push_cast
    linarith
  exact_mod_cast Binary64.nearest_le_natCast (by norm_num) hle

theorem Penalty.duties_eq_of_perm {p q : Schedule} (h : q.entries.Perm p.entries) :
    q.duties = p.duties :=
  Multiset.coe_eq_coe.2 ((h.map Prod.snd).map fun v => (v.teacher, v.slot))

/-- A solution is priced as its entries are, up to rounding. -/
structure Solution.Priced (slots : SlotIndex) (s : Solution) : Prop where
  nonneg : 0 ≤ s.softPenalty
  score_le : s.score ≤ 100
  close : |s.softPenalty - Penalty.exactTotal slots (Schedule.ofEntries s.entries)| ≤
    Penalty.tolerance slots (Schedule.ofEntries s.entries)

theorem Solution.priced_ofSchedule (p : Problem) (order : Penalty.Order) (t : Schedule) :
    (Solution.ofSchedule p order t).Priced p.slots := by
  have hpenalty : 0 ≤ Penalty.total p.slots t order :=
    Penalty.totalBy_nonneg (fun _ => Binary64.nearest_nonneg) p.slots t order
  refine ⟨hpenalty, Score.ofPenalty_le hpenalty, ?_⟩
  -- the entries give the schedule back, so its duties and its size
  have hperm : (Schedule.ofEntries t.toEntries).entries.Perm t.entries :=
    Table.perm_of_get? t.get?_ofEntries_toEntries
  have hexact : Penalty.exactTotal p.slots (Schedule.ofEntries t.toEntries) =
      Penalty.exactTotal p.slots t := by
    rw [Penalty.exactTotal_eq_price, Penalty.exactTotal_eq_price,
      Penalty.duties_eq_of_perm hperm]
  have hsize : (Schedule.ofEntries t.toEntries).size = t.size := hperm.length_eq
  have hclose := Penalty.abs_total_sub_le p.slots t order
  rw [Penalty.tolerance, ← hexact, ← hsize] at hclose
  exact hclose

namespace Penalty

/-- The penalty is the price of the duties, in whatever order bookings and groups are visited, and
so depends on the duties alone. It is never negative, which bounds every score. It is zero just when
all teachers used have equally many duties and no working day has a surplus of periods. In binary64
arithmetic it stays within the tolerance, and so does the penalty of every solution. -/
theorem exactTotal_priced (slots : SlotIndex) (p : Schedule) :
    exactTotal slots p = price slots p.duties ∧
    (∀ (q : Schedule) (days : List (List ℤ)) (ls : List ℕ), q.entries.Perm p.entries →
      days.Perm (Table.group (starts slots q)).values → ls.Perm (loads q) →
      gapWeight * ((days.map excess).sum : ℤ) + loadWeight * deviation id ls =
        price slots p.duties) ∧
    (∀ q : Schedule, q.duties = p.duties → exactTotal slots q = exactTotal slots p) ∧
    0 ≤ exactTotal slots p ∧ Score.base - exactTotal slots p ≤ 100 ∧
    (∀ order, |total slots p order - exactTotal slots p| ≤ tolerance slots p) ∧
    (∀ (s : Solver) deadline sol, (s.run deadline).1 = .ok sol → sol.Priced s.problem.slots) ∧
    (exactTotal slots p = 0 ↔
      (∀ t ∈ staff p.duties, ∀ u ∈ staff p.duties, load p.duties t = load p.duties u) ∧
        ∀ w ∈ workdays slots p.duties, latest (startsOn slots p.duties w) ≤
          earliest (startsOn slots p.duties w) + (startsOn slots p.duties w).card + 2) := by
  have hnonneg : 0 ≤ exactTotal slots p := by
    rw [exactTotal_eq_price]
    exact price_nonneg slots p.duties
  refine ⟨exactTotal_eq_price slots p,
    fun q days ls hq hdays hls => price_of_visit (duties_eq_of_perm hq) hdays hls,
    fun q hq => ?_, hnonneg, ?_, abs_total_sub_le slots p, fun s deadline sol h => ?_, ?_⟩
  · rw [exactTotal_eq_price, exactTotal_eq_price, hq]
  · rw [Score.base]
    linarith
  · obtain ⟨t, d, -, -, rfl, -⟩ := Solver.run_ok h
    exact Solution.priced_ofSchedule s.problem s.order t
  · rw [exactTotal_eq_price, price_eq_zero]

/-- Five periods too many, and loads of two and one. -/
example : exactTotal (SlotIndex.ofSlots [⟨1, 0, 1, 3⟩, ⟨2, 0, 10, 12⟩])
    (Table.ofList [(10, ⟨1, 100, 1⟩), (11, ⟨1, 100, 2⟩), (12, ⟨2, 101, 1⟩)]) = 43 / 4 := by
  cbv

/-- With rounding, loads of eight, one and one deviate differently in two orders. -/
example : deviation Binary64.nearest [8, 1, 1] ≠ deviation Binary64.nearest [1, 1, 8] := by
  decide +kernel

end Penalty

end Timetabling
