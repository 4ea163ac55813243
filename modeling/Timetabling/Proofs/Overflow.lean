import Timetabling.Proofs.Pricing

/-!
# The gap penalty in 64 bits

`Penalty.gap` is a sum of whole numbers of any size. Here it is worked out in signed 64-bit integers
with a check after each step (`checkedGap`), and no check fails, in whatever order the working days
are visited (`gap_never_overflows`).

One span of up to 2 ^ 32 periods for each of 2 ^ 32 bookings would not fit. But a day with one
booking has no span, so an excess takes two bookings or more, and each of them stands for half a
span at most (`Starts32.two_mul_excess_le`). Summed up over the days visited so far, this is the
invariant of a visit (`two_mul_sum_excess_le`).
-/

namespace Timetabling

namespace Table

variable {κ α : Type} [DecidableEq κ] {es : List (κ × α)} {vs : List α}

theorem exists_eq_of_mem_group (h : vs ∈ (group es).values) :
    ∃ k, vs = (es.filter fun e => e.1 = k).map Prod.snd := by
  rw [values_group] at h
  obtain ⟨k, -, rfl⟩ := List.mem_map.1 h
  exact ⟨k, rfl⟩

/-- Each pair is in one group. -/
theorem sum_length_group (es : List (κ × α)) :
    ((group es).values.map List.length).sum = es.length := by
  rw [values_group, List.map_map, sum_map_distinct, ← List.length_map (f := Prod.fst),
    ← List.sum_toFinset_count_eq_length]
  refine Finset.sum_congr rfl fun k _ => ?_
  rw [Function.comp_apply, List.length_map, ← List.countP_eq_length_filter, List.count,
    List.countP_map]
  rfl

end Table

namespace Penalty

variable {slots : SlotIndex} {p : Schedule} {n : ℤ} {day : List ℤ} {days before : List (List ℤ)}

/-! ### Checked steps -/

/-- A signed 64-bit integer can be `n`. -/
def Fits64 (n : ℤ) : Prop := Int64.minValue.toInt ≤ n ∧ n ≤ Int64.maxValue.toInt

instance (n : ℤ) : Decidable (Fits64 n) := inferInstanceAs (Decidable (_ ∧ _))

/-- The result `n` of a step, unless it overflows. -/
def checked (n : ℤ) : Option ℤ := if Fits64 n then some n else none

def checkedExcess (day : List ℤ) : Option ℤ := do
  let wide ← checked (span day)
  let count ← checked day.length
  let spare ← checked (wide - count)
  let untolerated ← checked (spare - toleratedGap)
  return max 0 untolerated

/-- The days are added up from the first to the last. -/
def checkedGap (days : List (List ℤ)) : Option ℤ :=
  days.foldlM (fun total day => do checked (total + (← checkedExcess day))) 0

theorem fits64_iff : Fits64 n ↔ -2 ^ 63 ≤ n ∧ n < 2 ^ 63 := by
  rw [Fits64, Int64.toInt_minValue, Int64.toInt_maxValue]
  omega

theorem checked_of_fits (h : Fits64 n) : checked n = some n := if_pos h

/-- All the numbers that the excess of a day is worked out from fit, and so does the excess. -/
structure DayFits (day : List ℤ) : Prop where
  start : ∀ n ∈ day, Fits64 n
  wide : Fits64 (span day)
  count : Fits64 day.length
  spare : Fits64 (span day - day.length)
  untolerated : Fits64 (span day - day.length - toleratedGap)
  excess : Fits64 (excess day)

theorem DayFits.checkedExcess_eq (h : DayFits day) :
    checkedExcess day = some (Penalty.excess day) := by
  simp [checkedExcess, checked_of_fits h.wide, checked_of_fits h.count, checked_of_fits h.spare,
    checked_of_fits h.untolerated, Penalty.excess]

/-- A visit goes through if each day fits, and the sum after each day. -/
theorem checkedGap_eq (hday : ∀ day ∈ days, DayFits day)
    (hsum : ∀ before, before <+: days → Fits64 (before.map excess).sum) :
    checkedGap days = some (days.map excess).sum := by
  -- from the right, since the checks are on the sums of the first days
  induction days using List.reverseRecOn with
  | nil => rfl
  | append_singleton days day ih =>
    have hrun : checkedGap days = some (days.map excess).sum := by
      apply ih
      · intro day hmem
        exact hday day (List.mem_append_left _ hmem)
      · intro before hbefore
        exact hsum before (hbefore.trans (List.prefix_append days [day]))
    have hlast := (hday day (by simp)).checkedExcess_eq
    have htotal := hsum _ List.prefix_rfl
    simp only [List.map_append, List.sum_append, List.map_singleton, List.sum_singleton] at htotal ⊢
    rw [checkedGap] at hrun ⊢
    rw [List.foldlM_append, hrun]
    simp [hlast, checked_of_fits htotal]

/-- Starts of more than 32 bits could overflow. -/
example : checkedGap [[0, 2 ^ 62 + 3], [2 ^ 62 + 4, 0]] = some (2 ^ 63 - 1) ∧
    checkedGap [[0, 2 ^ 62 + 4], [2 ^ 62 + 4, 0]] = none := by
  decide

/-! ### One day -/

/-- The starts of a day are periods of 32 bits. -/
def Starts32 (day : List ℤ) : Prop := ∀ n ∈ day, 0 ≤ n ∧ n < 2 ^ 32

theorem span_eq_zero (h : day.length ≤ 1) : span day = 0 := by
  match day, h with
  | [], _ => rfl
  | [n], _ => simp [span]

theorem excess_nonneg (day : List ℤ) : 0 ≤ excess day := le_max_left _ _

namespace Starts32

theorem span_bounds (h : Starts32 day) : 0 ≤ span day ∧ span day < 2 ^ 32 := by
  cases hmax : day.max? with
  | none =>
    rw [List.max?_eq_none_iff.1 hmax]
    decide
  | some hi =>
    obtain ⟨hmem, hle⟩ := List.max?_eq_some_iff.1 hmax
    obtain ⟨lo, hmin⟩ := Option.isSome_iff_exists.1 (List.isSome_min?_of_mem hmem)
    have hlohi := hle lo (List.min?_mem hmin)
    have hlo := h lo (List.min?_mem hmin)
    have hhi := h hi hmem
    simp only [span, hmax, hmin, Option.getD_some]
    omega

/-- It takes two bookings or more to have an excess, so each pays for half of it. -/
theorem two_mul_excess_le (h : Starts32 day) : 2 * excess day ≤ (2 ^ 32 - 1) * day.length := by
  rw [excess, toleratedGap]
  by_cases hone : day.length ≤ 1
  · rw [span_eq_zero hone]
    omega
  · have := h.span_bounds
    omega

theorem dayFits (h : Starts32 day) (hlength : day.length ≤ 2 ^ 32) : DayFits day := by
  have hspan := h.span_bounds
  constructor <;> simp only [fits64_iff, excess, toleratedGap]
  case start =>
    intro n hn
    have := h n hn
    omega
  all_goals omega

end Starts32

/-! ### All days -/

/-- What the days visited add up to is paid for by their bookings. -/
theorem two_mul_sum_excess_le (h : ∀ day ∈ days, Starts32 day) :
    2 * (days.map excess).sum ≤ (2 ^ 32 - 1) * ((days.map List.length).sum : ℕ) := by
  induction days with
  | nil => simp
  | cons day days ih =>
    obtain ⟨hday, hdays⟩ := List.forall_mem_cons.1 h
    have hfirst := hday.two_mul_excess_le
    have hrest := ih hdays
    simp only [List.map_cons, List.sum_cons, Nat.cast_add]
    omega

theorem length_starts_le (slots : SlotIndex) (p : Schedule) : (starts slots p).length ≤ 2 ^ 32 := by
  have hfilter : (starts slots p).length ≤ p.values.length := List.length_filterMap_le _ _
  rw [Table.length_values] at hfilter
  exact hfilter.trans p.size_le_two_pow

theorem starts32_of_mem_group (h : day ∈ (Table.group (starts slots p)).values) :
    Starts32 day := by
  obtain ⟨w, rfl⟩ := Table.exists_eq_of_mem_group h
  intro n hn
  obtain ⟨e, he, rfl⟩ := List.mem_map.1 hn
  obtain ⟨v, -, hv⟩ := List.mem_filterMap.1 (List.mem_of_mem_filter he)
  obtain ⟨s, -, rfl⟩ := Option.map_eq_some_iff.1 hv
  have := s.startPeriod.toNat_lt
  simp only
  omega

theorem dayFits_of_mem_group (h : day ∈ (Table.group (starts slots p)).values) : DayFits day := by
  refine (starts32_of_mem_group h).dayFits ?_
  obtain ⟨w, rfl⟩ := Table.exists_eq_of_mem_group h
  rw [List.length_map]
  exact (List.length_filter_le _ _).trans (length_starts_le slots p)

theorem fits64_sum_of_prefix (hdays : days.Perm (Table.group (starts slots p)).values)
    (hbefore : before <+: days) : Fits64 (before.map excess).sum := by
  have hstarts : ∀ day ∈ before, Starts32 day := by
    intro day hday
    exact starts32_of_mem_group (hdays.mem_iff.1 (hbefore.subset hday))
  have hbound := two_mul_sum_excess_le hstarts
  have hnonneg : 0 ≤ (before.map excess).sum :=
    List.sum_nonneg (List.forall_mem_map.2 fun day _ => excess_nonneg day)
  have hlength : (before.map List.length).sum ≤ 2 ^ 32 :=
    calc (before.map List.length).sum
        ≤ (days.map List.length).sum :=
          (hbefore.sublist.map List.length).sum_le_sum fun _ _ => Nat.zero_le _
      _ = (starts slots p).length := by
          rw [(hdays.map List.length).sum_eq, Table.sum_length_group]
      _ ≤ 2 ^ 32 := length_starts_le slots p
  rw [fits64_iff]
  omega

/-- In whatever order the bookings of `p` stand and its working days are visited, each number on the
way to the gap penalty fits into 64 bits: those of each day, and the sum after each day. So with
every step checked for overflow the visit goes through, and it comes to the gap penalty. -/
theorem gap_never_overflows (slots : SlotIndex) (p : Schedule) (days : List (List ℤ))
    (hdays : days.Perm (Table.group (starts slots p)).values) :
    (∀ day ∈ days, DayFits day) ∧
    (∀ before, before <+: days → Fits64 (before.map excess).sum) ∧
    checkedGap days = some (gap slots p) := by
  have hday : ∀ day ∈ days, DayFits day := by
    intro day hmem
    exact dayFits_of_mem_group (hdays.mem_iff.1 hmem)
  have hsum : ∀ before, before <+: days → Fits64 (before.map excess).sum := by
    intro before hbefore
    exact fits64_sum_of_prefix hdays hbefore
  refine ⟨hday, hsum, ?_⟩
  rw [checkedGap_eq hday hsum, gap_eq_sum, (hdays.map excess).sum_eq]

/-- The first and the last slot of the longest day, and one slot on another. -/
def distantSlots : SlotIndex :=
  SlotIndex.ofSlots [⟨1, 0, 0, 1⟩, ⟨2, 0, 4294967294, 4294967295⟩, ⟨3, 1, 5, 6⟩]

def distant : Schedule :=
  Table.ofList [(1, ⟨7, 100, 1⟩), (2, ⟨8, 101, 2⟩), (3, ⟨7, 100, 2⟩), (4, ⟨8, 101, 1⟩),
    (5, ⟨8, 101, 3⟩)]

/-- Visited from the last day to the first, they come to more than 32 bits hold. -/
theorem gap_never_overflows_distant :
    [[5], [4294967294, 0], [0, 4294967294]].Perm
      (Table.group (starts distantSlots distant)).values ∧
    DayFits [4294967294, 0] ∧ Fits64 ([[5], [4294967294, 0]].map excess).sum ∧
    checkedGap [[5], [4294967294, 0], [0, 4294967294]] = some 8589934580 := by
  have hdays : [[5], [4294967294, 0], [0, 4294967294]].Perm
      (Table.group (starts distantSlots distant)).values := by decide
  have hgap : gap distantSlots distant = 8589934580 := by decide
  obtain ⟨hday, hsum, hrun⟩ := gap_never_overflows distantSlots distant _ hdays
  refine ⟨hdays, hday _ (by simp), hsum _ ?_, hgap ▸ hrun⟩
  exact ⟨[[0, 4294967294]], rfl⟩

end Penalty

end Timetabling
