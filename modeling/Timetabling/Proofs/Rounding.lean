import Mathlib
import Timetabling.Number.Binary64

/-!
# Bounds that rounding keeps

Rounding to a whole number does not cross a whole number (`roundHalfEven_le`, `le_roundHalfEven`).
Binary64 numbers are spaced by one or by a fraction of one up to 2 ^ 53, so rounding to them does
not cross a small whole number either (`Binary64.nearest_le_natCast`). It goes no further than half
the distance of two neighbours, which is a 2 ^ 53rd of the number (`Binary64.abs_nearest_sub_le`).
-/

namespace Timetabling

variable {q : ℚ}

theorem roundHalfEven_le {n : ℤ} (h : q ≤ n) : roundHalfEven q ≤ n := by
  have hfloor : q.floor ≤ n := Int.cast_le.1 ((Rat.floor_le q).trans h)
  rcases hfloor.lt_or_eq with hlt | heq
  · simp only [roundHalfEven]
    split_ifs <;> omega
  · -- the floor is `n`, so `q` is `n`, and there is nothing to round
    have hpart : q - q.floor < 1 / 2 := by
      rw [heq]
      linarith
    simp only [roundHalfEven, if_pos hpart]
    exact heq.le

theorem le_roundHalfEven {n : ℤ} (h : n ≤ q) : n ≤ roundHalfEven q := by
  have hfloor : n ≤ q.floor := Rat.le_floor_iff.2 h
  simp only [roundHalfEven]
  split_ifs <;> omega

theorem abs_roundHalfEven_sub_le (q : ℚ) : |(roundHalfEven q : ℚ) - q| ≤ 1 / 2 := by
  have hlow : (q.floor : ℚ) ≤ q := Rat.floor_le q
  have hhigh : q < q.floor + 1 := by exact_mod_cast Rat.lt_floor_add_one q
  rw [abs_le]
  simp only [roundHalfEven]
  split_ifs <;> push_cast <;> constructor <;> linarith

theorem rat_abs_eq (a : ℚ) : a.abs = |a| := by
  rw [Rat.abs]
  split_ifs with h
  · exact (abs_of_nonneg h).symm
  · exact (abs_of_neg (not_le.1 h)).symm

namespace Binary64

theorem twoPow_pos (e : ℤ) : 0 < twoPow e := by
  cases e with
  | ofNat k => simp only [twoPow, Nat.shiftLeft_eq, one_mul]; positivity
  | negSucc k => simp only [twoPow, Nat.shiftLeft_eq, one_mul]; positivity

theorem spacing_pos (q : ℚ) : 0 < spacing q := twoPow_pos _

theorem nearest_nonneg (h : 0 ≤ q) : 0 ≤ nearest q := by
  rw [nearest]
  split_ifs
  · exact le_rfl
  · have hround : 0 ≤ roundHalfEven (q / spacing q) :=
      le_roundHalfEven (by simpa using div_nonneg h (spacing_pos q).le)
    exact mul_nonneg (by exact_mod_cast hround) (spacing_pos q).le

theorem nearest_nonpos (h : q ≤ 0) : nearest q ≤ 0 := by
  rw [nearest]
  split_ifs
  · exact le_rfl
  · have hround : roundHalfEven (q / spacing q) ≤ 0 :=
      roundHalfEven_le (by simpa using div_nonpos_of_nonpos_of_nonneg h (spacing_pos q).le)
    exact mul_nonpos_of_nonpos_of_nonneg (by exact_mod_cast hround) (spacing_pos q).le

theorem exists_natCast_mul_twoPow {e : ℤ} (h : e ≤ 0) : ∃ m : ℕ, (m : ℚ) * twoPow e = 1 := by
  cases e with
  | ofNat k =>
    have hk : k = 0 := by simpa using h
    exact ⟨1, by simp [hk, twoPow]⟩
  | negSucc k =>
    refine ⟨1 <<< (k + 1), ?_⟩
    have hne : ((1 <<< (k + 1) : ℕ) : ℚ) ≠ 0 := by
      rw [Nat.shiftLeft_eq]
      positivity
    exact mul_one_div_cancel hne

theorem magnitude_le {n : ℕ} (hq : 0 < q) (h : q ≤ n) : magnitude q ≤ n.log2 + 1 := by
  have hnum : q.num.natAbs ≤ n * q.den := by
    have hpos : 0 < q.num := Rat.num_pos.2 hq
    have hle : (q.num : ℚ) ≤ n * q.den := by
      rw [← Rat.num_div_den q, div_le_iff₀ (by exact_mod_cast q.den_pos)] at h
      simpa using h
    have hle : q.num ≤ n * q.den := by exact_mod_cast hle
    omega
  have hlog : q.num.natAbs.log2 ≤ n.log2 + 1 + q.den.log2 := by
    have hn : n < 2 ^ (n.log2 + 1) := Nat.lt_log2_self
    have hden : q.den < 2 ^ (q.den.log2 + 1) := Nat.lt_log2_self
    have hne : q.num.natAbs ≠ 0 := by
      have := Rat.num_pos.2 hq
      omega
    have hlt : q.num.natAbs < 2 ^ (n.log2 + 1 + (q.den.log2 + 1)) := by
      rw [pow_add]
      exact hnum.trans_lt (Nat.mul_lt_mul'' hn hden)
    have := (Nat.log2_lt hne).2 hlt
    omega
  simp only [magnitude]
  split_ifs <;> omega

/-- What is no more than a whole number of up to 52 bits is rounded to no more than it. -/
theorem nearest_le_natCast {n : ℕ} (hn : n < 2 ^ 52) (h : q ≤ n) : nearest q ≤ n := by
  rcases le_or_gt q 0 with hq | hq
  · exact (nearest_nonpos hq).trans (Nat.cast_nonneg n)
  · have hexp : max (magnitude q.abs - 52) (-1074) ≤ 0 := by
      have habs : q.abs = q := by rw [Rat.abs, if_pos hq.le]
      have hlog : n.log2 ≤ 51 := by
        by_cases h0 : n = 0
        · simp [h0]
        · have := (Nat.log2_lt h0).2 hn
          omega
      have := magnitude_le hq h
      rw [habs]
      omega
    obtain ⟨m, hm⟩ := exists_natCast_mul_twoPow hexp
    have hm : (m : ℚ) * spacing q = 1 := hm
    have hround : roundHalfEven (q / spacing q) ≤ (n * m : ℕ) := by
      refine roundHalfEven_le ?_
      rw [div_le_iff₀ (spacing_pos q)]
      calc q ≤ n := h
        _ = n * (m * spacing q) := by rw [hm, mul_one]
        _ = ((n * m : ℕ) : ℤ) * spacing q := by push_cast; ring
    rw [nearest, if_neg hq.ne']
    calc (roundHalfEven (q / spacing q) : ℚ) * spacing q
        ≤ ((n * m : ℕ) : ℤ) * spacing q :=
          mul_le_mul_of_nonneg_right (by exact_mod_cast hround) (spacing_pos q).le
      _ = n * (m * spacing q) := by push_cast; ring
      _ = n := by rw [hm, mul_one]

/-! ### How far rounding goes -/

theorem twoPow_eq_zpow (e : ℤ) : twoPow e = 2 ^ e := by
  cases e with
  | ofNat k => simp [twoPow, Nat.shiftLeft_eq]
  | negSucc k => simp [twoPow, Nat.shiftLeft_eq, zpow_negSucc]

theorem twoPow_magnitude_le (hq : 0 < q) : twoPow (magnitude q) ≤ q := by
  simp only [magnitude]
  split_ifs with h
  · exact h
  · have hnum : 2 ^ q.num.natAbs.log2 ≤ q.num.natAbs :=
      Nat.log2_self_le (by have := Rat.num_pos.2 hq; omega)
    have hden : q.den < 2 ^ (q.den.log2 + 1) := Nat.lt_log2_self
    have habs : (q.num.natAbs : ℚ) = q.num := by
      rw [Nat.cast_natAbs, abs_of_pos (Rat.num_pos.2 hq)]
    rw [twoPow_eq_zpow, zpow_sub_one₀ two_ne_zero, zpow_sub₀ two_ne_zero, zpow_natCast, zpow_natCast]
    calc (2 : ℚ) ^ q.num.natAbs.log2 / 2 ^ q.den.log2 * 2⁻¹
        = 2 ^ q.num.natAbs.log2 / 2 ^ (q.den.log2 + 1) := by rw [pow_succ]; field_simp
      _ ≤ q.num / q.den := by
          rw [← habs]
          gcongr
          · exact_mod_cast hnum
          · exact_mod_cast hden.le
      _ = q := Rat.num_div_den q

theorem abs_nearest_sub_le {b : ℚ} (hb : 1 ≤ b) (h : |q| ≤ b) :
    |nearest q - q| ≤ b / 2 ^ 53 := by
  rw [nearest]
  split_ifs with h0
  · rw [h0, sub_self, abs_zero]
    positivity
  · have hspacing : spacing q ≤ b / 2 ^ 52 := by
      rw [spacing, rat_abs_eq]
      rcases max_cases (magnitude |q| - 52) (-1074) with ⟨hmax, -⟩ | ⟨hmax, -⟩ <;> rw [hmax]
      · have hle := (twoPow_magnitude_le (abs_pos.2 h0)).trans h
        rw [twoPow_eq_zpow] at hle
        rw [twoPow_eq_zpow, zpow_sub₀ two_ne_zero]
        exact div_le_div_of_nonneg_right hle (by positivity)
      · have hle : twoPow (-1074) ≤ 1 / 2 ^ 52 := by
          rw [twoPow_eq_zpow, one_div, ← zpow_natCast, ← zpow_neg]
          exact zpow_le_zpow_right₀ one_le_two (by norm_num)
        exact hle.trans (div_le_div_of_nonneg_right hb (by positivity))
    calc |(roundHalfEven (q / spacing q) : ℚ) * spacing q - q|
        = |(roundHalfEven (q / spacing q) : ℚ) - q / spacing q| * spacing q := by
          rw [← abs_of_pos (spacing_pos q), ← abs_mul, sub_mul, abs_of_pos (spacing_pos q),
            div_mul_cancel₀ _ (spacing_pos q).ne']
      _ ≤ 1 / 2 * spacing q :=
          mul_le_mul_of_nonneg_right (abs_roundHalfEven_sub_le _) (spacing_pos q).le
      _ ≤ 1 / 2 * (b / 2 ^ 52) := by gcongr
      _ = b / 2 ^ 53 := by ring

end Binary64

end Timetabling
