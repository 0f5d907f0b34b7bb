import Bidding.Foundations.DecimalContext

/-!
# Doubles

A floating-point operation gives the double nearest to the exact result, and the even one of two. Numbers that are
not negative are rounded in their order, and a number of at most 53 binary digits is a double.
-/

namespace Foundations

def double (x : ℚ) : ℚ :=
  if x = 0 then 0
  else roundHalfEven (x / 2 ^ (Int.log 2 |x| - 52)) * 2 ^ (Int.log 2 |x| - 52)

theorem roundHalfEven_mono {x y : ℚ} (h : x ≤ y) : roundHalfEven x ≤ roundHalfEven y := by
  have hfloor : ⌊x⌋ ≤ ⌊y⌋ := Int.floor_le_floor h
  have hupper : roundHalfEven x ≤ ⌊x⌋ + 1 := by
    unfold roundHalfEven
    split_ifs <;> omega
  have hlower : ⌊y⌋ ≤ roundHalfEven y := by
    unfold roundHalfEven
    split_ifs <;> omega
  rcases lt_or_eq_of_le hfloor with hlt | heq
  · omega
  · unfold roundHalfEven
    rw [heq]
    split_ifs <;> first | omega | linarith

theorem double_zero : double 0 = 0 := if_pos rfl

theorem double_of_digits {c : ℕ} (hc : c < 2 ^ 53) (k : ℤ) : double (c * 2 ^ k) = c * 2 ^ k := by
  unfold double
  split
  · rename_i hzero
    exact hzero.symm
  · rename_i hne
    have hpos : 0 < c := Nat.pos_of_ne_zero fun hzero => hne (by simp [hzero])
    exact_mod_cast roundHalfEven_of_digits (b := 2) (p := 52) (by norm_num) hc hpos k

theorem double_natCast {c : ℕ} (hc : c < 2 ^ 53) : double c = c := by
  have h := double_of_digits hc 0
  rw [zpow_zero, mul_one] at h
  exact h

variable {x : ℚ}

theorem double_nonneg (h : 0 ≤ x) : 0 ≤ double x := by
  unfold double
  split
  · exact le_rfl
  have hround : (0 : ℤ) ≤ roundHalfEven (x / 2 ^ (Int.log 2 |x| - 52)) := by
    have hzero := roundHalfEven_intCast 0
    rw [← hzero]
    exact roundHalfEven_mono (by push_cast; exact div_nonneg h (le_of_lt (zpow_pos (by norm_num) _)))
  have hcast : (0 : ℚ) ≤ (roundHalfEven (x / 2 ^ (Int.log 2 |x| - 52)) : ℚ) := by exact_mod_cast hround
  exact mul_nonneg hcast (le_of_lt (zpow_pos (by norm_num) _))

theorem double_le_zpow (h : 0 < x) : double x ≤ 2 ^ (Int.log 2 x + 1) := by
  unfold double
  rw [if_neg (ne_of_gt h), abs_of_pos h]
  have hlt : x < (2 : ℚ) ^ (Int.log 2 x + 1) := by exact_mod_cast Int.lt_zpow_succ_log_self (by norm_num) x
  generalize Int.log 2 x = e at hlt ⊢
  have hsplit : (2 : ℚ) ^ (e + 1) = ((2 ^ 53 : ℕ) : ℤ) * 2 ^ (e - 52) := by
    rw [zpow_shift two_ne_zero (by omega : (53 : ℕ) + (e - 52) = e + 1)]
    norm_cast
  have hpos : (0 : ℚ) < 2 ^ (e - 52) := zpow_pos (by norm_num) _
  have hround : roundHalfEven (x / 2 ^ (e - 52)) ≤ ((2 ^ 53 : ℕ) : ℤ) := by
    rw [← roundHalfEven_intCast ((2 ^ 53 : ℕ) : ℤ)]
    apply roundHalfEven_mono
    rw [div_le_iff₀ hpos, ← hsplit]
    exact le_of_lt hlt
  rw [hsplit]
  exact mul_le_mul_of_nonneg_right (by exact_mod_cast hround) (le_of_lt hpos)

theorem zpow_le_double (h : 0 < x) : 2 ^ Int.log 2 x ≤ double x := by
  unfold double
  rw [if_neg (ne_of_gt h), abs_of_pos h]
  have hle : (2 : ℚ) ^ Int.log 2 x ≤ x := by exact_mod_cast Int.zpow_log_le_self (by norm_num) h
  generalize Int.log 2 x = e at hle ⊢
  have hsplit : (2 : ℚ) ^ e = ((2 ^ 52 : ℕ) : ℤ) * 2 ^ (e - 52) := by
    rw [zpow_shift two_ne_zero (by omega : (52 : ℕ) + (e - 52) = e)]
    norm_cast
  have hpos : (0 : ℚ) < 2 ^ (e - 52) := zpow_pos (by norm_num) _
  have hround : ((2 ^ 52 : ℕ) : ℤ) ≤ roundHalfEven (x / 2 ^ (e - 52)) := by
    rw [← roundHalfEven_intCast ((2 ^ 52 : ℕ) : ℤ)]
    apply roundHalfEven_mono
    rw [le_div_iff₀ hpos, ← hsplit]
    exact hle
  rw [hsplit]
  exact mul_le_mul_of_nonneg_right (by exact_mod_cast hround) (le_of_lt hpos)

theorem double_mono {x y : ℚ} (hx : 0 ≤ x) (h : x ≤ y) : double x ≤ double y := by
  rcases eq_or_lt_of_le hx with rfl | hpos
  · rw [double_zero]
    exact double_nonneg h
  have hpos' : 0 < y := lt_of_lt_of_le hpos h
  rcases lt_or_eq_of_le (Int.log_mono_right (b := 2) hpos h) with hlog | hlog
  · calc double x ≤ 2 ^ (Int.log 2 x + 1) := double_le_zpow hpos
      _ ≤ 2 ^ Int.log 2 y := zpow_le_zpow_right₀ (by norm_num) hlog
      _ ≤ double y := zpow_le_double hpos'
  · unfold double
    rw [if_neg (ne_of_gt hpos), if_neg (ne_of_gt hpos'), abs_of_pos hpos, abs_of_pos hpos', hlog]
    have hscale : (0 : ℚ) < 2 ^ (Int.log 2 y - 52) := zpow_pos (by norm_num) _
    refine mul_le_mul_of_nonneg_right ?_ (le_of_lt hscale)
    exact_mod_cast roundHalfEven_mono (div_le_div_of_nonneg_right h (le_of_lt hscale))

theorem abs_roundHalfEven_sub_le (x : ℚ) : |(roundHalfEven x : ℚ) - x| ≤ 1 / 2 := by
  have hlower := Int.floor_le x
  have hupper := Int.lt_floor_add_one x
  unfold roundHalfEven
  rw [abs_le]
  split_ifs <;> push_cast <;> constructor <;> linarith

theorem roundHalfEven_eq {n : ℤ} (h : |x - n| < 1 / 2) : roundHalfEven x = n := by
  have hround := abs_roundHalfEven_sub_le x
  rw [abs_lt] at h
  rw [abs_le] at hround
  have hlower : (roundHalfEven x : ℚ) < n + 1 := by linarith
  have hupper : (n : ℚ) < roundHalfEven x + 1 := by linarith
  have hlower' : roundHalfEven x < n + 1 := by exact_mod_cast hlower
  have hupper' : n < roundHalfEven x + 1 := by exact_mod_cast hupper
  omega

theorem abs_double_sub_le (h : 0 ≤ x) : |double x - x| ≤ x / 2 ^ 53 := by
  rcases eq_or_lt_of_le h with rfl | hpos
  · simp [double_zero]
  unfold double
  rw [if_neg (ne_of_gt hpos), abs_of_pos hpos]
  have hle : (2 : ℚ) ^ Int.log 2 x ≤ x := by exact_mod_cast Int.zpow_log_le_self (by norm_num) hpos
  have hscale : (0 : ℚ) < 2 ^ (Int.log 2 x - 52) := zpow_pos (by norm_num) _
  have hulp : (2 : ℚ) ^ (Int.log 2 x - 52) ≤ x / 2 ^ 52 := by
    rw [zpow_sub₀ (by norm_num)]
    exact div_le_div_of_nonneg_right hle (by norm_num)
  generalize (2 : ℚ) ^ (Int.log 2 x - 52) = ulp at hscale hulp ⊢
  have hsplit : (roundHalfEven (x / ulp) : ℚ) * ulp - x = ((roundHalfEven (x / ulp) : ℚ) - x / ulp) * ulp := by field_simp
  calc |(roundHalfEven (x / ulp) : ℚ) * ulp - x|
      = |(roundHalfEven (x / ulp) : ℚ) - x / ulp| * ulp := by rw [hsplit, abs_mul, abs_of_pos hscale]
    _ ≤ 1 / 2 * ulp := mul_le_mul_of_nonneg_right (abs_roundHalfEven_sub_le _) (le_of_lt hscale)
    _ ≤ x / 2 ^ 53 := by
      have hhalf : x / 2 ^ 53 = 1 / 2 * (x / 2 ^ 52) := by ring
      rw [hhalf]
      exact mul_le_mul_of_nonneg_left hulp (by norm_num)

theorem double_eq_of_near {e : ℕ} {n : ℤ} (hlower : 2 ^ e ≤ x) (hupper : x < 2 ^ (e + 1))
    (h : |x * 2 ^ (52 - e : ℤ) - n| < 1 / 2) : double x = n / 2 ^ (52 - e : ℤ) := by
  have hpos : 0 < x := lt_of_lt_of_le (by positivity) hlower
  have hlog : Int.log 2 x = e := by
    apply le_antisymm
    · have hlt : x < ((2 : ℕ) : ℚ) ^ ((e : ℤ) + 1) := by exact_mod_cast hupper
      have := (Int.lt_zpow_iff_log_lt (by norm_num) hpos).mp hlt
      omega
    · apply (Int.zpow_le_iff_le_log (by norm_num) hpos).mp
      exact_mod_cast hlower
  have hinverse : (2 : ℚ) ^ ((e : ℤ) - 52) = ((2 : ℚ) ^ (52 - e : ℤ))⁻¹ := by rw [← zpow_neg, neg_sub]
  unfold double
  rw [if_neg (ne_of_gt hpos), abs_of_pos hpos, hlog, hinverse, div_inv_eq_mul, roundHalfEven_eq h, ← div_eq_mul_inv]

def nearestDouble (x : ℚ) : Option ℚ :=
  let e := max (Int.log 2 |x| - 52) (-1074)
  let rounded := roundHalfEven (x / 2 ^ e) * (2 : ℚ) ^ e
  if |rounded| < 2 ^ 1024 then some rounded else none

theorem nearestDouble_eq (hlower : 1 / 2 ^ 1022 ≤ x) (hupper : x < 2 ^ 1022) : nearestDouble x = some (double x) := by
  have hpos : 0 < x := lt_of_lt_of_le (by positivity) hlower
  have hlog : -1022 ≤ Int.log 2 x := by
    apply (Int.zpow_le_iff_le_log (by norm_num) hpos).mp
    calc ((2 : ℕ) : ℚ) ^ (-1022 : ℤ) = 1 / 2 ^ 1022 := by
          rw [zpow_neg, one_div]
          rfl
      _ ≤ x := hlower
  have hmax : max (Int.log 2 |x| - 52) (-1074) = Int.log 2 |x| - 52 := by
    rw [abs_of_pos hpos]
    omega
  have hdouble : double x = roundHalfEven (x / 2 ^ (Int.log 2 |x| - 52)) * 2 ^ (Int.log 2 |x| - 52) :=
    if_neg (ne_of_gt hpos)
  have hbound : |double x| < 2 ^ 1024 := by
    have hnear := abs_double_sub_le (le_of_lt hpos)
    have hsmall : x / 2 ^ 53 ≤ x := div_le_self (le_of_lt hpos) (by norm_num)
    calc |double x| = |x + (double x - x)| := by rw [add_sub_cancel]
      _ ≤ |x| + |double x - x| := abs_add_le _ _
      _ ≤ x + x := add_le_add (le_of_eq (abs_of_pos hpos)) (le_trans hnear hsmall)
      _ < 2 ^ 1022 + 2 ^ 1022 := add_lt_add hupper hupper
      _ ≤ 2 ^ 1024 := by
          have hfour : (2 : ℚ) ^ 1024 = 2 ^ 1022 * 2 * 2 := by rw [← pow_succ, ← pow_succ]
          have hhalf : (0 : ℚ) < 2 ^ 1022 := by positivity
          rw [hfour]
          generalize (2 : ℚ) ^ 1022 = half at hhalf ⊢
          linarith only [hhalf]
  unfold nearestDouble
  simp only [hmax, ← hdouble, if_pos hbound]

theorem nearestDouble_of_one_le (hlower : 1 ≤ x) (hupper : x ≤ 2 ^ 53) : nearestDouble x = some (double x) := by
  apply nearestDouble_eq
  · exact le_trans (div_le_one_of_le₀ (one_le_pow₀ (by norm_num)) (by positivity)) hlower
  · exact lt_of_le_of_lt hupper (pow_lt_pow_right₀ (by norm_num) (by decide))

end Foundations
