import Mathlib.Data.Int.Log
import Mathlib.Data.Rat.Floor
import Mathlib.Algebra.Order.Floor.Semifield

/-!
# Decimal arithmetic under a context

Every operation gives the exact result where it fits the precision, and the nearest number that does elsewhere. Numbers
of at most 28 digits fit the default context (`fit_of_digits`).
-/

namespace Foundations

def roundHalfEven (x : ℚ) : ℤ :=
  if x - ⌊x⌋ < 1 / 2 then ⌊x⌋
  else if 1 / 2 < x - ⌊x⌋ then ⌊x⌋ + 1
  else if ⌊x⌋ % 2 = 0 then ⌊x⌋
  else ⌊x⌋ + 1

def fit (x : ℚ) : ℚ :=
  if x = 0 then 0
  else roundHalfEven (x / 10 ^ (Int.log 10 |x| - 27)) * 10 ^ (Int.log 10 |x| - 27)

/-- `quantize(Decimal("1"), rounding=ROUND_HALF_UP)` of a number that is not negative; a result of more
than 28 digits is an error. -/
def quantizeHalfUp (x : ℚ) : Option ℕ :=
  if ⌊x + 1 / 2⌋₊ < 10 ^ 28 then some ⌊x + 1 / 2⌋₊ else none

theorem roundHalfEven_intCast (n : ℤ) : roundHalfEven (n : ℚ) = n := by
  unfold roundHalfEven
  rw [Int.floor_intCast, sub_self, if_pos (by norm_num)]

theorem zpow_shift {b : ℚ} (hb : b ≠ 0) {k e : ℤ} {m : ℕ} (h : m + e = k) : b ^ k = b ^ m * b ^ e := by
  rw [← h, zpow_add₀ hb, zpow_natCast]

/-- A number of at most `p + 1` digits is rounded to itself: the last digit that is kept stands at most at its last one. -/
theorem roundHalfEven_of_digits {b p c : ℕ} (hb : 1 < b) (hc : c < b ^ (p + 1)) (hpos : 0 < c) (k : ℤ) :
    roundHalfEven ((c : ℚ) * b ^ k / b ^ (Int.log b |(c : ℚ) * b ^ k| - p)) * (b : ℚ) ^ (Int.log b |(c : ℚ) * b ^ k| - p) =
      c * b ^ k := by
  have hbase : (0 : ℚ) < b := by exact_mod_cast (by omega : 0 < b)
  have hnum : (0 : ℚ) < c * b ^ k := mul_pos (by exact_mod_cast hpos) (zpow_pos hbase k)
  rw [abs_of_pos hnum]
  have hlog : Int.log b ((c : ℚ) * b ^ k) < (p + 1 : ℕ) + k := by
    refine (Int.lt_zpow_iff_log_lt hb hnum).mp ?_
    rw [zpow_add₀ (ne_of_gt hbase)]
    exact mul_lt_mul_of_pos_right (by exact_mod_cast hc) (zpow_pos hbase k)
  obtain ⟨m, hm⟩ : ∃ m : ℕ, (m : ℤ) + (Int.log b ((c : ℚ) * b ^ k) - p) = k :=
    ⟨(k - (Int.log b ((c : ℚ) * b ^ k) - p)).toNat, by omega⟩
  generalize Int.log b ((c : ℚ) * b ^ k) - p = e at hm ⊢
  have hpower : (b : ℚ) ^ e ≠ 0 := zpow_ne_zero e (ne_of_gt hbase)
  have hdiv : (c : ℚ) * b ^ k / b ^ e = ((c * b ^ m : ℕ) : ℤ) := by
    rw [zpow_shift (ne_of_gt hbase) hm]
    push_cast
    field_simp
  rw [hdiv, roundHalfEven_intCast, ← hdiv, div_mul_cancel₀ _ hpower]

theorem fit_of_digits {c : ℕ} (hc : c < 10 ^ 28) (k : ℤ) : fit (c * 10 ^ k) = c * 10 ^ k := by
  unfold fit
  split
  · rename_i hzero
    exact hzero.symm
  · rename_i hne
    have hpos : 0 < c := Nat.pos_of_ne_zero fun hzero => hne (by simp [hzero])
    exact_mod_cast roundHalfEven_of_digits (b := 10) (p := 27) (by norm_num) hc hpos k

theorem quantizeHalfUp_div {n d : ℕ} (hd : 0 < d) (hn : n < 10 ^ 27) :
    quantizeHalfUp ((n : ℚ) / ((2 * d : ℕ) : ℚ)) = some ((n + d) / (2 * d)) := by
  have hfloor : ⌊(n : ℚ) / ((2 * d : ℕ) : ℚ) + 1 / 2⌋₊ = (n + d) / (2 * d) := by
    rw [← Nat.floor_div_eq_div (K := ℚ)]
    congr 1
    have hd' : (d : ℚ) ≠ 0 := by exact_mod_cast ne_of_gt hd
    push_cast
    field_simp
  have hsmall : (n + d) / (2 * d) < 10 ^ 28 := by
    refine (Nat.div_lt_iff_lt_mul (by omega)).mpr ?_
    nlinarith
  unfold quantizeHalfUp
  rw [hfloor, if_pos hsmall]

end Foundations
