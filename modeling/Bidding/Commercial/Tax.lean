import Bidding.Foundations.Scalar
import Mathlib.Tactic.Linarith

/-!
# Tax on a price

The tax on an amount is a ratio in basis points, rounded to whole đồng. It is added to a net amount and taken out of
a gross one; the two ways undo each other, since both round the same remainder.
-/

namespace Bidding.Commercial

open Foundations

/-- The tax decisions of a policy; a missing one is `None`. -/
structure TaxPolicy where
  taxInclusive : Scalar
  taxBasisPoints : Scalar
  rounding : Scalar

structure TaxDecisions where
  inclusive : Bool
  basisPoints : Int
  rounding : String

structure TaxPrice where
  subtotal : Int
  tax : Int
  total : Int
  currency : String
  period : String
  deriving DecidableEq

def supportedTaxRounding : List String := ["half_up", "floor", "ceil"]

/-- `tax_arithmetic_configured(policy)`, with the decisions that are then read. -/
def taxArithmeticConfigured (policy : TaxPolicy) : Option TaxDecisions :=
  match policy.taxInclusive, policy.taxBasisPoints, policy.rounding with
  | .bool inclusive, .int basisPoints, .str rounding =>
    if 0 ≤ basisPoints ∧ basisPoints ≤ 10000 ∧ rounding ∈ supportedTaxRounding then
      some ⟨inclusive, basisPoints, rounding⟩
    else none
  | _, _, _ => none

def roundedRatio (numerator denominator : Int) (rounding : String) : Int :=
  let quotient := numerator / denominator
  let remainder := numerator % denominator
  if rounding = "ceil" then quotient + if 0 < remainder then 1 else 0
  else if rounding = "half_up" then quotient + if denominator ≤ remainder * 2 then 1 else 0
  else quotient

/-- `calculate_tax_price(amount, policy, period=period)`; a policy that is no dict is `none`. -/
def calculateTaxPrice (amount : Int) (policy : Option TaxPolicy) (period : String) : Except String TaxPrice :=
  if amount < 0 then .error "Tax price amount must be nonnegative."
  else
    let price (inclusive : Bool) (tax : Int) : TaxPrice :=
      let subtotal := if inclusive then amount - tax else amount
      ⟨subtotal, tax, subtotal + tax, "VND", period⟩
    match policy.bind taxArithmeticConfigured with
    | none => .ok (price false 0)
    | some ⟨inclusive, basisPoints, rounding⟩ =>
      let denominator := if inclusive then 10000 + basisPoints else 10000
      .ok (price inclusive (roundedRatio (amount * basisPoints) denominator rounding))

section Rounding

variable {n d q r : Int} {rounding : String}

/-- Whether a remainder is rounded up. -/
def RoundsUp (remainder denominator : Int) (rounding : String) : Prop :=
  rounding = "ceil" ∧ 0 < remainder ∨ rounding = "half_up" ∧ denominator ≤ remainder * 2

theorem roundedRatio_eq (hr : 0 ≤ r) (hd : r < d) (hn : r + d * q = n) :
    (RoundsUp r d rounding → roundedRatio n d rounding = q + 1) ∧
      (¬RoundsUp r d rounding → roundedRatio n d rounding = q) := by
  obtain ⟨hquotient, hremainder⟩ := (Int.ediv_emod_unique (by omega : 0 < d)).mpr ⟨hn, hr, hd⟩
  unfold roundedRatio RoundsUp
  simp only [hquotient, hremainder]
  split
  · rename_i hceil
    simp [hceil]
  rename_i hceil
  split
  · rename_i hhalf
    simp [hhalf]
  · rename_i hhalf
    simp [hceil, hhalf]

theorem roundedRatio_nonneg (hn : 0 ≤ n) (hd : 0 < d) (rounding : String) : 0 ≤ roundedRatio n d rounding := by
  have hquotient : 0 ≤ n / d := Int.ediv_nonneg hn (by omega)
  unfold roundedRatio
  simp only
  split
  · split <;> omega
  · split
    · split <;> omega
    · exact hquotient

/-- The gross amount has the remainder of the net one, or that remainder and the rate when it was rounded up. -/
theorem roundedRatio_gross {amount rate : Int} (hd : 0 < d) (hrate : 0 ≤ rate) (rounding : String) :
    roundedRatio ((amount + roundedRatio (amount * rate) d rounding) * rate) (d + rate) rounding =
      roundedRatio (amount * rate) d rounding := by
  have hr := Int.emod_nonneg (amount * rate) (by omega : d ≠ 0)
  have hlt := Int.emod_lt_of_pos (amount * rate) hd
  have hnet := Int.emod_add_mul_ediv (amount * rate) d
  generalize amount * rate % d = r at hr hlt hnet
  generalize amount * rate / d = q at hnet
  have hround := @roundedRatio_eq _ _ _ _ rounding hr hlt hnet
  by_cases hup : RoundsUp r d rounding
  · rw [hround.1 hup]
    apply (roundedRatio_eq (by omega : 0 ≤ r + rate) (by omega) (by linarith)).1
    rcases hup with ⟨hceil, hpos⟩ | ⟨hhalf, hle⟩
    · exact .inl ⟨hceil, by omega⟩
    · exact .inr ⟨hhalf, by omega⟩
  · rw [hround.2 hup]
    apply (roundedRatio_eq hr (by omega) (by linarith)).2
    rintro (⟨hceil, hpos⟩ | ⟨hhalf, hle⟩)
    · exact hup (.inl ⟨hceil, hpos⟩)
    · exact hup (.inr ⟨hhalf, by omega⟩)

end Rounding

section Prices

variable {amount basisPoints : Int} {rounding : String}

def configuredPolicy (inclusive : Bool) (basisPoints : Int) (rounding : String) : TaxPolicy :=
  ⟨.bool inclusive, .int basisPoints, .str rounding⟩

theorem calculateTaxPrice_configured (hamount : 0 ≤ amount) (hlow : 0 ≤ basisPoints) (hhigh : basisPoints ≤ 10000)
    (hrounding : rounding ∈ supportedTaxRounding) (inclusive : Bool) (period : String) :
    calculateTaxPrice amount (some (configuredPolicy inclusive basisPoints rounding)) period =
      let tax := roundedRatio (amount * basisPoints) (if inclusive then 10000 + basisPoints else 10000) rounding
      let subtotal := if inclusive then amount - tax else amount
      .ok ⟨subtotal, tax, subtotal + tax, "VND", period⟩ := by
  unfold calculateTaxPrice
  rw [if_neg (by omega)]
  simp [configuredPolicy, taxArithmeticConfigured, hlow, hhigh, hrounding]

/-- The parts of a price add up whichever way it is computed, and the total of a net amount is split into that amount
and its tax again. -/
def TaxAddsUp (amount basisPoints : Int) (rounding period : String) : Prop :=
  (∀ inclusive, ∃ price,
    calculateTaxPrice amount (some (configuredPolicy inclusive basisPoints rounding)) period = .ok price ∧
      price.subtotal + price.tax = price.total ∧ 0 ≤ price.tax) ∧
  ∃ price split,
    calculateTaxPrice amount (some (configuredPolicy false basisPoints rounding)) period = .ok price ∧
    calculateTaxPrice price.total (some (configuredPolicy true basisPoints rounding)) period = .ok split ∧
      price.subtotal = amount ∧ split.subtotal = amount ∧ split.tax = price.tax

/-- Under every supported rounding the tax is rounded as its name says, and net and tax add up to the amount. -/
theorem tax_adds_up (hamount : 0 ≤ amount) (hlow : 0 ≤ basisPoints) (hhigh : basisPoints ≤ 10000)
    (hrounding : rounding ∈ supportedTaxRounding) (period : String) : TaxAddsUp amount basisPoints rounding period := by
  have hproduct : 0 ≤ amount * basisPoints := Int.mul_nonneg hamount hlow
  constructor
  · intro inclusive
    refine ⟨_, calculateTaxPrice_configured hamount hlow hhigh hrounding inclusive period, rfl, ?_⟩
    apply roundedRatio_nonneg hproduct
    split <;> omega
  · have htax := roundedRatio_nonneg hproduct (by omega : (0 : Int) < 10000) rounding
    have hgross := @roundedRatio_gross 10000 amount basisPoints (by omega) hlow rounding
    have hnet := calculateTaxPrice_configured hamount hlow hhigh hrounding false period
    simp only [Bool.false_eq_true, if_false] at hnet
    refine ⟨_, _, hnet, calculateTaxPrice_configured (by simp only; omega) hlow hhigh hrounding true period, rfl, ?_, hgross⟩
    simp only [if_true, hgross]
    omega

theorem tax_adds_up_pack : TaxAddsUp 99000 825 "half_up" "one_time" :=
  tax_adds_up (by decide) (by decide) (by decide) (by decide) "one_time"

end Prices

end Bidding.Commercial
