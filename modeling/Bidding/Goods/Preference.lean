import Bidding.Foundations.DecimalContext
import Bidding.Outbox.References
import Bidding.Sync.Text

/-!
# Preferences for goods

The goods line with the best preference code bears no surcharge, and every other one is raised by the difference of the
rates. The server computes this in decimals on the totals that were submitted, the client in integers, on totals it
derives where it can.
-/

namespace Bidding.Goods

open Foundations List

/-- The fields of a line that the calculators read; the amounts are whole đồng. -/
structure GoodsLine where
  id : String
  khoiLuong : String
  donGiaDuThau : ℕ
  thanhTienDuThau : ℕ
  maUuDai : Int
  deriving DecidableEq

structure LinePreference where
  id : String
  maUuDai : Int
  heSoUuDaiGocBp : ℕ
  heSoCongUuDaiBp : ℕ
  giaTriCoSoSauGiamGia : ℕ
  giaTriCongUuDai : ℕ
  thanhTienSauUuDai : ℕ
  deriving DecidableEq

structure ScopePreference where
  lines : List LinePreference
  tongTruocGiamGia : ℕ
  tongSauGiamGia : ℕ
  heSoUuDaiCaoNhatBp : ℕ
  tongGiaTriCongUuDai : ℕ
  giaSoSanhSauUuDai : ℕ
  giaDanhGiaSauUuDai : Option ℕ
  deriving DecidableEq

/-- `preference_rate_bp(code)`; `none` is the `ValueError`. -/
def preferenceRateBp (code : Int) : Option ℕ :=
  match code with
  | 0 => some 0
  | 1 => some 750
  | 2 => some 1000
  | 3 => some 1000
  | 4 => some 1200
  | 5 => some 1500
  | _ => none

/-- `(Decimal(100) - rate) / Decimal(100)`. -/
def remainingRate (discountRate : ℚ) : ℚ := fit (fit (100 - discountRate) / 100)

abbrev RatedLine : Type := GoodsLine × ℕ

def surchargeLine (maximum : ℕ) (item : RatedLine) (base : ℕ) : Option LinePreference :=
  (quantizeHalfUp (fit (fit (base * (maximum - item.2 : ℕ)) / 10000))).map fun surcharge =>
    ⟨item.1.id, item.1.maUuDai, item.2, maximum - item.2, base, surcharge, base + surcharge⟩

/-- `calculate_goods_preference(…)`; `none` is an exception. -/
def calculateGoodsPreference (lines : List GoodsLine) (discountRate : ℚ)
    (scopeAfterDiscount evaluationBase : Option ℕ) : Option ScopePreference :=
  (lines.mapM fun line => (preferenceRateBp line.maUuDai).map fun rate => (line, rate)).bind fun normalized : List RatedLine =>
  if normalized = [] then none
  else if discountRate < 0 ∨ 100 < discountRate then none
  else
    (normalized.mapM fun item =>
      quantizeHalfUp (fit (item.1.thanhTienDuThau * remainingRate discountRate))).bind fun bases =>
    let tongSauGiamGia := scopeAfterDiscount.getD bases.sum
    let maximum := (normalized.map Prod.snd).foldl max 0
    ((normalized.zip bases).mapM fun item => surchargeLine maximum item.1 item.2).map fun results =>
      let totalSurcharge := (results.map LinePreference.giaTriCongUuDai).sum
      ⟨results, (normalized.map fun item => item.1.thanhTienDuThau).sum, tongSauGiamGia, maximum,
        totalSurcharge, tongSauGiamGia + totalSurcharge, evaluationBase.map (· + totalSurcharge)⟩

def divideHalfUp (numerator denominator : ℕ) : ℕ := (numerator + denominator / 2) / denominator

/-- `text.replace(",", ".")`: the first comma. -/
def replaceComma : List Char → List Char
  | [] => []
  | c :: rest => if c = ',' then '.' :: rest else c :: replaceComma rest

def digitsNumber (digits : List Char) : ℕ := digits.foldl (fun n c => 10 * n + (c.toNat - '0'.toNat)) 0

/-- `/^(\d+)(?:\.(\d+))?$/`: the digits before the point and those after it. -/
def matchDecimal (chars : List Char) : Option (List Char × List Char) :=
  let whole := chars.takeWhile Char.isDigit
  match chars.dropWhile Char.isDigit with
  | [] => if whole = [] then none else some (whole, [])
  | '.' :: fraction => if whole = [] ∨ fraction = [] ∨ !fraction.all Char.isDigit then none else some (whole, fraction)
  | _ => none

/-- `positiveQuantity(value)`: the numerator and the denominator. -/
def positiveQuantity (value : String) : Option (ℕ × ℕ) :=
  (matchDecimal (replaceComma (jsTrim value).toList)).bind fun parts =>
  if digitsNumber (parts.1 ++ parts.2) = 0 then none
  else some (digitsNumber (parts.1 ++ parts.2), 10 ^ parts.2.length)

def deriveBidderGoodsLineTotal (row : GoodsLine) : Option ℕ :=
  (positiveQuantity row.khoiLuong).map fun quantity => divideHalfUp (row.donGiaDuThau * quantity.1) quantity.2

/-- The discount as the client is given it: per cent in units of 0.0001, or basis points. -/
inductive Discount where
  | percent (discountUnits : ℕ)
  | basisPoints (discount : Int)
  deriving DecidableEq

/-- `remainingRate` and `discountDenominator`; `none` is the `RangeError`. -/
def Discount.remaining : Discount → Option (ℕ × ℕ)
  | .percent discountUnits => if 1000000 < discountUnits then none else some (1000000 - discountUnits, 1000000)
  | .basisPoints discount => if discount < 0 ∨ 10000 < discount then none else some ((10000 - discount).toNat, 10000)

structure NormalizedLine where
  line : GoodsLine
  amount : ℕ
  intrinsic : ℕ
  deriving DecidableEq

variable (line : GoodsLine) {α β : Type} {units : ℕ}

/-- The line with its total derived. -/
def normalizeLine : Option NormalizedLine :=
  (preferenceRateBp line.maUuDai).map fun intrinsic =>
    ⟨line, (deriveBidderGoodsLineTotal line).getD line.thanhTienDuThau, intrinsic⟩

/-- `calculateBidderGoodsPreference(lines, …)`; `none` is an exception. -/
def calculateBidderGoodsPreference (lines : List GoodsLine) (discount : Discount)
    (scopeAfterDiscount evaluationBase : Option ℕ) : Option ScopePreference :=
  if lines = [] then none
  else
    (lines.mapM normalizeLine).bind fun normalized =>
    discount.remaining.map fun remaining =>
    let bases := normalized.map fun item => divideHalfUp (item.amount * remaining.1) remaining.2
    let scopeTotal := scopeAfterDiscount.getD bases.sum
    let maximum := (normalized.map NormalizedLine.intrinsic).foldl max 0
    let calculatedLines := (normalized.zip bases).map fun item =>
      let surchargeRate := maximum - item.1.intrinsic
      let surcharge := divideHalfUp (item.2 * surchargeRate) 10000
      (⟨item.1.line.id, item.1.line.maUuDai, item.1.intrinsic, surchargeRate, item.2, surcharge,
        item.2 + surcharge⟩ : LinePreference)
    let totalSurcharge := (calculatedLines.map LinePreference.giaTriCongUuDai).sum
    ⟨calculatedLines, (normalized.map NormalizedLine.amount).sum, scopeTotal, maximum, totalSurcharge,
      scopeTotal + totalSurcharge, evaluationBase.map (· + totalSurcharge)⟩

/-! ## The server computes in integers -/

/-- A line the server accepts as official: amounts it reads, a total within 1 đồng of the quantity, as the
server reads it, times the unit price, and a code from 0 to 5. -/
structure GoodsLine.Official (line : GoodsLine) : Prop where
  unitPrice : line.donGiaDuThau ≤ maxAmount
  lineTotal : line.thanhTienDuThau ≤ maxAmount
  quantity : ∃ quantity : Dec, Dec.ofText line.khoiLuong = some quantity ∧
    |(quantity.coeff * 10 ^ quantity.exp : ℚ) * line.donGiaDuThau - line.thanhTienDuThau| ≤ 1
  code : 0 ≤ line.maUuDai ∧ line.maUuDai ≤ 5

def rateOf : ℕ := (preferenceRateBp line.maUuDai).getD 0

theorem preferenceRateBp_eq {code : Int} (h : 0 ≤ code ∧ code ≤ 5) :
    ∃ rate, preferenceRateBp code = some rate ∧ rate ≤ 1500 := by
  obtain ⟨hlow, hhigh⟩ := h
  interval_cases code
  · exact ⟨0, rfl, by omega⟩
  · exact ⟨750, rfl, by omega⟩
  · exact ⟨1000, rfl, by omega⟩
  · exact ⟨1000, rfl, by omega⟩
  · exact ⟨1200, rfl, by omega⟩
  · exact ⟨1500, rfl, by omega⟩

theorem GoodsLine.Official.rate_eq {line : GoodsLine} (h : line.Official) :
    preferenceRateBp line.maUuDai = some (rateOf line) ∧ rateOf line ≤ 1500 := by
  obtain ⟨rate, hrate, hle⟩ := preferenceRateBp_eq h.code
  unfold rateOf
  rw [hrate]
  exact ⟨rfl, hle⟩

theorem mapM_eq_some_map {f : α → Option β} {g : α → β} {l : List α}
    (h : ∀ a ∈ l, f a = some (g a)) : l.mapM f = some (l.map g) := by
  induction l with
  | nil => rfl
  | cons a l ih =>
    rw [mapM_cons, h a mem_cons_self, ih fun b hb => h b (mem_cons_of_mem a hb)]
    rfl

theorem zip_map_self (f : α → β) (l : List α) : l.zip (l.map f) = l.map fun a => (a, f a) := by
  induction l with
  | nil => rfl
  | cons a l ih => exact congrArg ((a, f a) :: ·) ih

theorem le_foldl_max {l : List ℕ} {bound : ℕ} (h : ∀ n ∈ l, n ≤ bound) {start : ℕ} (hstart : start ≤ bound) :
    l.foldl max start ≤ bound := by
  induction l generalizing start with
  | nil => exact hstart
  | cons a l ih =>
    apply ih fun n hn => h n (mem_cons_of_mem a hn)
    exact max_le hstart (h a mem_cons_self)

theorem remainingRate_eq (h : units ≤ 1000000) :
    remainingRate ((units : ℚ) / 10000) = ((1000000 - units : ℕ) : ℚ) * 10 ^ (-6 : ℤ) := by
  have hsmall : 1000000 - units < 10 ^ 28 := by omega
  have hfirst : (100 : ℚ) - (units : ℚ) / 10000 = ((1000000 - units : ℕ) : ℚ) * 10 ^ (-4 : ℤ) := by
    rw [Nat.cast_sub h]
    norm_num
    ring
  have hsecond : ((1000000 - units : ℕ) : ℚ) * 10 ^ (-4 : ℤ) / 100 = ((1000000 - units : ℕ) : ℚ) * 10 ^ (-6 : ℤ) := by
    norm_num
    ring
  unfold remainingRate
  rw [hfirst, fit_of_digits hsmall, hsecond, fit_of_digits hsmall]

theorem base_eq {amount units : ℕ} (hamount : amount ≤ maxAmount) (hunits : units ≤ 1000000) :
    quantizeHalfUp (fit (amount * remainingRate ((units : ℚ) / 10000))) =
      some (divideHalfUp (amount * (1000000 - units)) 1000000) := by
  have hproduct : amount * (1000000 - units) < 10 ^ 27 := by
    have hle : amount * (1000000 - units) ≤ maxAmount * 1000000 :=
      Nat.mul_le_mul hamount (Nat.sub_le _ _)
    unfold maxAmount at hle
    omega
  have hexact : (amount : ℚ) * (((1000000 - units : ℕ) : ℚ) * 10 ^ (-6 : ℤ)) =
      ((amount * (1000000 - units) : ℕ) : ℚ) * 10 ^ (-6 : ℤ) := by
    push_cast
    ring
  have hdiv : ((amount * (1000000 - units) : ℕ) : ℚ) * 10 ^ (-6 : ℤ) =
      ((amount * (1000000 - units) : ℕ) : ℚ) / ((2 * 500000 : ℕ) : ℚ) := by
    norm_num
    ring
  rw [remainingRate_eq hunits, hexact, fit_of_digits (by omega), hdiv, quantizeHalfUp_div (by omega) hproduct]
  rfl

theorem base_le {amount remaining : ℕ} (h : remaining ≤ 1000000) : divideHalfUp (amount * remaining) 1000000 ≤ amount := by
  unfold divideHalfUp
  have hle : amount * remaining ≤ amount * 1000000 := Nat.mul_le_mul_left _ h
  omega

theorem surchargeLine_eq {item : RatedLine} {base maximum : ℕ} (hbase : base ≤ maxAmount) (hmaximum : maximum ≤ 1500) :
    surchargeLine maximum item base = some ⟨item.1.id, item.1.maUuDai, item.2, maximum - item.2, base,
      divideHalfUp (base * (maximum - item.2)) 10000, base + divideHalfUp (base * (maximum - item.2)) 10000⟩ := by
  have hproduct : base * (maximum - item.2) < 10 ^ 27 := by
    have hle : base * (maximum - item.2) ≤ maxAmount * 1500 := Nat.mul_le_mul hbase (by omega)
    unfold maxAmount at hle
    omega
  have hexact : (base : ℚ) * ((maximum - item.2 : ℕ) : ℚ) = ((base * (maximum - item.2) : ℕ) : ℚ) * 10 ^ (0 : ℤ) := by
    push_cast
    ring
  have hscaled : ((base * (maximum - item.2) : ℕ) : ℚ) * 10 ^ (0 : ℤ) / 10000 =
      ((base * (maximum - item.2) : ℕ) : ℚ) * 10 ^ (-4 : ℤ) := by
    norm_num
    ring
  have hdiv : ((base * (maximum - item.2) : ℕ) : ℚ) * 10 ^ (-4 : ℤ) =
      ((base * (maximum - item.2) : ℕ) : ℚ) / ((2 * 5000 : ℕ) : ℚ) := by
    norm_num
    ring
  unfold surchargeLine
  rw [hexact, fit_of_digits (by omega), hscaled, fit_of_digits (by omega), hdiv, quantizeHalfUp_div (by omega) hproduct]
  rfl

/-! ## Both calculators in one form -/

def NormalizedLine.preference (maximum remaining : ℕ) (item : NormalizedLine) : LinePreference :=
  let base := divideHalfUp (item.amount * remaining) 1000000
  ⟨item.line.id, item.line.maUuDai, item.intrinsic, maximum - item.intrinsic, base,
    divideHalfUp (base * (maximum - item.intrinsic)) 10000, base + divideHalfUp (base * (maximum - item.intrinsic)) 10000⟩

def preferenceOf (normalized : List NormalizedLine) (remaining : ℕ)
    (scopeAfterDiscount evaluationBase : Option ℕ) : ScopePreference :=
  let maximum := (normalized.map NormalizedLine.intrinsic).foldl max 0
  let lines := normalized.map (NormalizedLine.preference maximum remaining)
  let scopeTotal := scopeAfterDiscount.getD (lines.map LinePreference.giaTriCoSoSauGiamGia).sum
  let totalSurcharge := (lines.map LinePreference.giaTriCongUuDai).sum
  ⟨lines, (normalized.map NormalizedLine.amount).sum, scopeTotal, maximum, totalSurcharge,
    scopeTotal + totalSurcharge, evaluationBase.map (· + totalSurcharge)⟩

def derivedLine : NormalizedLine :=
  ⟨line, (deriveBidderGoodsLineTotal line).getD line.thanhTienDuThau, rateOf line⟩

def submittedLine : NormalizedLine := ⟨line, line.thanhTienDuThau, rateOf line⟩

variable {lines : List GoodsLine}

theorem client_eq (hlines : ∀ line ∈ lines, line.Official) (hne : lines ≠ [])
    (hunits : units ≤ 1000000) (scopeAfterDiscount evaluationBase : Option ℕ) :
    calculateBidderGoodsPreference lines (.percent units) scopeAfterDiscount evaluationBase =
      some (preferenceOf (lines.map derivedLine) (1000000 - units) scopeAfterDiscount evaluationBase) := by
  have hnormalized : lines.mapM normalizeLine = some (lines.map derivedLine) := by
    refine mapM_eq_some_map fun line hline => ?_
    unfold normalizeLine
    rw [(hlines line hline).rate_eq.1]
    rfl
  unfold calculateBidderGoodsPreference
  rw [if_neg hne, hnormalized, Discount.remaining, if_neg (by omega)]
  dsimp only [Option.bind, Option.map]
  generalize lines.map derivedLine = normalized
  simp only [zip_map_self]
  unfold preferenceOf
  simp only [map_map]
  rfl

theorem surchargeLine_submitted {line : GoodsLine} (hline : line.thanhTienDuThau ≤ maxAmount)
    {remaining maximum : ℕ} (hremaining : remaining ≤ 1000000) (hmaximum : maximum ≤ 1500) :
    surchargeLine maximum (line, rateOf line) (divideHalfUp (line.thanhTienDuThau * remaining) 1000000) =
      some ((submittedLine line).preference maximum remaining) := by
  rw [surchargeLine_eq (le_trans (base_le hremaining) hline) hmaximum]
  rfl

theorem server_eq (hlines : ∀ line ∈ lines, line.Official) (hne : lines ≠ [])
    (hunits : units ≤ 1000000) (scopeAfterDiscount evaluationBase : Option ℕ) :
    calculateGoodsPreference lines ((units : ℚ) / 10000) scopeAfterDiscount evaluationBase =
      some (preferenceOf (lines.map submittedLine) (1000000 - units) scopeAfterDiscount evaluationBase) := by
  have hnormalized : (lines.mapM fun line =>
      (preferenceRateBp line.maUuDai).map fun rate => (line, rate)) = some (lines.map fun line => (line, rateOf line)) := by
    refine mapM_eq_some_map fun line hline => ?_
    rw [(hlines line hline).rate_eq.1]
    rfl
  have hrate : ¬((units : ℚ) / 10000 < 0 ∨ 100 < (units : ℚ) / 10000) := by
    have hcast : (units : ℚ) ≤ 1000000 := by exact_mod_cast hunits
    have hpos : (0 : ℚ) ≤ units := Nat.cast_nonneg units
    rintro (h | h)
    · linarith
    · linarith
  have hbases : ((lines.map fun line => (line, rateOf line)).mapM fun item : RatedLine =>
      quantizeHalfUp (fit (item.1.thanhTienDuThau * remainingRate ((units : ℚ) / 10000)))) =
        some ((lines.map fun line => (line, rateOf line)).map fun item : RatedLine =>
          divideHalfUp (item.1.thanhTienDuThau * (1000000 - units)) 1000000) := by
    refine mapM_eq_some_map fun item hitem => ?_
    obtain ⟨line, hline, rfl⟩ := mem_map.mp hitem
    exact base_eq (hlines line hline).lineTotal hunits
  have hmaximum : ((lines.map fun line => (line, rateOf line)).map Prod.snd).foldl max 0 ≤ 1500 := by
    refine le_foldl_max (fun n hn => ?_) (by omega)
    obtain ⟨item, hitem, rfl⟩ := mem_map.mp hn
    obtain ⟨line, hline, rfl⟩ := mem_map.mp hitem
    exact (hlines line hline).rate_eq.2
  unfold calculateGoodsPreference
  rw [hnormalized, Option.bind_some, if_neg (by simpa using hne), if_neg hrate, hbases, Option.bind_some]
  dsimp only
  generalize hmax : ((lines.map fun line => (line, rateOf line)).map Prod.snd).foldl max 0 = maximum
    at hmaximum ⊢
  have hresults : ((lines.map fun line => (line, rateOf line)).zip
      ((lines.map fun line => (line, rateOf line)).map fun item : RatedLine =>
        divideHalfUp (item.1.thanhTienDuThau * (1000000 - units)) 1000000)).mapM
          (fun item => surchargeLine maximum item.1 item.2) =
        some (lines.map fun line => (submittedLine line).preference maximum (1000000 - units)) := by
    rw [zip_map_self, map_map, mapM_map]
    simp only [Function.comp_def]
    apply mapM_eq_some_map
    intro line hline
    exact surchargeLine_submitted (hlines line hline).lineTotal (by omega) hmaximum
  rw [hresults]
  unfold preferenceOf
  subst hmax
  simp only [Option.map_some, map_map]
  rfl

/-! ## Where the two agree -/

def TotalsDerived (lines : List GoodsLine) : Prop :=
  ∀ line ∈ lines, ∀ total, deriveBidderGoodsLineTotal line = some total → total = line.thanhTienDuThau

theorem TotalsDerived.derivedLine_eq (h : TotalsDerived lines) : lines.map derivedLine = lines.map submittedLine := by
  apply map_congr_left
  intro line hline
  unfold derivedLine submittedLine
  cases htotal : deriveBidderGoodsLineTotal line with
  | none => rfl
  | some total => rw [Option.getD_some, h line hline total htotal]

theorem base_of_no_discount (maximum : ℕ) (item : NormalizedLine) :
    (item.preference maximum (1000000 - 0)).giaTriCoSoSauGiamGia = item.amount := by
  show divideHalfUp (item.amount * 1000000) 1000000 = item.amount
  unfold divideHalfUp
  omega

theorem amounts_of_preferenceOf {first second : List NormalizedLine}
    (h : preferenceOf first (1000000 - 0) none none = preferenceOf second (1000000 - 0) none none) :
    first.map NormalizedLine.amount = second.map NormalizedLine.amount := by
  have hbases := congrArg (fun result : ScopePreference => result.lines.map LinePreference.giaTriCoSoSauGiamGia) h
  simp only [preferenceOf, map_map, Function.comp_def, base_of_no_discount] at hbases
  exact hbases

/-- On official lines the client and the server return the same for every discount and every scope price
and evaluation base exactly when no derived total differs from the submitted one. -/
theorem calculators_agree_iff (lines : List GoodsLine) (hlines : ∀ line ∈ lines, line.Official) :
    (∀ units ≤ 1000000, ∀ scopeAfterDiscount evaluationBase : Option ℕ,
      calculateBidderGoodsPreference lines (.percent units) scopeAfterDiscount evaluationBase =
        calculateGoodsPreference lines ((units : ℚ) / 10000) scopeAfterDiscount evaluationBase) ↔
      TotalsDerived lines := by
  by_cases hne : lines = []
  · subst hne
    constructor
    · intro _ line hline
      exact absurd hline not_mem_nil
    · intro _ units _ scopeAfterDiscount evaluationBase
      rfl
  constructor
  · intro hagree line hline total htotal
    have hzero := hagree 0 (by omega) none none
    rw [client_eq hlines hne (by omega), server_eq hlines hne (by omega)] at hzero
    have hamounts := amounts_of_preferenceOf (Option.some.inj hzero)
    rw [map_map, map_map] at hamounts
    have hline' : (derivedLine line).amount = (submittedLine line).amount :=
      map_inj_left.mp hamounts line hline
    unfold derivedLine at hline'
    rw [htotal] at hline'
    exact hline'
  · intro hderived units hunits scopeAfterDiscount evaluationBase
    rw [client_eq hlines hne hunits, server_eq hlines hne hunits, hderived.derivedLine_eq]

def sampleLines : List GoodsLine := [⟨"a", "1.5", 2, 3, 0⟩, ⟨"b", "2", 5, 10, 5⟩]

theorem sampleLines_official : ∀ line ∈ sampleLines, line.Official := by
  intro line hline
  simp only [sampleLines, mem_cons, not_mem_nil, or_false] at hline
  rcases hline with rfl | rfl
  · exact ⟨by decide, by decide, ⟨⟨15, -1⟩, by decide, by norm_num⟩, by decide⟩
  · exact ⟨by decide, by decide, ⟨⟨2, 0⟩, by decide, by norm_num⟩, by decide⟩

theorem calculators_agree_iff_sample : ((∀ units ≤ 1000000, ∀ scopeAfterDiscount evaluationBase : Option ℕ,
    calculateBidderGoodsPreference sampleLines (.percent units) scopeAfterDiscount evaluationBase =
      calculateGoodsPreference sampleLines ((units : ℚ) / 10000) scopeAfterDiscount evaluationBase) ↔
    TotalsDerived sampleLines) :=
  calculators_agree_iff sampleLines sampleLines_official

def roundedDown : GoodsLine := ⟨"a", "1.5", 3, 4, 0⟩

theorem roundedDown_official : roundedDown.Official where
  unitPrice := by decide
  lineTotal := by decide
  quantity := ⟨⟨15, -1⟩, by decide, by norm_num [roundedDown]⟩
  code := by decide

/-- A total of exactly one half: the one calculator rounds it up, the other down. -/
theorem roundedDown_differs : roundedDown.Official ∧
    calculateBidderGoodsPreference [roundedDown] (.percent 0) none none =
      some ⟨[⟨"a", 0, 0, 0, 5, 0, 5⟩], 5, 5, 0, 0, 5, none⟩ ∧
    calculateGoodsPreference [roundedDown] ((0 : ℕ) / 10000) none none =
      some ⟨[⟨"a", 0, 0, 0, 4, 0, 4⟩], 4, 4, 0, 0, 4, none⟩ := by
  refine ⟨roundedDown_official, by decide, ?_⟩
  have hlines : ∀ line ∈ [roundedDown], line.Official := by
    intro line hline
    rw [mem_singleton.mp hline]
    exact roundedDown_official
  rw [server_eq hlines (by decide) (by omega)]
  decide

end Bidding.Goods
