import Mathlib.Tactic.FieldSimp
import Mathlib.Tactic.Linarith
import Bidding.Foundations.Decimal
import Bidding.Outbox.References

/-!
# Prices in VND

A price of a bid is read by way of its text: the dots are taken out, and what is left has to be digits. So a number is
read at its value when it is whole, and at a power of ten times it else.
-/

namespace Bidding.Evaluation

open Foundations List

/-- The digits after the point of a number as it is written: the last of them is no zero. -/
structure Fraction where
  digits : List (Fin 10)
  trimmed : digits.getLast? ≠ some 0
  deriving DecidableEq

/-- A price: missing, a number as JavaScript writes it, or a text. -/
inductive Price where
  | missing
  | decimal (negative : Bool) (whole : ℕ) (fraction : Fraction)
  | scientific (negative : Bool) (leading : Fin 9) (fraction : Fraction) (exponent : ℤ)
  | nan
  | infinite (negative : Bool)
  | text (value : String)
  deriving DecidableEq

def signChars (negative : Bool) : List Char := if negative then ['-'] else []

def Fraction.chars (fraction : Fraction) : List Char :=
  if fraction.digits = [] then [] else '.' :: fraction.digits.map fun digit : Fin 10 => digit.val.digitChar

/-- `value.toString()`, of a price that is there. -/
def Price.chars : Price → List Char
  | .missing => []
  | .decimal negative whole fraction => signChars negative ++ Nat.toDigits 10 whole ++ fraction.chars
  | .scientific negative leading fraction exponent =>
    signChars negative ++ ((leading.val + 1).digitChar :: fraction.chars) ++
      'e' :: (if exponent < 0 then '-' else '+') :: Nat.toDigits 10 exponent.natAbs
  | .nan => "NaN".toList
  | .infinite negative => signChars negative ++ "Infinity".toList
  | .text value => value.toList

/-- `if (value)`. -/
def Price.truthy : Price → Bool
  | .missing => false
  | .decimal _ whole fraction => whole ≠ 0 || fraction.digits ≠ []
  | .scientific .. => true
  | .nan => false
  | .infinite _ => true
  | .text value => value ≠ ""

variable (price : Price)

def parseVND : Option ℕ :=
  let str := (jsTrim (String.ofList price.chars)).toList.filter fun c => c ≠ '.' && !jsWhitespace c
  if str ≠ [] && str.all Char.isDigit then some (Nat.ofDigitChars 10 str 0) else none

def moneyBigInt : ℕ := (parseVND price).getD 0

/-! ## What a price is worth -/

def Fraction.numerator (fraction : Fraction) : ℕ := fraction.digits.foldl (fun n digit => 10 * n + digit.val) 0

variable (whole : ℕ)

variable (fraction : Fraction)

def decimalValue : ℚ :=
  (10 ^ fraction.digits.length * whole + fraction.numerator : ℕ) / (10 : ℚ) ^ fraction.digits.length

/-- The amount of a price, where it is finite: nothing and less than nothing are no amount, and a text is the digits
it groups. -/
def Price.amount : Price → Option ℚ
  | .missing => some 0
  | .decimal negative whole fraction => some (if negative then 0 else decimalValue whole fraction)
  | .scientific negative leading fraction exponent =>
    some (if negative then 0 else decimalValue (leading + 1) fraction * (10 : ℚ) ^ exponent)
  | .nan => some 0
  | .infinite negative => if negative then some 0 else none
  | .text value => some (moneyBigInt (.text value))

def Price.ReadAtValue : Prop := price.amount = some (moneyBigInt price : ℚ)

/-- A price is no number above zero with a fraction, nor one so large or so small that it is written with an
exponent. -/
def Price.isWhole : Price → Bool
  | .decimal negative _ fraction => negative || fraction.digits = []
  | .scientific negative _ _ _ => negative
  | .infinite negative => negative
  | _ => true

theorem filter_dropWhile {p q : Char → Bool} (h : ∀ c, q c = true → p c = false) (chars : List Char) :
    (chars.dropWhile q).filter p = chars.filter p := by
  induction chars with
  | nil => rfl
  | cons c chars ih =>
    by_cases hc : q c = true
    · rw [dropWhile_cons_of_pos hc, ih, filter_cons_of_neg (by rw [h c hc]; exact Bool.false_ne_true)]
    · rw [dropWhile_cons_of_neg hc]

theorem filter_jsTrim {p : Char → Bool} (h : ∀ c, jsWhitespace c = true → p c = false) (text : String) :
    (jsTrim text).toList.filter p = text.toList.filter p := by
  unfold jsTrim
  rw [String.toList_ofList, filter_reverse, filter_dropWhile h, filter_reverse, reverse_reverse,
    filter_dropWhile h]

theorem parseVND_eq : parseVND price = if (price.chars.filter fun c => c ≠ '.' && !jsWhitespace c) ≠ [] &&
        (price.chars.filter fun c => c ≠ '.' && !jsWhitespace c).all Char.isDigit then
      some (Nat.ofDigitChars 10 (price.chars.filter fun c => c ≠ '.' && !jsWhitespace c) 0)
    else none := by
  unfold parseVND
  rw [filter_jsTrim (fun c hc => by simp [hc]), String.toList_ofList]

theorem digitChar_plain {d : ℕ} (h : d < 10) :
    (d.digitChar ≠ '.' && !jsWhitespace d.digitChar) = true ∧ d.digitChar.isDigit = true := by
  interval_cases d <;> decide

theorem toDigits_plain (n : ℕ) : (Nat.toDigits 10 n).filter (fun c => c ≠ '.' && !jsWhitespace c) = Nat.toDigits 10 n := by
  apply filter_eq_self.mpr
  intro c hc
  obtain ⟨d, hd, rfl⟩ := digitChar_of_mem_toDigits hc
  exact (digitChar_plain hd).1

theorem fraction_plain : fraction.chars.filter (fun c => c ≠ '.' && !jsWhitespace c) =
    fraction.digits.map fun digit : Fin 10 => digit.val.digitChar := by
  have hdigits : (fraction.digits.map fun digit : Fin 10 => digit.val.digitChar).filter
      (fun c => c ≠ '.' && !jsWhitespace c) = fraction.digits.map fun digit : Fin 10 => digit.val.digitChar := by
    apply filter_eq_self.mpr
    intro c hc
    obtain ⟨digit, -, rfl⟩ := mem_map.mp hc
    exact (digitChar_plain digit.isLt).1
  unfold Fraction.chars
  split
  · rename_i hnil
    rw [hnil]
    rfl
  · rw [filter_cons_of_neg (by decide)]
    exact hdigits

theorem ofDigitChars_digits (digits : List (Fin 10)) (init : ℕ) :
    Nat.ofDigitChars 10 (digits.map fun digit : Fin 10 => digit.val.digitChar) init =
      digits.foldl (fun n digit => 10 * n + digit.val) init := by
  induction digits generalizing init with
  | nil => rfl
  | cons digit digits ih =>
    rw [map_cons, foldl_cons, Nat.ofDigitChars_cons_digitChar_of_lt_ten digit.isLt]
    exact ih _

theorem moneyBigInt_decimal : moneyBigInt (.decimal false whole fraction) =
    10 ^ fraction.digits.length * whole + fraction.numerator := by
  have hchars : ((Price.decimal false whole fraction).chars.filter fun c => c ≠ '.' && !jsWhitespace c) =
      Nat.toDigits 10 whole ++ fraction.digits.map fun digit : Fin 10 => digit.val.digitChar := by
    have hunsigned : (Price.decimal false whole fraction).chars = Nat.toDigits 10 whole ++ fraction.chars := rfl
    rw [hunsigned, filter_append, toDigits_plain, fraction_plain]
  have hdigits : (Nat.toDigits 10 whole ++ fraction.digits.map fun digit : Fin 10 => digit.val.digitChar).all Char.isDigit := by
    rw [all_append, Bool.and_eq_true, all_eq_true, all_eq_true]
    constructor
    · intro c hc
      obtain ⟨d, hd, rfl⟩ := digitChar_of_mem_toDigits hc
      exact (digitChar_plain hd).2
    · intro c hc
      obtain ⟨digit, -, rfl⟩ := mem_map.mp hc
      exact (digitChar_plain digit.isLt).2
  have hsome : Nat.toDigits 10 whole ++ fraction.digits.map (fun digit : Fin 10 => digit.val.digitChar) ≠ [] := by
    intro hnil
    exact Nat.toDigits_ne_nil (append_eq_nil_iff.mp hnil).1
  have hread : Nat.ofDigitChars 10 (Nat.toDigits 10 whole ++ fraction.digits.map fun digit : Fin 10 => digit.val.digitChar) 0 =
      10 ^ fraction.digits.length * whole + fraction.numerator := by
    rw [Nat.ofDigitChars_append, Nat.ofDigitChars_toDigits (by omega) (by omega),
      Nat.ofDigitChars_eq_ofDigitChars_zero, length_map, ofDigitChars_digits]
    rfl
  unfold moneyBigInt
  rw [parseVND_eq, hchars, if_pos (by rw [hdigits]; simp [hsome]), hread]
  rfl

theorem moneyBigInt_of_letter {price : Price} {c : Char} (hmem : c ∈ price.chars) (hplain : jsWhitespace c = false)
    (hdot : c ≠ '.') (hdigit : c.isDigit = false) : moneyBigInt price = 0 := by
  unfold moneyBigInt
  rw [parseVND_eq, if_neg]
  · rfl
  · rw [Bool.and_eq_true, all_eq_true]
    rintro ⟨-, hall⟩
    have hc := hall c (mem_filter.mpr ⟨hmem, by simp [hplain, hdot]⟩)
    rw [hdigit] at hc
    cases hc

theorem moneyBigInt_negative : moneyBigInt (.decimal true whole fraction) = 0 := by
  apply moneyBigInt_of_letter (c := '-')
  · exact mem_append_left _ (mem_append_left _ mem_cons_self)
  · decide
  · decide
  · decide

theorem moneyBigInt_scientific (negative : Bool) (leading : Fin 9) (fraction : Fraction) (exponent : ℤ) :
    moneyBigInt (.scientific negative leading fraction exponent) = 0 := by
  apply moneyBigInt_of_letter (c := 'e')
  · exact mem_append_right _ mem_cons_self
  · decide
  · decide
  · decide

theorem moneyBigInt_infinite (negative : Bool) : moneyBigInt (.infinite negative) = 0 := by
  apply moneyBigInt_of_letter (c := 'I')
  · exact mem_append_right _ (by decide)
  · decide
  · decide
  · decide

theorem Fraction.numerator_pos {fraction : Fraction} (h : fraction.digits ≠ []) : 0 < fraction.numerator := by
  have hlast := fraction.trimmed
  unfold Fraction.numerator
  rw [← dropLast_append_getLast h, foldl_append]
  rw [getLast?_eq_some_getLast h] at hlast
  have hne : (fraction.digits.getLast h).val ≠ 0 := fun hzero => hlast (congrArg some (Fin.ext hzero))
  dsimp only [List.foldl]
  omega

theorem decimalValue_pos {whole : ℕ} (h : 0 < whole) (fraction : Fraction) : 0 < decimalValue whole fraction := by
  have hnumerator : 0 < 10 ^ fraction.digits.length * whole + fraction.numerator :=
    Nat.add_pos_left (Nat.mul_pos (Nat.pow_pos (by decide)) h) _
  unfold decimalValue
  exact div_pos (by exact_mod_cast hnumerator) (by positivity)

theorem decimalValue_eq_iff : decimalValue whole fraction = (10 ^ fraction.digits.length * whole + fraction.numerator : ℕ) ↔
    fraction.digits = [] := by
  unfold decimalValue
  constructor
  · intro heq
    by_contra hne
    have hpos := Fraction.numerator_pos hne
    have hlength : 1 ≤ fraction.digits.length := length_pos_iff.mpr hne
    generalize hn : 10 ^ fraction.digits.length * whole + fraction.numerator = n at heq
    have hnpos : (0 : ℚ) < n := by
      have hn' : 0 < n := by omega
      exact_mod_cast hn'
    have hpow : (1 : ℚ) < (10 : ℚ) ^ fraction.digits.length := one_lt_pow₀ (by norm_num) (by omega)
    rw [div_eq_iff (by positivity)] at heq
    nlinarith
  · intro hnil
    rw [hnil]
    simp

theorem readAtValue_iff : price.ReadAtValue ↔ price.isWhole = true := by
  unfold Price.ReadAtValue
  cases price with
  | missing => exact iff_of_true (by decide) rfl
  | nan => exact iff_of_true (by decide) rfl
  | text value => exact iff_of_true rfl rfl
  | infinite negative =>
    rw [moneyBigInt_infinite]
    cases negative <;> simp [Price.amount, Price.isWhole]
  | decimal negative whole fraction =>
    cases negative with
    | true =>
      rw [moneyBigInt_negative]
      simp [Price.amount, Price.isWhole]
    | false =>
      rw [moneyBigInt_decimal]
      simpa [Price.amount, Price.isWhole] using decimalValue_eq_iff whole fraction
  | scientific negative leading fraction exponent =>
    rw [moneyBigInt_scientific]
    cases negative with
    | true => simp [Price.amount, Price.isWhole]
    | false =>
      have hpos : 0 < decimalValue (leading + 1) fraction * (10 : ℚ) ^ exponent :=
        mul_pos (decimalValue_pos (Nat.succ_pos _) fraction) (zpow_pos (by norm_num) exponent)
      refine iff_of_false ?_ Bool.false_ne_true
      intro heq
      have hzero := Option.some.inj heq
      rw [if_neg Bool.false_ne_true] at hzero
      rw [hzero] at hpos
      exact lt_irrefl _ hpos

end Bidding.Evaluation
