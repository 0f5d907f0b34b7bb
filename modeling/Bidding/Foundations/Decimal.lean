import Mathlib.Tactic.IntervalCases
import Bidding.Foundations.Scalar

/-!
# Decimal texts

`decimal.Decimal(text)`: a sign, digits of any script, an optional fraction and an optional exponent, with underscores
ignored. Infinities and NaN are no value here.
-/

namespace Foundations

open List

def digitZeros : List ℕ :=
  [0x30, 0x660, 0x6F0, 0x7C0, 0x966, 0x9E6, 0xA66, 0xAE6, 0xB66, 0xBE6, 0xC66, 0xCE6, 0xD66, 0xDE6,
    0xE50, 0xED0, 0xF20, 0x1040, 0x1090, 0x17E0, 0x1810, 0x1946, 0x19D0, 0x1A80, 0x1A90, 0x1B50,
    0x1BB0, 0x1C40, 0x1C50, 0xA620, 0xA8D0, 0xA900, 0xA9D0, 0xA9F0, 0xAA50, 0xABF0, 0xFF10,
    0x104A0, 0x10D30, 0x11066, 0x110F0, 0x11136, 0x111D0, 0x112F0, 0x11450, 0x114D0, 0x11650,
    0x116C0, 0x11730, 0x118E0, 0x11950, 0x11C50, 0x11D50, 0x11DA0, 0x11F50, 0x16A60, 0x16AC0,
    0x16B50, 0x1D7CE, 0x1D7D8, 0x1D7E2, 0x1D7EC, 0x1D7F6, 0x1E140, 0x1E2F0, 0x1E4F0, 0x1E950, 0x1FBF0]

def decimalDigit (c : Char) : Option ℕ :=
  (digitZeros.find? fun start => start ≤ c.toNat && c.toNat < start + 10).map fun start => c.toNat - start

def takeDigits : List Char → List ℕ × List Char
  | [] => ([], [])
  | c :: rest =>
    match decimalDigit c with
    | some digit => (digit :: (takeDigits rest).1, (takeDigits rest).2)
    | none => ([], c :: rest)

def digitsValue (digits : List ℕ) : ℕ := digits.foldl (fun n digit => 10 * n + digit) 0

/-- A finite decimal number, `coeff * 10 ^ exp`. -/
structure Dec where
  coeff : Int
  exp : Int
  deriving DecidableEq

namespace Dec

def readExponent : List Char → Option Int
  | [] => some 0
  | c :: rest =>
    if c = 'e' ∨ c = 'E' then
      let signed : Int × List Char :=
        match rest with
        | '-' :: rest => (-1, rest)
        | '+' :: rest => (1, rest)
        | rest => (1, rest)
      let digits := takeDigits signed.2
      if digits.1 = [] ∨ digits.2 ≠ [] then none else some (signed.1 * digitsValue digits.1)
    else none

def readUnsigned (chars : List Char) : Option Dec :=
  let int := takeDigits chars
  match int.2 with
  | '.' :: rest =>
    let frac := takeDigits rest
    if int.1 = [] ∧ frac.1 = [] then none
    else (readExponent frac.2).map fun e => ⟨digitsValue (int.1 ++ frac.1), e - frac.1.length⟩
  | rest => if int.1 = [] then none else (readExponent rest).map fun e => ⟨digitsValue int.1, e⟩

def neg (d : Dec) : Dec := ⟨-d.coeff, d.exp⟩

/-- `Decimal(text)`, when it is a finite number. -/
def ofText (text : String) : Option Dec :=
  match (pyStrip text).toList.filter (· ≠ '_') with
  | '-' :: rest => (readUnsigned rest).map neg
  | '+' :: rest => readUnsigned rest
  | rest => readUnsigned rest

def toInt? (d : Dec) : Option Int :=
  if 0 ≤ d.exp then some (d.coeff * 10 ^ d.exp.toNat)
  else if d.coeff % 10 ^ (-d.exp).toNat = 0 then some (d.coeff / 10 ^ (-d.exp).toNat) else none

end Dec

def Dec.trunc (d : Dec) : Int :=
  if 0 ≤ d.exp then d.coeff * 10 ^ d.exp.toNat else d.coeff.tdiv (10 ^ (-d.exp).toNat)

def readInteger : List Char → Option (List ℕ)
  | [] => none
  | c :: rest =>
    match decimalDigit c, rest with
    | none, _ => none
    | some digit, [] => some [digit]
    | some digit, '_' :: rest => (readInteger rest).map (digit :: ·)
    | some digit, next :: rest => (readInteger (next :: rest)).map (digit :: ·)

/-- `int(text)`. -/
def integerOfText (text : String) : Option Int :=
  match (pyStrip text).toList with
  | '-' :: rest => (readInteger rest).map fun digits => -(digitsValue digits : Int)
  | '+' :: rest => (readInteger rest).map fun digits => (digitsValue digits : Int)
  | rest => (readInteger rest).map fun digits => (digitsValue digits : Int)

/-- `int(value)`, where it does not raise. -/
def Scalar.toInt : Scalar → Option Int
  | .none => Option.none
  | .bool b => some (if b then 1 else 0)
  | .int n => some n
  | .float text => (Dec.ofText text).map Dec.trunc
  | .str text => integerOfText text

/-- `a or b`. -/
def Scalar.orElse (a b : Scalar) : Scalar := if a.truthy then a else b

/-! ## What `str` writes for an integer -/

theorem decimalDigit_digitChar {n : ℕ} (h : n < 10) : decimalDigit n.digitChar = some n := by interval_cases n <;> decide

theorem digitChar_of_mem_toDigits {n : ℕ} {c : Char} (h : c ∈ Nat.toDigits 10 n) : ∃ d < 10, c = d.digitChar := by
  have hdigit : c.isDigit = true := Nat.isDigit_of_mem_toDigits (by omega) (by omega) h
  simp only [Char.isDigit, ge_iff_le, Bool.and_eq_true, decide_eq_true_eq, UInt32.le_iff_toNat_le]
    at hdigit
  obtain ⟨hlow, hhigh⟩ := hdigit
  have hval : c.toNat = c.val.toNat := rfl
  have h0 : ('0').val.toNat = 48 := rfl
  have h9 : ('9').val.toNat = 57 := rfl
  rw [h0] at hlow
  rw [h9] at hhigh
  refine ⟨c.toNat - 48, by omega, ?_⟩
  have hc : c = Char.ofNat c.toNat := (Char.ofNat_toNat c).symm
  have hrange : c.toNat - 48 < 10 := by omega
  obtain ⟨d, hd⟩ : ∃ d, c.toNat - 48 = d := ⟨_, rfl⟩
  have hnat : c.toNat = d + 48 := by omega
  rw [hd] at hrange ⊢
  rw [hc, hnat]
  interval_cases d <;> rfl

theorem takeDigits_digits {l : List Char} (h : ∀ c ∈ l, ∃ d < 10, c = Nat.digitChar d) :
    (takeDigits l).2 = [] ∧ (takeDigits l).1.length = l.length ∧
      ∀ init, (takeDigits l).1.foldl (fun n digit => 10 * n + digit) init = Nat.ofDigitChars 10 l init := by
  induction l with
  | nil => exact ⟨rfl, rfl, fun init => rfl⟩
  | cons c l ih =>
    obtain ⟨d, hd, rfl⟩ := h c mem_cons_self
    obtain ⟨h2, hlen, hval⟩ := ih fun c' hc' => h c' (mem_cons_of_mem _ hc')
    simp only [takeDigits, decimalDigit_digitChar hd]
    refine ⟨h2, by simp [hlen], fun init => ?_⟩
    rw [foldl_cons, hval, Nat.ofDigitChars_cons_digitChar_of_lt_ten hd]

variable (n : ℕ)

theorem readUnsigned_toDigits : Dec.readUnsigned (Nat.toDigits 10 n) = some ⟨n, 0⟩ := by
  obtain ⟨h2, hlen, hval⟩ := takeDigits_digits (l := Nat.toDigits 10 n) fun c hc => digitChar_of_mem_toDigits hc
  have hne : (takeDigits (Nat.toDigits 10 n)).1 ≠ [] := by
    intro h
    rw [h] at hlen
    exact Nat.toDigits_ne_nil (eq_nil_of_length_eq_zero hlen.symm)
  have hvalue : digitsValue (takeDigits (Nat.toDigits 10 n)).1 = n := by
    rw [digitsValue, hval, Nat.ofDigitChars_toDigits (by omega) (by omega)]
  unfold Dec.readUnsigned
  simp only [h2, if_neg hne, hvalue, Dec.readExponent, Option.map_some]

theorem toList_toString_nat : (toString (n : Int)).toList = Nat.toDigits 10 n := by
  have h : toString (n : Int) = Nat.repr n := rfl
  rw [h, Nat.toList_repr]

theorem digitChar_ne {d : ℕ} (h : d < 10) :
    isPySpace d.digitChar = false ∧ d.digitChar ≠ '_' ∧ d.digitChar ≠ '-' ∧ d.digitChar ≠ '+' := by
  interval_cases d <;> decide

theorem pyStrip_toString_nat : pyStrip (toString (n : Int)) = toString (n : Int) := by
  refine pyStrip_eq_self fun c hc => ?_
  rw [toList_toString_nat] at hc
  obtain ⟨d, hd, rfl⟩ := digitChar_of_mem_toDigits hc
  exact (digitChar_ne hd).1

theorem Dec.ofText_toString : Dec.ofText (toString (n : Int)) = some ⟨n, 0⟩ := by
  unfold Dec.ofText
  rw [pyStrip_toString_nat, toList_toString_nat]
  have hfilter : (Nat.toDigits 10 n).filter (· ≠ '_') = Nat.toDigits 10 n := by
    refine filter_eq_self.mpr fun c hc => ?_
    obtain ⟨d, hd, rfl⟩ := digitChar_of_mem_toDigits hc
    simp [(digitChar_ne hd).2.1]
  rw [hfilter]
  cases hdigits : Nat.toDigits 10 n with
  | nil => exact absurd hdigits Nat.toDigits_ne_nil
  | cons c rest =>
    obtain ⟨d, hd, hc⟩ := digitChar_of_mem_toDigits (n := n) (c := c) (by simp [hdigits])
    have hne := digitChar_ne hd
    rw [← hc] at hne
    have hread := readUnsigned_toDigits n
    rw [hdigits] at hread
    split
    · rename_i heq
      simp only [List.cons.injEq] at heq
      exact absurd heq.1 hne.2.2.1
    · rename_i heq
      simp only [List.cons.injEq] at heq
      exact absurd heq.1 hne.2.2.2
    · exact hread

theorem Dec.toInt?_ofNat : (⟨n, 0⟩ : Dec).toInt? = some (n : Int) := by simp [Dec.toInt?]

end Foundations
