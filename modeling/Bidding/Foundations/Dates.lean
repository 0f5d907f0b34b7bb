import Mathlib.Algebra.BigOperators.Group.List.Basic
import Mathlib.Tactic.IntervalCases

/-!
# Dates

The days of the proleptic Gregorian calendar are numbered from 1 January of year 1 on. A number is split into year,
month and day, and a day is written with four, two and two digits; both are read back.
-/

namespace Foundations

open List

/-! ## Years and months -/

def daysBeforeYear (year : ℕ) : ℕ := (year - 1) * 365 + (year - 1) / 4 - (year - 1) / 100 + (year - 1) / 400

def leapYear (year : ℕ) : Bool := year % 4 == 0 && (year % 100 != 0 || year % 400 == 0)

def monthLengths (year : ℕ) : List ℕ :=
  [31, if leapYear year then 29 else 28, 31, 30, 31, 30, 31, 31, 30, 31, 30, 31]

def yearOf (n : ℕ) : ℕ :=
  let r := (n - 1) % 146097
  let centuries := r / 36524
  let years := r % 36524 % 1461 / 365
  let year := (n - 1) / 146097 * 400 + centuries * 100 + r % 36524 / 1461 * 4 + years + 1
  if years = 4 ∨ centuries = 4 then year - 1 else year

def splitDay : List ℕ → ℕ → ℕ × ℕ
  | [], d => (1, d)
  | l :: ls, d => if d ≤ l then (1, d) else ((splitDay ls (d - l)).1 + 1, (splitDay ls (d - l)).2)

theorem leapYear_iff (year : ℕ) : leapYear year = true ↔ year % 4 = 0 ∧ (year % 100 ≠ 0 ∨ year % 400 = 0) := by
  simp [leapYear]

theorem sum_monthLengths (year : ℕ) : (monthLengths year).sum = if leapYear year then 366 else 365 := by
  unfold monthLengths
  cases leapYear year <;> rfl

theorem daysBeforeYear_succ {year : ℕ} (h : 1 ≤ year) :
    daysBeforeYear (year + 1) = daysBeforeYear year + (monthLengths year).sum := by
  obtain ⟨y, rfl⟩ : ∃ y, year = y + 1 := ⟨year - 1, by omega⟩
  have hfour : (y + 1) / 4 = y / 4 + if (y + 1) % 4 = 0 then 1 else 0 := by split <;> omega
  have hhundred : (y + 1) / 100 = y / 100 + if (y + 1) % 100 = 0 then 1 else 0 := by split <;> omega
  have hcycle : (y + 1) / 400 = y / 400 + if (y + 1) % 400 = 0 then 1 else 0 := by split <;> omega
  have hle : y / 100 ≤ y / 4 := by omega
  rw [sum_monthLengths]
  unfold daysBeforeYear
  simp only [Nat.add_sub_cancel]
  rw [hfour, hhundred, hcycle]
  have hleap := leapYear_iff (y + 1)
  cases hl : leapYear (y + 1) with
  | true =>
    rw [hl] at hleap
    obtain ⟨hmod, hexception⟩ := hleap.mp rfl
    rw [if_pos hmod, if_pos rfl]
    rcases hexception with hnot | hmod'
    · rw [if_neg hnot, if_neg (by omega)]
      omega
    · rw [if_pos hmod', if_pos (by omega)]
      omega
  | false =>
    rw [hl] at hleap
    rw [if_neg Bool.false_ne_true]
    by_cases hmod : (y + 1) % 4 = 0
    · have hmod' : (y + 1) % 100 = 0 := by
        by_contra hnot
        exact absurd (hleap.mpr ⟨hmod, Or.inl hnot⟩) Bool.false_ne_true
      have hnot : (y + 1) % 400 ≠ 0 := fun hzero => absurd (hleap.mpr ⟨hmod, Or.inr hzero⟩) Bool.false_ne_true
      rw [if_pos hmod, if_pos hmod', if_neg hnot]
      omega
    · rw [if_neg hmod, if_neg (by omega), if_neg (by omega)]
      omega

theorem daysBeforeYear_cycles {a b c y : ℕ} (hb : b < 4) (hc : c < 25) (hy : y < 4) :
    daysBeforeYear (a * 400 + b * 100 + c * 4 + y + 1) = a * 146097 + b * 36524 + c * 1461 + y * 365 := by
  have hfour : (a * 400 + b * 100 + c * 4 + y) / 4 = a * 100 + b * 25 + c := by omega
  have hhundred : (a * 400 + b * 100 + c * 4 + y) / 100 = a * 4 + b := by omega
  have hcycle : (a * 400 + b * 100 + c * 4 + y) / 400 = a := by omega
  unfold daysBeforeYear
  rw [Nat.add_sub_cancel, hfour, hhundred, hcycle]
  omega

variable {n : ℕ}

theorem yearOf_spec (h : 1 ≤ n) : 1 ≤ yearOf n ∧ daysBeforeYear (yearOf n) < n ∧ n ≤ daysBeforeYear (yearOf n + 1) := by
  obtain ⟨d, rfl⟩ : ∃ d, n = d + 1 := ⟨n - 1, by omega⟩
  unfold yearOf
  simp only [Nat.add_sub_cancel]
  have hr : d % 146097 < 146097 := Nat.mod_lt _ (by decide)
  have hd : d = d / 146097 * 146097 + d % 146097 := by omega
  generalize d / 146097 = a at hd ⊢
  generalize d % 146097 = r at hd hr ⊢
  have hr' : r % 36524 < 36524 := Nat.mod_lt _ (by decide)
  have hb : r = r / 36524 * 36524 + r % 36524 := by omega
  generalize r / 36524 = b at hb ⊢
  generalize r % 36524 = r' at hb hr' ⊢
  have hr'' : r' % 1461 < 1461 := Nat.mod_lt _ (by decide)
  have hc : r' = r' / 1461 * 1461 + r' % 1461 := by omega
  generalize r' / 1461 = c at hc ⊢
  generalize r' % 1461 = r'' at hc hr'' ⊢
  have hy : r'' / 365 * 365 ≤ r'' ∧ r'' < r'' / 365 * 365 + 365 := by omega
  generalize r'' / 365 = y at hy ⊢
  -- the last day of a leap year belongs to no further year of its cycle
  by_cases hlast : y = 4 ∨ b = 4
  · rw [if_pos hlast]
    obtain ⟨b', c', hb', hc', hyear, hbefore, hleap⟩ : ∃ b' c', b' < 4 ∧ c' < 25 ∧
        a * 400 + b * 100 + c * 4 + y = a * 400 + b' * 100 + c' * 4 + 3 + 1 ∧
          a * 146097 + b' * 36524 + c' * 1461 + 1460 = d ∧ (c' = 24 → b' = 3) := by
      rcases hlast with hlong | hlong
      · exact ⟨b, c, by omega, by omega, by omega, by omega, by omega⟩
      · exact ⟨3, 24, by omega, by omega, by omega, by omega, by omega⟩
    rw [hyear]
    have hdays := daysBeforeYear_cycles (a := a) hb' hc' (y := 3) (by omega)
    have hsucc := @daysBeforeYear_succ (a * 400 + b' * 100 + c' * 4 + 3 + 1) (by omega)
    have hlong : leapYear (a * 400 + b' * 100 + c' * 4 + 3 + 1) = true := by
      rw [leapYear_iff]
      omega
    rw [sum_monthLengths, hlong, if_pos rfl] at hsucc
    omega
  · rw [if_neg hlast]
    have hdays := daysBeforeYear_cycles (a := a) (b := b) (c := c) (y := y) (by omega) (by omega) (by omega)
    have hsucc := @daysBeforeYear_succ (a * 400 + b * 100 + c * 4 + y + 1) (by omega)
    have hlength : 365 ≤ (monthLengths (a * 400 + b * 100 + c * 4 + y + 1)).sum := by
      rw [sum_monthLengths]
      split <;> omega
    omega

theorem daysBeforeYear_mono {year year' : ℕ} (hpos : 1 ≤ year) (h : year ≤ year') :
    daysBeforeYear year ≤ daysBeforeYear year' := by
  induction year', h using Nat.le_induction with
  | base => exact Nat.le_refl _
  | succ year' hle ih =>
    rw [daysBeforeYear_succ (by omega)]
    omega

theorem yearOf_eq {n year : ℕ} (hyear : 1 ≤ year) (hlower : daysBeforeYear year < n)
    (hupper : n ≤ daysBeforeYear (year + 1)) : yearOf n = year := by
  obtain ⟨hpos, hbefore, hafter⟩ := yearOf_spec (n := n) (by omega)
  rcases Nat.lt_trichotomy (yearOf n) year with hlt | heq | hgt
  · have hnext : daysBeforeYear (yearOf n + 1) ≤ daysBeforeYear year := daysBeforeYear_mono (by omega) hlt
    omega
  · exact heq
  · have hnext : daysBeforeYear (year + 1) ≤ daysBeforeYear (yearOf n) := daysBeforeYear_mono (by omega) hgt
    omega

theorem splitDay_spec {lengths : List ℕ} {d : ℕ} (hpos : 1 ≤ d) (hle : d ≤ lengths.sum) :
    1 ≤ (splitDay lengths d).1 ∧ (splitDay lengths d).1 ≤ lengths.length ∧ 1 ≤ (splitDay lengths d).2 ∧
      (splitDay lengths d).2 ≤ (lengths[(splitDay lengths d).1 - 1]?).getD 0 ∧
        (lengths.take ((splitDay lengths d).1 - 1)).sum + (splitDay lengths d).2 = d := by
  induction lengths generalizing d with
  | nil =>
    rw [sum_nil] at hle
    omega
  | cons l lengths ih =>
    rw [sum_cons] at hle
    unfold splitDay
    by_cases hmonth : d ≤ l
    · rw [if_pos hmonth]
      simp [hpos, hmonth]
    rw [if_neg hmonth]
    obtain ⟨hone, hlength, hday, hbound, hsum⟩ := ih (d := d - l) (by omega) (by omega)
    obtain ⟨m, hm⟩ : ∃ m, (splitDay lengths (d - l)).1 = m + 1 := ⟨(splitDay lengths (d - l)).1 - 1, by omega⟩
    rw [hm] at hbound hsum hlength ⊢
    rw [Nat.add_sub_cancel] at hbound hsum
    refine ⟨by omega, by rw [length_cons]; omega, hday, ?_, ?_⟩
    · rwa [Nat.add_sub_cancel, getElem?_cons_succ]
    · rw [Nat.add_sub_cancel, take_succ_cons, sum_cons]
      omega

/-! ## Days -/

def maxOrdinal : ℕ := 3652059

structure Day where
  ordinal : ℕ
  pos : 1 ≤ ordinal
  le : ordinal ≤ maxOrdinal
  deriving DecidableEq

def Day.ofOrdinal (n : ℕ) : Option Day := if h : 1 ≤ n ∧ n ≤ maxOrdinal then some ⟨n, h.1, h.2⟩ else none

def Day.year (day : Day) : ℕ := yearOf day.ordinal

def Day.monthDay (day : Day) : ℕ × ℕ := splitDay (monthLengths day.year) (day.ordinal - daysBeforeYear day.year)

def weekday (n : ℕ) : ℕ := (n + 6) % 7

def twoDigits (n : ℕ) : List Char := [Nat.digitChar (n / 10 % 10), Nat.digitChar (n % 10)]

def fourDigits (n : ℕ) : List Char := twoDigits (n / 100) ++ twoDigits (n % 100)

/-- A day as `YYYY-MM-DD`. -/
def Day.isoformat (day : Day) : String :=
  String.ofList (fourDigits day.year ++ ['-'] ++ twoDigits day.monthDay.1 ++ ['-'] ++ twoDigits day.monthDay.2)

def digitValue (c : Char) : ℕ := c.toNat - 48

def readTwo (a b : Char) : ℕ := digitValue a * 10 + digitValue b

def Day.ofDate (year month day : ℕ) : Option Day :=
  if 1 ≤ year ∧ year ≤ 9999 ∧ 1 ≤ month ∧ month ≤ 12 ∧ 1 ≤ day ∧ day ≤ ((monthLengths year)[month - 1]?).getD 0 then
    Day.ofOrdinal (daysBeforeYear year + ((monthLengths year).take (month - 1)).sum + day)
  else none

/-- The day that is written as `YYYY-MM-DD`. -/
def Day.fromIsoformat (text : String) : Option Day :=
  match text.toList with
  | [y₁, y₂, y₃, y₄, '-', m₁, m₂, '-', d₁, d₂] =>
    if [y₁, y₂, y₃, y₄, m₁, m₂, d₁, d₂].all Char.isDigit then
      Day.ofDate (readTwo y₁ y₂ * 100 + readTwo y₃ y₄) (readTwo m₁ m₂) (readTwo d₁ d₂)
    else none
  | _ => none

theorem digitChar_isDigit (h : n < 10) : (Nat.digitChar n).isDigit = true := by interval_cases n <;> rfl

theorem digitValue_digitChar (h : n < 10) : digitValue (Nat.digitChar n) = n := by interval_cases n <;> rfl

theorem readTwo_digits (h : n < 100) : readTwo (Nat.digitChar (n / 10 % 10)) (Nat.digitChar (n % 10)) = n := by
  unfold readTwo
  rw [digitValue_digitChar (by omega), digitValue_digitChar (by omega)]
  omega

theorem daysBeforeYear_last : daysBeforeYear 10000 = maxOrdinal := by decide

theorem Day.year_spec (day : Day) : 1 ≤ day.year ∧ day.year ≤ 9999 ∧ daysBeforeYear day.year < day.ordinal ∧
    day.ordinal ≤ daysBeforeYear (day.year + 1) := by
  obtain ⟨hpos, hbefore, hafter⟩ := yearOf_spec day.pos
  refine ⟨hpos, ?_, hbefore, hafter⟩
  by_contra hlarge
  have hlast := daysBeforeYear_mono (by omega) (show 10000 ≤ yearOf day.ordinal by unfold Day.year at hlarge; omega)
  rw [daysBeforeYear_last] at hlast
  have := day.le
  omega

theorem Day.monthDay_spec (day : Day) : 1 ≤ day.monthDay.1 ∧ day.monthDay.1 ≤ 12 ∧ 1 ≤ day.monthDay.2 ∧
    day.monthDay.2 ≤ ((monthLengths day.year)[day.monthDay.1 - 1]?).getD 0 ∧
      daysBeforeYear day.year + ((monthLengths day.year).take (day.monthDay.1 - 1)).sum + day.monthDay.2 = day.ordinal := by
  obtain ⟨hpos, -, hbefore, hafter⟩ := day.year_spec
  rw [daysBeforeYear_succ hpos] at hafter
  obtain ⟨hone, hlength, hday, hbound, hsum⟩ :=
    @splitDay_spec (monthLengths day.year) (day.ordinal - daysBeforeYear day.year) (by omega) (by omega)
  refine ⟨hone, hlength, hday, hbound, ?_⟩
  unfold Day.monthDay
  omega

theorem Day.fromIsoformat_isoformat (day : Day) : Day.fromIsoformat day.isoformat = some day := by
  obtain ⟨hyear, hyear', -, -⟩ := day.year_spec
  obtain ⟨hmonth, hmonth', hday, hbound, hordinal⟩ := day.monthDay_spec
  have hlengths : ∀ l ∈ monthLengths day.year, l ≤ 31 := by
    unfold monthLengths
    cases leapYear day.year <;> decide
  have hday' : day.monthDay.2 ≤ 31 := by
    cases hget : (monthLengths day.year)[day.monthDay.1 - 1]? with
    | none =>
      rw [hget, Option.getD_none] at hbound
      omega
    | some l =>
      rw [hget, Option.getD_some] at hbound
      have := hlengths l (mem_of_getElem? hget)
      omega
  have hdigits (n : ℕ) : (Nat.digitChar (n % 10)).isDigit = true := digitChar_isDigit (Nat.mod_lt n (by decide))
  have hread : readTwo (Nat.digitChar (day.year / 100 / 10 % 10)) (Nat.digitChar (day.year / 100 % 10)) * 100 +
      readTwo (Nat.digitChar (day.year % 100 / 10 % 10)) (Nat.digitChar (day.year % 100 % 10)) = day.year := by
    rw [readTwo_digits (by omega), readTwo_digits (by omega)]
    omega
  unfold Day.fromIsoformat Day.isoformat fourDigits twoDigits
  rw [String.toList_ofList]
  simp only [cons_append, nil_append, all_cons, all_nil, hdigits, Bool.and_true, if_true]
  rw [hread, readTwo_digits (by omega), readTwo_digits (by omega)]
  unfold Day.ofDate
  rw [if_pos ⟨hyear, hyear', hmonth, hmonth', hday, hbound⟩, hordinal]
  unfold Day.ofOrdinal
  rw [dif_pos ⟨day.pos, day.le⟩]

theorem Day.isoformat_injective {day day' : Day} (h : day.isoformat = day'.isoformat) : day = day' := by
  have hread := congrArg Day.fromIsoformat h
  rw [Day.fromIsoformat_isoformat, Day.fromIsoformat_isoformat] at hread
  exact Option.some.inj hread

end Foundations
