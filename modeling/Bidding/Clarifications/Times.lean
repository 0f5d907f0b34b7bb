import Bidding.Foundations.Dates

/-!
# The times of clarifications

A time is shown by the digits it is written with and stored in an order of its own. What was shown and stored is
shown as it was.
-/

namespace Bidding.Clarifications

open Foundations List

/-- The characters that `String.prototype.trim` removes. -/
def jsWhitespace : List Char :=
  ['\t', '\n', '\x0b', '\x0c', '\r', ' ', '\u00a0', '\u1680', '\u2000', '\u2001', '\u2002', '\u2003', '\u2004', '\u2005',
    '\u2006', '\u2007', '\u2008', '\u2009', '\u200a', '\u2028', '\u2029', '\u202f', '\u205f', '\u3000', '\ufeff']

def jsTrim (text : List Char) : List Char :=
  ((text.dropWhile (jsWhitespace.contains ·)).reverse.dropWhile (jsWhitespace.contains ·)).reverse

/-- The characters of `\s`. -/
def spaces : List Char :=
  ['\t', '\n', '\x0b', '\x0c', '\r', '\x1c', '\x1d', '\x1e', '\x1f', ' ', '\u0085', '\u00a0', '\u1680', '\u2000', '\u2001',
    '\u2002', '\u2003', '\u2004', '\u2005', '\u2006', '\u2007', '\u2008', '\u2009', '\u200a', '\u2028', '\u2029', '\u202f',
    '\u205f', '\u3000']

/-- The numbers of a date and a time of day, as they are written. -/
structure Clock where
  day : ℕ
  month : ℕ
  year : ℕ
  hour : ℕ
  minute : ℕ
  deriving DecidableEq

/-- A time as `dd/MM/yyyy HH:mm`. -/
def Clock.display (clock : Clock) : List Char :=
  twoDigits clock.day ++ '/' :: (twoDigits clock.month ++ '/' :: (fourDigits clock.year ++ ' ' ::
    (twoDigits clock.hour ++ ':' :: twoDigits clock.minute)))

/-- A time as `yyyy-MM-dd HH:mm:ss`. -/
def Clock.stored (clock : Clock) (second : ℕ) : List Char :=
  fourDigits clock.year ++ '-' :: (twoDigits clock.month ++ '-' :: (twoDigits clock.day ++ ' ' ::
    (twoDigits clock.hour ++ ':' :: (twoDigits clock.minute ++ ':' :: twoDigits second))))

def clockTail : List Char → ℕ × ℕ
  | s :: h₁ :: h₂ :: colon :: m₁ :: m₂ :: _ =>
    if (s = 'T' ∨ s ∈ spaces) ∧ colon = ':' ∧ [h₁, h₂, m₁, m₂].all Char.isDigit then (readTwo h₁ h₂, readTwo m₁ m₂)
    else (0, 0)
  | _ => (0, 0)

/-- A text that starts with a year, a month and a day: `_YMD`. -/
def matchYmd : List Char → Option Clock
  | y₁ :: y₂ :: y₃ :: y₄ :: dash :: m₁ :: m₂ :: dash' :: d₁ :: d₂ :: rest =>
    if dash = '-' ∧ dash' = '-' ∧ [y₁, y₂, y₃, y₄, m₁, m₂, d₁, d₂].all Char.isDigit then
      some ⟨readTwo d₁ d₂, readTwo m₁ m₂, readTwo y₁ y₂ * 100 + readTwo y₃ y₄, (clockTail rest).1, (clockTail rest).2⟩
    else none
  | _ => none

/-- A text that starts with a day, a month and a year: `_DMY`. -/
def matchDmy : List Char → Option Clock
  | d₁ :: d₂ :: slash :: m₁ :: m₂ :: slash' :: y₁ :: y₂ :: y₃ :: y₄ :: rest =>
    if slash = '/' ∧ slash' = '/' ∧ [y₁, y₂, y₃, y₄, m₁, m₂, d₁, d₂].all Char.isDigit then
      some ⟨readTwo d₁ d₂, readTwo m₁ m₂, readTwo y₁ y₂ * 100 + readTwo y₃ y₄, (clockTail rest).1, (clockTail rest).2⟩
    else none
  | _ => none

/-- `re.sub(r"\s*-\s*", " ", text, count=1)`. -/
def dashAsBlank (text : List Char) : List Char :=
  match text.span (· ≠ '-') with
  | (_, []) => text
  | (before, _ :: after) =>
    (before.reverse.dropWhile (spaces.contains ·)).reverse ++ ' ' :: after.dropWhile (spaces.contains ·)

section Times

-- `parse_datetime_value` on the texts that are not in the display form: the time and its seconds
variable (parseOther : List Char → Option (Clock × ℕ))

def displayClock (text : List Char) : Option Clock :=
  match matchDmy text with
  | some clock => if clock.display = text then some clock else none
  | none => none

variable (clock : Clock) {text : List Char}

def Clock.valid : Bool :=
  (Day.ofDate clock.year clock.month clock.day).isSome && decide (clock.hour < 24) && decide (clock.minute < 60)

/-- `parse_datetime_value(value)`: a text in the display form is read by `%d/%m/%Y %H:%M` only. -/
def parseDatetimeValue (text : List Char) : Option (Clock × ℕ) :=
  if text = [] then none
  else
    match displayClock text with
    | some clock => if clock.valid then some (clock, 0) else none
    | none => parseOther text

def formatForDatetimeLocal (value : List Char) : List Char :=
  if value = [] then []
  else
    match matchYmd (jsTrim value) with
    | some clock => clock.display
    | none =>
      match (matchDmy (jsTrim value)).or (matchDmy (dashAsBlank (jsTrim value))) with
      | some clock => clock.display
      | none =>
        match parseDatetimeValue parseOther (jsTrim value) with
        | some parsed => parsed.1.display
        | none => []

/-- `normalize_datetime_value(value)` on a text that is not blank. -/
def normalizeDatetimeValue (text : List Char) : List Char :=
  match parseDatetimeValue parseOther text with
  | some (clock, second) => clock.stored second
  | none => text

variable (n : ℕ)

theorem twoDigits_eq : twoDigits n = [Nat.digitChar (n / 10 % 10), Nat.digitChar (n % 10)] := rfl

theorem digit_isDigit : (Nat.digitChar (n % 10)).isDigit = true := digitChar_isDigit (Nat.mod_lt _ (by decide))

theorem readTwo_twoDigits : readTwo (Nat.digitChar (n / 10 % 10)) (Nat.digitChar (n % 10)) = n % 100 := by
  have hread := readTwo_digits (Nat.mod_lt n (show 0 < 100 by decide))
  have htens : n % 100 / 10 % 10 = n / 10 % 10 := by omega
  have hones : n % 100 % 10 = n % 10 := by omega
  rw [htens, hones] at hread
  exact hread

theorem twoDigits_mod : twoDigits (n % 100) = twoDigits n := by
  have htens : n % 100 / 10 % 10 = n / 10 % 10 := by omega
  have hones : n % 100 % 10 = n % 10 := by omega
  rw [twoDigits_eq, twoDigits_eq, htens, hones]

def Clock.shown : Clock :=
  ⟨clock.day % 100, clock.month % 100, clock.year / 100 % 100 * 100 + clock.year % 100 % 100, clock.hour % 100,
    clock.minute % 100⟩

theorem Clock.display_shown : clock.shown.display = clock.display := by
  have hcentury : (clock.year / 100 % 100 * 100 + clock.year % 100 % 100) / 100 = clock.year / 100 % 100 := by omega
  have hyear : (clock.year / 100 % 100 * 100 + clock.year % 100 % 100) % 100 = clock.year % 100 := by omega
  unfold Clock.display Clock.shown fourDigits
  simp only [hcentury, hyear, twoDigits_mod]

/-! ## What is shown again -/

theorem not_jsWhitespace_of_isDigit {c : Char} (h : c.isDigit = true) : jsWhitespace.contains c = false := by
  rw [Bool.eq_false_iff]
  intro hmem
  have hnone : (jsWhitespace.all fun c => !c.isDigit) = true := by decide
  have hnot := all_eq_true.mp hnone c (contains_iff_mem.mp hmem)
  rw [h] at hnot
  cases hnot

theorem dropWhile_of_head {p : Char → Bool} {c : Char} (h : text.head? = some c) (hc : p c = false) :
    text.dropWhile p = text := by
  cases text with
  | nil => cases h
  | cons d text =>
    obtain rfl : d = c := Option.some.inj h
    rw [dropWhile_cons_of_neg (by rw [hc]; decide)]

theorem jsTrim_of_digits {first last : Char} (hfirst : text.head? = some first)
    (hlast : text.reverse.head? = some last) (hdigit : first.isDigit = true) (hdigit' : last.isDigit = true) :
    jsTrim text = text := by
  unfold jsTrim
  rw [dropWhile_of_head hfirst (not_jsWhitespace_of_isDigit hdigit),
    dropWhile_of_head hlast (not_jsWhitespace_of_isDigit hdigit'), reverse_reverse]

theorem Clock.display_ne_nil : clock.display ≠ [] := cons_ne_nil _ _

variable (second : ℕ)

theorem Clock.stored_ne_nil : clock.stored second ≠ [] := cons_ne_nil _ _

theorem jsTrim_display : jsTrim clock.display = clock.display :=
  jsTrim_of_digits rfl rfl (digit_isDigit _) (digit_isDigit _)

theorem jsTrim_stored : jsTrim (clock.stored second) = clock.stored second :=
  jsTrim_of_digits rfl rfl (digit_isDigit _) (digit_isDigit _)

theorem matchDmy_display : matchDmy clock.display = some clock.shown := by
  unfold Clock.display fourDigits twoDigits matchDmy clockTail
  simp only [cons_append, nil_append]
  rw [if_pos ⟨trivial, trivial, by simp only [all_cons, all_nil, digit_isDigit, Bool.and_self]⟩,
    if_pos ⟨Or.inr (by decide), trivial, by simp only [all_cons, all_nil, digit_isDigit, Bool.and_self]⟩]
  simp only [readTwo_twoDigits]
  rfl

theorem matchYmd_stored : matchYmd (clock.stored second) = some clock.shown := by
  unfold Clock.stored fourDigits twoDigits matchYmd clockTail
  simp only [cons_append, nil_append]
  rw [if_pos ⟨trivial, trivial, by simp only [all_cons, all_nil, digit_isDigit, Bool.and_self]⟩,
    if_pos ⟨Or.inr (by decide), trivial, by simp only [all_cons, all_nil, digit_isDigit, Bool.and_self]⟩]
  simp only [readTwo_twoDigits]
  rfl

theorem matchYmd_display : matchYmd clock.display = none := by
  unfold Clock.display fourDigits twoDigits matchYmd
  simp only [cons_append, nil_append]
  rw [if_neg]
  rintro ⟨-, -, hdigits⟩
  simp only [all_cons, Bool.and_eq_true] at hdigits
  have hslash := hdigits.2.2.1
  revert hslash
  decide

theorem formatForDatetimeLocal_display : formatForDatetimeLocal parseOther clock.display = clock.display := by
  unfold formatForDatetimeLocal
  rw [if_neg clock.display_ne_nil, jsTrim_display, matchYmd_display, matchDmy_display]
  exact clock.display_shown

theorem formatForDatetimeLocal_stored : formatForDatetimeLocal parseOther (clock.stored second) = clock.display := by
  unfold formatForDatetimeLocal
  rw [if_neg (clock.stored_ne_nil second), jsTrim_stored, matchYmd_stored]
  exact clock.display_shown

theorem formatForDatetimeLocal_cases (value : List Char) : formatForDatetimeLocal parseOther value = [] ∨
    ∃ clock : Clock, formatForDatetimeLocal parseOther value = clock.display := by
  unfold formatForDatetimeLocal
  split
  · exact Or.inl rfl
  split
  · exact Or.inr ⟨_, rfl⟩
  split
  · exact Or.inr ⟨_, rfl⟩
  · split
    · exact Or.inr ⟨_, rfl⟩
    · exact Or.inl rfl

theorem formatForDatetimeLocal_normalize :
    formatForDatetimeLocal parseOther (normalizeDatetimeValue parseOther clock.display) = clock.display := by
  have hread : displayClock clock.display = some clock.shown := by
    unfold displayClock
    rw [matchDmy_display]
    exact if_pos clock.display_shown
  unfold normalizeDatetimeValue parseDatetimeValue
  rw [if_neg clock.display_ne_nil, hread]
  dsimp only
  cases clock.shown.valid with
  | true =>
    rw [if_pos rfl]
    dsimp only
    rw [formatForDatetimeLocal_stored]
    exact clock.display_shown
  | false =>
    rw [if_neg Bool.false_ne_true]
    exact formatForDatetimeLocal_display parseOther clock

theorem normalizeDatetimeValue_ne_nil : normalizeDatetimeValue parseOther clock.display ≠ [] := by
  intro hnil
  have hshow := formatForDatetimeLocal_normalize parseOther clock
  rw [hnil] at hshow
  exact cons_ne_nil _ _ hshow.symm

end Times

end Bidding.Clarifications
