import Bidding.Foundations.Binary64
import Bidding.Evaluation.Rankings

/-!
# Numbers as they are written

A number has a canonical text with a dot before its fraction, and a displayed one with dots between its thousands and a
comma before its fraction. The reader takes one text for both, and guesses what a separator stands for.
-/

namespace Bidding.Evaluation

open Foundations List

structure Decimal where
  negative : Bool
  whole : ℕ
  fraction : Fraction
  signed : negative = true → whole ≠ 0 ∨ fraction.digits ≠ []

def Fraction.text (fraction : Fraction) : List Char := fraction.digits.map fun digit : Fin 10 => digit.val.digitChar

def Decimal.value (x : Decimal) : ℚ :=
  if x.negative then -decimalValue x.whole x.fraction else decimalValue x.whole x.fraction

def Decimal.canonicalText (x : Decimal) : List Char :=
  signChars x.negative ++ Nat.toDigits 10 x.whole ++ x.fraction.chars

def groupDots : List Char → List Char
  | [] => []
  | c :: rest => if rest.length % 3 = 0 ∧ rest ≠ [] then c :: '.' :: groupDots rest else c :: groupDots rest

def Decimal.displayText (x : Decimal) : List Char :=
  signChars x.negative ++ groupDots (Nat.toDigits 10 x.whole) ++ if x.fraction.digits = [] then [] else ',' :: x.fraction.text

def unsignedValue (chars : List Char) : ℚ :=
  match chars.splitOn '.' with
  | [whole] => Nat.ofDigitChars 10 whole 0
  | [whole, fraction] => Nat.ofDigitChars 10 whole 0 + Nat.ofDigitChars 10 fraction 0 / (10 : ℚ) ^ fraction.length
  | _ => 0

/-- `Number(text)` of a plain decimal, before it is rounded. -/
def plainValue (chars : List Char) : ℚ :=
  let (sign, unsigned) := splitSign chars
  if sign = ['-'] then -unsignedValue unsigned else unsignedValue unsigned

/-- The number functions whose `Number` rounds a plain decimal to the nearest double, where that is finite. -/
def roundingText (numbers : NumberFunctions ℚ) : NumberFunctions ℚ :=
  { numbers with
    ofText := fun text =>
      if isPlainDecimal (splitSign text.toList).2 then nearestDouble (plainValue text.toList) else numbers.ofText text }

variable (numbers : NumberFunctions ℚ) {negative : Bool} {rest : List Char}

theorem parseVietnameseNumber_eq (text : List Char) (raw : List Char) (hraw : text.filter (fun c => !jsWhitespace c) = raw) :
    parseVietnameseNumber (roundingText numbers) (String.ofList text) =
      if (splitSign raw).2 ≠ [] ∧ ((splitSign raw).2.all fun c => c.isDigit || c = '.' || c = ',') = true ∧
          isPlainDecimal (splitSign (normalizeSeparators raw)).2 = true then
        nearestDouble (plainValue (normalizeSeparators raw))
      else none := by
  unfold parseVietnameseNumber
  rw [filter_jsTrim (fun c hc => by simp [hc]), String.toList_ofList, hraw]
  by_cases hempty : (splitSign raw).2 = []
  · simp [hempty]
  by_cases hall : ((splitSign raw).2.all fun c => c.isDigit || c = '.' || c = ',') = true
  · by_cases hplain : isPlainDecimal (splitSign (normalizeSeparators raw)).2 = true
    · rw [if_neg (by simp [hempty, hall]), if_pos hplain, if_pos ⟨hempty, hall, hplain⟩]
      show (if isPlainDecimal (splitSign (String.ofList (normalizeSeparators raw)).toList).2 = true then _ else _) = _
      rw [String.toList_ofList, if_pos hplain]
    · rw [if_neg (by simp [hempty, hall]), if_neg hplain, if_neg fun h => hplain h.2.2]
  · rw [if_pos (by simp [hall]), if_neg (by simp [hall])]

theorem digit_cases {d : ℕ} (h : d < 10) :
    d.digitChar.isDigit = true ∧ jsWhitespace d.digitChar = false ∧ d.digitChar ≠ '.' ∧ d.digitChar ≠ ',' ∧
      d.digitChar ≠ '+' ∧ d.digitChar ≠ '-' := by
  interval_cases d <;> decide

theorem not_mem_of_isDigit {chars : List Char} (h : chars.all Char.isDigit = true) {c : Char} (hc : c.isDigit = false) :
    c ∉ chars := by
  intro hmem
  have := all_eq_true.mp h c hmem
  rw [hc] at this
  exact Bool.false_ne_true this

theorem toDigits_isDigit (n : ℕ) : (Nat.toDigits 10 n).all Char.isDigit = true := by
  apply all_eq_true.mpr
  intro c hc
  obtain ⟨d, hd, rfl⟩ := digitChar_of_mem_toDigits hc
  exact (digit_cases hd).1

theorem Fraction.text_isDigit (fraction : Fraction) : fraction.text.all Char.isDigit = true := by
  apply all_eq_true.mpr
  intro c hc
  obtain ⟨digit, -, rfl⟩ := mem_map.mp hc
  exact (digit_cases digit.isLt).1

theorem toDigits_ne_nil (n : ℕ) : Nat.toDigits 10 n ≠ [] := ne_nil_of_length_pos Nat.length_toDigits_pos

theorem splitSign_cons {c : Char} (hplus : c ≠ '+') (hminus : c ≠ '-') :
    splitSign (c :: rest) = ([], c :: rest) := by
  unfold splitSign
  split
  · rename_i heq
    exact absurd (List.cons.inj heq).1 hplus
  · rename_i heq
    exact absurd (List.cons.inj heq).1 hminus
  · rfl

theorem splitSign_signChars {c : Char} (hc : c.isDigit = true) :
    splitSign (signChars negative ++ c :: rest) = (signChars negative, c :: rest) := by
  cases negative with
  | true => rfl
  | false =>
    have hplus : c ≠ '+' := by
      rintro rfl
      exact absurd hc (by decide)
    have hminus : c ≠ '-' := by
      rintro rfl
      exact absurd hc (by decide)
    exact splitSign_cons hplus hminus

theorem signChars_isPlain {c : Char} (h : c ∈ signChars negative) : c = '-' := by
  cases negative with
  | true => exact mem_singleton.mp h
  | false => exact absurd h not_mem_nil

/-! ## The groups of the whole part -/

theorem groupDots_cons (c : Char) (rest : List Char) : ∃ tail, groupDots (c :: rest) = c :: tail := by
  unfold groupDots
  split_ifs
  · exact ⟨_, rfl⟩
  · exact ⟨_, rfl⟩

theorem mem_groupDots {c : Char} {digits : List Char} (h : c ∈ groupDots digits) : c ∈ digits ∨ c = '.' := by
  induction digits with
  | nil => exact absurd h not_mem_nil
  | cons d rest ih =>
    unfold groupDots at h
    split_ifs at h with hgroup
    · rcases mem_cons.mp h with rfl | h
      · exact Or.inl mem_cons_self
      rcases mem_cons.mp h with rfl | h
      · exact Or.inr rfl
      · exact (ih h).imp_left (mem_cons_of_mem _)
    · rcases mem_cons.mp h with rfl | h
      · exact Or.inl mem_cons_self
      · exact (ih h).imp_left (mem_cons_of_mem _)

variable {digits : List Char}

theorem filter_groupDots (h : digits.all Char.isDigit = true) : (groupDots digits).filter (fun c => c ≠ '.') = digits := by
  induction digits with
  | nil => rfl
  | cons c rest ih =>
    have hc : c.isDigit = true := all_eq_true.mp h c mem_cons_self
    have hdot : c ≠ '.' := by
      rintro rfl
      exact absurd hc (by decide)
    have hrest : rest.all Char.isDigit = true :=
      all_eq_true.mpr fun d hd => all_eq_true.mp h d (mem_cons_of_mem _ hd)
    unfold groupDots
    split_ifs
    · rw [filter_cons_of_pos (by simpa using hdot), filter_cons_of_neg (by decide), ih hrest]
    · rw [filter_cons_of_pos (by simpa using hdot), ih hrest]

theorem not_mem_groupDots (hdot : '.' ∉ digits) (h : digits.length ≤ 3) : '.' ∉ groupDots digits := by
  induction digits with
  | nil => exact not_mem_nil
  | cons c rest ih =>
    have hlen : rest.length + 1 ≤ 3 := h
    have hne : c ≠ '.' := fun heq => hdot (heq ▸ mem_cons_self)
    unfold groupDots
    rw [if_neg]
    · intro hmem
      rcases mem_cons.mp hmem with heq | hmem
      · exact hne heq.symm
      · exact ih (fun hrest => hdot (mem_cons_of_mem _ hrest)) (by omega) hmem
    · rintro ⟨hthird, hrest⟩
      have hpos := length_pos_iff.mpr hrest
      omega

theorem splitOn_groupDots (h : digits.all Char.isDigit = true) :
    ∃ lead groups, (groupDots digits).splitOn '.' = lead :: groups ∧ lead.all Char.isDigit = true ∧
      lead.length = (if digits = [] then 0 else (digits.length - 1) % 3 + 1) ∧
      (∀ group ∈ groups, group.all Char.isDigit = true ∧ group.length = 3) ∧ (3 < digits.length → groups ≠ []) := by
  induction digits with
  | nil =>
    refine ⟨[], [], rfl, rfl, rfl, ?_, ?_⟩
    · intro group hgroup
      exact absurd hgroup not_mem_nil
    · intro hlen
      exact absurd hlen (by decide)
  | cons c rest ih =>
    have hc : c.isDigit = true := all_eq_true.mp h c mem_cons_self
    have hdot : (c == '.') = false := by
      apply beq_false_of_ne
      rintro rfl
      exact absurd hc (by decide)
    have hrest : rest.all Char.isDigit = true :=
      all_eq_true.mpr fun d hd => all_eq_true.mp h d (mem_cons_of_mem _ hd)
    obtain ⟨lead, groups, hsplit, hdigits, hlead, hgroups, hlong⟩ := ih hrest
    unfold groupDots
    by_cases hthird : rest.length % 3 = 0 ∧ rest ≠ []
    · have hpos := length_pos_iff.mpr hthird.2
      rw [if_neg hthird.2] at hlead
      rw [if_pos hthird, splitOn_cons_eq_if_modifyHead, if_neg (by rw [hdot]; exact Bool.false_ne_true),
        splitOn_cons_eq_if_modifyHead, if_pos (beq_self_eq_true '.'), hsplit]
      refine ⟨[c], lead :: groups, rfl, ?_, ?_, ?_, ?_⟩
      · simpa using hc
      · rw [if_neg (cons_ne_nil _ _), length_cons, length_cons, Nat.add_sub_cancel, hthird.1]
        rfl
      · intro group hgroup
        rcases mem_cons.mp hgroup with rfl | hgroup
        · exact ⟨hdigits, by omega⟩
        · exact hgroups group hgroup
      · intro _
        exact cons_ne_nil _ _
    · rw [if_neg hthird, splitOn_cons_eq_if_modifyHead, if_neg (by rw [hdot]; exact Bool.false_ne_true), hsplit]
      refine ⟨c :: lead, groups, rfl, ?_, ?_, hgroups, ?_⟩
      · rw [all_cons, hc, hdigits]
        rfl
      · rw [if_neg (cons_ne_nil _ _), length_cons, length_cons, Nat.add_sub_cancel, hlead]
        split_ifs with hnil
        · rw [hnil]
          rfl
        · have hpos := length_pos_iff.mpr hnil
          have hmod : rest.length % 3 ≠ 0 := fun hzero => hthird ⟨hzero, hnil⟩
          omega
      · intro hlen
        rw [length_cons] at hlen
        apply hlong
        by_contra hshort
        have hthree : rest.length = 3 := by omega
        apply hthird
        rw [hthree]
        exact ⟨rfl, ne_nil_of_length_pos (by omega)⟩

theorem isGrouped_groupDots (h : digits.all Char.isDigit = true) (hlen : 3 < digits.length) :
    isGrouped (groupDots digits) = true := by
  obtain ⟨lead, groups, hsplit, hdigits, hlead, hgroups, hlong⟩ := splitOn_groupDots h
  have hne : digits ≠ [] := ne_nil_of_length_pos (by omega)
  rw [if_neg hne] at hlead
  have hleadNe : lead ≠ [] := ne_nil_of_length_pos (by omega)
  have hthree : lead.length ≤ 3 := by omega
  unfold isGrouped
  rw [hsplit]
  simp only [isDigits, hdigits, hleadNe, hthree, hlong hlen, ne_eq, not_false_eq_true, decide_true, Bool.and_true,
    Bool.true_and]
  apply all_eq_true.mpr
  intro group hgroup
  obtain ⟨hall, hlength⟩ := hgroups group hgroup
  have hgroupNe : group ≠ [] := ne_nil_of_length_pos (by omega)
  simp [hall, hlength, hgroupNe]

variable (x : Decimal) {fraction : Fraction} {before after : List Char}

def Decimal.unsignedText : List Char := Nat.toDigits 10 x.whole ++ x.fraction.chars

theorem Decimal.canonicalText_eq : x.canonicalText = signChars x.negative ++ x.unsignedText :=
  append_assoc _ _ _

theorem toDigits_cons (n : ℕ) : ∃ c rest, Nat.toDigits 10 n = c :: rest ∧ c.isDigit = true := by
  cases hdigits : Nat.toDigits 10 n with
  | nil => exact absurd hdigits (toDigits_ne_nil n)
  | cons c rest =>
    refine ⟨c, rest, rfl, ?_⟩
    apply all_eq_true.mp (toDigits_isDigit n)
    rw [hdigits]
    exact mem_cons_self

theorem splitSign_canonicalText :
    splitSign x.canonicalText = (signChars x.negative, x.unsignedText) := by
  obtain ⟨c, rest, hdigits, hc⟩ := toDigits_cons x.whole
  rw [x.canonicalText_eq]
  unfold Decimal.unsignedText
  rw [hdigits]
  exact splitSign_signChars hc

theorem splitOn_unsignedText : x.unsignedText.splitOn '.' =
    if x.fraction.digits = [] then [Nat.toDigits 10 x.whole] else [Nat.toDigits 10 x.whole, x.fraction.text] := by
  have hwhole : '.' ∉ Nat.toDigits 10 x.whole := not_mem_of_isDigit (toDigits_isDigit _) (by decide)
  have hfraction : '.' ∉ x.fraction.text := not_mem_of_isDigit x.fraction.text_isDigit (by decide)
  unfold Decimal.unsignedText Fraction.chars
  split_ifs
  · rw [append_nil, splitOn_eq_singleton hwhole]
  · rw [splitOn_append_cons_self_of_not_mem hwhole]
    exact congrArg _ (splitOn_eq_singleton hfraction)

theorem Fraction.text_ne_nil (h : fraction.digits ≠ []) : fraction.text ≠ [] :=
  mt map_eq_nil_iff.mp h

theorem isPlainDecimal_unsignedText : isPlainDecimal x.unsignedText = true := by
  unfold isPlainDecimal
  rw [splitOn_unsignedText]
  by_cases hnil : x.fraction.digits = []
  · rw [if_pos hnil]
    simp [isDigits, toDigits_isDigit]
  · rw [if_neg hnil]
    simp [isDigits, Fraction.text_ne_nil hnil, toDigits_isDigit, Fraction.text_isDigit]

theorem unsignedValue_unsignedText : unsignedValue x.unsignedText = decimalValue x.whole x.fraction := by
  unfold unsignedValue decimalValue
  rw [splitOn_unsignedText]
  by_cases hnil : x.fraction.digits = []
  · rw [if_pos hnil]
    simp [Fraction.numerator, hnil]
  rw [if_neg hnil]
  have hnumerator : Nat.ofDigitChars 10 x.fraction.text 0 = x.fraction.numerator := ofDigitChars_digits _ 0
  have hlength : x.fraction.text.length = x.fraction.digits.length := length_map _
  have hten : (10 : ℚ) ^ x.fraction.digits.length ≠ 0 := by positivity
  simp only [hnumerator, hlength, Nat.ofDigitChars_ten_toDigits]
  push_cast
  field_simp

theorem plainValue_canonicalText : plainValue x.canonicalText = x.value := by
  unfold plainValue Decimal.value
  rw [splitSign_canonicalText]
  show (if signChars x.negative = ['-'] then _ else _) = _
  rw [unsignedValue_unsignedText]
  cases x.negative with
  | true => rfl
  | false => rfl

theorem parseVietnameseNumber_of_normalize {x : Decimal} {text : List Char} (hplain : ∀ c ∈ text, jsWhitespace c = false)
    (hallowed : (splitSign text).2 ≠ [] ∧ ((splitSign text).2.all fun c => c.isDigit || c = '.' || c = ',') = true)
    (hnormalize : normalizeSeparators text = x.canonicalText) :
    parseVietnameseNumber (roundingText numbers) (String.ofList text) = nearestDouble x.value := by
  have hraw : text.filter (fun c => !jsWhitespace c) = text := by
    apply filter_eq_self.mpr
    intro c hc
    rw [hplain c hc]
    rfl
  rw [parseVietnameseNumber_eq numbers text text hraw, hnormalize, plainValue_canonicalText, splitSign_canonicalText,
    if_pos ⟨hallowed.1, hallowed.2, isPlainDecimal_unsignedText x⟩]

def IsNumberChar (c : Char) : Prop := c.isDigit = true ∨ c = '.' ∨ c = ','

theorem not_jsWhitespace_of_isDigit {c : Char} (h : c.isDigit = true) : jsWhitespace c = false := by
  have hrange : 48 ≤ c.toNat ∧ c.toNat ≤ 57 := by simpa [Char.isDigit, UInt32.le_iff_toNat_le] using h
  unfold jsWhitespace
  simp only [mem_cons, not_mem_nil, or_false, Bool.or_eq_false_iff, decide_eq_false_iff_not, Bool.and_eq_false_iff]
  omega

theorem IsNumberChar.not_jsWhitespace {c : Char} (h : IsNumberChar c) : jsWhitespace c = false := by
  rcases h with h | rfl | rfl
  · exact not_jsWhitespace_of_isDigit h
  · decide
  · decide

theorem isNumberChar_toDigits {n : ℕ} {c : Char} (h : c ∈ Nat.toDigits 10 n) : IsNumberChar c :=
  Or.inl (all_eq_true.mp (toDigits_isDigit n) c h)

theorem isNumberChar_fraction {c : Char} (h : c ∈ fraction.text) : IsNumberChar c :=
  Or.inl (all_eq_true.mp fraction.text_isDigit c h)

theorem admitted_of_signed {c : Char} (hc : c.isDigit = true)
    (hrest : ∀ d ∈ rest, IsNumberChar d) : (∀ d ∈ signChars negative ++ c :: rest, jsWhitespace d = false) ∧
      ((splitSign (signChars negative ++ c :: rest)).2 ≠ [] ∧
        ((splitSign (signChars negative ++ c :: rest)).2.all fun d => d.isDigit || d = '.' || d = ',') = true) := by
  have hall : ∀ d ∈ c :: rest, IsNumberChar d := forall_mem_cons.mpr ⟨Or.inl hc, hrest⟩
  rw [splitSign_signChars hc]
  refine ⟨?_, cons_ne_nil _ _, ?_⟩
  · intro d hd
    rcases mem_append.mp hd with hsign | hd
    · rw [signChars_isPlain hsign]
      decide
    · exact (hall d hd).not_jsWhitespace
  · apply all_eq_true.mpr
    intro d hd
    have := hall d hd
    unfold IsNumberChar at this
    simpa [or_assoc] using this

/-! ## The displayed text -/

theorem replaceFirstComma_append (h : ',' ∉ before) : replaceFirstComma (before ++ ',' :: after) = before ++ '.' :: after := by
  induction before with
  | nil => rfl
  | cons c before ih =>
    have hc : c ≠ ',' := fun heq => h (heq ▸ mem_cons_self)
    have hbefore : ',' ∉ before := fun hmem => h (mem_cons_of_mem _ hmem)
    show (if c = ',' then _ else c :: replaceFirstComma (before ++ ',' :: after)) = _
    rw [if_neg hc, ih hbefore]
    rfl

theorem map_comma_append (hbefore : ',' ∉ before) (hafter : ',' ∉ after) :
    (before ++ ',' :: after).map (fun c => if c = ',' then '.' else c) = before ++ '.' :: after := by
  have hsame : ∀ chars : List Char, ',' ∉ chars → chars.map (fun c => if c = ',' then '.' else c) = chars := by
    intro chars hchars
    conv_rhs => rw [← map_id chars]
    apply map_congr_left
    intro c hc
    have hne : c ≠ ',' := fun heq => hchars (heq ▸ hc)
    exact if_neg hne
  rw [map_append, map_cons, hsame before hbefore, hsame after hafter, if_pos rfl]

theorem filter_signChars (negative : Bool) : (signChars negative).filter (fun c => c ≠ '.') = signChars negative := by
  cases negative with
  | true => rfl
  | false => rfl

theorem filter_displayText : x.displayText.filter (fun c => c ≠ '.') = signChars x.negative ++ Nat.toDigits 10 x.whole ++
    if x.fraction.digits = [] then [] else ',' :: x.fraction.text := by
  have hfraction : x.fraction.text.filter (fun c => c ≠ '.') = x.fraction.text := by
    apply filter_eq_self.mpr
    intro c hc
    apply decide_eq_true
    rintro rfl
    exact not_mem_of_isDigit x.fraction.text_isDigit (by decide) hc
  unfold Decimal.displayText
  rw [filter_append, filter_append, filter_signChars, filter_groupDots (toDigits_isDigit _)]
  split_ifs
  · rfl
  · rw [filter_cons_of_pos (by decide), hfraction]

theorem not_comma_mem_signed : ',' ∉ signChars x.negative ++ Nat.toDigits 10 x.whole := by
  intro hmem
  rcases mem_append.mp hmem with hmem | hmem
  · exact absurd (signChars_isPlain hmem) (by decide)
  · exact not_mem_of_isDigit (toDigits_isDigit _) (by decide) hmem

theorem normalizeSeparators_displayText : normalizeSeparators x.displayText = x.canonicalText := by
  have hcomma : ',' ∉ x.fraction.text := not_mem_of_isDigit x.fraction.text_isDigit (by decide)
  have hfilter := filter_displayText x
  have hplain : '.' ∉ x.displayText → x.displayText = x.displayText.filter fun c => c ≠ '.' := by
    intro hdot
    symm
    apply filter_eq_self.mpr
    intro c hc
    apply decide_eq_true
    rintro rfl
    exact hdot hc
  by_cases hnil : x.fraction.digits = []
  · -- no comma: the dots are those of the groups
    rw [if_pos hnil, append_nil] at hfilter
    have hcanonical : x.canonicalText = signChars x.negative ++ Nat.toDigits 10 x.whole := by
      unfold Decimal.canonicalText Fraction.chars
      rw [if_pos hnil, append_nil]
    have hdisplay : x.displayText = signChars x.negative ++ groupDots (Nat.toDigits 10 x.whole) := by
      unfold Decimal.displayText
      rw [if_pos hnil, append_nil]
    have hno : ',' ∉ x.displayText := by
      rw [hdisplay]
      intro hmem
      rcases mem_append.mp hmem with hmem | hmem
      · exact absurd (signChars_isPlain hmem) (by decide)
      · rcases mem_groupDots hmem with hmem | heq
        · exact not_mem_of_isDigit (toDigits_isDigit _) (by decide) hmem
        · exact absurd heq (by decide)
    unfold normalizeSeparators
    rw [if_neg (fun h => hno h.1), if_neg hno]
    split_ifs with hgrouped
    · rw [hfilter, hcanonical]
    have hdot : '.' ∉ x.displayText := by
      intro hmem
      apply hgrouped
      rw [Bool.or_eq_true]
      right
      obtain ⟨c, rest, hdigits, hc⟩ := toDigits_cons x.whole
      obtain ⟨tail, htail⟩ := groupDots_cons c rest
      have hsplit : splitSign x.displayText = (signChars x.negative, groupDots (Nat.toDigits 10 x.whole)) := by
        rw [hdisplay, hdigits, htail]
        exact splitSign_signChars hc
      rw [hsplit]
      apply isGrouped_groupDots (toDigits_isDigit _)
      by_contra hshort
      rw [hdisplay] at hmem
      rcases mem_append.mp hmem with hmem | hmem
      · exact absurd (signChars_isPlain hmem) (by decide)
      · exact not_mem_groupDots (not_mem_of_isDigit (toDigits_isDigit _) (by decide)) (by omega) hmem
    rw [hplain hdot, hfilter, hcanonical]
  · -- the comma stands before the fraction
    rw [if_neg hnil] at hfilter
    have hcanonical : x.canonicalText = signChars x.negative ++ Nat.toDigits 10 x.whole ++ '.' :: x.fraction.text := by
      unfold Decimal.canonicalText Fraction.chars
      rw [if_neg hnil]
      rfl
    have hdisplay : x.displayText = signChars x.negative ++ groupDots (Nat.toDigits 10 x.whole) ++ ',' :: x.fraction.text := by
      unfold Decimal.displayText
      rw [if_neg hnil]
    have hmem : ',' ∈ x.displayText := by
      rw [hdisplay]
      exact mem_append_right _ mem_cons_self
    unfold normalizeSeparators
    by_cases hdot : '.' ∈ x.displayText
    · have hlast : (x.displayText.reverse.find? fun c => c = ',' || c = '.') = some ',' := by
        rw [hdisplay, reverse_append, reverse_cons, append_assoc, find?_append]
        have hnone : (x.fraction.text.reverse.find? fun c => c = ',' || c = '.') = none := by
          apply List.find?_eq_none.mpr
          intro c hc
          have hdigit := all_eq_true.mp x.fraction.text_isDigit c (mem_reverse.mp hc)
          intro heq
          rcases (by simpa using heq : c = ',' ∨ c = '.') with rfl | rfl
          · exact absurd hdigit (by decide)
          · exact absurd hdigit (by decide)
        rw [hnone]
        rfl
      rw [if_pos ⟨hmem, hdot⟩, if_pos hlast, hfilter, replaceFirstComma_append (not_comma_mem_signed x), hcanonical]
    · rw [if_neg (fun h => hdot h.2), if_pos hmem, hplain hdot, hfilter,
        map_comma_append (not_comma_mem_signed x) hcomma, hcanonical]

def Decimal.Ambiguous : Prop := (Nat.toDigits 10 x.whole).length ≤ 3 ∧ x.fraction.digits.length = 3

theorem not_isGrouped_unsignedText {x : Decimal} (h : ¬x.Ambiguous) : isGrouped x.unsignedText = false := by
  unfold isGrouped
  rw [splitOn_unsignedText]
  by_cases hnil : x.fraction.digits = []
  · rw [if_pos hnil]
    simp
  rw [if_neg hnil]
  have hlength : x.fraction.text.length = x.fraction.digits.length := length_map _
  simp only [all_cons, all_nil, Bool.and_true, hlength]
  unfold Decimal.Ambiguous at h
  by_cases hwhole : (Nat.toDigits 10 x.whole).length ≤ 3
  · have hthree : x.fraction.digits.length ≠ 3 := fun heq => h ⟨hwhole, heq⟩
    simp [hthree]
  · simp [hwhole]

theorem normalizeSeparators_canonicalText {x : Decimal} (h : ¬x.Ambiguous) :
    normalizeSeparators x.canonicalText = x.canonicalText := by
  have hchars : ∀ c ∈ x.fraction.chars, c = '.' ∨ c ∈ x.fraction.text := by
    intro c hc
    unfold Fraction.chars at hc
    split_ifs at hc
    · exact absurd hc not_mem_nil
    · exact mem_cons.mp hc
  have hno : ',' ∉ x.canonicalText := by
    intro hmem
    rcases mem_append.mp hmem with hmem | hmem
    · exact not_comma_mem_signed x hmem
    · rcases hchars _ hmem with heq | hmem
      · exact absurd heq (by decide)
      · exact not_mem_of_isDigit x.fraction.text_isDigit (by decide) hmem
  have hsign : (signChars x.negative).count '.' = 0 := by
    apply count_eq_zero_of_not_mem
    intro hmem
    exact absurd (signChars_isPlain hmem) (by decide)
  have hwhole : (Nat.toDigits 10 x.whole).count '.' = 0 :=
    count_eq_zero_of_not_mem (not_mem_of_isDigit (toDigits_isDigit _) (by decide))
  have hfraction : x.fraction.chars.count '.' ≤ 1 := by
    unfold Fraction.chars
    split_ifs
    · exact Nat.zero_le _
    rw [count_cons_self]
    have : x.fraction.text.count '.' = 0 :=
      count_eq_zero_of_not_mem (not_mem_of_isDigit x.fraction.text_isDigit (by decide))
    exact Nat.le_of_eq (congrArg (· + 1) this)
  have hcount : x.canonicalText.count '.' ≤ 1 := by
    unfold Decimal.canonicalText
    rw [count_append, count_append]
    omega
  unfold normalizeSeparators
  rw [if_neg (fun h => hno h.1), if_neg hno, if_neg]
  rw [splitSign_canonicalText, not_isGrouped_unsignedText h, Bool.or_false, decide_eq_true_eq]
  omega

theorem parseVietnameseNumber_displayText :
    parseVietnameseNumber (roundingText numbers) (String.ofList x.displayText) = nearestDouble x.value := by
  obtain ⟨c, rest, hdigits, hc⟩ := toDigits_cons x.whole
  obtain ⟨tail, htail⟩ := groupDots_cons c rest
  have htext : x.displayText = signChars x.negative ++ c :: (tail ++
      if x.fraction.digits = [] then [] else ',' :: x.fraction.text) := by
    unfold Decimal.displayText
    rw [hdigits, htail, append_assoc, cons_append]
  have hrest : ∀ d ∈ tail ++ (if x.fraction.digits = [] then [] else ',' :: x.fraction.text), IsNumberChar d := by
    intro d hd
    rcases mem_append.mp hd with hd | hd
    · have hgroup : d ∈ groupDots (Nat.toDigits 10 x.whole) := by
        rw [hdigits, htail]
        exact mem_cons_of_mem _ hd
      rcases mem_groupDots hgroup with hd | rfl
      · exact isNumberChar_toDigits hd
      · exact Or.inr (Or.inl rfl)
    · split_ifs at hd
      · exact absurd hd not_mem_nil
      · rcases mem_cons.mp hd with rfl | hd
        · exact Or.inr (Or.inr rfl)
        · exact isNumberChar_fraction hd
  obtain ⟨hplain, hallowed⟩ := @admitted_of_signed x.negative _ _ hc hrest
  rw [← htext] at hplain hallowed
  exact parseVietnameseNumber_of_normalize numbers hplain hallowed (normalizeSeparators_displayText x)

theorem parseVietnameseNumber_canonicalText {x : Decimal} (h : ¬x.Ambiguous) :
    parseVietnameseNumber (roundingText numbers) (String.ofList x.canonicalText) = nearestDouble x.value := by
  obtain ⟨c, rest, hdigits, hc⟩ := toDigits_cons x.whole
  have htext : x.canonicalText = signChars x.negative ++ c :: (rest ++ x.fraction.chars) := by
    unfold Decimal.canonicalText
    rw [hdigits, append_assoc, cons_append]
  have hrest : ∀ d ∈ rest ++ x.fraction.chars, IsNumberChar d := by
    intro d hd
    rcases mem_append.mp hd with hd | hd
    · apply @isNumberChar_toDigits x.whole
      rw [hdigits]
      exact mem_cons_of_mem _ hd
    · unfold Fraction.chars at hd
      split_ifs at hd
      · exact absurd hd not_mem_nil
      · rcases mem_cons.mp hd with rfl | hd
        · exact Or.inr (Or.inl rfl)
        · exact isNumberChar_fraction hd
  obtain ⟨hplain, hallowed⟩ := @admitted_of_signed x.negative _ _ hc hrest
  rw [← htext] at hplain hallowed
  exact parseVietnameseNumber_of_normalize numbers hplain hallowed (normalizeSeparators_canonicalText h)

end Bidding.Evaluation
