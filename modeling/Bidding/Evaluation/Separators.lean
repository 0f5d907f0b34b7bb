import Bidding.Evaluation.Decimals

/-!
# Which texts are numbers

The reader takes digits with no or many dots and no comma for a whole number, and any other text for a number with a
fraction after its last separator, if that stands there only once.
-/

namespace Bidding.Evaluation

open Foundations List

def WholeForm (body : List Char) : Prop := ',' ∉ body ∧ body.count '.' ≠ 1 ∧ ∃ c ∈ body, c.isDigit = true

def FractionForm (body : List Char) : Prop :=
  ∃ before separator after, body = before ++ separator :: after ∧ (separator = ',' ∨ separator = '.') ∧
    separator ∉ before ∧ after ≠ [] ∧ after.all Char.isDigit = true

def Readable (raw : List Char) : Prop :=
  (∀ c ∈ (splitSign raw).2, IsNumberChar c) ∧ (WholeForm (splitSign raw).2 ∨ FractionForm (splitSign raw).2)

variable {body : List Char}

theorem digits_or_lastSeparator (h : ∀ c ∈ body, IsNumberChar c) :
    body.all Char.isDigit = true ∨ ∃ before separator after, body = before ++ separator :: after ∧
      (separator = ',' ∨ separator = '.') ∧ after.all Char.isDigit = true := by
  induction body with
  | nil => exact Or.inl rfl
  | cons c rest ih =>
    rcases ih fun d hd => h d (mem_cons_of_mem _ hd) with hdigits | ⟨before, separator, after, rfl, hsep, hafter⟩
    · rcases h c mem_cons_self with hc | rfl | rfl
      · left
        rw [all_cons, hc, hdigits]
        rfl
      · exact Or.inr ⟨[], '.', rest, rfl, Or.inr rfl, hdigits⟩
      · exact Or.inr ⟨[], ',', rest, rfl, Or.inl rfl, hdigits⟩
    · exact Or.inr ⟨c :: before, separator, after, rfl, hsep, hafter⟩

variable {separator : Char}

theorem separator_not_digit (h : separator = ',' ∨ separator = '.') : separator.isDigit = false := by
  rcases h with rfl | rfl
  · decide
  · decide

theorem lastSeparator_unique {before before' after after' : List Char} {separator' : Char}
    (hsep : separator.isDigit = false) (hsep' : separator'.isDigit = false) (hafter : after.all Char.isDigit = true)
    (hafter' : after'.all Char.isDigit = true) (h : before ++ separator :: after = before' ++ separator' :: after') :
    before = before' ∧ separator = separator' ∧ after = after' := by
  induction before generalizing before' with
  | nil =>
    cases before' with
    | nil =>
      obtain ⟨heq, hrest⟩ := List.cons.inj h
      exact ⟨rfl, heq, hrest⟩
    | cons c before' =>
      obtain ⟨-, hrest⟩ := List.cons.inj h
      exfalso
      apply not_mem_of_isDigit hafter hsep'
      rw [hrest]
      exact mem_append_right _ mem_cons_self
  | cons c before ih =>
    cases before' with
    | nil =>
      obtain ⟨-, hrest⟩ := List.cons.inj h
      exfalso
      apply not_mem_of_isDigit hafter' hsep
      rw [← hrest]
      exact mem_append_right _ mem_cons_self
    | cons c' before' =>
      obtain ⟨rfl, hrest⟩ := List.cons.inj h
      obtain ⟨rfl, heq, hafterEq⟩ := ih hrest
      exact ⟨rfl, heq, hafterEq⟩

theorem fractionForm_iff {before after : List Char} (hsep : separator = ',' ∨ separator = '.')
    (hafter : after.all Char.isDigit = true) :
    FractionForm (before ++ separator :: after) ↔ separator ∉ before ∧ after ≠ [] := by
  constructor
  · rintro ⟨before', separator', after', heq, hsep', hnot, hne, hafter'⟩
    obtain ⟨rfl, rfl, rfl⟩ :=
      lastSeparator_unique (separator_not_digit hsep) (separator_not_digit hsep') hafter hafter' heq
    exact ⟨hnot, hne⟩
  · rintro ⟨hnot, hne⟩
    exact ⟨before, separator, after, rfl, hsep, hnot, hne, hafter⟩

variable {chars : List Char}

theorem isPlainDecimal_digits (h : chars.all Char.isDigit = true) : isPlainDecimal chars = true ↔ chars ≠ [] := by
  have hdot : '.' ∉ chars := not_mem_of_isDigit h (by decide)
  unfold isPlainDecimal
  rw [splitOn_eq_singleton hdot]
  simp [isDigits, h]

theorem isPlainDecimal_point {before after : List Char} (hbefore : before.all Char.isDigit = true)
    (hafter : after.all Char.isDigit = true) : isPlainDecimal (before ++ '.' :: after) = true ↔ after ≠ [] := by
  have hdot : '.' ∉ before := not_mem_of_isDigit hbefore (by decide)
  have hdot' : '.' ∉ after := not_mem_of_isDigit hafter (by decide)
  unfold isPlainDecimal
  rw [splitOn_append_cons_self_of_not_mem hdot, splitOn_eq_singleton hdot']
  simp [isDigits, hbefore, hafter]

theorem isPlainDecimal_cases (h : isPlainDecimal chars = true) :
    chars.all Char.isDigit = true ∨ ∃ before after, chars = before ++ '.' :: after ∧
      before.all Char.isDigit = true ∧ after.all Char.isDigit = true := by
  have hjoin : (['.'] : List Char).intercalate (chars.splitOn '.') = chars := intercalate_splitOn '.'
  unfold isPlainDecimal at h
  split at h
  · rename_i whole heq
    rw [heq] at hjoin
    left
    rw [← hjoin]
    simpa [isDigits] using (Bool.and_eq_true_iff.mp h).2
  · rename_i whole fraction heq
    rw [heq] at hjoin
    right
    refine ⟨whole, fraction, ?_, (Bool.and_eq_true_iff.mp h).1, ?_⟩
    · rw [← hjoin]
      simp [List.intercalate]
    · exact (Bool.and_eq_true_iff.mp (Bool.and_eq_true_iff.mp h).2).2
  · exact absurd h Bool.false_ne_true

theorem isPlainDecimal_count (h : isPlainDecimal chars = true) : chars.count ',' = 0 ∧ chars.count '.' ≤ 1 := by
  have hzero : ∀ digits : List Char, digits.all Char.isDigit = true → digits.count ',' = 0 ∧ digits.count '.' = 0 := by
    intro digits hdigits
    exact ⟨count_eq_zero_of_not_mem (not_mem_of_isDigit hdigits (by decide)),
      count_eq_zero_of_not_mem (not_mem_of_isDigit hdigits (by decide))⟩
  rcases isPlainDecimal_cases h with hdigits | ⟨before, after, rfl, hbefore, hafter⟩
  · obtain ⟨hcomma, hdot⟩ := hzero chars hdigits
    omega
  · obtain ⟨hcomma, hdot⟩ := hzero before hbefore
    obtain ⟨hcomma', hdot'⟩ := hzero after hafter
    rw [count_append, count_append, count_cons_self, count_cons_of_ne (by decide)]
    omega

/-! ## The separators of a text without a sign -/

variable {digits : List Char} {c : Char} {sign : List Char}

theorem count_eq_zero_of_digits (h : digits.all Char.isDigit = true) (hc : c.isDigit = false) : digits.count c = 0 :=
  count_eq_zero_of_not_mem (not_mem_of_isDigit h hc)

theorem isDigit_filter_dots (h : ∀ c ∈ chars, IsNumberChar c) (hcomma : ',' ∉ chars) :
    (chars.filter fun c => c ≠ '.').all Char.isDigit = true := by
  apply all_eq_true.mpr
  intro c hc
  obtain ⟨hmem, hne⟩ := mem_filter.mp hc
  rcases h c hmem with hdigit | rfl | rfl
  · exact hdigit
  · exact absurd hne (by decide)
  · exact absurd hmem hcomma

theorem isDigit_filter_commas (h : ∀ c ∈ chars, IsNumberChar c) (hdot : '.' ∉ chars) :
    (chars.filter fun c => c ≠ ',').all Char.isDigit = true := by
  apply all_eq_true.mpr
  intro c hc
  obtain ⟨hmem, hne⟩ := mem_filter.mp hc
  rcases h c hmem with hdigit | rfl | rfl
  · exact hdigit
  · exact absurd hmem hdot
  · exact absurd hne (by decide)

theorem filter_of_digits (h : digits.all Char.isDigit = true)
    (hsep : separator.isDigit = false) : digits.filter (fun c => c ≠ separator) = digits := by
  apply filter_eq_self.mpr
  intro c hc
  apply decide_eq_true
  rintro rfl
  exact not_mem_of_isDigit h hsep hc

theorem find?_lastSeparator {before after : List Char} (hsep : separator = ',' ∨ separator = '.')
    (hafter : after.all Char.isDigit = true) :
    ((before ++ separator :: after).reverse.find? fun c => c = ',' || c = '.') = some separator := by
  have hnone : (after.reverse.find? fun c => c = ',' || c = '.') = none := by
    apply List.find?_eq_none.mpr
    intro c hc heq
    have hdigit := all_eq_true.mp hafter c (mem_reverse.mp hc)
    rw [separator_not_digit (by simpa using heq)] at hdigit
    exact Bool.false_ne_true hdigit
  rw [reverse_append, reverse_cons, append_assoc, find?_append, hnone]
  rcases hsep with rfl | rfl
  · rfl
  · rfl

theorem normalizeSeparators_digits (h : digits.all Char.isDigit = true) : normalizeSeparators digits = digits := by
  have hcomma : ',' ∉ digits := not_mem_of_isDigit h (by decide)
  unfold normalizeSeparators
  rw [if_neg (fun hboth => hcomma hboth.1), if_neg hcomma]
  split_ifs
  · exact filter_of_digits h (by decide)
  · rfl

theorem count_replaceFirstComma (chars : List Char) : (replaceFirstComma chars).count ',' = chars.count ',' - 1 := by
  induction chars with
  | nil => rfl
  | cons c rest ih =>
    unfold replaceFirstComma
    split_ifs with hc
    · rw [hc, count_cons_self, count_cons_of_ne (by decide), Nat.add_sub_cancel]
    · rw [count_cons_of_ne hc, count_cons_of_ne hc, ih]

theorem count_comma_le_map (chars : List Char) :
    chars.count ',' ≤ (chars.map fun c => if c = ',' then '.' else c).count '.' := by
  induction chars with
  | nil => exact Nat.zero_le _
  | cons c rest ih =>
    by_cases hc : c = ','
    · rw [hc, count_cons_self, map_cons, if_pos rfl, count_cons_self]
      omega
    · rw [count_cons_of_ne hc, map_cons, if_neg hc]
      exact le_trans ih count_le_count_cons

variable {before after : List Char}

theorem isPlainDecimal_comma (hbefore : ∀ c ∈ before, IsNumberChar c) (hafter : after.all Char.isDigit = true) :
    isPlainDecimal (normalizeSeparators (before ++ ',' :: after)) = true ↔ ',' ∉ before ∧ after ≠ [] := by
  have hmem : ',' ∈ before ++ ',' :: after := mem_append_right _ mem_cons_self
  have hcommas : ',' ∉ after := not_mem_of_isDigit hafter (by decide)
  have hdots : after.count '.' = 0 := count_eq_zero_of_digits hafter (by decide)
  by_cases hfirst : ',' ∈ before
  · -- a second comma stays, or becomes a second dot
    have hpos : 0 < before.count ',' := count_pos_iff.mpr hfirst
    have htwo : (before ++ ',' :: after).count ',' = before.count ',' + 1 := by
      rw [count_append, count_cons_self, count_eq_zero_of_digits hafter (by decide)]
    constructor
    · intro hplain
      exfalso
      obtain ⟨hzero, hone⟩ := isPlainDecimal_count hplain
      unfold normalizeSeparators at hzero hone
      by_cases hdot : '.' ∈ before ++ ',' :: after
      · rw [if_pos ⟨hmem, hdot⟩, if_pos (find?_lastSeparator (Or.inl rfl) hafter), count_replaceFirstComma,
          count_filter (by decide)] at hzero
        omega
      · rw [if_neg (fun hboth => hdot hboth.2), if_pos hmem] at hone
        have hmapped := count_comma_le_map (before ++ ',' :: after)
        omega
    · rintro ⟨hnot, -⟩
      exact absurd hfirst hnot
  · have hnormal : normalizeSeparators (before ++ ',' :: after) = (before.filter fun c => c ≠ '.') ++ '.' :: after := by
      have hfiltered : ',' ∉ before.filter fun c => c ≠ '.' := fun hin => hfirst (mem_of_mem_filter hin)
      unfold normalizeSeparators
      by_cases hdot : '.' ∈ before ++ ',' :: after
      · rw [if_pos ⟨hmem, hdot⟩, if_pos (find?_lastSeparator (Or.inl rfl) hafter), filter_append,
          filter_cons_of_pos (by decide), filter_of_digits hafter (by decide), replaceFirstComma_append hfiltered]
      have hsame : before.filter (fun c => c ≠ '.') = before := by
        apply filter_eq_self.mpr
        intro c hc
        apply decide_eq_true
        rintro rfl
        exact hdot (mem_append_left _ hc)
      rw [if_neg (fun hboth => hdot hboth.2), if_pos hmem, map_comma_append hfirst hcommas, hsame]
    rw [hnormal, isPlainDecimal_point (isDigit_filter_dots hbefore hfirst) hafter]
    exact ⟨fun hne => ⟨hfirst, hne⟩, fun h => h.2⟩

theorem isPlainDecimal_dot_of_comma (hbefore : ∀ c ∈ before, IsNumberChar c) (hafter : after.all Char.isDigit = true)
    (hcomma : ',' ∈ before) :
    isPlainDecimal (normalizeSeparators (before ++ '.' :: after)) = true ↔ '.' ∉ before ∧ after ≠ [] := by
  have hmem : ',' ∈ before ++ '.' :: after := mem_append_left _ hcomma
  have hdot : '.' ∈ before ++ '.' :: after := mem_append_right _ mem_cons_self
  have hnormal : normalizeSeparators (before ++ '.' :: after) = (before.filter fun c => c ≠ ',') ++ '.' :: after := by
    unfold normalizeSeparators
    rw [if_pos ⟨hmem, hdot⟩, find?_lastSeparator (Or.inr rfl) hafter, if_neg (by decide), filter_append,
      filter_cons_of_pos (by decide), filter_of_digits hafter (by decide)]
  rw [hnormal]
  by_cases hfirst : '.' ∈ before
  · constructor
    · intro hplain
      exfalso
      obtain ⟨-, hone⟩ := isPlainDecimal_count hplain
      have hpos : 0 < before.count '.' := count_pos_iff.mpr hfirst
      rw [count_append, count_cons_self, count_filter (by decide)] at hone
      omega
    · rintro ⟨hnot, -⟩
      exact absurd hfirst hnot
  · rw [isPlainDecimal_point (isDigit_filter_commas hbefore hfirst) hafter]
    exact ⟨fun hne => ⟨hfirst, hne⟩, fun h => h.2⟩

theorem after_ne_nil_of_isGrouped (hbefore : '.' ∉ before) (hafter : after.all Char.isDigit = true)
    (h : isGrouped (before ++ '.' :: after) = true) : after ≠ [] := by
  have hdot : '.' ∉ after := not_mem_of_isDigit hafter (by decide)
  unfold isGrouped at h
  rw [splitOn_append_cons_self_of_not_mem hbefore, splitOn_eq_singleton hdot] at h
  simp only [all_cons, all_nil, Bool.and_true, Bool.and_eq_true, decide_eq_true_eq] at h
  rintro rfl
  exact absurd h.2.2 (by decide)

theorem isPlainDecimal_dots (hbefore : ∀ c ∈ before, IsNumberChar c) (hafter : after.all Char.isDigit = true)
    (hcomma : ',' ∉ before) : isPlainDecimal (normalizeSeparators (before ++ '.' :: after)) = true ↔
      ('.' ∈ before ∧ ∃ c ∈ before ++ '.' :: after, c.isDigit = true) ∨ ('.' ∉ before ∧ after ≠ []) := by
  have hchars : ∀ c ∈ before ++ '.' :: after, IsNumberChar c := by
    intro c hc
    rcases mem_append.mp hc with hc | hc
    · exact hbefore c hc
    rcases mem_cons.mp hc with rfl | hc
    · exact Or.inr (Or.inl rfl)
    · exact Or.inl (all_eq_true.mp hafter c hc)
  have hno : ',' ∉ before ++ '.' :: after := by
    intro hmem
    rcases mem_append.mp hmem with hmem | hmem
    · exact hcomma hmem
    rcases mem_cons.mp hmem with heq | hmem
    · exact absurd heq (by decide)
    · exact not_mem_of_isDigit hafter (by decide) hmem
  have hcount : (before ++ '.' :: after).count '.' = before.count '.' + 1 := by
    rw [count_append, count_cons_self, count_eq_zero_of_digits hafter (by decide)]
  have hsplit : splitSign (before ++ '.' :: after) = ([], before ++ '.' :: after) := by
    cases before with
    | nil => exact splitSign_cons (by decide) (by decide)
    | cons c rest =>
      apply splitSign_cons
      · rintro rfl
        exact absurd (hbefore '+' mem_cons_self) (by unfold IsNumberChar; decide)
      · rintro rfl
        exact absurd (hbefore '-' mem_cons_self) (by unfold IsNumberChar; decide)
  -- taken out, the dots leave digits
  have hfiltered : isPlainDecimal ((before ++ '.' :: after).filter fun c => c ≠ '.') = true ↔
      ∃ c ∈ before ++ '.' :: after, c.isDigit = true := by
    rw [isPlainDecimal_digits (isDigit_filter_dots hchars hno)]
    constructor
    · intro hne
      obtain ⟨c, hc⟩ := exists_mem_of_ne_nil _ hne
      exact ⟨c, mem_of_mem_filter hc, all_eq_true.mp (isDigit_filter_dots hchars hno) c hc⟩
    · rintro ⟨c, hc, hdigit⟩
      apply ne_nil_of_mem (a := c)
      apply mem_filter.mpr
      refine ⟨hc, decide_eq_true ?_⟩
      rintro rfl
      exact absurd hdigit (by decide)
  unfold normalizeSeparators
  rw [if_neg (fun hboth => hno hboth.1), if_neg hno, hsplit]
  by_cases hfirst : '.' ∈ before
  · have hpos : 0 < before.count '.' := count_pos_iff.mpr hfirst
    have hmany : (decide (1 < (before ++ '.' :: after).count '.') || isGrouped (before ++ '.' :: after)) = true := by
      rw [Bool.or_eq_true, decide_eq_true_eq]
      left
      omega
    rw [if_pos hmany, hfiltered]
    exact ⟨fun hdigit => Or.inl ⟨hfirst, hdigit⟩, fun h => h.elim And.right fun hnot => absurd hfirst hnot.1⟩
  · have hzero : before.count '.' = 0 := count_eq_zero_of_not_mem hfirst
    have hbeforeDigits : before.all Char.isDigit = true := by
      apply all_eq_true.mpr
      intro c hc
      rcases hbefore c hc with hdigit | rfl | rfl
      · exact hdigit
      · exact absurd hc hfirst
      · exact absurd hc hcomma
    have hone : decide (1 < (before ++ '.' :: after).count '.') = false := by
      apply decide_eq_false
      omega
    rw [hone, Bool.false_or]
    by_cases hgrouped : isGrouped (before ++ '.' :: after) = true
    · have hne := after_ne_nil_of_isGrouped hfirst hafter hgrouped
      rw [if_pos hgrouped, hfiltered]
      constructor
      · intro _
        exact Or.inr ⟨hfirst, hne⟩
      · intro _
        obtain ⟨c, hc⟩ := exists_mem_of_ne_nil _ hne
        exact ⟨c, mem_append_right _ (mem_cons_of_mem _ hc), all_eq_true.mp hafter c hc⟩
    · rw [if_neg hgrouped, isPlainDecimal_point hbeforeDigits hafter]
      exact ⟨fun hne => Or.inr ⟨hfirst, hne⟩, fun h => h.elim (fun hdot => absurd hdot.1 hfirst) And.right⟩

/-- The separators leave a plain decimal of a text in one of the two forms, and of no other. -/
theorem isPlainDecimal_normalizeSeparators (h : ∀ c ∈ body, IsNumberChar c) :
    isPlainDecimal (normalizeSeparators body) = true ↔ WholeForm body ∨ FractionForm body := by
  rcases digits_or_lastSeparator h with hdigits | ⟨before, separator, after, rfl, hsep, hafter⟩
  · rw [normalizeSeparators_digits hdigits, isPlainDecimal_digits hdigits]
    have hcomma : ',' ∉ body := not_mem_of_isDigit hdigits (by decide)
    have hdot : body.count '.' = 0 := count_eq_zero_of_digits hdigits (by decide)
    constructor
    · intro hne
      obtain ⟨c, hc⟩ := exists_mem_of_ne_nil _ hne
      exact Or.inl ⟨hcomma, by omega, c, hc, all_eq_true.mp hdigits c hc⟩
    · rintro (⟨-, -, c, hc, -⟩ | ⟨before, separator, after, rfl, -⟩)
      · exact ne_nil_of_mem hc
      · exact append_ne_nil_of_right_ne_nil _ (cons_ne_nil _ _)
  have hbefore : ∀ c ∈ before, IsNumberChar c := fun c hc => h c (mem_append_left _ hc)
  rw [fractionForm_iff hsep hafter]
  have hdots : (before ++ '.' :: after).count '.' = before.count '.' + 1 := by
    rw [count_append, count_cons_self, count_eq_zero_of_digits hafter (by decide)]
  rcases hsep with rfl | rfl
  · rw [isPlainDecimal_comma hbefore hafter]
    constructor
    · exact Or.inr
    · rintro (⟨hcomma, -⟩ | hform)
      · exact absurd (mem_append_right _ mem_cons_self) hcomma
      · exact hform
  · by_cases hcomma : ',' ∈ before
    · rw [isPlainDecimal_dot_of_comma hbefore hafter hcomma]
      constructor
      · exact Or.inr
      · rintro (⟨hno, -⟩ | hform)
        · exact absurd (mem_append_left _ hcomma) hno
        · exact hform
    · have hno : ',' ∉ before ++ '.' :: after := by
        intro hmem
        rcases mem_append.mp hmem with hmem | hmem
        · exact hcomma hmem
        rcases mem_cons.mp hmem with heq | hmem
        · exact absurd heq (by decide)
        · exact not_mem_of_isDigit hafter (by decide) hmem
      rw [isPlainDecimal_dots hbefore hafter hcomma]
      constructor
      · rintro (⟨hdot, hdigit⟩ | hform)
        · have hpos : 0 < before.count '.' := count_pos_iff.mpr hdot
          exact Or.inl ⟨hno, by omega, hdigit⟩
        · exact Or.inr hform
      · rintro (⟨-, hmany, hdigit⟩ | hform)
        · left
          refine ⟨?_, hdigit⟩
          by_contra hdot
          rw [hdots, count_eq_zero_of_not_mem hdot] at hmany
          exact hmany rfl
        · exact Or.inr hform

/-! ## The sign -/

theorem splitSign_append (raw : List Char) : raw = (splitSign raw).1 ++ (splitSign raw).2 := by
  unfold splitSign
  split
  · rfl
  · rfl
  · rfl

theorem splitSign_sign (raw : List Char) : (splitSign raw).1 = [] ∨ (splitSign raw).1 = ['+'] ∨ (splitSign raw).1 = ['-'] := by
  unfold splitSign
  split
  · exact Or.inr (Or.inl rfl)
  · exact Or.inr (Or.inr rfl)
  · exact Or.inl rfl

theorem IsNumberChar.not_sign (h : IsNumberChar c) : c ≠ '+' ∧ c ≠ '-' := by
  constructor
  · rintro rfl
    exact absurd h (by unfold IsNumberChar; decide)
  · rintro rfl
    exact absurd h (by unfold IsNumberChar; decide)

theorem splitSign_numberChars (h : ∀ c ∈ body, IsNumberChar c) : splitSign body = ([], body) := by
  cases body with
  | nil => rfl
  | cons c rest =>
    obtain ⟨hplus, hminus⟩ := (h c mem_cons_self).not_sign
    exact splitSign_cons hplus hminus

theorem splitSign_sign_append (hsign : sign = [] ∨ sign = ['+'] ∨ sign = ['-'])
    (h : ∀ c ∈ body, IsNumberChar c) : splitSign (sign ++ body) = (sign, body) := by
  rcases hsign with rfl | rfl | rfl
  · exact splitSign_numberChars h
  · rfl
  · rfl

theorem replaceFirstComma_sign (h : ',' ∉ sign) : replaceFirstComma (sign ++ chars) = sign ++ replaceFirstComma chars := by
  induction sign with
  | nil => rfl
  | cons c sign ih =>
    have hc : c ≠ ',' := fun heq => h (heq ▸ mem_cons_self)
    show (if c = ',' then _ else c :: replaceFirstComma (sign ++ chars)) = _
    rw [if_neg hc, ih fun hmem => h (mem_cons_of_mem _ hmem)]
    rfl

theorem normalizeSeparators_sign (hsign : sign = [] ∨ sign = ['+'] ∨ sign = ['-'])
    (h : ∀ c ∈ body, IsNumberChar c) : normalizeSeparators (sign ++ body) = sign ++ normalizeSeparators body := by
  have hplain : ',' ∉ sign ∧ '.' ∉ sign ∧ sign.reverse.find? (fun c => c = ',' || c = '.') = none ∧
      sign.filter (fun c => c ≠ '.') = sign ∧ sign.filter (fun c => c ≠ ',') = sign ∧
      sign.map (fun c => if c = ',' then '.' else c) = sign := by
    rcases hsign with rfl | rfl | rfl
    · decide
    · decide
    · decide
  obtain ⟨hcomma, hdot, hfind, hdots, hcommas, hmap⟩ := hplain
  have hmemComma : ',' ∈ sign ++ body ↔ ',' ∈ body := by simp [hcomma]
  have hmemDot : '.' ∈ sign ++ body ↔ '.' ∈ body := by simp [hdot]
  have hlast : ((sign ++ body).reverse.find? fun c => c = ',' || c = '.') = body.reverse.find? fun c => c = ',' || c = '.' := by
    rw [reverse_append, find?_append, hfind, Option.or_none]
  have hcount : (sign ++ body).count '.' = body.count '.' := by
    rw [count_append, count_eq_zero_of_not_mem hdot, Nat.zero_add]
  unfold normalizeSeparators
  simp only [hmemComma, hmemDot, hlast, hcount, splitSign_sign_append hsign h, splitSign_numberChars h]
  split_ifs
  · rw [filter_append, hdots, replaceFirstComma_sign hcomma]
  · rw [filter_append, hcommas]
  · rw [map_append, hmap]
  · rw [filter_append, hdots]
  · rfl

theorem normalizeSeparators_isNumberChar (h : ∀ c ∈ body, IsNumberChar c) : ∀ c ∈ normalizeSeparators body, IsNumberChar c := by
  have hreplace : ∀ chars : List Char, (∀ c ∈ chars, IsNumberChar c) → ∀ c ∈ replaceFirstComma chars, IsNumberChar c := by
    intro chars
    induction chars with
    | nil => exact fun hchars => hchars
    | cons d rest ih =>
      intro hchars c hc
      unfold replaceFirstComma at hc
      split_ifs at hc
      · rcases mem_cons.mp hc with rfl | hc
        · exact Or.inr (Or.inl rfl)
        · exact hchars c (mem_cons_of_mem _ hc)
      · rcases mem_cons.mp hc with rfl | hc
        · exact hchars c mem_cons_self
        · exact ih (fun e he => hchars e (mem_cons_of_mem _ he)) c hc
  unfold normalizeSeparators
  split_ifs
  · exact hreplace _ fun c hc => h c (mem_of_mem_filter hc)
  · exact fun c hc => h c (mem_of_mem_filter hc)
  · intro c hc
    obtain ⟨d, hd, rfl⟩ := mem_map.mp hc
    split_ifs
    · exact Or.inr (Or.inl rfl)
    · exact h d hd
  · exact fun c hc => h c (mem_of_mem_filter hc)
  · exact h

variable (numbers : NumberFunctions ℚ)

theorem parseVietnameseNumber_iff (text : List Char) : (Readable (text.filter fun c => !jsWhitespace c) →
      parseVietnameseNumber (roundingText numbers) (String.ofList text) =
        nearestDouble (plainValue (normalizeSeparators (text.filter fun c => !jsWhitespace c)))) ∧
    (¬Readable (text.filter fun c => !jsWhitespace c) →
      parseVietnameseNumber (roundingText numbers) (String.ofList text) = none) := by
  rw [parseVietnameseNumber_eq numbers text _ rfl]
  generalize (text.filter fun c => !jsWhitespace c) = raw
  have hallowed : ((splitSign raw).2.all fun c => c.isDigit || c = '.' || c = ',') = true ↔
      ∀ c ∈ (splitSign raw).2, IsNumberChar c := by
    rw [all_eq_true]
    simp only [IsNumberChar, Bool.or_eq_true, decide_eq_true_eq, or_assoc]
  have hsplit : (∀ c ∈ (splitSign raw).2, IsNumberChar c) →
      (splitSign (normalizeSeparators raw)).2 = normalizeSeparators (splitSign raw).2 := by
    intro h
    conv_lhs => rw [splitSign_append raw]
    rw [normalizeSeparators_sign (splitSign_sign raw) h,
      splitSign_sign_append (splitSign_sign raw) (normalizeSeparators_isNumberChar h)]
  have hempty : (splitSign raw).2 = [] → ¬(WholeForm (splitSign raw).2 ∨ FractionForm (splitSign raw).2) := by
    intro hnil
    rw [hnil]
    rintro (⟨-, -, c, hc, -⟩ | ⟨before, separator, after, heq, -⟩)
    · exact absurd hc not_mem_nil
    · exact absurd heq.symm (append_ne_nil_of_right_ne_nil _ (cons_ne_nil _ _))
  constructor
  · rintro ⟨hchars, hform⟩
    rw [if_pos]
    refine ⟨fun hnil => hempty hnil hform, hallowed.mpr hchars, ?_⟩
    rw [hsplit hchars]
    exact (isPlainDecimal_normalizeSeparators hchars).mpr hform
  · intro hnot
    rw [if_neg]
    rintro ⟨-, hall, hplain⟩
    have hchars := hallowed.mp hall
    rw [hsplit hchars] at hplain
    exact hnot ⟨hchars, (isPlainDecimal_normalizeSeparators hchars).mp hplain⟩

/-- Both texts of every number are read back, and no other text is read. -/
def ReadsBack (numbers : NumberFunctions ℚ) : Prop :=
  (∀ x : Decimal, parseVietnameseNumber (roundingText numbers) (String.ofList x.canonicalText) = nearestDouble x.value ∧
      parseVietnameseNumber (roundingText numbers) (String.ofList x.displayText) = nearestDouble x.value) ∧
  ∀ text : List Char, (∀ x : Decimal, text ≠ x.canonicalText ∧ text ≠ x.displayText) →
    parseVietnameseNumber (roundingText numbers) (String.ofList text) = none

/-- The displayed text of every number is read back, the canonical one too if it is not at the same time a group of at
most three digits, a dot and a group of three; and a text that is not readable is not read. -/
theorem localisedNumbers_readBack : (∀ x : Decimal,
      parseVietnameseNumber (roundingText numbers) (String.ofList x.displayText) = nearestDouble x.value) ∧
    (∀ x : Decimal, ¬x.Ambiguous →
      parseVietnameseNumber (roundingText numbers) (String.ofList x.canonicalText) = nearestDouble x.value) ∧
    ∀ text : List Char, ¬Readable (text.filter fun c => !jsWhitespace c) →
      parseVietnameseNumber (roundingText numbers) (String.ofList text) = none :=
  ⟨parseVietnameseNumber_displayText numbers, fun _ h => parseVietnameseNumber_canonicalText numbers h,
    fun text h => (parseVietnameseNumber_iff numbers text).2 h⟩

theorem mod_ten_lt (n : ℕ) : n % 10 < 10 := Nat.mod_lt n (by decide)

def milliDigits : List (Fin 10) := [2, 3, 4].map fun n : ℕ => ⟨n % 10, mod_ten_lt n⟩

theorem milliDigits_trimmed : milliDigits.getLast? ≠ some ⟨0, mod_ten_lt 0⟩ := by decide

def milliSample : Decimal where
  negative := false
  whole := 1
  fraction := ⟨milliDigits, milliDigits_trimmed⟩
  signed := by decide

theorem noDigits_trimmed : ([] : List (Fin 10)).getLast? ≠ some ⟨0, mod_ten_lt 0⟩ := by decide

theorem thousand_signed : false = true → 1234 ≠ 0 ∨ ([] : List (Fin 10)) ≠ [] := fun h => absurd h (by decide)

def thousandSample : Decimal where
  negative := false
  whole := 1234
  fraction := ⟨[], noDigits_trimmed⟩
  signed := thousand_signed

/-- One text stands for 1.234 and for 1234. -/
theorem oneText_not_readsBack : ¬∃ numbers, ReadsBack numbers := by
  rintro ⟨numbers, hboth, -⟩
  have hsame : milliSample.canonicalText = thousandSample.displayText := by decide
  have hmilli := (hboth milliSample).1
  rw [hsame, (hboth thousandSample).2] at hmilli
  have hvalue : milliSample.value = 1234 / 1000 := by
    have hnumerator : milliSample.fraction.numerator = 234 := rfl
    have hplain : milliSample.value = decimalValue 1 milliSample.fraction := rfl
    have hlength : milliSample.fraction.digits.length = 3 := rfl
    rw [hplain, decimalValue, hnumerator, hlength]
    norm_num
  have hvalue' : thousandSample.value = (1234 : ℕ) := by
    norm_num [thousandSample, Decimal.value, decimalValue, Fraction.numerator]
  rw [hvalue, hvalue', nearestDouble_of_one_le (by norm_num) (by norm_num),
    nearestDouble_of_one_le (by norm_num) (by norm_num), double_natCast (by norm_num)] at hmilli
  have hle : double (1234 / 1000) ≤ double (2 : ℕ) := double_mono (by norm_num) (by norm_num)
  rw [double_natCast (by norm_num), ← Option.some.inj hmilli] at hle
  exact absurd hle (by norm_num)

end Bidding.Evaluation
