import Bidding.Foundations.Decimal

/-!
# Texts and amounts of the sync service

The normalisations of lot codes, business identifiers, record ids and amounts of money. The Unicode tables of the standard
library are a parameter.
-/

namespace Bidding

open Foundations

structure PyText where
  nfkc : String → String
  upper : String → String
  lower : String → String
  casefold : String → String

def PyText.plain : PyText := ⟨id, id, id, id⟩

/-- `re.sub(r"\s+", " ", text)` on characters. -/
def collapseSpaceChars : List Char → List Char
  | [] => []
  | [c] => if isPySpace c then [' '] else [c]
  | c :: d :: rest =>
    if isPySpace c then
      if isPySpace d then collapseSpaceChars (d :: rest) else ' ' :: collapseSpaceChars (d :: rest)
    else c :: collapseSpaceChars (d :: rest)

variable (text : String) {id : String} {value : Scalar}

/-- `re.sub(r"\s+", " ", text)`. -/
def collapseSpaces : String := .ofList (collapseSpaceChars text.toList)

/-- The integer part of a text the pattern `[+-]?\d+\.0+` matches. -/
def integralPart : Option String :=
  let signed : List Char × List Char :=
    match text.toList with
    | '-' :: rest => (['-'], rest)
    | '+' :: rest => (['+'], rest)
    | rest => ([], rest)
  let digits := takeDigits signed.2
  match digits.2 with
  | '.' :: zeros =>
    if digits.1 ≠ [] ∧ zeros ≠ [] ∧ zeros.all (· = '0') then
      some (.ofList (signed.1 ++ signed.2.take digits.1.length))
    else none
  | _ => none

def normalizeLotCode (t : PyText) (value : Scalar) : String :=
  match value with
  | .none => ""
  | .bool _ => ""
  | value =>
    let text := pyStrip (collapseSpaces (t.nfkc value.text))
    t.casefold ((integralPart text).getD text)

def plainDash (c : Char) : Char :=
  if c ∈ ['–', '—', '−', '‐', '‑'] then '-' else if c = '／' then '/' else c

/-- `normalize_business_identifier(value)`, with the defaults of its options. -/
def normalizeBusinessIdentifier (t : PyText) (value : Scalar) : String :=
  let text := t.nfkc (if value.truthy then value.text else "")
  t.upper (pyStrip (collapseSpaces (.ofList (text.toList.map plainDash))))

def cleanId (value : Scalar) : Scalar :=
  if value.blank then .none else .str (pyStrip value.text)

/-- `clean_id(value)` as a key: nothing where the text is empty. -/
def idOf (value : Scalar) : Option String :=
  match cleanId value with
  | .str id => if id = "" then none else some id
  | _ => none

/-- An id as it is stored: not empty, and `clean_id` leaves it alone. -/
def IsStoredId (id : String) : Prop := idOf (.str id) = some id

instance (id : String) : Decidable (IsStoredId id) := decEq _ _

theorem IsStoredId.ne_empty (h : IsStoredId id) : id ≠ "" := by
  rintro rfl
  exact absurd h (by decide)

theorem IsStoredId.strip_ne (h : IsStoredId id) : pyStrip id ≠ "" := by
  intro hblank
  have hempty : cleanId (.str id) = .str "" := by
    rw [cleanId, if_neg (by simpa [Scalar.blank] using h.ne_empty), Scalar.text, hblank]
  have hid : idOf (.str id) = some id := h
  simp [idOf, hempty] at hid

theorem isStoredId_of_idOf (h : idOf value = some id) : IsStoredId id := by
  unfold idOf at h
  split at h
  · rename_i text hclean
    split at h
    · exact absurd h (by simp)
    rename_i hne
    obtain rfl := Option.some.inj h
    have hstripped : text = pyStrip value.text := by
      unfold cleanId at hclean
      split at hclean
      · exact absurd hclean (by simp)
      · exact (Scalar.str.inj hclean).symm
    have hagain : cleanId (.str text) = .str text := by
      rw [cleanId, if_neg (by simpa [Scalar.blank] using hne)]
      rw [Scalar.text, hstripped, pyStrip_pyStrip]
    simp [IsStoredId, idOf, hagain, hne]
  · exact absurd h (by simp)

def maxAmount : ℕ := 9223372036854775807

def amountOfText : Option ℕ :=
  match (Dec.ofText text).bind Dec.toInt? with
  | some amount => if 0 ≤ amount ∧ amount ≤ maxAmount then some amount.toNat else none
  | none => none

def parseVndAmount (value : Scalar) : Option ℕ :=
  match value with
  | .none => none
  | .bool _ => none
  | value => amountOfText value.text

def amountScalar (amount : Option ℕ) : Scalar :=
  match amount with
  | some n => .int n
  | none => .none

theorem ofText_pyStrip : Dec.ofText (pyStrip text) = Dec.ofText text := by
  unfold Dec.ofText
  rw [pyStrip_pyStrip]

theorem amountOfText_pyStrip : amountOfText (pyStrip text) = amountOfText text := by
  unfold amountOfText
  rw [ofText_pyStrip]

theorem amountOfText_toString {n : ℕ} (h : n ≤ maxAmount) : amountOfText (toString (n : Int)) = some n := by
  unfold amountOfText
  rw [Dec.ofText_toString, Option.bind_some, Dec.toInt?_ofNat]
  have hrange : (0 : Int) ≤ (n : Int) ∧ (n : Int) ≤ (maxAmount : Int) := by omega
  simp [hrange]

theorem parseVndAmount_of_fieldText {n : ℕ} (hn : n ≤ maxAmount)
    (h : value.fieldText = toString (n : Int)) : parseVndAmount value = some n := by
  have hdigits : ∀ c ∈ (toString (n : Int)).toList, c.isDigit = true := by
    intro c hc
    rw [toList_toString_nat] at hc
    exact Nat.isDigit_of_mem_toDigits (by omega) (by omega) hc
  have htext : value ≠ .none → parseVndAmount value = amountOfText value.text → parseVndAmount value = some n := by
    intro hne hparse
    rw [Scalar.fieldText_of_ne hne] at h
    rw [hparse, ← amountOfText_pyStrip, h, amountOfText_toString hn]
  cases value with
  | none =>
    have hlist := congrArg String.toList h
    rw [toList_toString_nat] at hlist
    exact absurd hlist.symm Nat.toDigits_ne_nil
  | bool b =>
    have hfirst : ('T' : Char) ∈ (toString (n : Int)).toList ∨
        ('F' : Char) ∈ (toString (n : Int)).toList := by
      rw [← h]
      cases b <;> decide
    rcases hfirst with hc | hc <;> exact absurd (hdigits _ hc) (by decide)
  | int m => exact htext (by simp) rfl
  | float t => exact htext (by simp) rfl
  | str s => exact htext (by simp) rfl

end Bidding
