import Bidding.Foundations.Json
import Bidding.Foundations.JsonText

/-!
# JSON in ASCII

`json.dumps` with `ensure_ascii=True` and the compact separators escapes what is not between blank and tilde. `loads` is
`json.loads` for the values of `Value`. The fields of an object of texts are read back as they were written.
-/

namespace Foundations

open List
open Option hiding pure_def

/-! ## Writing -/

def hexQuad (n : ℕ) : List Char :=
  [Nat.digitChar (n / 4096 % 16), Nat.digitChar (n / 256 % 16), Nat.digitChar (n / 16 % 16), Nat.digitChar (n % 16)]

/-- `\uXXXX`. -/
def unicodeEscape (n : ℕ) : List Char := '\\' :: 'u' :: hexQuad n

variable (c : Char)

/-- One character inside quotes, with `ensure_ascii=True`. -/
def asciiEscape : List Char :=
  if c = '"' then ['\\', '"']
  else if c = '\\' then ['\\', '\\']
  else if c = '\n' then ['\\', 'n']
  else if c = '\r' then ['\\', 'r']
  else if c = '\t' then ['\\', 't']
  else if c.toNat = 8 then ['\\', 'b']
  else if c.toNat = 12 then ['\\', 'f']
  else if 32 ≤ c.toNat ∧ c.toNat ≤ 126 then [c]
  else if c.toNat < 65536 then unicodeEscape c.toNat
  else unicodeEscape (55296 + (c.toNat - 65536) / 1024) ++ unicodeEscape (56320 + (c.toNat - 65536) % 1024)

def asciiWidth : ℕ :=
  if c ∈ ['"', '\\', '\n', '\r', '\t'] ∨ c.toNat = 8 ∨ c.toNat = 12 then 2
  else if 32 ≤ c.toNat ∧ c.toNat ≤ 126 then 1
  else if c.toNat < 65536 then 6
  else 12

def asciiLength (s : String) : ℕ := (s.toList.map asciiWidth).sum

def asciiString (s : String) : List Char := '"' :: s.toList.flatMap asciiEscape ++ ['"']

def asciiFields : List (String × String) → List Char
  | [] => []
  | [(key, value)] => asciiString key ++ ':' :: asciiString value
  | (key, value) :: rest => asciiString key ++ ':' :: asciiString value ++ ',' :: asciiFields rest

theorem length_asciiEscape : (asciiEscape c).length = asciiWidth c := by
  unfold asciiEscape asciiWidth
  by_cases hq : c = '"'
  · simp [hq]
  by_cases hb : c = '\\'
  · simp [hb]
  by_cases hn : c = '\n'
  · simp [hn]
  by_cases hr : c = '\r'
  · simp [hr]
  by_cases ht : c = '\t'
  · simp [ht]
  by_cases h8 : c.toNat = 8
  · simp [hq, hb, hn, hr, ht, h8]
  by_cases h12 : c.toNat = 12
  · simp [hq, hb, hn, hr, ht, h12]
  simp only [hq, hb, hn, hr, ht, h8, h12, mem_cons, not_mem_nil, or_false, if_false]
  split
  · rfl
  · split
    · rfl
    · rfl

theorem length_asciiString (s : String) : (asciiString s).length = asciiLength s + 2 := by
  unfold asciiString asciiLength
  simp only [cons_append, length_cons, length_append, length_flatMap, length_nil]
  have : s.toList.map (fun c => (asciiEscape c).length) = s.toList.map asciiWidth :=
    map_congr_left fun c _ => length_asciiEscape c
  rw [this]

theorem asciiEscape_lt : ∀ d ∈ asciiEscape c, d.toNat < 128 := by
  have hquad : ∀ n, ∀ d ∈ unicodeEscape n, d.toNat < 128 := by
    intro n d hd
    have hdigit : ∀ k < 16, (Nat.digitChar k).toNat < 128 := by decide
    simp only [unicodeEscape, hexQuad, mem_cons, not_mem_nil, or_false] at hd
    rcases hd with rfl | rfl | rfl | rfl | rfl | rfl
    · decide
    · decide
    · exact hdigit _ (Nat.mod_lt _ (by decide))
    · exact hdigit _ (Nat.mod_lt _ (by decide))
    · exact hdigit _ (Nat.mod_lt _ (by decide))
    · exact hdigit _ (Nat.mod_lt _ (by decide))
  have hshort : ∀ e, e.toNat < 128 → ∀ d ∈ ['\\', e], d.toNat < 128 := by
    intro e he d hd
    rcases mem_cons.mp hd with rfl | hd
    · decide
    · rw [mem_singleton.mp hd]
      exact he
  intro d hd
  unfold asciiEscape at hd
  split at hd
  · exact hshort _ (by decide) d hd
  split at hd
  · exact hshort _ (by decide) d hd
  split at hd
  · exact hshort _ (by decide) d hd
  split at hd
  · exact hshort _ (by decide) d hd
  split at hd
  · exact hshort _ (by decide) d hd
  split at hd
  · exact hshort _ (by decide) d hd
  split at hd
  · exact hshort _ (by decide) d hd
  split at hd
  · rename_i hprintable
    rw [mem_singleton.mp hd]
    omega
  split at hd
  · exact hquad _ d hd
  · rcases mem_append.mp hd with hd | hd
    · exact hquad _ d hd
    · exact hquad _ d hd

theorem asciiString_lt (s : String) : ∀ d ∈ asciiString s, d.toNat < 128 := by
  intro d hd
  unfold asciiString at hd
  rcases mem_append.mp hd with hd | hd
  · rcases mem_cons.mp hd with rfl | hd
    · decide
    · obtain ⟨c, -, hc⟩ := mem_flatMap.mp hd
      exact asciiEscape_lt c d hc
  · rw [mem_singleton.mp hd]
    decide

theorem asciiFields_lt (fields : List (String × String)) : ∀ d ∈ asciiFields fields, d.toNat < 128 := by
  have hcolon : (':' : Char).toNat < 128 := by decide
  have hcomma : (',' : Char).toNat < 128 := by decide
  fun_induction asciiFields fields with
  | case1 => simp
  | case2 key value =>
    intro d hd
    rcases mem_append.mp hd with hd | hd
    · exact asciiString_lt key d hd
    · rcases mem_cons.mp hd with rfl | hd
      · exact hcolon
      · exact asciiString_lt value d hd
  | case3 key value rest _ ih =>
    intro d hd
    rcases mem_append.mp hd with hd | hd
    · rcases mem_append.mp hd with hd | hd
      · exact asciiString_lt key d hd
      · rcases mem_cons.mp hd with rfl | hd
        · exact hcolon
        · exact asciiString_lt value d hd
    · rcases mem_cons.mp hd with rfl | hd
      · exact hcomma
      · exact ih d hd

/-! ## Reading -/

def hexValue : Option ℕ :=
  if '0' ≤ c ∧ c ≤ '9' then some (c.toNat - 48)
  else if 'a' ≤ c ∧ c ≤ 'f' then some (c.toNat - 87)
  else if 'A' ≤ c ∧ c ≤ 'F' then some (c.toNat - 55)
  else none

def readQuad : List Char → Option (ℕ × List Char)
  | a :: b :: c :: d :: rest => do
    let w ← hexValue a
    let x ← hexValue b
    let y ← hexValue c
    let z ← hexValue d
    return (((w * 16 + x) * 16 + y) * 16 + z, rest)
  | _ => none

variable (text : List Char)

/-- What follows `\u`: one character, which may take a second escape. -/
def readUnicode : Option (Char × List Char) :=
  match readQuad text with
  | none => none
  | some (high, rest) =>
    if 55296 ≤ high ∧ high < 56320 then
      match rest with
      | '\\' :: 'u' :: more =>
        match readQuad more with
        | none => none
        | some (low, rest) =>
          if 56320 ≤ low ∧ low < 57344 then
            some (Char.ofNat (65536 + (high - 55296) * 1024 + (low - 56320)), rest)
          else none
      | _ => none
    else if 56320 ≤ high ∧ high < 57344 then none
    else some (Char.ofNat high, rest)

def shortEscape (c : Char) : Option Char :=
  if c = '"' then some '"'
  else if c = '\\' then some '\\'
  else if c = '/' then some '/'
  else if c = 'b' then some (Char.ofNat 8)
  else if c = 'f' then some (Char.ofNat 12)
  else if c = 'n' then some '\n'
  else if c = 'r' then some '\r'
  else if c = 't' then some '\t'
  else none

/-- A text up to its closing quote. -/
def readChars : ℕ → List Char → Option (List Char × List Char)
  | 0, _ => none
  | _ + 1, [] => none
  | fuel + 1, c :: rest =>
    if c = '"' then some ([], rest)
    else if c = '\\' then
      match rest with
      | [] => none
      | e :: rest =>
        if e = 'u' then do
          let (read, rest) ← readUnicode rest
          let (more, rest) ← readChars fuel rest
          return (read :: more, rest)
        else do
          let read ← shortEscape e
          let (more, rest) ← readChars fuel rest
          return (read :: more, rest)
    else if c.toNat < 32 then none
    else do
      let (more, rest) ← readChars fuel rest
      return (c :: more, rest)

def readText : Option (String × List Char) :=
  (readChars (text.length + 1) text).map fun read => (String.ofList read.1, read.2)

def skipBlanks : List Char :=
  text.dropWhile fun c => c = ' ' || c = '\t' || c = '\n' || c = '\r'

def readNumber : Option (Value × List Char) :=
  let negative := text.head? = some '-'
  let text := if negative then text.tail else text
  let digits := text.takeWhile Char.isDigit
  let rest := text.drop digits.length
  if digits = [] || (digits.length > 1 && digits.head? = some '0')
      || rest.head? = some '.' || rest.head? = some 'e' || rest.head? = some 'E' then none
  else
    let n : Int := digits.foldl (fun n c => n * 10 + ((c.toNat : Int) - 48)) 0
    some (.num (if negative then -n else n), rest)

mutual

def readValue : ℕ → List Char → Option (Value × List Char)
  | 0, _ => none
  | fuel + 1, text =>
    match skipBlanks text with
    | [] => none
    | c :: rest =>
      if c = '"' then (readText rest).map fun read => (.str read.1, read.2)
      else if c = '\x7b' then
        match skipBlanks rest with
        | '\x7d' :: rest => some (.obj [], rest)
        | text => (readFields fuel text).map fun read => (.obj read.1, read.2)
      else if c = '[' then
        match skipBlanks rest with
        | ']' :: rest => some (.arr [], rest)
        | text => (readElements fuel text).map fun read => (.arr read.1, read.2)
      else if "true".toList.isPrefixOf (c :: rest) then some (.bool true, rest.drop 3)
      else if "false".toList.isPrefixOf (c :: rest) then some (.bool false, rest.drop 4)
      else if "null".toList.isPrefixOf (c :: rest) then some (.null, rest.drop 3)
      else readNumber (c :: rest)

def readFields : ℕ → List Char → Option (List (String × Value) × List Char)
  | 0, _ => none
  | fuel + 1, text =>
    match skipBlanks text with
    | '"' :: rest =>
      match readText rest with
      | none => none
      | some (key, rest) =>
        match skipBlanks rest with
        | ':' :: rest =>
          match readValue fuel rest with
          | none => none
          | some (value, rest) =>
            match skipBlanks rest with
            | ',' :: rest => (readFields fuel rest).map fun read => ((key, value) :: read.1, read.2)
            | '\x7d' :: rest => some ([(key, value)], rest)
            | _ => none
        | _ => none
    | _ => none

def readElements : ℕ → List Char → Option (List Value × List Char)
  | 0, _ => none
  | fuel + 1, text =>
    match readValue fuel text with
    | none => none
    | some (value, rest) =>
      match skipBlanks rest with
      | ',' :: rest => (readElements fuel rest).map fun read => (value :: read.1, read.2)
      | ']' :: rest => some ([value], rest)
      | _ => none

end

def loads (text : List Char) : Option Value :=
  match readValue (text.length + 1) text with
  | some (value, rest) => if skipBlanks rest = [] then some value else none
  | none => none

/-! ## Reading back -/

theorem hexValue_digitChar : ∀ k < 16, hexValue (Nat.digitChar k) = some k := by decide

theorem readQuad_hexQuad {n : ℕ} (h : n < 65536) (rest : List Char) : readQuad (hexQuad n ++ rest) = some (n, rest) := by
  have hdigit : ∀ m, hexValue (Nat.digitChar (m % 16)) = some (m % 16) :=
    fun m => hexValue_digitChar _ (Nat.mod_lt _ (by decide))
  simp only [hexQuad, cons_append, nil_append, readQuad, hdigit, Option.pure_def,
    bind_eq_bind, bind_some, some.injEq, Prod.mk.injEq, and_true]
  omega

variable (c : Char)

theorem not_surrogate : ¬(55296 ≤ c.toNat ∧ c.toNat < 57344) := by
  rintro ⟨hlow, hhigh⟩
  rcases c.valid with h | ⟨h, -⟩
  · have : c.toNat < 55296 := h
    omega
  · have : 57343 < c.toNat := h
    omega

theorem toNat_lt : c.toNat < 1114112 := by
  have h : c.val.toNat.isValidChar := c.valid
  unfold Nat.isValidChar at h
  rw [← Char.toNat_val]
  omega

theorem readUnicode_unit (h : c.toNat < 65536) (rest : List Char) : readUnicode (hexQuad c.toNat ++ rest) = some (c, rest) := by
  have hno := not_surrogate c
  unfold readUnicode
  rw [readQuad_hexQuad h]
  simp only
  rw [if_neg (by omega), if_neg (by omega), Char.ofNat_toNat]

theorem readUnicode_surrogates {high low : ℕ} (hhigh : 55296 ≤ high ∧ high < 56320)
    (hlow : 56320 ≤ low ∧ low < 57344) (rest : List Char) : readUnicode (hexQuad high ++ (unicodeEscape low ++ rest)) =
      some (Char.ofNat (65536 + (high - 55296) * 1024 + (low - 56320)), rest) := by
  unfold readUnicode
  rw [readQuad_hexQuad (by omega)]
  simp only [if_pos hhigh, unicodeEscape, cons_append]
  rw [readQuad_hexQuad (by omega)]
  simp only [if_pos hlow]

theorem readUnicode_pair (h : 65536 ≤ c.toNat) (rest : List Char) : readUnicode (hexQuad (55296 + (c.toNat - 65536) / 1024) ++
    (unicodeEscape (56320 + (c.toNat - 65536) % 1024) ++ rest)) = some (c, rest) := by
  have hlt := toNat_lt c
  have hread := @readUnicode_surrogates (55296 + (c.toNat - 65536) / 1024)
    (56320 + (c.toNat - 65536) % 1024) (by omega) (by omega) rest
  have hsum : 65536 + (55296 + (c.toNat - 65536) / 1024 - 55296) * 1024 +
      (56320 + (c.toNat - 65536) % 1024 - 56320) = c.toNat := by omega
  rw [hread, hsum, Char.ofNat_toNat]

theorem readChars_asciiEscape (fuel : ℕ) (c : Char) (rest : List Char) :
    readChars (fuel + 1) (asciiEscape c ++ rest) = (readChars fuel rest).map fun read => (c :: read.1, read.2) := by
  have hshort : ∀ e read, e ≠ 'u' → shortEscape e = some read → readChars (fuel + 1) ('\\' :: e :: rest) =
        (readChars fuel rest).map fun more => (read :: more.1, more.2) := by
    intro e read hu he
    simp only [readChars, hu, he, if_false, if_true, Option.pure_def, bind_eq_bind,
      bind_some, show ('\\' : Char) ≠ '"' by decide]
    cases readChars fuel rest <;> rfl
  have hlong : ∀ text, readUnicode text = some (c, rest) → readChars (fuel + 1) ('\\' :: 'u' :: text) =
        (readChars fuel rest).map fun more => (c :: more.1, more.2) := by
    intro text htext
    simp only [readChars, htext, if_false, if_true, Option.pure_def, bind_eq_bind,
      bind_some, show ('\\' : Char) ≠ '"' by decide]
    cases readChars fuel rest <;> rfl
  unfold asciiEscape
  split
  · rename_i h
    exact hshort '"' c (by decide) (by rw [h]; rfl)
  split
  · rename_i h
    exact hshort '\\' c (by decide) (by rw [h]; rfl)
  split
  · rename_i h
    exact hshort 'n' c (by decide) (by rw [h]; rfl)
  split
  · rename_i h
    exact hshort 'r' c (by decide) (by rw [h]; rfl)
  split
  · rename_i h
    exact hshort 't' c (by decide) (by rw [h]; rfl)
  split
  · rename_i h
    have hc : c = Char.ofNat 8 := by rw [← h, Char.ofNat_toNat]
    exact hshort 'b' c (by decide) (by rw [hc]; rfl)
  split
  · rename_i h
    have hc : c = Char.ofNat 12 := by rw [← h, Char.ofNat_toNat]
    exact hshort 'f' c (by decide) (by rw [hc]; rfl)
  split
  · rename_i hquote hbackslash _ _ _ _ _ hprintable
    have hnot : ¬c.toNat < 32 := by omega
    simp only [cons_append, nil_append, readChars, hquote, hbackslash, hnot, if_false,
      Option.pure_def, bind_eq_bind]
    cases readChars fuel rest <;> rfl
  split
  · rename_i hunit
    exact hlong _ (readUnicode_unit c hunit rest)
  · rename_i hpair
    rw [append_assoc]
    exact hlong _ (readUnicode_pair c (by omega) rest)

theorem readChars_text (l : List Char) (fuel : ℕ) (hfuel : l.length < fuel) (rest : List Char) :
    readChars fuel (l.flatMap asciiEscape ++ '"' :: rest) = some (l, rest) := by
  induction l generalizing fuel with
  | nil =>
    obtain ⟨fuel, rfl⟩ : ∃ k, fuel = k + 1 := ⟨fuel - 1, by simp at hfuel; omega⟩
    simp [readChars]
  | cons c l ih =>
    obtain ⟨fuel, rfl⟩ : ∃ k, fuel = k + 1 := ⟨fuel - 1, by simp at hfuel; omega⟩
    rw [flatMap_cons, append_assoc, readChars_asciiEscape, ih fuel (by simp at hfuel; omega)]
    rfl

theorem length_le_flatMap_asciiEscape (l : List Char) : l.length ≤ (l.flatMap asciiEscape).length := by
  induction l with
  | nil => exact Nat.le_refl _
  | cons c l ih =>
    have hpos : 1 ≤ (asciiEscape c).length := by
      rw [length_asciiEscape]
      unfold asciiWidth
      split
      · omega
      · split
        · omega
        · split <;> omega
    rw [flatMap_cons, length_append, length_cons]
    omega

theorem readText_asciiString (s : String) (rest : List Char) :
    readText (s.toList.flatMap asciiEscape ++ '"' :: rest) = some (s, rest) := by
  unfold readText
  have hlength := length_le_flatMap_asciiEscape s.toList
  rw [readChars_text _ _ (by simp only [length_append, length_cons]; omega)]
  simp

theorem skipBlanks_cons {c : Char} (h : c ≠ ' ' ∧ c ≠ '\t' ∧ c ≠ '\n' ∧ c ≠ '\r') (rest : List Char) :
    skipBlanks (c :: rest) = c :: rest := by
  simp [skipBlanks, h]

theorem asciiString_append (s : String) (rest : List Char) :
    asciiString s ++ rest = '"' :: (s.toList.flatMap asciiEscape ++ '"' :: rest) := by
  simp [asciiString]

theorem readValue_asciiString (fuel : ℕ) (s : String) (rest : List Char) :
    readValue (fuel + 1) (asciiString s ++ rest) = some (.str s, rest) := by
  rw [asciiString_append, readValue, skipBlanks_cons (by decide)]
  simp only [if_true, readText_asciiString]
  rfl

theorem readFields_cons (fuel : ℕ) (key : String) {value : Value} {text rest : List Char}
    (hvalue : readValue fuel text = some (value, rest)) : readFields (fuel + 1) (asciiString key ++ ':' :: text) =
      match skipBlanks rest with
      | ',' :: rest => (readFields fuel rest).map fun read => ((key, value) :: read.1, read.2)
      | '\x7d' :: rest => some ([(key, value)], rest)
      | _ => none := by
  rw [asciiString_append, readFields, skipBlanks_cons (by decide)]
  simp only [readText_asciiString]
  rw [skipBlanks_cons (by decide)]
  simp only [hvalue]

theorem readFields_asciiFields (fields : List (String × String)) (hne : fields ≠ []) (fuel : ℕ)
    (hfuel : fields.length < fuel) (rest : List Char) : readFields fuel (asciiFields fields ++ '\x7d' :: rest) =
      some (fields.map fun field => (field.1, .str field.2), rest) := by
  induction fields generalizing fuel with
  | nil => exact absurd rfl hne
  | cons field fields ih =>
    obtain ⟨key, value⟩ := field
    obtain ⟨fuel, rfl⟩ : ∃ k, fuel = k + 2 := ⟨fuel - 2, by simp at hfuel; omega⟩
    cases fields with
    | nil =>
      simp only [asciiFields, append_assoc, cons_append]
      rw [readFields_cons (fuel + 1) key (readValue_asciiString fuel value _), skipBlanks_cons (by decide)]
      rfl
    | cons next fields =>
      have hrest := ih (by simp) (fuel + 1) (by simp at hfuel ⊢; omega)
      simp only [asciiFields, append_assoc, cons_append]
      rw [readFields_cons (fuel + 1) key (readValue_asciiString fuel value _), skipBlanks_cons (by decide)]
      simp only [hrest]
      rfl

theorem loads_object (key : String) (more : List Char) {fields : List (String × Value)}
    (hread : readFields ((asciiString key ++ more).length + 1) (asciiString key ++ more) = some (fields, [])) :
    loads ('\x7b' :: (asciiString key ++ more)) = some (.obj fields) := by
  have hquote : skipBlanks (asciiString key ++ more) = asciiString key ++ more := by
    rw [asciiString_append, skipBlanks_cons (by decide)]
  have hvalue : readValue ((asciiString key ++ more).length + 2)
      ('\x7b' :: (asciiString key ++ more)) = some (.obj fields, []) := by
    rw [readValue, skipBlanks_cons (by decide)]
    simp only [if_true, hquote, show ('\x7b' : Char) ≠ '"' by decide, if_false]
    rw [asciiString_append] at hread ⊢
    exact congrArg (Option.map fun read => (Value.obj read.1, read.2)) hread
  unfold loads
  rw [length_cons, hvalue]
  rfl

end Foundations
