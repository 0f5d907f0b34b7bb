import Bidding.Foundations.Decimal

/-!
# JSON texts

`json.dumps` of flat objects, character by character. A text between quotes can be read back from
whatever follows it, because an escape never starts another one; so a value of an object is read back
from the object.
-/

namespace Foundations

open List

/-- The last two digits of `\u00XX`. -/
def hexPair (n : ℕ) : List Char := [Nat.digitChar (n / 16), Nat.digitChar (n % 16)]

/-- One character inside quotes, with `ensure_ascii=False`. -/
def jsonEscape (c : Char) : List Char :=
  if c = '"' then ['\\', '"']
  else if c = '\\' then ['\\', '\\']
  else if c = '\n' then ['\\', 'n']
  else if c = '\r' then ['\\', 'r']
  else if c = '\t' then ['\\', 't']
  else if c.toNat = 8 then ['\\', 'b']
  else if c.toNat = 12 then ['\\', 'f']
  else if c.toNat < 32 then ['\\', 'u', '0', '0'] ++ hexPair c.toNat
  else [c]

def escapedChars : List Char := '"' :: '\\' :: (List.range 32).map Char.ofNat

def jsonString (s : String) : List Char := '"' :: s.toList.flatMap jsonEscape ++ ['"']

/-- A text or `null`. -/
def jsonOptional : Option String → List Char
  | some s => jsonString s
  | none => "null".toList

@[irreducible] def jsonKey (key : String) : List Char := jsonString key ++ [':']

def jsonInt (n : Int) : List Char := (toString n).toList

/-! ## Reading back -/

variable {c : Char}

theorem mem_escapedChars (h : c = '"' ∨ c = '\\' ∨ c.toNat < 32) : c ∈ escapedChars := by
  rcases h with rfl | rfl | h
  · simp [escapedChars]
  · simp [escapedChars]
  · refine mem_cons_of_mem _ (mem_cons_of_mem _ (mem_map.mpr ⟨c.toNat, ?_, ?_⟩))
    · exact mem_range.mpr h
    · exact Char.ofNat_toNat c

theorem jsonEscape_plain (h : c ∉ escapedChars) : jsonEscape c = [c] := by
  have hq : c ≠ '"' := fun he => h (mem_escapedChars (.inl he))
  have hb : c ≠ '\\' := fun he => h (mem_escapedChars (.inr (.inl he)))
  have hlow : ¬ c.toNat < 32 := fun he => h (mem_escapedChars (.inr (.inr he)))
  have hne : ∀ d : Char, d.toNat < 32 → c ≠ d := by
    rintro d hd rfl
    exact hlow hd
  have h8 : c.toNat ≠ 8 := by omega
  have h12 : c.toNat ≠ 12 := by omega
  simp [jsonEscape, hq, hb, hne '\n' (by decide), hne '\r' (by decide), hne '\t' (by decide), h8, h12, hlow]

theorem jsonEscape_escaped : ∀ c ∈ escapedChars, (jsonEscape c).head? = some '\\' := by
  have hall : (escapedChars.all fun c => (jsonEscape c).head? = some '\\') = true := by decide
  simpa using hall

theorem eq_of_jsonEscape_isPrefixOf :
    ∀ c ∈ escapedChars, ∀ d ∈ escapedChars, (jsonEscape c).isPrefixOf (jsonEscape d) = true → c = d := by
  have hall : (escapedChars.all fun c => escapedChars.all fun d =>
      !(jsonEscape c).isPrefixOf (jsonEscape d) || c = d) = true := by decide
  intro c hc d hd hstarts
  simpa [hstarts] using all_eq_true.mp (all_eq_true.mp hall c hc) d hd

theorem jsonEscape_no_newline (c : Char) : '\n' ∉ jsonEscape c := by
  by_cases hc : c ∈ escapedChars
  · have hall : (escapedChars.all fun c => '\n' ∉ jsonEscape c) = true := by decide
    simpa using all_eq_true.mp hall c hc
  · rw [jsonEscape_plain hc, mem_singleton]
    rintro rfl
    exact hc (by decide)

theorem jsonEscape_ne_nil (c : Char) : jsonEscape c ≠ [] := by
  by_cases hc : c ∈ escapedChars
  · intro hnil
    have hhead := jsonEscape_escaped c hc
    rw [hnil] at hhead
    cases hhead
  · simp [jsonEscape_plain hc]

theorem jsonEscape_head (c : Char) {rest l : List Char} : jsonEscape c ++ rest ≠ '"' :: l := by
  intro h
  by_cases hc : c ∈ escapedChars
  · have hhead := jsonEscape_escaped c hc
    cases hcs : jsonEscape c with
    | nil => exact jsonEscape_ne_nil c hcs
    | cons a as =>
      rw [hcs] at hhead h
      cases hhead
      exact absurd (List.cons.inj h).1 (by decide)
  · rw [jsonEscape_plain hc] at h
    obtain rfl := (List.cons.inj h).1
    exact hc (by decide)

variable {x y : List Char}

theorem jsonEscape_inj {c d : Char} (h : jsonEscape c ++ x = jsonEscape d ++ y) : c = d ∧ x = y := by
  have heq : c = d := by
    by_cases hc : c ∈ escapedChars <;> by_cases hd : d ∈ escapedChars
    · have h1 : jsonEscape c <+: jsonEscape d ++ y := ⟨x, h⟩
      have h2 : jsonEscape d <+: jsonEscape d ++ y := ⟨y, rfl⟩
      rcases prefix_or_prefix_of_prefix h1 h2 with hp | hp
      · exact eq_of_jsonEscape_isPrefixOf c hc d hd ( isPrefixOf_iff_prefix.mpr hp)
      · exact (eq_of_jsonEscape_isPrefixOf d hd c hc ( isPrefixOf_iff_prefix.mpr hp)).symm
    · have hhead := jsonEscape_escaped c hc
      cases hcs : jsonEscape c with
      | nil => exact absurd hcs (jsonEscape_ne_nil c)
      | cons a as =>
        rw [hcs] at hhead h
        rw [jsonEscape_plain hd] at h
        cases hhead
        exact absurd ((List.cons.inj h).1 ▸ by decide : d ∈ escapedChars) hd
    · have hhead := jsonEscape_escaped d hd
      cases hds : jsonEscape d with
      | nil => exact absurd hds (jsonEscape_ne_nil d)
      | cons a as =>
        rw [hds] at hhead h
        rw [jsonEscape_plain hc] at h
        cases hhead
        exact absurd ((List.cons.inj h).1 ▸ by decide : c ∈ escapedChars) hc
    · rw [jsonEscape_plain hc, jsonEscape_plain hd] at h
      exact (List.cons.inj h).1
  subst heq
  exact ⟨rfl, append_cancel_left h⟩

theorem flatMap_jsonEscape_inj {l l' : List Char}
    (h : l.flatMap jsonEscape ++ '"' :: x = l'.flatMap jsonEscape ++ '"' :: y) : l = l' ∧ x = y := by
  induction l generalizing l' with
  | nil =>
    cases l' with
    | nil => exact ⟨rfl, (List.cons.inj h).2⟩
    | cons d l' =>
      rw [flatMap_cons, append_assoc] at h
      exact absurd h.symm (jsonEscape_head d)
  | cons c l ih =>
    cases l' with
    | nil =>
      rw [flatMap_cons, append_assoc] at h
      exact absurd h (jsonEscape_head c)
    | cons d l' =>
      rw [flatMap_cons, append_assoc, flatMap_cons, append_assoc] at h
      obtain ⟨rfl, hrest⟩ := jsonEscape_inj h
      obtain ⟨rfl, hxy⟩ := ih hrest
      exact ⟨rfl, hxy⟩

theorem jsonString_inj {s s' : String} (h : jsonString s ++ x = jsonString s' ++ y) : s = s' ∧ x = y := by
  have hcons : s.toList.flatMap jsonEscape ++ '"' :: x = s'.toList.flatMap jsonEscape ++ '"' :: y := by
    simpa [jsonString] using h
  obtain ⟨hlist, hxy⟩ := flatMap_jsonEscape_inj hcons
  exact ⟨String.toList_inj.mp hlist, hxy⟩

theorem jsonOptional_inj {s s' : Option String} (h : jsonOptional s ++ x = jsonOptional s' ++ y) : s = s' ∧ x = y := by
  cases s with
  | none =>
    cases s' with
    | none => exact ⟨rfl, append_cancel_left h⟩
    | some s' => simp [jsonOptional, jsonString] at h
  | some s =>
    cases s' with
    | none => simp [jsonOptional, jsonString] at h
    | some s' =>
      obtain ⟨rfl, hxy⟩ := jsonString_inj h
      exact ⟨rfl, hxy⟩

theorem append_sep_inj {t : Char} {a b x y : List Char} (ha : t ∉ a) (hb : t ∉ b)
    (h : a ++ t :: x = b ++ t :: y) : a = b ∧ x = y := by
  induction a generalizing b with
  | nil =>
    cases b with
    | nil => exact ⟨rfl, (List.cons.inj h).2⟩
    | cons c b =>
      obtain rfl := (List.cons.inj h).1
      exact absurd mem_cons_self hb
  | cons c a ih =>
    cases b with
    | nil =>
      obtain rfl := (List.cons.inj h).1
      exact absurd mem_cons_self ha
    | cons d b =>
      obtain ⟨rfl, htail⟩ := List.cons.inj h
      obtain ⟨rfl, hxy⟩ := ih (fun hm => ha (mem_cons_of_mem _ hm)) (fun hm => hb (mem_cons_of_mem _ hm)) htail
      exact ⟨rfl, hxy⟩

theorem jsonString_no_newline (s : String) : '\n' ∉ jsonString s := by
  simp only [jsonString, cons_append, mem_cons, mem_append, mem_flatMap]
  rintro (h | ⟨c, -, hc⟩ | h)
  · exact absurd h (by decide)
  · exact jsonEscape_no_newline c hc
  · simp at h

theorem jsonOptional_no_newline (s : Option String) : '\n' ∉ jsonOptional s := by
  cases s with
  | none => decide
  | some s => exact jsonString_no_newline s

theorem jsonKey_no_newline (key : String) : '\n' ∉ jsonKey key := by
  unfold jsonKey
  rw [mem_append]
  rintro (h | h)
  · exact jsonString_no_newline key h
  · simp at h

theorem jsonInt_chars {n : Int} (h : c ∈ jsonInt n) : c.isDigit = true ∨ c = '-' := by
  cases n with
  | ofNat n =>
    rw [jsonInt, show toString (Int.ofNat n) = toString (n : Int) from rfl, toList_toString_nat] at h
    exact .inl (Nat.isDigit_of_mem_toDigits (by omega) (by omega) h)
  | negSucc n =>
    have htext : toString (Int.negSucc n) = "-" ++ toString (n + 1) := rfl
    rw [jsonInt, htext, String.toList_append] at h
    rcases mem_append.mp h with h | h
    · exact .inr (by simpa using h)
    have hdigits : c ∈ Nat.toDigits 10 (n + 1) := by
      rw [← toList_toString_nat]
      exact h
    exact .inl (Nat.isDigit_of_mem_toDigits (by omega) (by omega) hdigits)

theorem jsonInt_no_sep (n : Int) : ',' ∉ jsonInt n := by
  intro h
  rcases jsonInt_chars h with h | h <;> exact absurd h (by decide)

theorem jsonInt_no_newline (n : Int) : '\n' ∉ jsonInt n := by
  intro h
  rcases jsonInt_chars h with h | h <;> exact absurd h (by decide)

theorem toDigits_inj {m n : ℕ} (h : Nat.toDigits 10 m = Nat.toDigits 10 n) : m = n := by
  have hread := congrArg (fun digits => Nat.ofDigitChars 10 digits 0) h
  simpa using hread

theorem jsonInt_inj {m n : Int} (h : jsonInt m = jsonInt n) : m = n := by
  have hnonneg : ∀ k : ℕ, jsonInt (Int.ofNat k) = Nat.toDigits 10 k := toList_toString_nat
  have hneg : ∀ k : ℕ, jsonInt (Int.negSucc k) = '-' :: Nat.toDigits 10 (k + 1) := by
    intro k
    have htext : toString (Int.negSucc k) = "-" ++ toString (k + 1) := rfl
    have hdigits : (toString (k + 1)).toList = Nat.toDigits 10 (k + 1) := toList_toString_nat (k + 1)
    rw [jsonInt, htext, String.toList_append, hdigits]
    rfl
  have hminus : ∀ k : ℕ, '-' ∉ Nat.toDigits 10 k := fun k hmem =>
    absurd (Nat.isDigit_of_mem_toDigits (by omega) (by omega) hmem) (by decide)
  cases m with
  | ofNat m =>
    cases n with
    | ofNat n =>
      rw [hnonneg, hnonneg] at h
      exact congrArg Int.ofNat (toDigits_inj h)
    | negSucc n =>
      rw [hnonneg, hneg] at h
      exact absurd (h ▸ mem_cons_self) (hminus m)
  | negSucc m =>
    cases n with
    | ofNat n =>
      rw [hneg, hnonneg] at h
      exact absurd (h ▸ mem_cons_self) (hminus n)
    | negSucc n =>
      rw [hneg, hneg] at h
      have hmn := toDigits_inj (List.cons.inj h).2
      exact congrArg Int.negSucc (by omega)

end Foundations
