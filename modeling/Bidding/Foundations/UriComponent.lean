import Bidding.Foundations.Base64

/-!
# Percent-encoded components

A component of an address keeps letters, digits and a few marks and writes every other byte of its UTF-8 form as a percent sign
and two digits. The text can be read back, and no delimiter of an address occurs in a component.
-/

namespace Foundations

open Base64 List

/-- The bytes a component keeps: letters, digits and `-_.!~*'()`. -/
def isUnreserved (b : Byte) : Bool :=
  (48 ≤ b.val && b.val ≤ 57) || (65 ≤ b.val && b.val ≤ 90) || (97 ≤ b.val && b.val ≤ 122) ||
    [45, 95, 46, 33, 126, 42, 39, 40, 41].contains b.val

def hexDigit (n : ℕ) : Char := Char.ofNat (if n < 10 then 48 + n else 55 + n)

def escapeByte (b : Byte) : List Char :=
  if isUnreserved b then [Char.ofNat b.val] else ['%', hexDigit (b.val / 16), hexDigit (b.val % 16)]

def encodeURIComponent (text : String) : List Char := (utf8 text.toList).flatMap escapeByte

theorem unreserved_lt {b : Byte} (h : isUnreserved b = true) : b.val < 128 ∧ b.val ≠ 37 ∧ b.val ≠ 58 := by
  unfold isUnreserved at h
  simp only [Bool.or_eq_true, Bool.and_eq_true, decide_eq_true_eq, contains_eq_mem, mem_cons, not_mem_nil,
    or_false] at h
  omega

theorem ofNat_inj {m n : ℕ} (hm : m < 128) (hn : n < 128) (h : Char.ofNat m = Char.ofNat n) : m = n := by
  have hvalue (k : ℕ) (hk : k < 128) : (Char.ofNat k).toNat = k := by
    have hvalid : k.isValidChar := Or.inl (by omega)
    rw [Char.ofNat, dif_pos hvalid]
    rfl
  rw [← hvalue m hm, h, hvalue n hn]

theorem hexDigit_inj {m n : ℕ} (hm : m < 16) (hn : n < 16) (h : hexDigit m = hexDigit n) : m = n := by
  unfold hexDigit at h
  have hcode := ofNat_inj (by split <;> omega) (by split <;> omega) h
  split at hcode <;> split at hcode <;> omega

theorem escapeByte_append_inj {a b : Byte} {l l' : List Char} (h : escapeByte a ++ l = escapeByte b ++ l') : a = b ∧ l = l' := by
  have hpercent (c : Byte) (hc : isUnreserved c = true) : Char.ofNat c.val ≠ '%' := fun heq =>
    (unreserved_lt hc).2.1 (ofNat_inj (unreserved_lt hc).1 (by omega) heq)
  unfold escapeByte at h
  split at h <;> split at h <;> simp only [cons_append, nil_append, List.cons.injEq] at h
  case isTrue.isTrue ha hb => exact ⟨Fin.ext (ofNat_inj (unreserved_lt ha).1 (unreserved_lt hb).1 h.1), h.2⟩
  case isTrue.isFalse ha hb => exact absurd h.1 (hpercent a ha)
  case isFalse.isTrue ha hb => exact absurd h.1.symm (hpercent b hb)
  case isFalse.isFalse ha hb =>
    have hhigh := hexDigit_inj (by omega) (by omega) h.2.1
    have hlow := hexDigit_inj (by omega) (by omega) h.2.2.1
    exact ⟨Fin.ext (by omega), h.2.2.2⟩

theorem flatMap_escapeByte_inj {l l' : List Byte} (h : l.flatMap escapeByte = l'.flatMap escapeByte) : l = l' := by
  have hne (b : Byte) : escapeByte b ≠ [] := by
    unfold escapeByte
    split <;> exact cons_ne_nil _ _
  induction l generalizing l' with
  | nil =>
    cases l' with
    | nil => rfl
    | cons b l' => simp [hne] at h
  | cons a l ih =>
    cases l' with
    | nil => simp [hne] at h
    | cons b l' =>
      rw [flatMap_cons, flatMap_cons] at h
      obtain ⟨rfl, hrest⟩ := escapeByte_append_inj h
      rw [ih hrest]

theorem encodeURIComponent_inj {s t : String} (h : encodeURIComponent s = encodeURIComponent t) : s = t := by
  have hbytes := flatMap_escapeByte_inj h
  have hchars := ofUtf8_utf8 s.toList
  rw [hbytes, ofUtf8_utf8, Option.some.injEq] at hchars
  exact String.toList_injective hchars.symm

theorem colon_not_mem_encodeURIComponent (text : String) : ':' ∉ encodeURIComponent text := by
  intro hmem
  obtain ⟨b, -, hb⟩ := mem_flatMap.mp hmem
  have hdigit (n : ℕ) (hn : n < 16) : hexDigit n ≠ ':' := by
    intro heq
    have hcode := @ofNat_inj (if n < 10 then 48 + n else 55 + n) 58 (by split <;> omega) (by decide) heq
    split at hcode <;> omega
  unfold escapeByte at hb
  split at hb
  case isTrue hkept =>
    rw [mem_singleton] at hb
    exact (unreserved_lt hkept).2.2 (ofNat_inj (unreserved_lt hkept).1 (by omega) hb.symm)
  case isFalse =>
    simp only [mem_cons, not_mem_nil, or_false] at hb
    rcases hb with hb | hb | hb
    · exact absurd hb (by decide)
    · exact hdigit _ (by omega) hb.symm
    · exact hdigit _ (by omega) hb.symm

end Foundations
