import Mathlib.Data.List.Basic

/-!
# Texts as code units

A program compares texts by their UTF-16 code units, which is not the order of their characters: a character beyond the first
plane stands before the last ones of the first plane. No two texts have the same code units, so the order is still total.
-/

namespace Foundations

open List

def codeUnits (c : Char) : List ℕ :=
  if c.toNat < 0x10000 then [c.toNat]
  else [0xD800 + (c.toNat - 0x10000) / 0x400, 0xDC00 + (c.toNat - 0x10000) % 0x400]

def textUnits (text : String) : List ℕ := text.toList.flatMap codeUnits

def unitsLess : List ℕ → List ℕ → Bool
  | _, [] => false
  | [], _ :: _ => true
  | m :: l, n :: l' => m < n || (m = n && unitsLess l l')

/-- `left < right` of two texts. -/
def textLess (left right : String) : Bool := unitsLess (textUnits left) (textUnits right)

theorem unitsLess_cons (m n : ℕ) (l l' : List ℕ) :
    unitsLess (m :: l) (n :: l') = true ↔ m < n ∨ (m = n ∧ unitsLess l l' = true) := by
  simp [unitsLess]

theorem unitsLess_irrefl (l : List ℕ) : unitsLess l l = false := by
  induction l with
  | nil => rfl
  | cons n l ih => simp [unitsLess, ih]

theorem unitsLess_trans {l₁ l₂ l₃ : List ℕ} (h : unitsLess l₁ l₂ = true) (h' : unitsLess l₂ l₃ = true) :
    unitsLess l₁ l₃ = true := by
  induction l₂ generalizing l₁ l₃ with
  | nil => cases l₁ <;> cases h
  | cons n l₂ ih =>
    cases l₃ with
    | nil => cases h'
    | cons k l₃ =>
      cases l₁ with
      | nil => rfl
      | cons m l₁ =>
        rw [unitsLess_cons] at h h' ⊢
        rcases h with hlt | ⟨rfl, hrest⟩
        · rcases h' with hlt' | ⟨rfl, -⟩
          · exact .inl (Nat.lt_trans hlt hlt')
          · exact .inl hlt
        · rcases h' with hlt' | ⟨rfl, hrest'⟩
          · exact .inl hlt'
          · exact .inr ⟨rfl, ih hrest hrest'⟩

theorem unitsLess_total (l l' : List ℕ) : unitsLess l l' = true ∨ l = l' ∨ unitsLess l' l = true := by
  induction l generalizing l' with
  | nil =>
    cases l' with
    | nil => exact .inr (.inl rfl)
    | cons n l' => exact .inl rfl
  | cons m l ih =>
    cases l' with
    | nil => exact .inr (.inr rfl)
    | cons n l' =>
      rw [unitsLess_cons, unitsLess_cons]
      rcases Nat.lt_trichotomy m n with hlt | rfl | hgt
      · exact .inl (.inl hlt)
      · rcases ih l' with hless | rfl | hmore
        · exact .inl (.inr ⟨rfl, hless⟩)
        · exact .inr (.inl rfl)
        · exact .inr (.inr (.inr ⟨rfl, hmore⟩))
      · exact .inr (.inr (.inl hgt))

theorem codeUnits_append_inj {c d : Char} {l l' : List ℕ} (h : codeUnits c ++ l = codeUnits d ++ l') : c = d ∧ l = l' := by
  have hc : c.toNat < 0xD800 ∨ (0xDFFF < c.toNat ∧ c.toNat < 0x110000) := c.valid
  have hd : d.toNat < 0xD800 ∨ (0xDFFF < d.toNat ∧ d.toNat < 0x110000) := d.valid
  have hsame : c.toNat = d.toNat → c = d := fun heq => Char.toNat_inj.mp heq
  unfold codeUnits at h
  split at h <;> split at h <;>
    simp only [cons_append, nil_append, List.cons.injEq] at h
  · exact ⟨hsame h.1, h.2⟩
  · omega
  · omega
  · refine ⟨hsame ?_, h.2.2⟩
    omega

theorem flatMap_codeUnits_inj {l l' : List Char} (h : l.flatMap codeUnits = l'.flatMap codeUnits) : l = l' := by
  have hne (c : Char) : codeUnits c ≠ [] := by
    unfold codeUnits
    split <;> exact cons_ne_nil _ _
  induction l generalizing l' with
  | nil =>
    cases l' with
    | nil => rfl
    | cons d l' => simp [hne] at h
  | cons c l ih =>
    cases l' with
    | nil => simp [hne] at h
    | cons d l' =>
      rw [flatMap_cons, flatMap_cons] at h
      obtain ⟨rfl, hrest⟩ := codeUnits_append_inj h
      rw [ih hrest]

theorem textUnits_inj {left right : String} (h : textUnits left = textUnits right) : left = right :=
  String.toList_injective (flatMap_codeUnits_inj h)

theorem textLess_irrefl (text : String) : textLess text text = false := unitsLess_irrefl (textUnits text)

theorem textLess_trans {a b c : String} (h : textLess a b = true) (h' : textLess b c = true) : textLess a c = true :=
  unitsLess_trans h h'

theorem textLess_total (a b : String) : textLess a b = true ∨ a = b ∨ textLess b a = true := by
  rcases unitsLess_total (textUnits a) (textUnits b) with h | h | h
  · exact .inl h
  · exact .inr (.inl (textUnits_inj h))
  · exact .inr (.inr h)

theorem textLess_asymm {a b : String} (h : textLess a b = true) : textLess b a = false := by
  cases hback : textLess b a with
  | false => rfl
  | true =>
    have hself := textLess_trans h hback
    rw [textLess_irrefl] at hself
    cases hself

end Foundations
