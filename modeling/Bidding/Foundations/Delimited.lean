import Mathlib.Data.List.Infix

/-!
# Parts joined by a delimiter

Parts in which the delimiter does not occur can be read back from the text they are joined to, so texts that are equal have equal
parts. A part between two delimiters occurs in the text exactly if it is one of the parts that are neither the first nor the
last.
-/

namespace Foundations

open List

variable {α : Type} {d : α} {t first : List α} {parts : List (List α)}

def joinParts (d : α) : List (List α) → List α
  | [] => []
  | [part] => part
  | part :: next :: parts => part ++ d :: joinParts d (next :: parts)

theorem append_delimiter_inj {a a' l l' : List α} (ha : d ∉ a) (ha' : d ∉ a') (h : a ++ d :: l = a' ++ d :: l') :
    a = a' ∧ l = l' := by
  induction a generalizing a' with
  | nil =>
    cases a' with
    | nil => exact ⟨rfl, (List.cons.inj h).2⟩
    | cons x a' =>
      have hx : d = x := (List.cons.inj h).1
      rw [hx] at ha'
      exact absurd mem_cons_self ha'
  | cons x a ih =>
    cases a' with
    | nil =>
      have hx : x = d := (List.cons.inj h).1
      rw [hx] at ha
      exact absurd mem_cons_self ha
    | cons y a' =>
      obtain ⟨rfl, hrest⟩ := List.cons.inj h
      obtain ⟨rfl, hl⟩ := ih (fun hmem => ha (mem_cons_of_mem x hmem)) (fun hmem => ha' (mem_cons_of_mem x hmem)) hrest
      exact ⟨rfl, hl⟩

theorem joinParts_inj {parts parts' : List (List α)} (hlength : parts.length = parts'.length) (h : ∀ part ∈ parts, d ∉ part)
    (h' : ∀ part ∈ parts', d ∉ part) (heq : joinParts d parts = joinParts d parts') : parts = parts' := by
  induction parts generalizing parts' with
  | nil => exact (length_eq_zero_iff.mp hlength.symm).symm
  | cons part parts ih =>
    cases parts' with
    | nil => cases hlength
    | cons part' parts' =>
      cases parts with
      | nil =>
        cases parts' with
        | nil => exact congrArg (fun p => [p]) heq
        | cons _ _ => cases Nat.succ.inj hlength
      | cons next parts =>
        cases parts' with
        | nil => cases Nat.succ.inj hlength
        | cons next' parts' =>
          obtain ⟨rfl, hrest⟩ := append_delimiter_inj (h part mem_cons_self) (h' part' mem_cons_self) heq
          rw [ih (Nat.succ.inj hlength) (fun p hp => h p (mem_cons_of_mem part hp))
            (fun p hp => h' p (mem_cons_of_mem part hp)) hrest]

theorem mem_of_infix_joinParts (ht : d ∉ t) (hfirst : d ∉ first)
    (h : ∀ part ∈ parts, d ∉ part) (hinside : d :: t ++ [d] <:+: joinParts d (first :: parts)) : t ∈ parts.dropLast := by
  induction parts generalizing first with
  | nil =>
    have hd : d ∈ first := hinside.subset mem_cons_self
    exact absurd hd hfirst
  | cons next parts ih =>
    obtain ⟨before, after, heq⟩ := hinside
    have hnext : d ∉ next := h next mem_cons_self
    have hparts : ∀ part ∈ parts, d ∉ part := fun part hpart => h part (mem_cons_of_mem next hpart)
    have hjoined : joinParts d (first :: next :: parts) = first ++ d :: joinParts d (next :: parts) := rfl
    rw [hjoined] at heq
    by_cases hbefore : d ∈ before
    · -- the marker starts behind the first delimiter
      obtain ⟨start, rest, rfl, hstart⟩ := eq_append_cons_of_mem hbefore
      have hsplit : start ++ d :: (rest ++ (d :: t ++ [d]) ++ after) = first ++ d :: joinParts d (next :: parts) := by
        rw [← heq]
        simp
      obtain ⟨-, hrest⟩ := append_delimiter_inj hstart hfirst hsplit
      have hlater := ih hnext hparts ⟨rest, after, hrest⟩
      rw [dropLast_cons_of_ne_nil fun hnil => by rw [hnil] at hlater; cases hlater]
      exact mem_cons_of_mem next hlater
    · -- the marker starts at the first delimiter
      have hsplit : before ++ d :: (t ++ d :: after) = first ++ d :: joinParts d (next :: parts) := by
        rw [← heq]
        simp
      obtain ⟨-, hrest⟩ := append_delimiter_inj hbefore hfirst hsplit
      cases parts with
      | nil =>
        have hd : d ∈ next := by
          have hmem : d ∈ t ++ d :: after := mem_append_right t mem_cons_self
          rw [hrest] at hmem
          exact hmem
        exact absurd hd hnext
      | cons last parts =>
        obtain ⟨rfl, -⟩ := append_delimiter_inj ht hnext hrest
        exact mem_cons_self

theorem infix_joinParts_of_mem {t : List α} (first : List α) (h : t ∈ parts.dropLast) :
    d :: t ++ [d] <:+: joinParts d (first :: parts) := by
  induction parts generalizing first with
  | nil => cases h
  | cons next parts ih =>
    have hjoined : joinParts d (first :: next :: parts) = first ++ d :: joinParts d (next :: parts) := rfl
    cases parts with
    | nil => cases h
    | cons last parts =>
      rw [dropLast_cons_of_ne_nil (cons_ne_nil last parts)] at h
      rcases mem_cons.mp h with rfl | hlater
      · refine ⟨first, joinParts d (last :: parts), ?_⟩
        rw [hjoined]
        simp [joinParts]
      · obtain ⟨before, after, heq⟩ := ih next hlater
        refine ⟨first ++ d :: before, after, ?_⟩
        rw [hjoined, ← heq]
        simp

theorem infix_joinParts_iff (ht : d ∉ t) (hfirst : d ∉ first)
    (h : ∀ part ∈ parts, d ∉ part) : d :: t ++ [d] <:+: joinParts d (first :: parts) ↔ t ∈ parts.dropLast :=
  ⟨mem_of_infix_joinParts ht hfirst h, infix_joinParts_of_mem first⟩

end Foundations
