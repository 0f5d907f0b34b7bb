import Mathlib.Data.List.Nodup
import Mathlib.Algebra.Order.Ring.Int

/-!
# Hash chains

A chain is a list of entries numbered without a gap, each of which carries the digest of the entry
before it and its own. Where the digest function does not collide on the entries of two chains, their
ends fix all of them.
-/

namespace Foundations

open List

/-- What a chain reads of an entry: its number, the digest it carries of the entry before, its own
digest as stored and as computed, and the content the digest is of. -/
structure ChainScheme (α δ γ : Type) where
  seq : α → Int
  previous : α → δ
  own : α → δ
  digest : α → δ
  content : α → γ

namespace ChainScheme

variable {α δ γ : Type} {S : ChainScheme α δ γ}

def Linked (S : ChainScheme α δ γ) : δ → Int → List α → Prop
  | _, _, [] => True
  | p, n, a :: l => S.seq a = n + 1 ∧ S.previous a = p ∧ S.digest a = S.own a ∧ Linked S (S.own a) (n + 1) l

def lastOf (S : ChainScheme α δ γ) (p : δ) (n : Int) (l : List α) : δ × Int :=
  match l.getLast? with
  | some a => (S.own a, S.seq a)
  | none => (p, n)

/-- No two entries of the lists with one digest differ. -/
def CollisionFree (S : ChainScheme α δ γ) (l l' : List α) : Prop :=
  ∀ a ∈ l, ∀ b ∈ l', S.digest a = S.digest b → S.previous a = S.previous b ∧ S.content a = S.content b

theorem lastOf_cons (S : ChainScheme α δ γ) (p : δ) (n : Int) (a : α) (l : List α) :
    S.lastOf p n (a :: l) = S.lastOf (S.own a) (S.seq a) l := by
  cases l with
  | nil => rfl
  | cons b l =>
    unfold lastOf
    rw [getLast?_cons_cons]
    cases h : (b :: l).getLast? with
    | none => simp at h
    | some c => rfl

variable {p : δ}

variable {n : Int}

variable {l : List α} {l' : List α}

theorem linked_concat {a : α} : S.Linked p n (l ++ [a]) ↔ S.Linked p n l ∧ S.seq a = (S.lastOf p n l).2 + 1 ∧
    S.previous a = (S.lastOf p n l).1 ∧ S.digest a = S.own a := by
  induction l generalizing p n with
  | nil => simp [Linked, lastOf]
  | cons b l ih =>
    rw [cons_append, Linked, ih, Linked, lastOf_cons]
    constructor
    · rintro ⟨h1, h2, h3, h4, h5⟩
      exact ⟨⟨h1, h2, h3, h4⟩, h1 ▸ h5⟩
    · rintro ⟨⟨h1, h2, h3, h4⟩, h5⟩
      exact ⟨h1, h2, h3, h4, h1 ▸ h5⟩

theorem linked_append : S.Linked p n (l ++ l') ↔
    S.Linked p n l ∧ S.Linked (S.lastOf p n l).1 (S.lastOf p n l).2 l' := by
  induction l generalizing p n with
  | nil => simp [Linked, lastOf]
  | cons a l ih =>
    rw [cons_append, Linked, ih, Linked, lastOf_cons]
    constructor
    · rintro ⟨h1, h2, h3, h4, h5⟩
      exact ⟨⟨h1, h2, h3, h4⟩, h1 ▸ h5⟩
    · rintro ⟨⟨h1, h2, h3, h4⟩, h5⟩
      exact ⟨h1, h2, h3, h4, h1 ▸ h5⟩

theorem Linked.of_append (h : S.Linked p n (l ++ l')) : S.Linked p n l := by
  induction l generalizing p n with
  | nil => trivial
  | cons a l ih => exact ⟨h.1, h.2.1, h.2.2.1, ih h.2.2.2⟩

section

variable (h : S.Linked p n l)
include h

theorem Linked.last_seq : (S.lastOf p n l).2 = n + l.length := by
  induction l generalizing p n with
  | nil => simp [lastOf]
  | cons a l ih =>
    rw [lastOf_cons, h.1, ih h.2.2.2, length_cons]
    omega

theorem Linked.seq_gt : ∀ a ∈ l, n < S.seq a := by
  induction l generalizing p n with
  | nil => simp
  | cons b l ih =>
    intro a ha
    rcases mem_cons.mp ha with rfl | ha
    · have hseq := h.1
      omega
    · have hgt := ih h.2.2.2 a ha
      omega

theorem Linked.pairwise : l.Pairwise fun a b => S.seq a < S.seq b := by
  induction l generalizing p n with
  | nil => exact .nil
  | cons a l ih =>
    rw [pairwise_cons]
    refine ⟨fun b hb => ?_, ih h.2.2.2⟩
    have hgt := h.2.2.2.seq_gt b hb
    have hseq := h.1
    omega

theorem Linked.eq_of_perm (hperm : l'.Perm l) (hsorted : l'.Pairwise fun a b => S.seq a ≤ S.seq b) : l' = l := by
  have hnodup : (l.map S.seq).Nodup :=
    pairwise_map.mpr (h.pairwise.imp fun hlt => ne_of_lt hlt)
  refine List.Perm.eq_of_pairwise (fun a b ha hb hab hba => ?_) hsorted (h.pairwise.imp fun hlt => le_of_lt hlt) hperm
  exact inj_on_of_nodup_map hnodup (hperm.subset ha) hb (le_antisymm hab hba)

theorem Linked.unique {p' : δ} (h' : S.Linked p' n l') (hcollision : S.CollisionFree l l') (hlength : l.length = l'.length)
    (hlast : (S.lastOf p n l).1 = (S.lastOf p' n l').1) :
    p = p' ∧ l.map (fun a => (S.seq a, S.previous a, S.own a, S.content a)) =
      l'.map fun a => (S.seq a, S.previous a, S.own a, S.content a) := by
  induction l generalizing l' p p' n with
  | nil =>
    obtain rfl := eq_nil_of_length_eq_zero hlength.symm
    exact ⟨hlast, rfl⟩
  | cons a l ih =>
    cases l' with
    | nil => simp at hlength
    | cons b l' =>
      rw [lastOf_cons, lastOf_cons, h.1, h'.1] at hlast
      obtain ⟨hown, hrest⟩ := ih h.2.2.2 h'.2.2.2
        (fun x hx y hy => hcollision x (mem_cons_of_mem a hx) y (mem_cons_of_mem b hy)) (by simpa using hlength) hlast
      have hdigest : S.digest a = S.digest b := by rw [h.2.2.1, h'.2.2.1, hown]
      obtain ⟨hprevious, hcontent⟩ :=
        hcollision a mem_cons_self b mem_cons_self hdigest
      refine ⟨h.2.1.symm.trans (hprevious.trans h'.2.1), ?_⟩
      rw [map_cons, map_cons, hrest, h.1, h'.1, hprevious, hown, hcontent]

end

end ChainScheme

end Foundations
