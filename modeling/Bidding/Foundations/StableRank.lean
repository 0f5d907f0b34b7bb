import Mathlib.Data.List.Nodup
import Mathlib.Data.List.Perm.Basic

/-!
# Ranks by a stable sort

A list is sorted by a total preorder, and every member is ranked by its place. The ranks are `1` to `n`, whoever is
strictly before another has the smaller rank, and members that tie keep their order.
-/

namespace Foundations

open List

/-- A comparison a list can be sorted by. -/
structure TotalPreorder {α : Type} (le : α → α → Bool) : Prop where
  trans : ∀ a b c, le a b → le b c → le a c
  total : ∀ a b, le a b || le b a

section StableRank

variable {α : Type} [DecidableEq α] {le : α → α → Bool} {l l' : List α} {a b : α}

def stableRank (le : α → α → Bool) (l : List α) (a : α) : ℕ := (l.mergeSort le).idxOf a + 1

theorem idxOf_lt_of_pair_sublist (hnodup : l.Nodup) (h : [a, b].Sublist l) : l.idxOf a < l.idxOf b := by
  induction l with
  | nil => cases h
  | cons c l ih =>
    obtain ⟨hfresh, hrest⟩ := nodup_cons.mp hnodup
    rcases sublist_cons_iff.mp h with hlater | ⟨rest, heq, hsub⟩
    · have ha : c ≠ a := fun heq => hfresh (heq ▸ hlater.subset mem_cons_self)
      have hb : c ≠ b := fun heq => hfresh (heq ▸ hlater.subset (mem_cons_of_mem a mem_cons_self))
      rw [idxOf_cons_ne l ha, idxOf_cons_ne l hb]
      exact Nat.succ_lt_succ (ih hrest hlater)
    · obtain ⟨rfl, rfl⟩ := List.cons.inj heq
      have hb : a ≠ b := fun heq => hfresh (heq ▸ hsub.subset mem_cons_self)
      rw [idxOf_cons_self, idxOf_cons_ne l hb]
      exact Nat.succ_pos _

theorem stableRanks_perm (hnodup : l.Nodup) : (l.map (stableRank le l)).Perm (List.range' 1 l.length) := by
  have hsorted : (l.mergeSort le).Perm l := mergeSort_perm l le
  have hmap : (l.mergeSort le).map (stableRank le l) = List.range' 1 l.length := by
    apply ext_getElem
    · simp
    · intro i hi hi'
      rw [getElem_map, getElem_range', stableRank, (hsorted.nodup_iff.mpr hnodup).idxOf_getElem i (by simpa using hi)]
      omega
  rw [← hmap]
  exact (hsorted.map (stableRank le l)).symm

theorem stableRank_lt_of_strict (hle : TotalPreorder le) (ha : a ∈ l) (hb : b ∈ l) (h : le b a = false) :
    stableRank le l a < stableRank le l b := by
  have hpairwise := pairwise_iff_getElem.mp (pairwise_mergeSort hle.trans hle.total l)
  have hmem (c : α) (hc : c ∈ l) : c ∈ l.mergeSort le := mem_mergeSort.mpr hc
  have ha' := idxOf_lt_length_of_mem (hmem a ha)
  have hb' := idxOf_lt_length_of_mem (hmem b hb)
  unfold stableRank
  by_contra hnot
  rcases Nat.lt_or_eq_of_le (Nat.le_of_succ_le_succ (Nat.le_of_not_lt hnot)) with hlt | heq
  · have hbefore := hpairwise _ _ hb' ha' hlt
    rw [getElem_idxOf hb', getElem_idxOf ha', h] at hbefore
    cases hbefore
  · have hsame : a = b := by
      rw [← getElem_idxOf ha', ← getElem_idxOf hb']
      congr 1
      exact heq.symm
    subst hsame
    have htotal := hle.total a a
    rw [h] at htotal
    cases htotal

theorem stableRank_lt_of_before (hle : TotalPreorder le) (hnodup : l.Nodup) (h : [a, b].Sublist l)
    (htie : le a b = true) : stableRank le l a < stableRank le l b := by
  have hsorted := pair_sublist_mergeSort hle.trans hle.total htie h
  have hnodup' : (l.mergeSort le).Nodup := (mergeSort_perm l le).nodup_iff.mpr hnodup
  exact Nat.succ_lt_succ (idxOf_lt_of_pair_sublist hnodup' hsorted)

omit [DecidableEq α] in
theorem mergeSort_eq_of_perm (hle : TotalPreorder le) (hperm : l'.Perm l)
    (htie : ∀ a ∈ l, ∀ b ∈ l, le a b = true → le b a = true → a = b) : l'.mergeSort le = l.mergeSort le := by
  apply @List.Perm.eq_of_pairwise α fun a b => le a b = true
  · intro a b ha hb hab hba
    exact htie a (hperm.mem_iff.mp (mem_mergeSort.mp ha)) b (mem_mergeSort.mp hb) hab hba
  · exact pairwise_mergeSort hle.trans hle.total l'
  · exact pairwise_mergeSort hle.trans hle.total l
  · exact ((mergeSort_perm l' le).trans hperm).trans (mergeSort_perm l le).symm

omit [DecidableEq α] in
theorem pair_sublist_of_mem (ha : a ∈ l) (hb : b ∈ l) (hne : a ≠ b) : [a, b].Sublist l ∨ [b, a].Sublist l := by
  induction l with
  | nil => cases ha
  | cons c l ih =>
    rcases mem_cons.mp ha with rfl | ha'
    · have hb' := (mem_cons.mp hb).resolve_left (Ne.symm hne)
      exact Or.inl ((singleton_sublist.mpr hb').cons_cons a)
    · rcases mem_cons.mp hb with rfl | hb'
      · exact Or.inr ((singleton_sublist.mpr ha').cons_cons b)
      · exact (ih ha' hb').imp (fun h => h.cons c) fun h => h.cons c

theorem stableRank_reverse_of_tie (hle : TotalPreorder le) (hnodup : l.Nodup) (ha : a ∈ l) (hb : b ∈ l) (hne : a ≠ b)
    (hab : le a b = true) (hba : le b a = true) :
    ¬ (stableRank le l.reverse a = stableRank le l a ∧ stableRank le l.reverse b = stableRank le l b) := by
  rintro ⟨hranka, hrankb⟩
  have hreverse : l.reverse.Nodup := nodup_reverse.mpr hnodup
  rcases pair_sublist_of_mem ha hb hne with h | h
  · have hbefore := stableRank_lt_of_before hle hnodup h hab
    have hafter := stableRank_lt_of_before hle hreverse h.reverse hba
    omega
  · have hbefore := stableRank_lt_of_before hle hnodup h hba
    have hafter := stableRank_lt_of_before hle hreverse h.reverse hab
    omega

end StableRank

end Foundations
