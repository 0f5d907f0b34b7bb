import Bidding.Foundations.BestOf
import Mathlib.Data.List.Perm.Basic

/-!
# The foremost member of a list

A comparison that never holds two members of a list equal has one foremost member there. Keeping what is better, sorting,
and comparing the best under every key all name it, in whatever order the list stands.
-/

namespace Foundations

open List

variable {α κ : Type} {better : α → α → Bool} {le : α → α → Prop} {l l' : List α} {a b : α}

structure Ranks (better : α → α → Bool) (le : α → α → Prop) : Prop extends Prefers better le where
  strict : ∀ new kept, better new kept = true → ¬le new kept

theorem Ranks.not_better_iff (h : Ranks better le) (a b : α) : (!better b a) = true ↔ le b a := by
  cases hbetter : better b a with
  | true => simpa using h.strict b a hbetter
  | false => simpa using h.left b a hbetter

/-- A member of the list that no other is better than. -/
def IsForemost (le : α → α → Prop) (l : List α) (a : α) : Prop := a ∈ l ∧ ∀ b ∈ l, le b a

/-- No two members of the list are equally good. -/
def Separates (le : α → α → Prop) (l : List α) : Prop := ∀ a ∈ l, ∀ b ∈ l, le a b → le b a → a = b

theorem IsForemost.unique (hsep : Separates le l) (ha : IsForemost le l a) (hb : IsForemost le l b) : a = b :=
  hsep a ha.1 b hb.1 (hb.2 a ha.1) (ha.2 b hb.1)

theorem IsForemost.of_perm (hperm : l.Perm l') (h : IsForemost le l a) : IsForemost le l' a :=
  ⟨hperm.mem_iff.mp h.1, fun b hb => h.2 b (hperm.mem_iff.mpr hb)⟩

theorem Separates.of_perm (hperm : l.Perm l') (h : Separates le l) : Separates le l' :=
  fun a ha b hb => h a (hperm.mem_iff.mpr ha) b (hperm.mem_iff.mpr hb)

theorem Separates.filter (h : Separates le l) (p : α → Bool) : Separates le (l.filter p) :=
  fun a ha b hb => h a (mem_of_mem_filter ha) b (mem_of_mem_filter hb)

def keepBetter (better : α → α → Bool) (latest : Option α) (candidate : α) : Option α :=
  if latest.all (better candidate) then some candidate else latest

section

variable (h : Prefers better le)
include h

theorem Prefers.foldl_keepBetter (l : List α) (kept : α) :
    ∃ a, l.foldl (keepBetter better) (some kept) = some a ∧ IsForemost le (kept :: l) a := by
  induction l generalizing kept with
  | nil =>
    refine ⟨kept, rfl, mem_singleton_self kept, fun b hb => ?_⟩
    rw [mem_singleton.mp hb]
    exact h.refl kept
  | cons candidate l ih =>
    cases hbetter : better candidate kept with
    | true =>
      obtain ⟨a, hfold, hmem, hle⟩ := ih candidate
      refine ⟨a, ?_, mem_cons_of_mem kept hmem, fun b hb => ?_⟩
      · simp [keepBetter, hbetter, hfold]
      · rcases mem_cons.mp hb with rfl | hb
        · exact h.trans _ _ _ (h.taken candidate b hbetter) (hle candidate mem_cons_self)
        · exact hle b hb
    | false =>
      obtain ⟨a, hfold, hmem, hle⟩ := ih kept
      refine ⟨a, ?_, ?_, fun b hb => ?_⟩
      · simp [keepBetter, hbetter, hfold]
      · rcases mem_cons.mp hmem with heq | hmem
        · rw [heq]
          exact mem_cons_self
        · exact mem_cons_of_mem kept (mem_cons_of_mem candidate hmem)
      · rcases mem_cons.mp hb with rfl | hb
        · exact hle b mem_cons_self
        · rcases mem_cons.mp hb with rfl | hb
          · exact h.trans _ _ _ (h.left b kept hbetter) (hle kept mem_cons_self)
          · exact hle b (mem_cons_of_mem kept hb)

theorem Prefers.exists_foremost (hne : l ≠ []) : ∃ a, l.foldl (keepBetter better) none = some a ∧ IsForemost le l a := by
  cases l with
  | nil => exact absurd rfl hne
  | cons first l => exact h.foldl_keepBetter l first

theorem Prefers.foldl_eq_some_iff (hsep : Separates le l) : l.foldl (keepBetter better) none = some a ↔ IsForemost le l a := by
  constructor
  · intro hfold
    have hne : l ≠ [] := by
      rintro rfl
      cases hfold
    obtain ⟨b, hb, hforemost⟩ := h.exists_foremost hne
    rw [hb, Option.some.injEq] at hfold
    rwa [← hfold]
  · intro hforemost
    obtain ⟨b, hb, hother⟩ := h.exists_foremost (ne_nil_of_mem hforemost.1)
    rw [hb, hother.unique hsep hforemost]

theorem Prefers.foldl_perm (hsep : Separates le l) (hperm : l'.Perm l) :
    l'.foldl (keepBetter better) none = l.foldl (keepBetter better) none := by
  apply Option.ext
  intro a
  rw [h.foldl_eq_some_iff (hsep.of_perm hperm.symm), h.foldl_eq_some_iff hsep]
  exact ⟨fun hforemost => hforemost.of_perm hperm, fun hforemost => hforemost.of_perm hperm.symm⟩

end

theorem Ranks.head?_mergeSort (h : Ranks better le) (htotal : ∀ a b, le a b ∨ le b a) (hsep : Separates le l)
    (hforemost : IsForemost le l a) : (l.mergeSort fun left right => !better right left).head? = some a := by
  have hsorted : (l.mergeSort fun left right => !better right left).Pairwise fun left right => (!better right left) = true := by
    apply pairwise_mergeSort
    · intro x y z hxy hyz
      rw [h.not_better_iff] at hxy hyz ⊢
      exact h.trans z y x hyz hxy
    · intro x y
      rw [Bool.or_eq_true, h.not_better_iff, h.not_better_iff]
      exact htotal y x
  have hmem (b : α) : b ∈ (l.mergeSort fun left right => !better right left) ↔ b ∈ l := mem_mergeSort
  generalize l.mergeSort (fun left right => !better right left) = sorted at hsorted hmem ⊢
  cases sorted with
  | nil => cases (hmem a).mpr hforemost.1
  | cons first rest =>
    have hhead : IsForemost le l first := by
      refine ⟨(hmem first).mp mem_cons_self, fun b hb => ?_⟩
      rcases mem_cons.mp ((hmem b).mpr hb) with rfl | hrest
      · exact h.refl b
      · exact (h.not_better_iff first b).mp ((pairwise_cons.mp hsorted).1 b hrest)
    rw [hhead.unique hsep hforemost]
    rfl

/-! ## The best under every key -/

variable [DecidableEq κ] {key : α → κ} {k : κ}

def bestByKey (better : α → α → Bool) (key : α → κ) (l : List α) : Dict κ α :=
  (l.map fun a => (key a, a)).foldl (keepBest better) .empty

omit [DecidableEq κ] in
theorem mem_map_key_iff : (k, a) ∈ l.map (fun a => (key a, a)) ↔ a ∈ l ∧ key a = k := by
  rw [mem_map]
  constructor
  · rintro ⟨b, hb, heq⟩
    rw [Prod.mk.injEq] at heq
    obtain ⟨hkey, rfl⟩ := heq
    exact ⟨hb, hkey⟩
  · rintro ⟨hmem, rfl⟩
    exact ⟨a, hmem, rfl⟩

theorem mem_filter_key_iff : a ∈ l.filter (fun a => key a = k) ↔ a ∈ l ∧ key a = k := by
  rw [mem_filter, decide_eq_true_iff]

section

variable (h : Prefers better le)
include h

theorem Prefers.bestByKey_foremost
    (hbest : (bestByKey better key l).get? k = some a) : IsForemost le (l.filter fun a => key a = k) a := by
  obtain ⟨hfrom, hle⟩ := h.foldl_keepBest (l.map fun a => (key a, a)) .empty k
  refine ⟨?_, fun b hb => ?_⟩
  · rcases hfrom a hbest with hempty | hmem
    · cases hempty
    · exact mem_filter_key_iff.mpr (mem_map_key_iff.mp hmem)
  · obtain ⟨c, hc, hbc⟩ := hle b (.inr (mem_map_key_iff.mpr (mem_filter_key_iff.mp hb)))
    have hsame : c = a := Option.mem_unique hc hbest
    rwa [hsame] at hbc

theorem Prefers.bestByKey_isSome (key : α → κ) (hmem : a ∈ l) : ∃ b, (bestByKey better key l).get? (key a) = some b := by
  obtain ⟨b, hb, -⟩ := (h.foldl_keepBest (l.map fun a => (key a, a)) .empty (key a)).2 a
    (.inr (mem_map_key_iff.mpr ⟨hmem, rfl⟩))
  exact ⟨b, hb⟩

theorem Prefers.bestByKey_iff (hsep : Separates le l) :
    (bestByKey better key l).get? k = some a ↔ IsForemost le (l.filter fun a => key a = k) a := by
  refine ⟨h.bestByKey_foremost, fun hforemost => ?_⟩
  obtain ⟨hmem, hkey⟩ := mem_filter_key_iff.mp hforemost.1
  obtain ⟨b, hb⟩ := h.bestByKey_isSome key hmem
  rw [hkey] at hb
  rw [hb, (h.bestByKey_foremost hb).unique (hsep.filter _) hforemost]

theorem Prefers.map_key_values (key : α → κ) (l : List α) :
    (bestByKey better key l).values.map key = (bestByKey better key l).keys := by
  unfold Dict.values Dict.keys
  rw [map_map]
  apply map_congr_left
  rintro ⟨k, a⟩ hmem
  have hbest := (Dict.mem_entries_iff _ k a).mp hmem
  exact (mem_filter_key_iff.mp (h.bestByKey_foremost hbest).1).2

end

theorem filter_eq_singleton {p : α → Bool} (hnodup : l.Nodup) (ha : a ∈ l) (h : ∀ b ∈ l, p b = true ↔ b = a) :
    l.filter p = [a] := by
  have hperm : (l.filter p).Perm [a] := by
    rw [perm_ext_iff_of_nodup (hnodup.filter p) (nodup_singleton a)]
    intro b
    rw [mem_filter, mem_singleton]
    exact ⟨fun hb => (h b hb.1).mp hb.2, fun hb => ⟨hb ▸ ha, (h b (hb ▸ ha)).mpr hb⟩⟩
  exact perm_singleton.mp hperm

theorem Prefers.filter_values (h : Prefers better le) (hsep : Separates le l)
    (hforemost : IsForemost le (l.filter fun a => key a = k) a) :
    ((bestByKey better key l).values.filter fun b => key b = k) = [a] := by
  have hbest := (h.bestByKey_iff hsep).mpr hforemost
  have hkeys : ((bestByKey better key l).values.map key).Nodup := by
    rw [h.map_key_values]
    exact (bestByKey better key l).nodupKeys
  have hmem : a ∈ (bestByKey better key l).values := (Dict.mem_values_iff _ a).mpr ⟨k, hbest⟩
  have hkey : key a = k := (mem_filter_key_iff.mp hforemost.1).2
  apply filter_eq_singleton hkeys.of_map hmem
  intro b hb
  rw [decide_eq_true_iff]
  constructor
  · intro hkey'
    exact inj_on_of_nodup_map hkeys hb hmem (hkey'.trans hkey.symm)
  · rintro rfl
    exact hkey

theorem Prefers.foremost_values (h : Prefers better le) (hsep : Separates le l) (hforemost : IsForemost le l a) :
    IsForemost le (bestByKey better key l).values a := by
  constructor
  · rw [Dict.mem_values_iff]
    refine ⟨key a, (h.bestByKey_iff hsep).mpr ⟨mem_filter_key_iff.mpr ⟨hforemost.1, rfl⟩, fun b hb => ?_⟩⟩
    exact hforemost.2 b (mem_filter_key_iff.mp hb).1
  · intro b hb
    obtain ⟨k, hk⟩ := (Dict.mem_values_iff _ b).mp hb
    exact hforemost.2 b (mem_filter_key_iff.mp (h.bestByKey_foremost hk).1).1

theorem Prefers.separates_values (h : Prefers better le) (hsep : Separates le l) :
    Separates le (bestByKey better key l).values := by
  have hmem : ∀ b ∈ (bestByKey better key l).values, b ∈ l := by
    intro b hb
    obtain ⟨k, hk⟩ := (Dict.mem_values_iff _ b).mp hb
    exact (mem_filter_key_iff.mp (h.bestByKey_foremost hk).1).1
  exact fun a ha b hb => hsep a (hmem a ha) b (hmem b hb)

end Foundations
