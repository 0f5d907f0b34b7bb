import Mathlib.Algebra.GroupWithZero.Nat
import Mathlib.Algebra.BigOperators.Group.List.Basic
import Bidding.Foundations.Dict

/-!
# Totals over the entries of a dictionary

`d.total p f` is the sum of `f` over the entries whose key meets `p`. Writes into keys without an entry add up to their
sum at most, to exactly that when no key is written twice, and with positive values only then (`nodup_of_total`).
-/

namespace Foundations

open List

section Sums

variable {ι : Type} (p : ι → Bool) (weight : ι → ℕ) (l : List ι)

theorem sum_filter_le : ((l.filter p).map weight).sum ≤ (l.map weight).sum := by
  induction l with
  | nil => exact Nat.le_refl _
  | cons i l ih => by_cases hp : p i <;> simp [hp] <;> omega

theorem sum_filter_eq_iff :
    ((l.filter p).map weight).sum = (l.map weight).sum ↔ ∀ i ∈ l, ¬ p i → weight i = 0 := by
  induction l with
  | nil => simp
  | cons i l ih =>
    have hle := sum_filter_le p weight l
    by_cases hp : p i
    · simp [hp, ih]
    · simp only [hp, Bool.false_eq_true, not_false_eq_true, filter_cons_of_neg, map_cons,
        sum_cons, forall_mem_cons, forall_const, ← ih]
      omega

theorem sum_pos_iff : 0 < (l.map weight).sum ↔ ∃ i ∈ l, 0 < weight i := by
  induction l with
  | nil => simp
  | cons i l ih =>
    rw [map_cons, sum_cons, Nat.add_pos_iff_pos_or_pos, ih, exists_mem_cons_iff]

end Sums

namespace Dict

variable {κ α ι : Type} [DecidableEq κ] (p : κ → Bool) (f : α → ℕ)

/-- The sum of `f` over the entries of `l` whose key meets `p`. -/
def sumOver (l : List (κ × α)) : ℕ := ((l.filter fun e => p e.1).map fun e => f e.2).sum

def total (d : Dict κ α) : ℕ := sumOver p f d.entries

variable {p f}

omit [DecidableEq κ] in
theorem sumOver_cons (e : κ × α) (l : List (κ × α)) :
    sumOver p f (e :: l) = (if p e.1 then f e.2 else 0) + sumOver p f l := by
  unfold sumOver
  by_cases he : p e.1 <;> simp [he]

omit [DecidableEq κ] in
theorem sumOver_map {κ' β : Type} (g : κ' × β → κ × α) (l : List (κ' × β)) :
    sumOver p f (l.map g) = ((l.filter fun e => p (g e).1).map fun e => f (g e).2).sum := by
  unfold sumOver
  rw [filter_map, map_map]
  rfl

theorem total_of_absent {d : Dict κ α} (h : ∀ k, p k → d.get? k = none) : d.total p f = 0 := by
  have hnil : (d.entries.filter fun e => p e.1) = [] := by
    apply filter_eq_nil_iff.mpr
    intro e he hp
    have hget := (d.mem_entries_iff e.1 e.2).mp he
    rw [h e.1 hp] at hget
    cases hget
  unfold total sumOver
  rw [hnil]
  rfl

theorem total_key (d : Dict κ α) (k : κ) : d.total (· = k) f = ((d.get? k).map f).getD 0 := by
  obtain ⟨l, hl⟩ := d
  unfold total get?
  dsimp only
  induction l with
  | nil => rfl
  | cons e l ih =>
    rw [map_cons, nodup_cons] at hl
    rw [sumOver_cons, ih hl.2, lookup]
    by_cases he : e.1 = k
    · subst he
      simp [(lookup_eq_none_iff e.1 l).mpr hl.1]
    · simp [he]

/-- What the entry of `k` contributes. -/
def share (p : κ → Bool) (f : α → ℕ) (d : Dict κ α) (k : κ) : ℕ :=
  if p k then ((d.get? k).map f).getD 0 else 0

theorem total_set (d : Dict κ α) (k : κ) (v : α) :
    (d.set k v).total p f + d.share p f k = d.total p f + if p k then f v else 0 := by
  obtain ⟨l, hl⟩ := d
  unfold total share set get?
  dsimp only
  clear hl
  induction l with
  | nil => by_cases hp : p k <;> simp [put, lookup, sumOver, hp]
  | cons e l ih =>
    by_cases he : e.1 = k
    · subst he
      simp only [put, lookup, if_true, sumOver_cons, Option.map_some, Option.getD_some]
      omega
    · simp only [put, lookup, if_neg he, sumOver_cons] at ih ⊢
      omega

/-- A dictionary filled by adding to the value stored under a key: the total is the sum of what was added. -/
theorem total_foldl_add {key : ι → κ} {add : ι → α → α} {start : α} {weight : ι → ℕ}
    (hstart : f start = 0) (hadd : ∀ i v, f (add i v) = f v + weight i) (items : List ι)
    (d : Dict κ α) :
    (items.foldl (fun d i => d.set (key i) (add i ((d.get? (key i)).getD start))) d).total p f =
      d.total p f + ((items.filter fun i => p (key i)).map weight).sum := by
  induction items generalizing d with
  | nil => rfl
  | cons i items ih =>
    have hset := total_set (p := p) (f := f) d (key i) (add i ((d.get? (key i)).getD start))
    have hshare : (((d.get? (key i)).map f).getD 0) = f ((d.get? (key i)).getD start) := by
      cases d.get? (key i) with
      | none => exact hstart.symm
      | some v => rfl
    rw [foldl_cons, ih]
    rw [hadd, share, hshare] at hset
    by_cases hp : p (key i)
    · simp only [hp, if_true, filter_cons_of_pos, map_cons, sum_cons] at hset ⊢
      omega
    · simp only [hp, if_false, Bool.false_eq_true, filter_cons, add_zero] at hset ⊢
      omega

section Writes

variable (writes : List (κ × α)) {d : Dict κ α}

theorem total_foldl_set_le :
    (writes.foldl (fun d e => d.set e.1 e.2) d).total p f ≤ d.total p f + sumOver p f writes := by
  induction writes generalizing d with
  | nil => exact Nat.le_refl _
  | cons e writes ih =>
    have hset := total_set (p := p) (f := f) d e.1 e.2
    have hrest := ih (d := d.set e.1 e.2)
    rw [foldl_cons, sumOver_cons]
    omega

variable {writes}

theorem total_foldl_set_eq (hnodup : ((writes.filter fun e => p e.1).map Prod.fst).Nodup)
    (hfresh : ∀ e ∈ writes, p e.1 → d.get? e.1 = none) :
    (writes.foldl (fun d e => d.set e.1 e.2) d).total p f = d.total p f + sumOver p f writes := by
  induction writes generalizing d with
  | nil => rfl
  | cons e writes ih =>
    have hset := total_set (p := p) (f := f) d e.1 e.2
    have hshare : d.share p f e.1 = 0 := by
      unfold share
      split
      · rename_i hp
        rw [hfresh e mem_cons_self hp]
        rfl
      · rfl
    have hrest := ih (d := d.set e.1 e.2)
      (hnodup.sublist (((sublist_cons_self e writes).filter _).map _))
      (fun e' he' hp' => by
        rw [get?_set, if_neg]
        · exact hfresh e' (mem_cons_of_mem _ he') hp'
        · intro heq
          rw [filter_cons_of_pos (heq ▸ hp'), map_cons, nodup_cons] at hnodup
          exact hnodup.1 (mem_map.mpr ⟨e', mem_filter.mpr ⟨he', hp'⟩, heq⟩))
    rw [foldl_cons, hrest, sumOver_cons]
    omega

/-- With positive values no total is reached when a key is written again: its first value is lost. -/
theorem nodup_of_total (hpos : ∀ e ∈ writes, 0 < f e.2)
    (hd : ∀ k v, p k → d.get? k = some v → 0 < f v)
    (h : d.total p f + sumOver p f writes ≤ (writes.foldl (fun d e => d.set e.1 e.2) d).total p f) :
    ((writes.filter fun e => p e.1).map Prod.fst).Nodup ∧
      ∀ e ∈ writes, p e.1 → d.get? e.1 = none := by
  induction writes generalizing d with
  | nil => exact ⟨nodup_nil, fun e he => absurd he not_mem_nil⟩
  | cons e writes ih =>
    have hset := total_set (p := p) (f := f) d e.1 e.2
    have hle := total_foldl_set_le (p := p) (f := f) writes (d := d.set e.1 e.2)
    rw [foldl_cons, sumOver_cons] at h
    obtain ⟨hnodup, hfresh⟩ := ih (d := d.set e.1 e.2)
      (fun e' he' => hpos e' (mem_cons_of_mem _ he'))
      (fun k v hp hget => by
        rw [get?_set] at hget
        split at hget
        · cases hget
          exact hpos e mem_cons_self
        · exact hd k v hp hget)
      (by omega)
    have hself : p e.1 → d.get? e.1 = none := by
      intro hp
      cases hget : d.get? e.1 with
      | none => rfl
      | some v =>
        have hv := hd e.1 v hp hget
        rw [share, if_pos hp, hget, Option.map_some, Option.getD_some] at hset
        omega
    have hother : ∀ e' ∈ writes, p e'.1 → e'.1 ≠ e.1 ∧ d.get? e'.1 = none := by
      intro e' he' hp'
      have hnone := hfresh e' he' hp'
      rw [get?_set] at hnone
      split at hnone
      · cases hnone
      · exact ⟨‹_›, hnone⟩
    refine ⟨?_, fun e' he' hp' => ?_⟩
    · by_cases hp : p e.1
      · rw [filter_cons, if_pos hp, map_cons, nodup_cons]
        refine ⟨fun hmem => ?_, hnodup⟩
        obtain ⟨e', he', heq⟩ := mem_map.mp hmem
        obtain ⟨he', hp'⟩ := mem_filter.mp he'
        exact (hother e' he' hp').1 heq
      · rw [filter_cons, if_neg hp]
        exact hnodup
    · rcases mem_cons.mp he' with rfl | he'
      · exact hself hp'
      · exact (hother e' he' hp').2

end Writes

end Dict

end Foundations
