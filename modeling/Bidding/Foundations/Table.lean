import Mathlib.Data.List.Nodup
import Mathlib.Data.List.Count

/-!
# Rows under a key

A table is a list of rows, one for each key. A statement that changes the row of a key is a map
over the list, and what it does to the number of rows with a property is the difference at that
row.
-/

namespace Foundations

open List

variable {κ α : Type} [DecidableEq κ] {key : α → κ} {k : κ} {f : α → α} {rows : List α} {r : α}

def rowAt (key : α → κ) (k : κ) (rows : List α) : Option α := rows.find? fun r => key r = k

def updateAt (key : α → κ) (k : κ) (f : α → α) (rows : List α) : List α :=
  rows.map fun r => if key r = k then f r else r

theorem mem_of_rowAt (h : rowAt key k rows = some r) : r ∈ rows ∧ key r = k :=
  ⟨mem_of_find?_eq_some h, by simpa using find?_some h⟩

theorem rowAt_eq_none : rowAt key k rows = none ↔ ∀ r ∈ rows, key r ≠ k := by simp [rowAt]

theorem filter_key_eq_singleton (hnodup : (rows.map key).Nodup) (hr : r ∈ rows) :
    (rows.filter fun x => key x = key r) = [r] := by
  induction rows with
  | nil => cases hr
  | cons a rows ih =>
    rw [map_cons, nodup_cons] at hnodup
    rw [filter_cons]
    rcases mem_cons.mp hr with rfl | hr
    · have hrest : (rows.filter fun x => key x = key r) = [] := by
        refine filter_eq_nil_iff.mpr fun x hx hmatch => hnodup.1 ?_
        exact mem_map.mpr ⟨x, hx, of_decide_eq_true hmatch⟩
      rw [if_pos (by simp), hrest]
    · have hne : key a ≠ key r := fun heq => hnodup.1 (mem_map.mpr ⟨r, hr, heq.symm⟩)
      rw [if_neg (by simpa using hne), ih hnodup.2 hr]

theorem map_key_updateAt (hf : ∀ r, key r = k → key (f r) = k) : (updateAt key k f rows).map key = rows.map key := by
  rw [updateAt, map_map]
  refine map_congr_left fun r _ => ?_
  by_cases h : key r = k
  · simp [h, hf r h]
  · simp [h]

theorem exists_key_updateAt (hf : ∀ r, key r = k → key (f r) = k) {k' : κ}
    (h : ∃ r ∈ rows, key r = k') : ∃ r ∈ updateAt key k f rows, key r = k' := by
  obtain ⟨r, hr, hkey⟩ := h
  have hmem : k' ∈ (updateAt key k f rows).map key := by
    rw [map_key_updateAt hf]
    exact mem_map.mpr ⟨r, hr, hkey⟩
  exact mem_map.mp hmem

theorem mem_updateAt {r' : α} : r' ∈ updateAt key k f rows ↔ (∃ r ∈ rows, key r = k ∧ f r = r') ∨ (r' ∈ rows ∧ key r' ≠ k) := by
  simp only [updateAt, mem_map]
  constructor
  · rintro ⟨r, hr, hr'⟩
    by_cases h : key r = k
    · exact .inl ⟨r, hr, h, by simpa [h] using hr'⟩
    · obtain rfl : r = r' := by simpa [h] using hr'
      exact .inr ⟨hr, h⟩
  · rintro (⟨r, hr, h, rfl⟩ | ⟨hr, h⟩)
    · exact ⟨r, hr, by simp [h]⟩
    · exact ⟨r', hr, by simp [h]⟩

theorem mem_updateAt_of_ne (hr : r ∈ rows) (h : key r ≠ k) : r ∈ updateAt key k f rows :=
  mem_updateAt.mpr (.inr ⟨hr, h⟩)

theorem exists_updateAt {R : α → α → Prop} (hrefl : ∀ r, R r r)
    (hf : ∀ r ∈ rows, key r = k → R r (f r)) (hr : r ∈ rows) : ∃ r' ∈ updateAt key k f rows, R r r' := by
  by_cases h : key r = k
  · exact ⟨f r, mem_updateAt.mpr (.inl ⟨r, hr, h, rfl⟩), hf r hr h⟩
  · exact ⟨r, mem_updateAt_of_ne hr h, hrefl r⟩

theorem updateAt_of_not_mem (h : ∀ r ∈ rows, key r ≠ k) : updateAt key k f rows = rows := by
  rw [updateAt]
  refine (map_congr_left fun r hr => ?_).trans (map_id rows)
  simp [h r hr]

theorem countP_updateAt (hnodup : (rows.map key).Nodup) (hr : r ∈ rows) (hkey : key r = k) (p : α → Bool) :
    (updateAt key k f rows).countP p + (if p r then 1 else 0) = rows.countP p + (if p (f r) then 1 else 0) := by
  induction rows with
  | nil => cases hr
  | cons a rows ih =>
    rw [map_cons, nodup_cons] at hnodup
    simp only [updateAt, map_cons, countP_cons]
    rcases mem_cons.mp hr with rfl | hr
    · have hrest : updateAt key k f rows = rows := by
        refine updateAt_of_not_mem fun r' hr' heq => hnodup.1 ?_
        exact mem_map.mpr ⟨r', hr', heq.trans hkey.symm⟩
      rw [updateAt] at hrest
      simp only [hrest, hkey, if_true]
      omega
    · have hne : key a ≠ k := fun heq =>
        hnodup.1 (mem_map.mpr ⟨r, hr, hkey.trans heq.symm⟩)
      have hrest := ih hnodup.2 hr
      rw [updateAt] at hrest
      simp only [hne, if_false]
      omega

theorem countP_key (hnodup : (rows.map key).Nodup) (hr : r ∈ rows) (hkey : key r = k)
    {p : α → Prop} [DecidablePred p] (hp : p r) : (rows.countP fun x => key x = k ∧ p x) = 1 := by
  induction rows with
  | nil => cases hr
  | cons a rows ih =>
    rw [map_cons, nodup_cons] at hnodup
    rw [countP_cons]
    rcases mem_cons.mp hr with rfl | hr
    · have hrest : (rows.countP fun x => key x = k ∧ p x) = 0 := by
        refine countP_eq_zero.mpr fun x hx hmatch => hnodup.1 ?_
        exact mem_map.mpr ⟨x, hx, (of_decide_eq_true hmatch).1.trans hkey.symm⟩
      rw [hrest, if_pos (by simp [hkey, hp])]
    · have hne : key a ≠ k := fun heq =>
        hnodup.1 (mem_map.mpr ⟨r, hr, hkey.trans heq.symm⟩)
      rw [ih hnodup.2 hr, if_neg (by simp [hne])]

end Foundations
