import Mathlib.Data.List.Basic
import Mathlib.Data.List.Induction

/-!
# Overwriting under a derived key

The rows of a list are found again under a key computed from them, the last one of a key. A position holds the last row
written under its key if it is the last with this key, and else what stood there before.
-/

namespace Foundations

open List Option

variable {α κ : Type} [DecidableEq κ]

def lastIndex (key : κ) : List κ → Option ℕ
  | [] => none
  | other :: keys =>
    match lastIndex key keys with
    | some i => some (i + 1)
    | none => if other = key then some 0 else none

def replaceLast (keyOf : α → κ) (rows : List α) (row : α) : List α :=
  match lastIndex (keyOf row) (rows.map keyOf) with
  | some i => rows.set i row
  | none => rows

theorem lastIndex_eq_none_iff (key : κ) (keys : List κ) : lastIndex key keys = none ↔ key ∉ keys := by
  induction keys with
  | nil => simp [lastIndex]
  | cons other keys ih =>
    unfold lastIndex
    cases hlast : lastIndex key keys with
    | some i =>
      have hmem : key ∈ keys := by
        by_contra h
        rw [ih.mpr h] at hlast
        cases hlast
      simp [hmem]
    | none =>
      have hmem : key ∉ keys := ih.mp hlast
      simp [hmem, eq_comm]

theorem lastIndex_eq_some_iff (key : κ) (keys : List κ) (i : ℕ) :
    lastIndex key keys = some i ↔ keys[i]? = some key ∧ ∀ j, i < j → keys[j]? ≠ some key := by
  induction keys generalizing i with
  | nil => simp [lastIndex]
  | cons other keys ih =>
    unfold lastIndex
    cases hlast : lastIndex key keys with
    | some k =>
      obtain ⟨hk, hlater⟩ := (ih k).mp hlast
      constructor
      · intro h
        cases h
        refine ⟨hk, fun j hj => ?_⟩
        cases j with
        | zero => omega
        | succ j => exact hlater j (by omega)
      · intro ⟨hi, hmax⟩
        cases i with
        | zero => exact absurd hk (hmax (k + 1) (by omega))
        | succ i =>
          have hsame : lastIndex key keys = some i := (ih i).mpr ⟨hi, fun j hj => hmax (j + 1) (by omega)⟩
          rw [hlast] at hsame
          cases hsame
          rfl
    | none =>
      have hmem : key ∉ keys := (lastIndex_eq_none_iff key keys).mp hlast
      have hnone : ∀ j, keys[j]? ≠ some key := fun j hj => hmem (mem_of_getElem? hj)
      constructor
      · intro h
        split_ifs at h with heq
        cases h
        refine ⟨by simp [heq], fun j hj => ?_⟩
        cases j with
        | zero => omega
        | succ j => exact hnone j
      · intro ⟨hi, _⟩
        cases i with
        | zero =>
          have heq : other = key := by simpa using hi
          simp [heq]
        | succ i => exact absurd hi (hnone i)

theorem getElem?_of_lastIndex {key : κ} {keys : List κ} {i : ℕ} (h : lastIndex key keys = some i) : keys[i]? = some key :=
  ((lastIndex_eq_some_iff key keys i).mp h).1

variable {keyOf : α → κ}

theorem map_replaceLast (rows : List α) (row : α) : (replaceLast keyOf rows row).map keyOf = rows.map keyOf := by
  unfold replaceLast
  cases hlast : lastIndex (keyOf row) (rows.map keyOf) with
  | none => rfl
  | some i =>
    have hi : (rows.map keyOf)[i]? = some (keyOf row) := getElem?_of_lastIndex hlast
    show (rows.set i row).map keyOf = rows.map keyOf
    rw [map_set]
    apply ext_getElem?
    intro j
    rw [getElem?_set]
    by_cases hj : i = j
    · subst hj
      have hlt : i < (rows.map keyOf).length := (List.getElem?_eq_some_iff.mp hi).1
      rw [if_pos rfl, if_pos hlt, hi]
    · rw [if_neg hj]

theorem getElem?_replaceLast (rows : List α) (row : α) (i : ℕ) : (replaceLast keyOf rows row)[i]? =
    if lastIndex (keyOf row) (rows.map keyOf) = some i then some row else rows[i]? := by
  unfold replaceLast
  cases hlast : lastIndex (keyOf row) (rows.map keyOf) with
  | none => simp
  | some j =>
    have hj : j < rows.length := by
      have hlt := (List.getElem?_eq_some_iff.mp (getElem?_of_lastIndex hlast)).1
      simpa using hlt
    show (rows.set j row)[i]? = _
    rw [getElem?_set]
    by_cases hij : j = i
    · simp [hij ▸ hj, hij]
    · simp [hij]

theorem foldl_set_lastIndex (p : α → Prop) [DecidablePred p] (rows writes : List α) : writes.foldl (fun current row =>
      if p row then
        match lastIndex (keyOf row) (rows.map keyOf) with
        | some i => current.set i row
        | none => current
      else current) rows =
    (writes.filter fun row => p row).foldl (replaceLast keyOf) rows := by
  have hloop : ∀ current : List α, current.map keyOf = rows.map keyOf → writes.foldl (fun current row =>
        if p row then
          match lastIndex (keyOf row) (rows.map keyOf) with
          | some i => current.set i row
          | none => current
        else current) current =
      (writes.filter fun row => p row).foldl (replaceLast keyOf) current := by
    induction writes with
    | nil => intro current _; rfl
    | cons row writes ih =>
      intro current hkeys
      rw [foldl_cons, filter_cons]
      by_cases hrow : p row
      · have hwrite : replaceLast keyOf current row = match lastIndex (keyOf row) (rows.map keyOf) with
            | some i => current.set i row
            | none => current := by
          unfold replaceLast
          rw [hkeys]
        rw [if_pos hrow, if_pos (decide_eq_true hrow), foldl_cons, ← hwrite]
        exact ih _ ((map_replaceLast current row).trans hkeys)
      · rw [if_neg hrow, if_neg (by simpa using hrow)]
        exact ih current hkeys
  exact hloop rows rfl

theorem map_foldl_replaceLast (rows writes : List α) : (writes.foldl (replaceLast keyOf) rows).map keyOf = rows.map keyOf := by
  induction writes generalizing rows with
  | nil => rfl
  | cons row writes ih =>
    rw [foldl_cons, ih]
    exact map_replaceLast rows row

theorem getElem?_foldl_replaceLast (rows writes : List α) (i : ℕ) : (writes.foldl (replaceLast keyOf) rows)[i]? =
    rows[i]?.map fun row =>
      if lastIndex (keyOf row) (rows.map keyOf) = some i then
        (writes.reverse.find? fun other => keyOf other = keyOf row).getD row
      else row := by
  induction writes using List.reverseRecOn with
  | nil => cases h : rows[i]? <;> simp [h]
  | append_singleton writes row ih =>
    rw [foldl_append, foldl_cons, foldl_nil, getElem?_replaceLast, map_foldl_replaceLast, ih]
    cases hi : rows[i]? with
    | none =>
      have hout : ¬ lastIndex (keyOf row) (rows.map keyOf) = some i := by
        intro hlast
        have hkey := getElem?_of_lastIndex hlast
        rw [getElem?_map, hi] at hkey
        cases hkey
      rw [if_neg hout]
      rfl
    | some old =>
      have hkey : (rows.map keyOf)[i]? = some (keyOf old) := by rw [getElem?_map, hi]; rfl
      rw [reverse_append, reverse_singleton, singleton_append, map_some, map_some, find?_cons]
      by_cases hsame : keyOf row = keyOf old
      · simp only [hsame, decide_true, getD_some]
        split_ifs <;> rfl
      · have hother : ¬ lastIndex (keyOf row) (rows.map keyOf) = some i := by
          intro hlast
          rw [getElem?_of_lastIndex hlast] at hkey
          exact hsame (some.inj hkey)
        simp [hother, hsame]

end Foundations
