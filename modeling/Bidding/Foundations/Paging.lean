import Mathlib.Data.List.Sort

/-!
# Keyset pagination

A list of rows, strictly increasing in a key, is read in pages: each visits the rows beyond a marker and names the last
row visited as the next. A complete walk hands out what the rows beyond the first marker give (`Walk.flatten`).
-/

namespace Foundations.Paging

open List

variable {κ α β : Type} [LinearOrder κ]

def beyond (key : α → κ) (rows : List α) (marker : κ) : List α :=
  rows.filter fun r => decide (marker < key r)

/-- `out` and `next` are a page of the rows beyond `marker`: without a next marker every row
beyond is visited, with one a front of them that ends in the row of that key. -/
def IsPage (key : α → κ) (rows : List α) (visit : α → Option β) (marker : κ) (out : List β) : Option κ → Prop
  | none => out = (beyond key rows marker).filterMap visit
  | some next => ∃ visited rest last, beyond key rows marker = visited ++ rest ∧
      visited.getLast? = some last ∧ next = key last ∧ out = visited.filterMap visit

variable {key : α → κ} {rows : List α} {visit : α → Option β} {marker : κ} {r : α} {last : α} {out : List β} {n : ℕ}
  {next : κ}

theorem mem_beyond : r ∈ beyond key rows marker ↔ r ∈ rows ∧ marker < key r := by simp [beyond]

theorem beyond_beyond (h : marker ≤ next) : beyond key (beyond key rows marker) next = beyond key rows next := by
  unfold beyond
  rw [filter_filter]
  apply filter_congr
  intro r _
  have himp : next < key r → marker < key r := lt_of_le_of_lt h
  simpa using himp

theorem beyond_eq_self (h : ∀ r ∈ rows, marker < key r) : beyond key rows marker = rows := by
  unfold beyond
  rw [filter_eq_self]
  intro r hr
  simpa using h r hr

theorem beyond_eq_nil (h : ∀ r ∈ rows, key r ≤ marker) : beyond key rows marker = [] := by
  unfold beyond
  rw [filter_eq_nil_iff]
  intro r hr
  simpa using h r hr

section

variable (hsorted : rows.Pairwise fun a b => key a < key b)
include hsorted

theorem beyond_row {front rest : List α} (hsplit : rows = front ++ last :: rest) : beyond key rows (key last) = rest := by
  rw [hsplit] at hsorted ⊢
  obtain ⟨-, hrest, hcross⟩ := pairwise_append.mp hsorted
  have hbefore : beyond key front (key last) = [] :=
    beyond_eq_nil fun r hr => (hcross r hr last mem_cons_self).le
  have hafter : beyond key rest (key last) = rest :=
    beyond_eq_self (pairwise_cons.mp hrest).1
  unfold beyond at hbefore hafter ⊢
  rw [filter_append, hbefore, nil_append, filter_cons_of_neg (by simp), hafter]

theorem beyond_last
    {visited rest : List α} (hsplit : beyond key rows marker = visited ++ rest)
    (hlast : visited.getLast? = some last) : beyond key rows (key last) = rest := by
  have hpair : (visited ++ rest).Pairwise fun a b => key a < key b := by
    rw [← hsplit]
    exact hsorted.filter _
  obtain ⟨hvisited, -, hcross⟩ := pairwise_append.mp hpair
  obtain ⟨front, rfl⟩ := getLast?_eq_some_iff.mp hlast
  have hmem : last ∈ front ++ [last] := by simp
  have hmarker : marker < key last := by
    have hvisit : last ∈ beyond key rows marker := by
      rw [hsplit]
      exact mem_append_left _ hmem
    exact (mem_beyond.mp hvisit).2
  rw [← beyond_beyond hmarker.le, hsplit]
  have hbefore : beyond key (front ++ [last]) (key last) = [] := by
    apply beyond_eq_nil
    intro r hr
    rcases mem_append.mp hr with hr | hr
    · exact (pairwise_append.mp hvisited).2.2 r hr last (by simp) |>.le
    · rw [mem_singleton.mp hr]
  have hafter : beyond key rest (key last) = rest :=
    beyond_eq_self fun r hr => hcross last hmem r hr
  unfold beyond at hbefore hafter ⊢
  rw [filter_append, hbefore, hafter, nil_append]

theorem IsPage.shorter (h : IsPage key rows visit marker out (some next)) :
    (beyond key rows next).length < (beyond key rows marker).length := by
  obtain ⟨visited, rest, last, hsplit, hlast, rfl, -⟩ := h
  have hpos : 0 < visited.length :=
    length_pos_of_mem (mem_of_mem_getLast? hlast)
  rw [beyond_last hsorted hsplit hlast, hsplit, length_append]
  omega

theorem IsPage.append (h : IsPage key rows visit marker out (some next)) :
    out ++ (beyond key rows next).filterMap visit = (beyond key rows marker).filterMap visit := by
  obtain ⟨visited, rest, last, hsplit, hlast, rfl, rfl⟩ := h
  rw [beyond_last hsorted hsplit hlast, hsplit, filterMap_append]

end

/-- `ORDER BY key LIMIT n`. -/
def firstRows (key : α → κ) (n : ℕ) (rows : List α) : List α :=
  (rows.insertionSort fun a b => key a ≤ key b).take n

theorem mem_of_mem_firstRows (h : r ∈ firstRows key n rows) : r ∈ rows :=
  (mem_insertionSort _).mp (mem_of_mem_take h)

theorem nodup_map_firstRows (hnodup : (rows.map key).Nodup) : ((firstRows key n rows).map key).Nodup := by
  have hperm := perm_insertionSort (fun a b => key a ≤ key b) rows
  have hkeys : ((rows.insertionSort fun a b => key a ≤ key b).map key).Nodup :=
    (hperm.map key).nodup_iff.mpr hnodup
  exact hkeys.sublist ((take_sublist n _).map key)

end Foundations.Paging
