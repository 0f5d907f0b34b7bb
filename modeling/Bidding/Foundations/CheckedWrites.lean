import Bidding.Foundations.Dict

/-!
# Checked writes

A loop checks each row against what does not change, and writes a value under the key of the row. It ends well exactly if
every row passes; if the rows have different keys, their order does not matter.
-/

namespace Foundations

open List

variable {ρ κ α β σ ε : Type}

def writeRows (check : ρ → Except ε (κ × α)) (put : σ → κ → α → σ) (rows : List ρ) (s : σ) : Except ε σ :=
  rows.foldlM (fun s row => (check row).map fun write => put s write.1 write.2) s

variable {check : ρ → Except ε (κ × α)} {put : σ → κ → α → σ} {rows : List ρ} {s s' : σ}

theorem writeRows_cons (row : ρ) (rows : List ρ) (s : σ) : writeRows check put (row :: rows) s =
    (check row).bind fun write => writeRows check put rows (put s write.1 write.2) := by
  unfold writeRows
  rw [foldlM_cons]
  cases check row with
  | error e => rfl
  | ok write => rfl

theorem writeRows_cons_ok {row : ρ} (h : writeRows check put (row :: rows) s = .ok s') :
    ∃ write, check row = .ok write ∧ writeRows check put rows (put s write.1 write.2) = .ok s' := by
  rw [writeRows_cons] at h
  cases hcheck : check row with
  | error e =>
    rw [hcheck] at h
    cases h
  | ok write =>
    rw [hcheck] at h
    exact ⟨write, rfl, h⟩

theorem writeRows_checked (h : writeRows check put rows s = .ok s') {row : ρ}
    (hrow : row ∈ rows) : ∃ write, check row = .ok write := by
  induction rows generalizing s with
  | nil => exact absurd hrow not_mem_nil
  | cons first rows ih =>
    obtain ⟨write, hwrite, hrest⟩ := writeRows_cons_ok h
    rcases mem_cons.mp hrow with rfl | hrow
    · exact ⟨write, hwrite⟩
    · exact ih hrest hrow

theorem writeRows_total (h : ∀ row ∈ rows, ∃ write, check row = .ok write) (s : σ) :
    ∃ s', writeRows check put rows s = .ok s' := by
  induction rows generalizing s with
  | nil => exact ⟨s, rfl⟩
  | cons row rows ih =>
    obtain ⟨write, hwrite⟩ := h row mem_cons_self
    obtain ⟨s', hs'⟩ := ih (fun other hother => h other (mem_cons_of_mem _ hother)) (put s write.1 write.2)
    refine ⟨s', ?_⟩
    rw [writeRows_cons, hwrite]
    exact hs'

variable [DecidableEq κ]

/-- What is read under a key is what was last written there. -/
def ReadsLast (put : σ → κ → α → σ) (view : σ → κ → Option β) (read : α → β) : Prop :=
  ∀ s k v k', view (put s k v) k' = if k' = k then some (read v) else view s k'

variable {view : σ → κ → Option β} {read : α → β}

theorem view_writeRows (hview : ReadsLast put view read) (h : writeRows check put rows s = .ok s') (k : κ) :
    (∃ row ∈ rows, ∃ v, check row = .ok (k, v) ∧ view s' k = some (read v)) ∨
      ((∀ row ∈ rows, ∀ v, check row ≠ .ok (k, v)) ∧ view s' k = view s k) := by
  induction rows generalizing s with
  | nil =>
    cases h
    exact Or.inr ⟨fun row hrow => absurd hrow not_mem_nil, rfl⟩
  | cons first rows ih =>
    obtain ⟨⟨key, v⟩, hwrite, hrest⟩ := writeRows_cons_ok h
    rcases ih hrest with ⟨row, hrow, w, hcheck, hread⟩ | ⟨hnone, hread⟩
    · exact Or.inl ⟨row, mem_cons_of_mem _ hrow, w, hcheck, hread⟩
    rw [hview] at hread
    by_cases hk : k = key
    · subst hk
      rw [if_pos rfl] at hread
      exact Or.inl ⟨first, mem_cons_self, v, hwrite, hread⟩
    · rw [if_neg hk] at hread
      refine Or.inr ⟨?_, hread⟩
      intro row hrow w hcheck
      rcases mem_cons.mp hrow with rfl | hrow
      · rw [hwrite] at hcheck
        exact hk (Prod.mk.inj (Except.ok.inj hcheck)).1.symm
      · exact hnone row hrow w hcheck

theorem view_writeRows_congr (hview : ReadsLast put view read) {rows rows' : List ρ} {s₁ s₂ s₁' s₂' : σ}
    (hmem : ∀ row, row ∈ rows ↔ row ∈ rows')
    (hunique : ∀ row ∈ rows, ∀ other ∈ rows, ∀ k v w, check row = .ok (k, v) → check other = .ok (k, w) → v = w)
    (hstart : ∀ k, view s₁ k = view s₂ k) (h₁ : writeRows check put rows s₁ = .ok s₁')
    (h₂ : writeRows check put rows' s₂ = .ok s₂') (k : κ) : view s₁' k = view s₂' k := by
  rcases view_writeRows hview h₁ k with ⟨row, hrow, v, hcheck, hread⟩ | ⟨hnone, hread⟩
  · rcases view_writeRows hview h₂ k with ⟨row', hrow', v', hcheck', hread'⟩ | ⟨hnone', -⟩
    · rw [hread, hread', hunique row hrow row' ((hmem row').mpr hrow') k v v' hcheck hcheck']
    · exact absurd hcheck (hnone' row ((hmem row).mp hrow) v)
  · rcases view_writeRows hview h₂ k with ⟨row', hrow', v', hcheck', -⟩ | ⟨-, hread'⟩
    · exact absurd hcheck' (hnone row' ((hmem row').mpr hrow') v')
    · rw [hread, hread', hstart k]

end Foundations
