import Bidding.Foundations.Dict

/-!
# Keeping the best entry of every key

Maps are merged entry by entry: a preferred entry takes the place of the one under its key. If the test goes by a total
order, the merged map holds, under every key, an entry at least as good as what any of the maps has there.
-/

namespace Foundations

open List

variable {κ α : Type} [DecidableEq κ]

def keepBest (better : α → α → Bool) (kept : Dict κ α) (entry : κ × α) : Dict κ α :=
  if (kept.get? entry.1).all (better entry.2) then kept.set entry.1 entry.2 else kept

def mergeBest (better : α → α → Bool) (maps : List (Dict κ α)) : Dict κ α :=
  maps.foldl (fun kept entries => entries.entries.foldl (keepBest better) kept) .empty

/-- A test that goes by a preorder in which it can compare any two entries. -/
structure Prefers (better : α → α → Bool) (le : α → α → Prop) : Prop where
  refl : ∀ a, le a a
  trans : ∀ a b c, le a b → le b c → le a c
  taken : ∀ new kept, better new kept = true → le kept new
  left : ∀ new kept, better new kept = false → le new kept

variable {better : α → α → Bool} {le : α → α → Prop} {maps : List (Dict κ α)}

theorem get?_keepBest (kept : Dict κ α) (entry : κ × α) (k : κ) : (keepBest better kept entry).get? k =
    if k = entry.1 ∧ (kept.get? entry.1).all (better entry.2) = true then some entry.2 else kept.get? k := by
  unfold keepBest
  by_cases hbetter : (kept.get? entry.1).all (better entry.2) = true
  · rw [if_pos hbetter, Dict.get?_set]
    simp [hbetter]
  · rw [if_neg hbetter, if_neg fun h => hbetter h.2]

theorem Prefers.keepBest (h : Prefers better le) (kept : Dict κ α) (entry : κ × α) (k : κ) :
    (∀ a, (Foundations.keepBest better kept entry).get? k = some a → kept.get? k = some a ∨ (k, a) = entry) ∧
    ∀ a, kept.get? k = some a ∨ (k, a) = entry → ∃ b, (Foundations.keepBest better kept entry).get? k = some b ∧ le a b := by
  obtain ⟨key, new⟩ := entry
  simp only [get?_keepBest, Prod.mk.injEq]
  by_cases hk : k = key
  · subst hk
    cases hkept : kept.get? k with
    | none => simpa using h.refl new
    | some old =>
      cases hbetter : better new old with
      | true =>
        have hle := h.taken new old hbetter
        have hrefl := h.refl new
        simp [hbetter]
        grind
      | false =>
        have hle := h.left new old hbetter
        have hrefl := h.refl old
        simp [hbetter]
        grind
  · have hrefl := h.refl
    simp [hk]
    grind

theorem Prefers.foldl_keepBest (h : Prefers better le) (entries : List (κ × α)) (kept : Dict κ α) (k : κ) :
    (∀ a, (entries.foldl (Foundations.keepBest better) kept).get? k = some a → kept.get? k = some a ∨ (k, a) ∈ entries) ∧
    ∀ a, kept.get? k = some a ∨ (k, a) ∈ entries →
      ∃ b, (entries.foldl (Foundations.keepBest better) kept).get? k = some b ∧ le a b := by
  induction entries generalizing kept with
  | nil =>
    refine ⟨fun a ha => .inl ha, fun a ha => ?_⟩
    rcases ha with ha | ha
    · exact ⟨a, ha, h.refl a⟩
    · cases ha
  | cons entry entries ih =>
    obtain ⟨hfrom, hbest⟩ := h.keepBest kept entry k
    obtain ⟨hfrom', hbest'⟩ := ih (Foundations.keepBest better kept entry)
    refine ⟨fun a ha => ?_, fun a ha => ?_⟩
    · rcases hfrom' a ha with hk | hmem
      · rcases hfrom a hk with hkept | heq
        · exact .inl hkept
        · exact .inr (mem_cons.mpr (.inl heq))
      · exact .inr (mem_cons_of_mem entry hmem)
    · rw [mem_cons, ← or_assoc] at ha
      rcases ha with hnear | hmem
      · obtain ⟨b, hb, hab⟩ := hbest a hnear
        obtain ⟨c, hc, hbc⟩ := hbest' b (.inl hb)
        exact ⟨c, hc, h.trans a b c hab hbc⟩
      · exact hbest' a (.inr hmem)

theorem mergeBest_eq (better : α → α → Bool) (maps : List (Dict κ α)) :
    mergeBest better maps = (maps.flatMap Dict.entries).foldl (keepBest better) .empty := by
  rw [foldl_flatMap]
  rfl

theorem mem_flatMap_entries (maps : List (Dict κ α)) (k : κ) (a : α) :
    (k, a) ∈ maps.flatMap Dict.entries ↔ ∃ d ∈ maps, d.get? k = some a := by
  simp [mem_flatMap, Dict.mem_entries_iff]

theorem Prefers.exists_of_mergeBest (h : Prefers better le) {k : κ} {a : α}
    (ha : (mergeBest better maps).get? k = some a) : ∃ d ∈ maps, d.get? k = some a := by
  rw [mergeBest_eq] at ha
  rcases (h.foldl_keepBest (maps.flatMap Dict.entries) .empty k).1 a ha with hempty | hmem
  · cases hempty
  · exact (mem_flatMap_entries maps k a).mp hmem

theorem Prefers.le_mergeBest (h : Prefers better le) {d : Dict κ α} (hd : d ∈ maps) {k : κ} {a : α}
    (ha : d.get? k = some a) : ∃ b, (mergeBest better maps).get? k = some b ∧ le a b := by
  rw [mergeBest_eq]
  exact (h.foldl_keepBest (maps.flatMap Dict.entries) .empty k).2 a (.inr ((mem_flatMap_entries maps k a).mpr ⟨d, hd, ha⟩))

end Foundations
