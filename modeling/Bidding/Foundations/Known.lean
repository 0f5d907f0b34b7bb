import Mathlib.Data.Finset.Lattice.Lemmas
import Mathlib.Data.Finset.Disjoint

/-!
# What is known and what was reported

The first members are known without a report; afterwards a member becomes known exactly when it is reported
(`Grows`). So nothing known is forgotten, and no member is reported twice (`Accounted`).
-/

namespace Foundations

variable {δ : Type} [DecidableEq δ]

/-- What a step does to what is known, when it reports some members. -/
structure Grows (old new : Option (Finset δ)) (reported : Finset δ) : Prop where
  silent : old = none → reported = ∅
  grown : ∀ known, old = some known → new = some (known ∪ reported)
  fresh : ∀ known, old = some known → Disjoint known reported

def timesReported (reports : List (Finset δ)) (d : δ) : ℕ := reports.countP fun reported => d ∈ reported

/-- Every member was reported at most once, and what was reported is known. -/
structure Accounted (known : Option (Finset δ)) (reports : List (Finset δ)) : Prop where
  once : ∀ d, timesReported reports d ≤ 1
  known : ∀ d, 0 < timesReported reports d → ∃ members, known = some members ∧ d ∈ members

variable {old new : Option (Finset δ)} {reported : Finset δ} {reports : List (Finset δ)} {d : δ}

theorem Grows.stay (known : Option (Finset δ)) : Grows known known ∅ where
  silent _ := rfl
  grown members h := by rw [h, Finset.union_empty]
  fresh members _ := Finset.disjoint_empty_right members

theorem Accounted.nil (known : Option (Finset δ)) : Accounted known [] where
  once _ := Nat.zero_le 1
  known _ h := absurd h (Nat.lt_irrefl 0)

theorem timesReported_append (d : δ) :
    timesReported (reports ++ [reported]) d = timesReported reports d + if d ∈ reported then 1 else 0 := by
  unfold timesReported
  rw [List.countP_append, List.countP_singleton]
  by_cases hd : d ∈ reported <;> simp [hd]

theorem Grows.subset (h : Grows old new reported) {known : Finset δ} (hold : old = some known) :
    ∃ known', new = some known' ∧ known ⊆ known' :=
  ⟨known ∪ reported, h.grown known hold, Finset.subset_union_left⟩

theorem Grows.mem_reported (h : Grows old new reported) {known known' : Finset δ} (hold : old = some known)
    (hnew : new = some known') (hd : d ∈ known') (hfresh : d ∉ known) : d ∈ reported := by
  have heq := Option.some.inj (hnew.symm.trans (h.grown known hold))
  rw [heq, Finset.mem_union] at hd
  exact hd.resolve_left hfresh

/-- What becomes known together with its report is reported once. -/
theorem Accounted.step (h : Accounted old reports) (hgrows : Grows old new reported) :
    Accounted new (reports ++ [reported]) := by
  cases hold : old with
  | none =>
    have hnever (d : δ) : timesReported reports d = 0 := by
      by_contra hreported
      obtain ⟨members, hmembers, -⟩ := h.known d (Nat.pos_of_ne_zero hreported)
      rw [hold] at hmembers
      cases hmembers
    rw [hgrows.silent hold]
    constructor
    · intro d
      rw [timesReported_append, hnever, if_neg (Finset.notMem_empty d)]
      exact Nat.zero_le 1
    · intro d hreported
      rw [timesReported_append, hnever, if_neg (Finset.notMem_empty d)] at hreported
      exact absurd hreported (Nat.lt_irrefl 0)
  | some members =>
    have hmembers (d : δ) (hreported : 0 < timesReported reports d) : d ∈ members := by
      obtain ⟨known, hknown, hd⟩ := h.known d hreported
      rw [hold] at hknown
      cases hknown
      exact hd
    constructor
    · intro d
      rw [timesReported_append]
      split
      · rename_i hd
        have hzero : timesReported reports d = 0 := by
          by_contra hreported
          have hboth := Finset.disjoint_left.mp (hgrows.fresh members hold) (hmembers d (Nat.pos_of_ne_zero hreported))
          exact hboth hd
        omega
      · exact h.once d
    · intro d hreported
      refine ⟨members ∪ reported, hgrows.grown members hold, ?_⟩
      rw [timesReported_append] at hreported
      rw [Finset.mem_union]
      by_cases hd : d ∈ reported
      · exact Or.inr hd
      · rw [if_neg hd] at hreported
        exact Or.inl (hmembers d hreported)

theorem Accounted.quiet (h : Accounted old reports) (hgrows : Grows old new ∅) : Accounted new reports where
  once := h.once
  known d hreported := by
    obtain ⟨members, hold, hd⟩ := h.known d hreported
    exact ⟨members ∪ ∅, hgrows.grown members hold, Finset.mem_union_left ∅ hd⟩

end Foundations
