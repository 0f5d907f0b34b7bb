import Bidding.Procurement.Preview

/-!
# What a preview tells of the import

Where a preview knows what the import will see, it tells what the import does, if it is not refused. But the evidence of a
family without a plan is not looked at, and a revision that is synchronised again is matched with the plan it became.
-/

namespace Bidding.Procurement

open Foundations List Store
open Option hiding any_eq_true filter_filter

variable {w : Setting} {m : Moment} {s s' : Store} {q : PlanRequest} {result : Result} {family : Family}
  {packages : List Observation}

/-! ## The preview and the import -/

section

variable (h : Foreseen w s q)
include h

theorem Foreseen.filter_familyEvidence :
    (s.familyEvidence q.provider q.familyNo).filter (fun row => row.revisionUuid = q.revisionId) =
      s.evidence.filter (EvidenceRow.isAbout q.provider .plan q.revisionId) := by
  unfold familyEvidence
  rw [filter_filter]
  apply filter_congr
  intro row hrow
  have hfamily := h.recorded row hrow
  unfold EvidenceRow.isAbout at hfamily ⊢
  rw [decide_eq_true_eq] at hfamily
  rw [← Bool.decide_and]
  apply decide_eq_decide.mpr
  constructor
  · rintro ⟨huuid, hprovider, hkind, -⟩
    exact ⟨hprovider, hkind, huuid⟩
  · rintro ⟨hprovider, hkind, huuid⟩
    exact ⟨huuid, hprovider, hkind, (hfamily ⟨hprovider, hkind, huuid⟩).1⟩

theorem Foreseen.observed :
    ((s.localState w.collation q.provider q.familyNo).bind fun known => known.observedRevisions q.revisionId) =
      (s.findRevision w.collation q.provider .plan q.revisionId).map (·.digest) := by
  unfold findRevision
  rw [← h.filter_familyEvidence]
  unfold localState
  dsimp only
  cases hplan : (s.loadFamily w.collation q.familyNo none).latestPlan with
  | none =>
    rw [h.current hplan]
    rfl
  | some plan => rfl

theorem Foreseen.latestKnown :
    ((s.localState w.collation q.provider q.familyNo).bind fun known => known.latestAppliedExternalRevision) =
      s.latestAppliedRevision w.collation q.provider q.familyNo := by
  rw [← h.latest]
  unfold localState
  dsimp only
  cases hplan : (s.loadFamily w.collation q.familyNo none).latestPlan with
  | none =>
    rw [h.current hplan]
    rfl
  | some plan => rfl

theorem Foreseen.disposition : dispositionOf q (q.digest w) (s.localState w.collation q.provider q.familyNo) =
    match s.findRevision w.collation q.provider .plan q.revisionId with
    | some row =>
      if row.digest = q.digest w then (.alreadyImported, false)
      else if q.provider = .muasamcong then (.resync, false)
      else (.alreadyImported, true)
    | none => if q.onlyRecorded w s none then (.provenanceOnly, false) else (.materialize, false) := by
  unfold dispositionOf
  rw [h.observed]
  cases hfound : s.findRevision w.collation q.provider .plan q.revisionId with
  | none =>
    have honly : q.onlyRecorded w s none = true ↔ q.provider ≠ .muasamcong ∧
        ((s.localState w.collation q.provider q.familyNo).bind (·.latestAppliedExternalRevision)).any (fun number =>
          revisionSortKey q.revision.revisionNumber < revisionSortKey number) = true := by
      rw [h.latestKnown]
      simp [PlanRequest.onlyRecorded]
    dsimp only [map_none]
    by_cases hrecorded : q.onlyRecorded w s none = true
    · rw [if_pos hrecorded, if_pos (honly.mp hrecorded)]
    · rw [if_neg hrecorded, if_neg (mt honly.mpr hrecorded)]
  | some row =>
    have hmem : row ∈ s.evidence.filter (EvidenceRow.isAbout q.provider .plan q.revisionId) := argmax_mem hfound
    have hdigest := (h.recorded row (mem_filter.mp hmem).1 (mem_filter.mp hmem).2).2
    by_cases hsame : row.digest = q.digest w
    · simp [hsame]
    · by_cases hprovider : q.provider = .muasamcong
      · simp [hsame, hdigest, hprovider]
      · simp [hsame, hdigest, hprovider]

end

theorem Foreseen.baseFamily (h : Foreseen w s q) {observed : Option EvidenceRow}
    (hobserved : ∀ row, observed = some row → s.findRevision w.collation q.provider .plan q.revisionId = some row)
    (hfamily : q.baseFamily w s observed = .ok family) : family = s.loadFamily w.collation q.familyNo none := by
  cases observed with
  | none =>
    cases hfamily
    rfl
  | some row => exact h.snapshot row (hobserved row rfl) family hfamily

def sampleFields : SourceFields := ⟨some "S", some ⟨some "N", none, none, some "01"⟩, .empty, .empty⟩

end Bidding.Procurement
