import Bidding.Procurement.DecisionOrder

/-!
# Imports and local work

What the decisions on a preview leave of local work: every open question is answered, every field ends as the merge and
the decisions say, and the order of the answers does not matter.
-/

namespace Bidding.ImportDecisions

open Foundations

def PackagesDecided (previewRows : List PreviewRow) (result : Resolved) : Prop :=
  ∀ row ∈ previewRows, row.isAmbiguous = true → result.packageDecisions.contains row.planDetailRevisionId = true

/-- Every conflict of an observation has a decision. -/
def ConflictsDecided (revision : Revision) (previewRows : List PreviewRow) (decisions : Decisions) (result : Resolved) : Prop :=
  ∀ id observation surface, (observationsOf revision).get? id = some observation →
    surfaceOf (previewById previewRows) result.packageDecisions id observation = .ok surface →
    ∀ conflict ∈ surface.fieldConflicts, ∃ row ∈ decisions.fieldConflicts,
      IsAbout revision id conflict.field row ∧ (resolutionOf row.choice).isSome

def IsCarried (observation : Observation) (candidate : Candidate) (field : String) : Prop :=
  observation.fields.get? field ≠ none ∨ candidate.base.get? field = none

/-- The carried fields of the matched packages end as the merge and the decisions say; nothing is said of the others. -/
def FieldsEnd (revision : Revision) (previewRows : List PreviewRow) (decisions : Decisions) (result : Resolved) : Prop :=
  ∀ observation final candidate, (observation, final) ∈ revision.packages.zip result.revision.packages →
    Matched revision previewRows result observation candidate → ∀ field ∈ sourceOwnedPackageFields,
    IsCarried observation candidate field →
      FieldEnds revision decisions observation candidate field (valueOf final.fields field)

/-- The value of a field as it is without regard to values that are given for required fields: a field that is not
carried keeps its local value. -/
structure FieldKept (revision : Revision) (decisions : Decisions) (observation : Observation) (candidate : Candidate)
    (field : String) (final : Value) : Prop where
  missing : observation.fields.get? field = none → final = valueOf candidate.localMap field
  decided : observation.fields.get? field ≠ none → InConflict observation candidate field →
    EndsDecided revision decisions observation candidate field final
  source : observation.fields.get? field ≠ none → ¬InConflict observation candidate field →
    SourceChanged observation candidate field → final = valueOf observation.fields field
  kept : observation.fields.get? field ≠ none → ¬SourceChanged observation candidate field →
    final = valueOf candidate.localMap field

/-- Accepted decisions answer every question, keep every field, and may stand in any order. -/
def KeepsLocalWork : Prop :=
  (∀ revision previewRows decisions enforceRequired result,
    resolveRevisionDecisions revision previewRows decisions enforceRequired = .ok result →
      PackagesDecided previewRows result ∧ ConflictsDecided revision previewRows decisions result ∧
        ∀ observation final candidate, (observation, final) ∈ revision.packages.zip result.revision.packages →
          Matched revision previewRows result observation candidate → ∀ field ∈ sourceOwnedPackageFields,
            FieldKept revision decisions observation candidate field (valueOf final.fields field)) ∧
  ∀ revision previewRows decisions decisions' enforceRequired result,
    resolveRevisionDecisions revision previewRows decisions enforceRequired = .ok result → Reordered decisions decisions' →
        ∃ result', resolveRevisionDecisions revision previewRows decisions' enforceRequired = .ok result' ∧
          result'.revision.Agrees result.revision

theorem mem_zip_map {α β : Type} {f : α → β} {l : List α} {a : α} {b : β} (h : (a, b) ∈ l.zip (l.map f)) : b = f a := by
  induction l with
  | nil => cases h
  | cons head l ih =>
    rcases List.mem_cons.mp h with heq | h
    · obtain ⟨rfl, rfl⟩ := Prod.mk.inj heq
      rfl
    · exact ih h

variable {revision : Revision} {previewRows : List PreviewRow} {decisions : Decisions} {enforceRequired : Bool}
  {result : Resolved}

section

variable (h : resolveRevisionDecisions revision previewRows decisions enforceRequired = .ok result)
include h

theorem packagesDecided_of_ok : PackagesDecided previewRows result := by
  obtain ⟨packageDecisions, surfaces, overrides, written, stages, rfl⟩ := resolveRevisionDecisions_ok_iff.mp h
  intro row hrow hambiguous
  have hdecided := List.all_eq_true.mp stages.decided row hrow
  rw [hambiguous] at hdecided
  exact hdecided

theorem conflictsDecided_of_ok : ConflictsDecided revision previewRows decisions result := by
  obtain ⟨packageDecisions, surfaces, overrides, written, stages, rfl⟩ := resolveRevisionDecisions_ok_iff.mp h
  intro id observation surface hobservation hsurface conflict hconflict
  obtain ⟨surface', hget, hsurface'⟩ := stages.surface hobservation
  have hsame : surfaceOf (previewById previewRows) packageDecisions id observation = .ok surface := hsurface
  rw [hsame] at hsurface'
  rw [← Except.ok.inj hsurface'] at hget
  obtain ⟨row, hrow, hscoped, hid, hfield, resolution, decided, hresolution, -⟩ := stages.conflict_decided hget hconflict
  exact ⟨row, hrow, ⟨hscoped, hid, hfield⟩, Option.isSome_of_eq_some hresolution⟩

theorem fieldsEnd_of_ok : FieldsEnd revision previewRows decisions result := by
  obtain ⟨packageDecisions, surfaces, overrides, written, stages, rfl⟩ := resolveRevisionDecisions_ok_iff.mp h
  intro observation final candidate hpair hmatched field hfield _
  rw [mem_zip_map hpair]
  exact hmatched.fieldEnds stages hfield

end

/-- The decisions on a revision answer every question and leave the merge and what they name; the decisions on a bundle
have one row at most about a field, and may stand in any order. -/
theorem decisions_keepLocalWork : (∀ revision previewRows decisions enforceRequired result,
      resolveRevisionDecisions revision previewRows decisions enforceRequired = .ok result →
        PackagesDecided previewRows result ∧ ConflictsDecided revision previewRows decisions result ∧
          FieldsEnd revision previewRows decisions result) ∧
    ∀ canonicalDigest bundle decisions selectedRevisionIds authority,
      resolvePlanDecisionAuthority canonicalDigest bundle decisions selectedRevisionIds = .ok authority →
        (∀ revisionId, Distinct (scopedDecisions (selectedRevisions bundle selectedRevisionIds) decisions revisionId)) ∧
          ∀ decisions', Reordered decisions decisions' →
            ∃ authority', resolvePlanDecisionAuthority canonicalDigest bundle decisions' selectedRevisionIds = .ok authority' ∧
              authority'.decisionsDigest = authority.decisionsDigest ∧
              List.Forall₂ Revision.Agrees authority'.resolvedRevisions authority.resolvedRevisions := by
  refine ⟨?_, ?_⟩
  · intro revision previewRows decisions enforceRequired result h
    exact ⟨packagesDecided_of_ok h, conflictsDecided_of_ok h, fieldsEnd_of_ok h⟩
  · intro canonicalDigest bundle decisions selectedRevisionIds authority h
    refine ⟨?_, fun decisions' horder => resolvePlanDecisionAuthority_reordered horder h⟩
    intro revisionId
    unfold resolvePlanDecisionAuthority at h
    obtain ⟨_, -, h⟩ := bind_ok h
    obtain ⟨_, hvalid, -⟩ := bind_ok h
    exact (validateBundleDecisions_ok_iff.mp hvalid).distinct revisionId

def sampleFields (capitalDetail : String) : Record :=
  .ofList [("name", .str "Gói A"), ("priceVnd", .num 1500), ("executionPeriod", .str "30 ngày"),
    ("capitalDetail", .str capitalDetail), ("selectionDuration", .str "30 ngày"), ("selectionStart", .str "2026-02")]

def sampleObservation : Observation where
  planDetailRevisionId := "detail-a"
  fields := sampleFields ""
  effectiveFields := none
  canonicalSourceFields := none
  sourceAction := none

def sampleCandidate : Candidate where
  rootId := "root-b"
  localRootId := ""
  id := none
  snapshotId := some "a2"
  localVersion := .num 0
  rowVersion := .num 1
  isLatest := true
  baseFields := some (sampleFields "Vốn A")
  sourceFields := none
  localFields := some (sampleFields "Vốn A")

def sampleRow : PreviewRow where
  planDetailRevisionId := "detail-a"
  action := "AMBIGUOUS"
  matchCandidates := [{ sampleCandidate with rootId := "root-a" }, sampleCandidate]
  candidateMergeSurfaces := .ofList [("root-b", sampleCandidate)]
  effectiveFields := none
  fieldConflicts := []
  requiredIssues := []
  localTarget := none

def sampleDecisions : Decisions where
  investorId := ""
  packageMatches := [⟨"", "detail-a", "root-b", false⟩]
  fieldConflicts := []
  fieldValues := [⟨"", "detail-a", "capitalDetail", "root-b", .str "Ngân sách"⟩]
  otherKeys := []

def sampleRevision : Revision := ⟨"rev-01", [sampleObservation]⟩

def sampleOutcome : Option (Option Choice × List Value) :=
  (resolveRevisionDecisions sampleRevision [sampleRow] sampleDecisions true).toOption.map fun result =>
    (result.packageDecisions.get? "detail-a", result.revision.packages.map fun package =>
      valueOf package.fields "capitalDetail")

theorem sampleOutcome_eq : sampleOutcome = some (some (.localRoot "root-b"), [.str "Ngân sách"]) := by decide +kernel

/-- The value that is given for the emptied field is neither the value of the source nor the local one. -/
theorem givenValue_not_keepsLocalWork : ¬KeepsLocalWork := by
  rintro ⟨hfields, -⟩
  have houtcome := sampleOutcome_eq
  unfold sampleOutcome at houtcome
  cases hresult : resolveRevisionDecisions sampleRevision [sampleRow] sampleDecisions true with
  | error error =>
    rw [hresult] at houtcome
    cases houtcome
  | ok result =>
    rw [hresult] at houtcome
    obtain ⟨hchoice, hvalues⟩ := Prod.mk.inj (Option.some.inj houtcome)
    obtain ⟨final, hpackages, hfinal⟩ := List.map_eq_singleton_iff.mp hvalues
    have hmatched : Matched sampleRevision [sampleRow] result sampleObservation sampleCandidate :=
      ⟨by decide +kernel, sampleRow, "root-b", rfl, rfl, Or.inr rfl, hchoice, rfl⟩
    have hpair : (sampleObservation, final) ∈ sampleRevision.packages.zip result.revision.packages := by
      rw [hpackages]
      exact List.mem_cons_self
    have hkept := (hfields _ _ _ _ _ hresult).2.2 _ _ _ hpair hmatched "capitalDetail" (by decide)
    have hempty := hkept.source (by decide +kernel) (fun hconflict => absurd hconflict.1 (by unfold LocalChanged; decide +kernel))
      (by unfold SourceChanged; decide +kernel)
    rw [hfinal] at hempty
    exact absurd hempty (by decide +kernel)

end Bidding.ImportDecisions
