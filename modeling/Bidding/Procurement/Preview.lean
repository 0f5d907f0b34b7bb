import Bidding.Procurement.Recognised

/-!
# Previews

Before a plan revision is imported, a preview says what the import will do with the revision and with each of its
packages. It is computed by other functions than the import, from the tables as they are then.
-/

namespace Bidding.Procurement

open Foundations List

def matchCandidates (t : PyText) (observation : Observation) (localPackages : List PackageState) : List PackageState :=
  let stableId := textOf observation.stablePackageId
  let noticeNo := upperCode (textOf (observation.sourceFields.noticeLink.bind (·.noticeNo)))
  let symbol := t.casefold (textOf observation.sourceFields.symbol)
  let stableMatches := localPackages.filter fun row => stableId ≠ "" ∧ textOf row.stableExternalId = stableId
  let noticeMatches := localPackages.filter fun row => noticeNo ≠ "" ∧ upperCode (textOf row.noticeNo) = noticeNo
  if stableMatches.isEmpty = false then stableMatches
  else if noticeMatches.isEmpty = false then noticeMatches
  else localPackages.filter fun row => symbol ≠ "" ∧ t.casefold (textOf row.symbol) = symbol

/-- `PackageAction`, but for the name shown for the packages of a revision that is imported already. -/
inductive PackageAction where
  | added
  | changed
  | unchanged
  | removed
  | ambiguous
  deriving DecidableEq

def PackageAction.name : PackageAction → String
  | added => "ADDED"
  | changed => "CHANGED"
  | unchanged => "UNCHANGED"
  | removed => "REMOVED"
  | ambiguous => "AMBIGUOUS"

/-- A row of a preview: its action, and the local package it is about or the candidates for it. -/
structure PackagePreview where
  action : PackageAction
  targets : List PackageState

def previewPackage (t : PyText) (localPackages : List PackageState) (observation : Observation) : PackagePreview :=
  match matchCandidates t observation localPackages with
  | [] => ⟨.added, []⟩
  | [matched] => ⟨if observation.sourceFields ≠ matched.sourceFields then .changed else .unchanged, [matched]⟩
  | candidates => ⟨.ambiguous, candidates⟩

/-- `_reconcile_packages(source_packages, local_state)`: the rows of the observations, then those of the local packages that
none of them is about. -/
def reconcilePackages (t : PyText) (sourcePackages : List Observation) (localPackages : List PackageState) :
    List PackagePreview :=
  let rows := sourcePackages.map (previewPackage t localPackages)
  let matchedSnapshotIds := rows.flatMap fun row => row.targets.map (·.id)
  rows ++ (localPackages.filter fun row => row.id ∉ matchedSnapshotIds).map fun row => ⟨.removed, [row]⟩

/-- What a preview knows of a family: its packages, the digests under which revisions were recorded, and the applied
revision of the greatest number. -/
structure LocalState where
  packages : List PackageState
  observedRevisions : String → Option String
  latestAppliedExternalRevision : Option String

def greatestRevision (numbers : List String) : Option String :=
  numbers.foldl (fun greatest number =>
    if greatest.any fun known => revisionSortKey number ≤ revisionSortKey known then greatest else some number) none

def Store.familyEvidence (s : Store) (provider : Provider) (familyNo : String) : List EvidenceRow :=
  s.evidence.filter fun row => row.provider = provider ∧ row.kind = .plan ∧ row.familyKey = familyNo

/-- What `load_family` gives a preview, which is not used without a plan; of several records of one revision the newest one
stays, and of several equal numbers it does not matter which. -/
def Store.localState (collation : Collation) (s : Store) (provider : Provider) (familyNo : String) : Option LocalState :=
  let family := s.loadFamily collation familyNo none
  if family.latestPlan.isNone then none
  else
    let rows := s.familyEvidence provider familyNo
    some
      { packages := family.packages
        observedRevisions := fun revisionId =>
          (newest collation (rows.filter fun row => row.revisionUuid = revisionId)).map (·.digest)
        latestAppliedExternalRevision :=
          greatestRevision ((rows.filter fun row => row.disposition = .applied).map (·.revisionNo)) }

/-- What a preview says of a revision. -/
inductive RevisionDisposition where
  | resync
  | alreadyImported
  | provenanceOnly
  | materialize
  deriving DecidableEq

/-- A preview of a revision; `conflict` is the blocking issue `PROCUREMENT_REVISION_CONFLICT`. -/
structure Preview where
  disposition : RevisionDisposition
  conflict : Bool
  packages : List PackagePreview

/-- The disposition of a revision of the digest given, and whether it is a conflict. -/
def dispositionOf (q : PlanRequest) (digest : String) (localState : Option LocalState) : RevisionDisposition × Bool :=
  match localState.bind fun known => known.observedRevisions q.revisionId with
  | some observed =>
    let digestChanged : Bool := observed ≠ "" ∧ observed ≠ digest
    if digestChanged ∧ q.provider = .muasamcong then (.resync, false) else (.alreadyImported, digestChanged)
  | none =>
    if q.provider ≠ .muasamcong ∧ (localState.bind (·.latestAppliedExternalRevision)).any fun number =>
        revisionSortKey q.revision.revisionNumber < revisionSortKey number then
      (.provenanceOnly, false)
    else (.materialize, false)

/-- The preview of a revision, which carries its digest afterwards. -/
def PlanRequest.preview (w : Setting) (s : Store) (q : PlanRequest) : Preview :=
  let localState := s.localState w.collation q.provider q.familyNo
  { disposition := (dispositionOf q (q.digest w) localState).1
    conflict := (dispositionOf q (q.digest w) localState).2
    packages := reconcilePackages w.text q.revision.packages ((localState.map (·.packages)).getD []) }

/-- The tables in which a preview knows what the import will see: the evidence of the revision stands in its family and under
a digest, the family has a plan or no evidence, the applied revision of the greatest number is as great to both, and a
revision that was recorded became the plan the family has. -/
structure Foreseen (w : Setting) (s : Store) (q : PlanRequest) : Prop where
  recorded : ∀ row ∈ s.evidence, row.isAbout q.provider .plan q.revisionId → row.familyKey = q.familyNo ∧ row.digest ≠ ""
  current : (s.loadFamily w.collation q.familyNo none).latestPlan = none → s.familyEvidence q.provider q.familyNo = []
  latest : greatestRevision (((s.familyEvidence q.provider q.familyNo).filter fun row => row.disposition = .applied).map
      (·.revisionNo)) = s.latestAppliedRevision w.collation q.provider q.familyNo
  snapshot : ∀ row, s.findRevision w.collation q.provider .plan q.revisionId = some row →
    ∀ family, q.baseFamily w s (some row) = .ok family → family = s.loadFamily w.collation q.familyNo none

variable {w : Setting} {m : Moment} {s s' : Store} {q : PlanRequest} {result : Result} {family : Family} {planId : String} {observation : Observation} {i : ℕ}
  {created : CreatedPackage × CreatedBinding}

/-! ## Matching -/

variable {observed : Option EvidenceRow}

end Bidding.Procurement
