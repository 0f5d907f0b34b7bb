import Bidding.Foundations.LastKeyed
import Bidding.Plans.Rebased

/-!
# Cancelling a plan draft

When the form is closed without saving, the tables of the draft are restored from the snapshot: each row of the snapshot comes
back, with the fields of the server as the page has them now, and rows that were committed meanwhile stay.
-/

namespace Bidding.Plans.Breakdown

open Foundations

def serverOwnedRecordFields : List String := ["rowVersion", "syncVersion", "organizationId", "ownerType", "archivedAt", "isLatest"]

/-- `record?.id !== undefined && record?.id !== null`. -/
def hasId (row : DraftRow) : Bool :=
  match field row "id" with
  | none | some .null => false
  | some _ => true

def indexById (rows : List DraftRow) : Dict String DraftRow := Dict.ofList ((rows.filter hasId).map fun row => (idText row, row))

/-- A field of the row as it is now, in the row of the snapshot. -/
def restoreField (live restored : DraftRow) (name : String) : DraftRow :=
  match field live name with
  | none => restored.erase name
  | some value => restored.set name (some value)

/-- A row of the snapshot with the fields of the server as they are now. -/
def restoreRow (live : Dict String DraftRow) (snapshot : DraftRow) : DraftRow :=
  match live.get? (idText snapshot) with
  | some row => serverOwnedRecordFields.foldl (restoreField row) snapshot
  | none => snapshot

variable (liveRecords snapshotRecords : List DraftRow)

def restoreRecordSnapshot : List DraftRow :=
  snapshotRecords.map (restoreRow (indexById liveRecords)) ++
    liveRecords.filter fun row => idText row ∉ snapshotRecords.map idText ∧ isCommitted row

/-- `String(row?.rootId || row?.id || "")`, the family of the versions of a row. -/
def familyOf (row : DraftRow) : String :=
  match field row "rootId" with
  | some value => if value.jsTruthy then value.jsString else rowKey row
  | none => rowKey row

def hasVersions (table : DraftTable) : Bool := table = .kehoach ∨ table = .goithau

/-- The families with a version that was committed after the capture. -/
def committedNewerFamilies : List String :=
  (liveRecords.filter fun row => rowKey row ∉ snapshotRecords.map rowKey ∧ isCommitted row).map familyOf

/-- The latest flag of a restored row comes from the snapshot, unless a newer version was committed. -/
def restoreLatest (row : DraftRow) : DraftRow :=
  match (rowsById snapshotRecords).get? (rowKey row) with
  | some snapshotRow =>
    if familyOf row ∈ committedNewerFamilies liveRecords snapshotRecords then row
    else row.set "isLatest" (field snapshotRow "isLatest")
  | none => row

def restoreTable (table : DraftTable) (liveRecords snapshotRecords : List DraftRow) : List DraftRow :=
  if hasVersions table then
    (restoreRecordSnapshot liveRecords snapshotRecords).map (restoreLatest liveRecords snapshotRecords)
  else restoreRecordSnapshot liveRecords snapshotRecords

/-- `restorePlanBreakdownDraft(model, draft)`, of a draft with all tables. -/
def restorePlanBreakdownDraft (state : DraftState) : DraftTables := fun table =>
  restoreTable table (state.tables table) (state.snapshot table)

/-- What a pull brings for a table: changed rows and deleted ids, or all rows. -/
inductive TableMerge where
  | delta (incoming : List DraftRow) (deletedIds : List String)
  | replace (rows : List DraftRow)

/-- One row of `mergeIncomingRecords(model, key, incoming)`. -/
def mergeIncomingRecord (rows : List DraftRow) (item : DraftRow) : List DraftRow :=
  if idText item ∈ rows.map idText then replaceLast idText rows item else rows ++ [item]

/-- A table after a merge without pending changes of its own. -/
def TableMerge.apply : TableMerge → List DraftRow → List DraftRow
  | .delta incoming deletedIds, rows => (incoming.foldl mergeIncomingRecord rows).filter fun row => idText row ∉ deletedIds
  | .replace rows, _ => rows

structure ServerMerge where
  changedTables : List DraftTable
  merge : DraftTable → TableMerge
  revokedIds : DraftTable → List String

def ServerMerge.apply (pull : ServerMerge) (tables : DraftTables) : DraftTables := fun table =>
  if table ∈ pull.changedTables then (pull.merge table).apply (tables table) else tables table

/-- A session of the form, and beside it the tables that the merges alone lead to. -/
structure FormSession where
  draft : DraftState
  reference : DraftTables

/-- `capturePlanBreakdownDraft(state, ...)`. -/
def capture (tables : DraftTables) : FormSession := ⟨⟨tables, tables⟩, tables⟩

inductive FormStep where
  | edit (tables : DraftTables)
  | pull (merge : ServerMerge)

def FormStep.run (session : FormSession) : FormStep → FormSession
  | .edit tables => { session with draft := { session.draft with tables := tables } }
  | .pull merge =>
    { draft := rebaseDraft session.draft.tables merge.changedTables merge.revokedIds
        ⟨merge.apply session.draft.tables, session.draft.snapshot⟩
      reference := merge.apply session.reference }

def runSteps (session : FormSession) (steps : List FormStep) : FormSession := steps.foldl FormStep.run session

end Bidding.Plans.Breakdown
