import Bidding.Outbox.Archives
import Bidding.Outbox.Rejection

/-!
# Taking an interrupted rejection up again

The generations of an archived receipt mean nothing any more, so it is rebuilt: an upsert or a patch gets the generation it
has now if its record is the one that was sent, a deletion if the batch is, and everything else one that nothing has.
-/

namespace Bidding

open Foundations

def Receipt.batchId (receipt : Receipt) : String := receipt.clientMutationId ++ ":" ++ toString receipt.revision

def Receipt.generations (receipt : Receipt) : RecordMap → Dict String (Dict String ℕ)
  | .upserts => receipt.upserts
  | .patches => receipt.patches

def Receipt.recordSnapshots (receipt : Receipt) : RecordMap → TableRecords
  | .upserts => receipt.recordSnapshotUpserts
  | .patches => receipt.recordSnapshotPatches

namespace Outbox

variable (opts : OutboxOptions)

/-- The `-1` of the source, a generation that no operation has: the first one is 1. -/
def noGeneration : ℕ := 0

/-- `before && now && JSON.stringify(before) === JSON.stringify(now)`: two records are written the same when they have the
same fields in the same order. -/
def sameText : Option Record → Option Record → Bool
  | some before, some now => before = now
  | _, _ => false

def recordGeneration (part : RecordMap) (saved : Receipt) (current : Option Receipt) (table id : String) : ℕ :=
  if sameText ((saved.recordSnapshots part).get₂ table id)
      (current.bind fun receipt => (receipt.recordSnapshots part).get₂ table id) then
    (current.bind fun receipt => (receipt.generations part).get₂ table id).getD noGeneration
  else noGeneration

variable (saved : Receipt)

variable (current : Option Receipt)

def deleteGeneration (key : TableKey) : ℕ :=
  if current.map Receipt.batchId = some saved.batchId then
    (current.bind fun receipt => receipt.deletes.get? key).getD noGeneration
  else noGeneration

def tableGeneration (table : String) : ℕ :=
  if current.map Receipt.batchId = some saved.batchId then
    (current.bind fun receipt => receipt.dirtyTables.get? table).getD noGeneration
  else noGeneration

def matchedGenerations (part : RecordMap) (saved : Receipt) (current : Option Receipt) : Dict String (Dict String ℕ) :=
  (saved.generations part).mapEntries fun table entries =>
    entries.mapEntries fun id _ => recordGeneration part saved current table id

/-- `preparedReceiptForCurrentIntent(saved, current)`: the rebuilt receipt, and whether it is not known of a deletion if it is
the one that was sent. -/
def preparedReceiptForCurrentIntent : Receipt × Bool :=
  ({ saved with
      upserts := matchedGenerations .upserts saved current
      patches := matchedGenerations .patches saved current
      deletes := saved.deletes.mapEntries fun key _ => deleteGeneration saved current key
      dirtyTables := saved.dirtyTables.mapEntries fun table _ => tableGeneration saved current table },
    saved.deletes.keys.any fun key =>
      (current.bind fun receipt => receipt.deletes.get? key).isSome &&
        current.map Receipt.batchId ≠ some saved.batchId)

/-- The records a receipt has sent of one map, as a rejection reports them. -/
def sentRecords (part : RecordMap) (snapshot : Receipt) : List (TableKey × RejectedRecord) :=
  (snapshot.recordSnapshots part).entries₂.map fun entry =>
    ((entry.1, entry.2.1),
      { type := entry.1
        id := entry.2.1
        operation := part.operation
        newInsert := some (part = .upserts && (snapshot.baseSnapshots.get₂ entry.1 entry.2.1).isNone
          && (entry.2.2.get? "expectedVersion").isNone && (entry.2.2.get? "rowVersion").isNone)
        conflictingId := "" })

def sentDeletions (snapshot : Receipt) : List (TableKey × RejectedRecord) :=
  (snapshot.deletes.keys.filter (·.1 ≠ "")).map fun key => (key, ⟨key.1, key.2, .delete, none, ""⟩)

/-- `rejectedRecordsFromReceipt(snapshot, validationErrors)`: the records the errors name, or all that were sent when they do
not say enough. -/
def rejectedRecordsFromReceipt (snapshot : Receipt) (validationErrors : List SyncError) : List RejectedRecord :=
  let records := Dict.ofList (sentRecords .upserts snapshot ++ sentRecords .patches snapshot ++ sentDeletions snapshot)
  let unscoped := validationErrors.any fun error => error.table = "" || error.id = ""
  let scopedKeys := (validationErrors.filter fun error => error.table ≠ "" && error.id ≠ "").map fun error =>
    (errorTable opts error, error.id)
  let matching := records.keys.any (· ∈ scopedKeys)
  (records.entries.filter fun entry => unscoped || !matching || entry.1 ∈ scopedKeys).map Prod.snd

def matchingPreparedTargets (targets : List RejectedRecord) : Bool :=
  let receipt := (preparedReceiptForCurrentIntent saved current).1
  targets.any fun target =>
    (receipt.upserts.get₂ target.type target.id).getD noGeneration ≠ noGeneration
      || (receipt.patches.get₂ target.type target.id).getD noGeneration ≠ noGeneration
      || (receipt.deletes.get? (target.type, target.id)).getD noGeneration ≠ noGeneration

variable (state : WorkspaceState)

def currentReceipt (o : Outbox) : Option Receipt :=
  (snapshotForSync opts state o).2.map Prod.snd

/-- The rejection of a prepared recovery: the outbox, and what it reports, or nothing when the rejection has to wait. -/
def resumeRejection (saved : Receipt) (errors : List SyncError) (o : Outbox) : Outbox × Option (List RejectedRecord) :=
  let asked := (snapshotForSync opts state o).1
  let prepared := preparedReceiptForCurrentIntent saved (currentReceipt opts state o)
  if prepared.2 || ((currentReceipt opts state o).isNone && mutationQueueHasChanges asked.queue) then (asked, none)
  else
    let rejected := reject opts prepared.1 errors true (some state) asked
    (rejected.1, some rejected.2)

/-- What follows once the outbox is written: the records to restore, or nothing when the outbox still has something of what
was sent. -/
def recordsToRestore (saved : Receipt) (errors : List SyncError) (removed : List RejectedRecord)
    (o : Outbox) : Outbox × Option (List RejectedRecord) :=
  let targets := rejectedRecordsFromReceipt opts saved errors
  let asked := (snapshotForSync opts state o).1
  if matchingPreparedTargets saved (currentReceipt opts state o) targets then (asked, none)
  else (asked, some (Dict.ofList ((targets ++ removed).map fun record => ((record.type, record.id), record))).values)

end Outbox

end Bidding
