import Bidding.Outbox.References

/-!
# The workspace mutation outbox

The outbox of one tab: the queue, the deletions shown locally, and the generations. Every write of a pending operation
stamps its record key with the next value of one counter.

The options of the constructor are a parameter, with the results of `createId` and `getBaseSyncVersion` numbered by `calls`.
`requests` lists the calls of `store.persist`, the newest first.
-/

namespace Bidding

open Foundations

/-- The options of the constructor. -/
structure OutboxOptions where
  getBaseSyncVersion : ℕ → String
  createId : ℕ → String
  isSyncedType : String → Bool
  normalizeRecord : Record → String → Record
  serializeRecord : Record → String → Record
  resolveServerTable : String → String

/-- A call of `store.persist(queue, localDeletions)`. -/
structure PersistRequest where
  queue : Option MutationQueue
  localDeletions : List Deletion
  deriving DecidableEq

/-- The state of the outbox. -/
structure Outbox where
  queue : MutationQueue
  localDeletions : List Deletion
  generation : ℕ
  recordGenerations : Dict RecordKey ℕ
  tableGenerations : Dict String ℕ
  calls : ℕ
  requests : List PersistRequest
  deriving DecidableEq

/-- An entry of the command `server-row-version`. -/
structure ServerRowVersion where
  table : String
  id : String
  rowVersion : Option Int
  deriving DecidableEq

inductive RecordMap where
  | upserts
  | patches
  deriving DecidableEq

def RecordMap.operation : RecordMap → Operation
  | .upserts => .upsert
  | .patches => .patch

/-- `queue[map]`. -/
def MutationQueue.records (queue : MutationQueue) : RecordMap → TableRecords
  | .upserts => queue.upserts
  | .patches => queue.patches

/-- Replace `queue[map]`. -/
def MutationQueue.mapRecords (queue : MutationQueue) (part : RecordMap) (f : TableRecords → TableRecords) : MutationQueue :=
  match part with
  | .upserts => { queue with upserts := f queue.upserts }
  | .patches => { queue with patches := f queue.patches }

def newOutbox (opts : OutboxOptions) : Outbox where
  queue := createEmptyMutationQueue (opts.getBaseSyncVersion 0) (opts.createId 0)
  localDeletions := []
  generation := 0
  recordGenerations := .empty
  tableGenerations := .empty
  calls := 1
  requests := []

namespace Outbox

variable (opts : OutboxOptions)

/-! ## The writes the methods share -/

/-- `queue[map][table] ||= {}; queue[map][table][id] = record`. -/
def setRecord (part : RecordMap) (table id : String) (record : Record) (o : Outbox) : Outbox :=
  { o with queue := o.queue.mapRecords part (·.set₂ table id record) }

/-- `delete queue[map][table][id]`. -/
def eraseRecord (part : RecordMap) (table id : String) (o : Outbox) : Outbox :=
  { o with queue := o.queue.mapRecords part (·.erase₂ table id) }

/-- `if (Object.keys(queue[map][table]).length === 0) delete queue[map][table]`. -/
def dropEmptyTable (part : RecordMap) (table : String) (o : Outbox) : Outbox :=
  { o with queue := o.queue.mapRecords part (·.dropIfEmpty table) }

/-- Keep the deletions of the records that pass `keeps`, in the queue and in the local
deletions. -/
def filterDeletions (keeps : String → String → Bool) (o : Outbox) : Outbox :=
  { o with
    queue := { o.queue with deletes := o.queue.deletes.filter fun item => keeps item.table item.id }
    localDeletions := o.localDeletions.filter fun item => keeps item.table item.id }

def dropDeletion (table id : String) (o : Outbox) : Outbox :=
  filterDeletions (fun t i => !(t = table && i = id)) o

/-- `recordGenerations.delete(key)`. -/
def forget (key : RecordKey) (o : Outbox) : Outbox :=
  { o with recordGenerations := o.recordGenerations.erase key }

def bumpRecord (key : RecordKey) (o : Outbox) : Outbox :=
  { o with
    generation := o.generation + 1
    recordGenerations := o.recordGenerations.set key (o.generation + 1) }

def touchForNewPayload (o : Outbox) : Outbox :=
  { o with
    queue := { o.queue with
      revision := o.queue.revision + 1
      clientMutationId := opts.createId o.calls
      baseSyncVersion :=
        if o.queue.baseSyncVersion = "" then
          if opts.getBaseSyncVersion o.calls = "" then "0" else opts.getBaseSyncVersion o.calls
        else o.queue.baseSyncVersion }
    calls := o.calls + 1 }

def clear (o : Outbox) : Outbox :=
  { o with
    queue := createEmptyMutationQueue (opts.getBaseSyncVersion o.calls) (opts.createId o.calls)
    localDeletions := []
    recordGenerations := .empty
    tableGenerations := .empty
    calls := o.calls + 1
    requests := ⟨none, []⟩ :: o.requests }

def persist (o : Outbox) : Outbox :=
  if mutationQueueHasChanges o.queue then
    { o with requests := ⟨some o.queue, o.localDeletions⟩ :: o.requests }
  else clear opts o

variable (table : String)

/-- `_captureBaseSnapshots(table, baseRecords)`: the first base of a record is kept. -/
def captureBaseSnapshots (baseRecords : List Record) (o : Outbox) : Outbox :=
  { o with queue := { o.queue with
      baseSnapshots := (baseRecords.filter fun record =>
          hasRecordId record && Value.jsPositive (record.get? "rowVersion")).foldl
        (fun bases record =>
          if (bases.get₂ table (recordId record)).isSome then bases
          else bases.set₂ table (recordId record) (opts.normalizeRecord record table))
        o.queue.baseSnapshots } }

def releaseBaseSnapshot (table id : String) (o : Outbox) : Outbox :=
  if (o.queue.upserts.get₂ table id).isSome || (o.queue.patches.get₂ table id).isSome
      || o.queue.deletes.any (·.names table id) then o
  else
    { o with queue := { o.queue with
        baseSnapshots := (o.queue.baseSnapshots.erase₂ table id).dropIfEmpty table } }

def upsertDeletion (target : List Deletion) (table id : String) (expectedVersion : Option Int) : List Deletion :=
  match target with
  | [] => [⟨table, id, expectedVersion⟩]
  | item :: rest =>
    if item.names table id then
      { item with expectedVersion := expectedVersion.or item.expectedVersion } :: rest
    else item :: upsertDeletion rest table id expectedVersion

/-! ## The enqueue commands -/

/-- One record of `_enqueueUpserts`. -/
def enqueueUpsert (o : Outbox) (record : Record) : Outbox :=
  let id := recordId record
  o |> setRecord .upserts table id (opts.normalizeRecord record table)
    |> eraseRecord .patches table id
    |> dropEmptyTable .patches table
    |> forget ⟨.patch, table, id⟩
    |> dropDeletion table id
    |> forget ⟨.delete, table, id⟩
    |> bumpRecord ⟨.upsert, table, id⟩

variable (records baseRecords : List Record)

variable (o : Outbox)

def enqueueUpserts : Outbox × Bool :=
  let validRecords := records.filter hasRecordId
  if table = "" || !opts.isSyncedType table || validRecords.isEmpty then (o, false)
  else
    (touchForNewPayload opts (validRecords.foldl (enqueueUpsert opts table)
      (captureBaseSnapshots opts table baseRecords o)), true)

/-- `{ ...queued, ...patch, id: queued.id }`. -/
def mergeIntoUpsert (queued patch : Record) : Record :=
  let merged := queued.spread patch
  match queued.get? "id" with
  | some id => merged.set "id" id
  | none => merged.erase "id"

variable (record : Record)

/-- One record of `_enqueuePatches`: a queued upsert of the record takes the patch in. -/
def enqueuePatch : Outbox :=
  let id := recordId record
  let patch := opts.normalizeRecord record table
  let written := match o.queue.upserts.get₂ table id with
    | some queuedUpsert =>
      o |> setRecord .upserts table id (mergeIntoUpsert queuedUpsert patch)
        |> bumpRecord ⟨.upsert, table, id⟩
    | none =>
      o |> setRecord .patches table id (((o.queue.patches.get₂ table id).getD .empty).spread patch)
        |> bumpRecord ⟨.patch, table, id⟩
  written |> dropDeletion table id |> forget ⟨.delete, table, id⟩

def enqueuePatches : Outbox × Bool :=
  let validRecords := records.filter hasRecordId
  if table = "" || !opts.isSyncedType table || validRecords.isEmpty then (o, false)
  else
    (touchForNewPayload opts (validRecords.foldl (enqueuePatch opts table)
      (captureBaseSnapshots opts table baseRecords o)), true)

/-- One record of `_replaceTable`. -/
def replaceRecord : Outbox :=
  let id := recordId record
  o |> setRecord .upserts table id (opts.normalizeRecord record table)
    |> bumpRecord ⟨.upsert, table, id⟩
    |> forget ⟨.delete, table, id⟩

/-- The queue of `_replaceTable` before the records are written: the table has no upserts
and no patches. -/
def emptyTable : Outbox :=
  { o with queue := { o.queue with
      dirtyTables := o.queue.dirtyTables.set table false
      upserts := o.queue.upserts.set table .empty
      patches := o.queue.patches.erase table } }

def replaceTable : Outbox × Bool :=
  let validRecords := records.filter hasRecordId
  if table = "" || !opts.isSyncedType table || validRecords.isEmpty then (o, false)
  else
    let written := validRecords.foldl (replaceRecord opts table)
      (emptyTable table (captureBaseSnapshots opts table baseRecords o))
    let currentIds := validRecords.map recordId
    (touchForNewPayload opts (filterDeletions (fun t i => t ≠ table || i ∉ currentIds) written), true)

/-- `Number.isInteger(record.rowVersion) ? record.rowVersion : undefined`. -/
def expectedVersionOf : Option Int :=
  match record.get? "rowVersion" with
  | some (.num n) => some n
  | _ => none

/-- One record of `_enqueueDeletes`. -/
def enqueueDelete : Outbox :=
  let id := recordId record
  let cleared := o |> eraseRecord .upserts table id
    |> dropEmptyTable .upserts table
    |> forget ⟨.upsert, table, id⟩
    |> eraseRecord .patches table id
    |> dropEmptyTable .patches table
    |> forget ⟨.patch, table, id⟩
  bumpRecord ⟨.delete, table, id⟩ { cleared with
    queue := { cleared.queue with
      deletes := upsertDeletion cleared.queue.deletes table id (expectedVersionOf record) }
    localDeletions := upsertDeletion cleared.localDeletions table id (expectedVersionOf record) }

def enqueueDeletes (records : List Record) (o : Outbox) : Outbox × Bool :=
  let validRecords := records.filter hasRecordId
  if table = "" || !opts.isSyncedType table || validRecords.isEmpty then (o, false)
  else (touchForNewPayload opts (validRecords.foldl (enqueueDelete table) o), true)

def setRowVersion (part : RecordMap) (table id : String) (rowVersion : Int) (acc : Outbox × Bool) : Outbox × Bool :=
  match (acc.1.queue.records part).get₂ table id with
  | none => acc
  | some queued =>
    if queued.get? "rowVersion" = some (.num rowVersion) then acc
    else (setRecord part table id (queued.set "rowVersion" (.num rowVersion)) acc.1, true)

def setExpectedVersion (table id : String) (rowVersion : Int) : List Deletion → List Deletion × Bool
  | [] => ([], false)
  | item :: rest =>
    if item.names table id then
      if item.expectedVersion = some rowVersion then (item :: rest, false)
      else ({ item with expectedVersion := some rowVersion } :: rest, true)
    else
      (item :: (setExpectedVersion table id rowVersion rest).1, (setExpectedVersion table id rowVersion rest).2)

/-- One entry of `_applyServerRowVersions`. -/
def applyServerRowVersion (acc : Outbox × Bool) (entry : ServerRowVersion) : Outbox × Bool :=
  match entry.rowVersion with
  | none => acc
  | some rowVersion =>
    if entry.table = "" || entry.id = "" then acc
    else
      let acc := setRowVersion .upserts entry.table entry.id rowVersion acc
      let acc := setRowVersion .patches entry.table entry.id rowVersion acc
      let deletes := setExpectedVersion entry.table entry.id rowVersion acc.1.queue.deletes
      let locals := setExpectedVersion entry.table entry.id rowVersion acc.1.localDeletions
      ({ acc.1 with
          queue := { acc.1.queue with deletes := deletes.1 }
          localDeletions := locals.1 }, acc.2 || deletes.2 || locals.2)

def applyServerRowVersions (entries : List ServerRowVersion) (o : Outbox) : Outbox × Bool :=
  let acc := entries.foldl applyServerRowVersion (o, false)
  if acc.2 then (touchForNewPayload opts acc.1, true) else acc

/-- The effect of an acknowledged server deletion on the generations and the patches. -/
def acknowledgeServerDeletion (acc : Outbox × Bool) (key : TableKey) : Outbox × Bool :=
  let o := forget ⟨.delete, key.1, key.2⟩ acc.1
  if (o.queue.patches.get₂ key.1 key.2).isSome then
    (o |> eraseRecord .patches key.1 key.2
       |> dropEmptyTable .patches key.1
       |> forget ⟨.patch, key.1, key.2⟩, true)
  else (o, acc.2)

def acknowledgeServerDeletions (deletions : List TableKey) (o : Outbox) : Outbox × Bool :=
  let acknowledged := deletions.filter fun key => key.1 ≠ "" && key.2 ≠ ""
  if acknowledged.isEmpty then (o, false)
  else
    let filtered := filterDeletions (fun t i => (t, i) ∉ acknowledged) o
    let acc := acknowledged.foldl acknowledgeServerDeletion (filtered, false)
    let changed := o.queue.deletes.length ≠ filtered.queue.deletes.length
      || o.localDeletions.length ≠ filtered.localDeletions.length || acc.2
    if changed && mutationQueueHasChanges acc.1.queue then (touchForNewPayload opts acc.1, true)
    else (acc.1, changed)

def rebase (syncVersion : String) (o : Outbox) : Outbox × Bool :=
  if syncVersion = "" || !mutationQueueHasChanges o.queue
      || o.queue.baseSyncVersion = syncVersion then (o, false)
  else (touchForNewPayload opts
    { o with queue := { o.queue with baseSyncVersion := syncVersion } }, true)

/-- The end of `enqueue(command)`: a command that changed something is persisted. -/
def enqueue (command : Outbox → Outbox × Bool) (o : Outbox) : Outbox :=
  if (command o).2 then persist opts (command o).1 else (command o).1

end Outbox

end Bidding
