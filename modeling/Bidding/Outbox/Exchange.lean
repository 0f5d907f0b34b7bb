import Mathlib.Algebra.GroupWithZero.Nat
import Bidding.Outbox.Model

/-!
# The outbox and the server

The methods around a push: the two repairs that run before it, the snapshot with its
receipt, the acknowledgement and the rejection of a receipt; then the ways the outbox is
loaded again, and the list of all commands with their effect (`step`).
-/

namespace Bidding

open Foundations

namespace Outbox

variable (opts : OutboxOptions)

/-! ## The repairs before a push -/

variable (state : WorkspaceState)

/-- The parent a repair would queue: in the state, not a mere reference, and without a
server row version. -/
def unsyncedParent (parent : TableKey) : Option Record :=
  match recordById state parent.1 parent.2 with
  | none => none
  | some record =>
    if record.get? "referenceOnly" = some (.bool true)
        || Value.jsPositive (record.get? "rowVersion") then none
    else some record

def repairParent (acc : Outbox × Bool) (parent : TableKey) : Outbox × Bool :=
  if parent.1 = "" || parent.2 = "" || (acc.1.queue.upserts.get₂ parent.1 parent.2).isSome then acc
  else
    match unsyncedParent state parent with
    | none => acc
    | some record =>
      (acc.1 |> setRecord .upserts parent.1 parent.2 (opts.normalizeRecord record parent.1)
             |> bumpRecord ⟨.upsert, parent.1, parent.2⟩, true)

variable (o : Outbox)

/-- One pass over the queued upserts: the tables queued when the pass starts, each with the
records it has when its turn comes. -/
def repairPass : Outbox × Bool :=
  o.queue.upserts.keys.foldl (fun acc table =>
    ((acc.1.queue.upserts.get? table).getD .empty).values.foldl (fun acc record =>
      (parentKeysForRecord table record).foldl (repairParent opts state) acc) acc) (o, false)

def stateSize : ℕ := (state.values.map List.length).sum

/-- `_repairUnsyncedParentDependencies(state)`. Every pass that changes something queues a
record of the state that was not queued, so the passes are fewer than the bound. -/
def repairUnsyncedParentDependencies : Outbox :=
  if (repairPass opts state o).2 then
    persist opts (touchForNewPayload opts (saturate (repairPass opts state) (stateSize state + 1) o))
  else o

/-- The state of the loop of `repairDuplicatePlanVersions`: the workspace tables, which the
loop edits in place, the outbox, and what the method reports. -/
structure DuplicateRepair where
  state : WorkspaceState
  outbox : Outbox
  duplicatePlanIds : List String
  authoritativePlans : Dict String Record
  repointedRecords : Dict String (Dict String Record)

/-- For every version of a plan, the index of the plan record with the largest row version. -/
def authoritativeByVersion (plans : List Record) : Dict String ℕ :=
  plans.zipIdx.foldl (fun byVersion item =>
    let key := planVersionKey item.1
    let version := ((item.1.get? "rowVersion").bind Value.jsNumber).getD 0
    if key = "" || version ≤ 0 then byVersion
    else
      match (byVersion.get? key).bind fun index => plans[index]? with
      | none => byVersion.set key item.2
      | some current =>
        if version > ((current.get? "rowVersion").bind Value.jsNumber).getD 0 then
          byVersion.set key item.2
        else byVersion) .empty

/-- Move the plan references of one table from `fromId` to `toId`, in the state and in the
queue. -/
def repointTable (fromId toId : String) (acc : DuplicateRepair) (table : String) : DuplicateRepair :=
  let records := stateTable acc.state table
  let moved := records.filterMap fun record => repointPlanReference table record fromId toId
  let state := match acc.state.get? table with
    | none => acc.state
    | some records => acc.state.set table
      (records.map fun record => (repointPlanReference table record fromId toId).getD record)
  let reported := moved.foldl (fun all record => all.set₂ table (recordId record) record) acc.repointedRecords
  ((acc.outbox.queue.upserts.get? table).getD .empty).entries.foldl (fun acc entry =>
    match repointPlanReference table entry.2 fromId toId with
    | none => acc
    | some record => { acc with
        outbox := acc.outbox |> setRecord .upserts table entry.1 record
                             |> bumpRecord ⟨.upsert, table, recordId record⟩
        repointedRecords := acc.repointedRecords.set₂ table (recordId record) record })
    { acc with state := state, repointedRecords := reported }

/-- One queued plan of `repairDuplicatePlanVersions`. -/
def repairDuplicatePlan (byVersion : Dict String ℕ) (acc : DuplicateRepair) (pending : Record) : DuplicateRepair :=
  let plans := stateTable acc.state "kehoach"
  let pendingId := fieldText pending "id"
  match (byVersion.get? (planVersionKey pending)).bind fun index =>
      plans[index]?.map fun plan => (index, plan) with
  | none => acc
  | some (index, authoritative) =>
    let authoritativeId := recordId authoritative
    if pendingId = "" || authoritativeId = pendingId
        || Value.jsPositive (pending.get? "rowVersion") then acc
    else
      let localPlan := (plans.find? fun plan => fieldText plan "id" = pendingId).getD pending
      let merged := authoritative.spread (mergePlanIntoAuthoritative authoritative localPlan)
      let outbox := acc.outbox
        |> eraseRecord .upserts "kehoach" pendingId
        |> forget ⟨.upsert, "kehoach", pendingId⟩
        |> setRecord .upserts "kehoach" authoritativeId (opts.normalizeRecord merged "kehoach")
        |> bumpRecord ⟨.upsert, "kehoach", authoritativeId⟩
      ["goithau", "hopdong", "assignments"].foldl (repointTable pendingId authoritativeId)
        { acc with
          state := acc.state.set "kehoach" (plans.set index merged)
          outbox := outbox
          duplicatePlanIds := acc.duplicatePlanIds ++ [pendingId]
          authoritativePlans := acc.authoritativePlans.set authoritativeId merged }

/-- The loop of `repairDuplicatePlanVersions` over the queued plans. -/
def repairDuplicatePlans : DuplicateRepair :=
  let plans := stateTable state "kehoach"
  ((o.queue.upserts.get? "kehoach").getD .empty).values.foldl
    (repairDuplicatePlan opts (authoritativeByVersion plans)) ⟨state, o, [], .empty, .empty⟩

/-- `repairDuplicatePlanVersions(state)`: the repaired state and outbox with the report, or
nothing when no plan is queued twice. -/
def repairDuplicatePlanVersions : Option DuplicateRepair :=
  let plans := stateTable state "kehoach"
  if plans.length < 2 || ((o.queue.upserts.get? "kehoach").getD .empty).isEmpty then none
  else
    let repaired := repairDuplicatePlans opts state o
    if repaired.duplicatePlanIds.isEmpty then none
    else some { repaired with
      state := repaired.state.set "kehoach" ((stateTable repaired.state "kehoach").filter fun plan =>
        fieldText plan "id" ∉ repaired.duplicatePlanIds)
      outbox := persist opts (touchForNewPayload opts (dropEmptyTable .upserts "kehoach"
        repaired.outbox)) }

def receiptGenerations (part : RecordMap) (o : Outbox) : Dict String (Dict String ℕ) :=
  (o.queue.records part).entries₂.foldl (fun generations entry =>
    match o.recordGenerations.get? ⟨part.operation, entry.1, entry.2.1⟩ with
    | none => generations
    | some generation => generations.set₂ entry.1 entry.2.1 generation) .empty

def receiptBaseSnapshots (upserts patches : Dict String (Dict String ℕ)) : TableRecords :=
  (upserts.entries₂ ++ patches.entries₂).foldl (fun bases entry =>
    match o.queue.baseSnapshots.get₂ entry.1 entry.2.1 with
    | none => bases
    | some base => bases.set₂ entry.1 entry.2.1 base) .empty

def createReceipt : Receipt where
  clientMutationId := o.queue.clientMutationId
  revision := o.queue.revision
  upserts := receiptGenerations .upserts o
  patches := receiptGenerations .patches o
  deletes := o.queue.deletes.foldl (fun generations item =>
    match o.recordGenerations.get? ⟨.delete, item.table, item.id⟩ with
    | none => generations
    | some generation => generations.set (item.table, item.id) generation) .empty
  dirtyTables := o.queue.dirtyTables.entries.foldl (fun generations entry =>
    match o.tableGenerations.get? entry.1 with
    | none => generations
    | some generation => if entry.2 then generations.set entry.1 generation else generations) .empty
  recordSnapshotUpserts := o.queue.upserts
  recordSnapshotPatches := o.queue.patches
  baseSnapshots :=
    receiptBaseSnapshots o (receiptGenerations .upserts o) (receiptGenerations .patches o)

/-- `snapshotForSync(state)`: the outbox after the parent repair, and the payload with the
receipt of what it sends. -/
def snapshotForSync : Outbox × Option (Payload × Receipt) :=
  if mutationQueueHasChanges o.queue then
    let repaired := repairUnsyncedParentDependencies opts state o
    (repaired, buildMutationPayload repaired.queue state repaired.localDeletions
      opts.isSyncedType opts.serializeRecord (createReceipt repaired))
  else (o, none)

/-- One record of a receipt: it leaves the queue when its generation is the sent one. -/
def ackRecord (part : RecordMap) (table : String) (acc : Outbox × Bool) (sent : String × ℕ) : Outbox × Bool :=
  let key : RecordKey := ⟨part.operation, table, sent.1⟩
  if acc.1.recordGenerations.get? key ≠ some sent.2 then acc
  else
    let found := ((acc.1.queue.records part).get₂ table sent.1).isSome
    (acc.1 |> eraseRecord part table sent.1 |> forget key |> releaseBaseSnapshot table sent.1, acc.2 || found)

/-- The records of one map of a receipt, table by table. -/
def ackRecords (part : RecordMap) (sent : Dict String (Dict String ℕ)) (acc : Outbox × Bool) : Outbox × Bool :=
  sent.entries.foldl (fun acc entry =>
    let acc := entry.2.entries.foldl (ackRecord part entry.1) acc
    (dropEmptyTable part entry.1 acc.1, acc.2)) acc

def ackTable (acc : Outbox × Bool) (sent : String × ℕ) : Outbox × Bool :=
  if acc.1.tableGenerations.get? sent.1 ≠ some sent.2 then acc
  else
    let dirty := acc.1.queue.dirtyTables.get? sent.1 = some true
    ({ acc.1 with
        queue := { acc.1.queue with
          dirtyTables := if dirty then acc.1.queue.dirtyTables.erase sent.1
            else acc.1.queue.dirtyTables }
        tableGenerations := acc.1.tableGenerations.erase sent.1 }, acc.2 || dirty)

def ackDelete (acc : Outbox × Bool) (sent : TableKey × ℕ) : Outbox × Bool :=
  let key : RecordKey := ⟨.delete, sent.1.1, sent.1.2⟩
  if acc.1.recordGenerations.get? key ≠ some sent.2 then acc
  else
    let dropped := dropDeletion sent.1.1 sent.1.2 acc.1
    (dropped |> forget key |> releaseBaseSnapshot sent.1.1 sent.1.2,
      acc.2 || acc.1.queue.deletes.length ≠ dropped.queue.deletes.length)

variable (receipt : Receipt)

/-- What `ack` does before it persists, with the flag `changed`. -/
def ackReceipt (o : Outbox) : Outbox × Bool :=
  let acc := ackRecords .upserts receipt.upserts (o, false)
  let acc := ackRecords .patches receipt.patches acc
  let acc := receipt.dirtyTables.entries.foldl ackTable acc
  receipt.deletes.entries.foldl ackDelete acc

/-- The end of `ack` and of `reject`: a changed queue gets a new payload id unless it is
empty, and is persisted. -/
def settle (acc : Outbox × Bool) : Outbox :=
  if acc.2 then
    persist opts (if mutationQueueHasChanges acc.1.queue then touchForNewPayload opts acc.1
      else acc.1)
  else acc.1

/-- `ack(receipt)`: the outbox and the returned flag. -/
def ack (o : Outbox) : Outbox × Bool :=
  if mutationQueueHasChanges o.queue then
    (settle opts (ackReceipt receipt o), (ackReceipt receipt o).2)
  else (o, false)

/-! ## Rejection -/

/-- An error of the server; a missing text is empty. -/
structure SyncError where
  table : String
  id : String
  code : String
  conflictingId : String
  deriving DecidableEq

/-- `resolveServerTable(error.table) || error.table`. -/
def errorTable (error : SyncError) : String :=
  if opts.resolveServerTable error.table ≠ "" then opts.resolveServerTable error.table
  else error.table

variable (errors : List SyncError)

/-- The keys the errors name, and whether some error names none. -/
def scopedErrors (state : Option WorkspaceState) (queue : MutationQueue) : List TableKey × Bool :=
  errors.foldl (fun acc error =>
    if errorTable opts error ≠ "" && error.id ≠ "" then
      (addKey acc.1 (errorTable opts error, error.id), acc.2)
    else
      let historical := historicalAggregateKeysForReceipt receipt queue state
      if error.code = "HISTORICAL_PARENT_IMMUTABLE" && !historical.isEmpty then
        (historical.foldl addKey acc.1, acc.2)
      else (acc.1, true)) ([], false)

/-- Whether a receipt has sent something for the record. -/
def receiptContains (key : TableKey) : Bool :=
  (receipt.upserts.get₂ key.1 key.2).isSome || (receipt.patches.get₂ key.1 key.2).isSome
    || (receipt.deletes.get? key).isSome

def receiptKeys : List TableKey :=
  receipt.upserts.entries₂.map (fun entry => (entry.1, entry.2.1))
    ++ receipt.patches.entries₂.map (fun entry => (entry.1, entry.2.1)) ++ receipt.deletes.keys.filter (·.1 ≠ "")

/-- One pass over the sent upserts that reaches what depends on a rejected record. -/
def rejectPass (o : Outbox) (rejected : List TableKey) : List TableKey × Bool :=
  receipt.upserts.entries₂.foldl (fun acc entry =>
    if (entry.1, entry.2.1) ∈ acc.1
        || o.recordGenerations.get? ⟨.upsert, entry.1, entry.2.1⟩ ≠ some entry.2.2 then acc
    else
      match o.queue.upserts.get₂ entry.1 entry.2.1 with
      | none => acc
      | some queued =>
        if (parentKeysForRecord entry.1 queued).any (· ∈ acc.1) then
          (acc.1 ++ [(entry.1, entry.2.1)], true)
        else acc) (rejected, false)

/-- What `reject` reports of one record. -/
structure RejectedRecord where
  type : String
  id : String
  operation : Operation
  newInsert : Option Bool
  conflictingId : String
  deriving DecidableEq

def rejectRecord (part : RecordMap) (sent : Option ℕ) (key : TableKey) (o : Outbox) : Option Outbox :=
  let recordKey : RecordKey := ⟨part.operation, key.1, key.2⟩
  if sent.isSome && o.recordGenerations.get? recordKey = sent && ((o.queue.records part).get₂ key.1 key.2).isSome then
    some (o |> eraseRecord part key.1 key.2 |> dropEmptyTable part key.1 |> forget recordKey)
  else none

/-- Take the sent deletion of a record back, when its generation is the sent one: the
outbox, and whether the queue had the deletion. -/
def rejectDelete (sent : Option ℕ) (key : TableKey) (o : Outbox) : Outbox × Bool :=
  let recordKey : RecordKey := ⟨.delete, key.1, key.2⟩
  if sent.isSome && o.recordGenerations.get? recordKey = sent then
    let dropped := dropDeletion key.1 key.2 o
    (forget recordKey dropped, o.queue.deletes.length ≠ dropped.queue.deletes.length)
  else (o, false)

/-- The operation `reject` takes back for one record: the upsert, else the patch, else the
deletion. -/
def rejectKey (key : TableKey) (o : Outbox) : Outbox × Option Operation :=
  if key.1 = "" || key.2 = "" then (o, none)
  else
    match rejectRecord .upserts (receipt.upserts.get₂ key.1 key.2) key o with
    | some taken => (releaseBaseSnapshot key.1 key.2 taken, some .upsert)
    | none =>
      match rejectRecord .patches (receipt.patches.get₂ key.1 key.2) key o with
      | some taken => (releaseBaseSnapshot key.1 key.2 taken, some .patch)
      | none =>
        let taken := rejectDelete (receipt.deletes.get? key) key o
        if taken.2 then (releaseBaseSnapshot key.1 key.2 taken.1, some .delete)
        else (taken.1, none)

/-- The report about a rejected record. -/
def rejectedRecord (key : TableKey) (operation : Operation) : RejectedRecord :=
  let sent := receipt.recordSnapshotUpserts.get₂ key.1 key.2
  let versioned := fun field => match sent.bind fun record => record.get? field with
    | none | some .null => false
    | some _ => true
  let isNew := !versioned "expectedVersion" && (sent.bind fun record => record.get? "rowVersion").isNone
    && (receipt.baseSnapshots.get₂ key.1 key.2).isNone
  { type := key.1
    id := key.2
    operation := operation
    newInsert := if operation = .upsert then some isNew else none
    conflictingId :=
      match (errors.filter fun error => errorTable opts error = key.1 && error.id = key.2).getLast? with
      | some error => error.conflictingId
      | none => "" }

/-- The keys `reject` takes back: those the errors name, the whole receipt when the caller
asks for it and the errors do not say enough, and what depends on them. -/
def rejectedKeys (fallbackToBatch : Bool) (state : Option WorkspaceState) (o : Outbox) : List TableKey × Bool :=
  let named := scopedErrors opts receipt errors state o.queue
  let entireReceipt := fallbackToBatch && !errors.isEmpty && (named.2 || !named.1.any (receiptContains receipt))
  let keys := if entireReceipt then (receiptKeys receipt).foldl addKey named.1 else named.1
  (saturate (rejectPass receipt o) (receipt.upserts.entries₂.length + 1) keys, entireReceipt)

/-- The loop of `reject` over the rejected keys. -/
def rejectKeys (keys : List TableKey) (o : Outbox) : Outbox × List RejectedRecord :=
  keys.foldl (fun acc key =>
    match rejectKey receipt key acc.1 with
    | (taken, none) => (taken, acc.2)
    | (taken, some operation) => (taken, acc.2 ++ [rejectedRecord opts receipt errors key operation])) (o, [])

/-- `reject(receipt, errors, { fallbackToBatch, state })`: the outbox and the reports. -/
def reject (fallbackToBatch : Bool) (state : Option WorkspaceState) (o : Outbox) : Outbox × List RejectedRecord :=
  let keys := rejectedKeys opts receipt errors fallbackToBatch state o
  let taken := rejectKeys opts receipt errors keys.1 o
  let acc := if keys.2 then
      receipt.dirtyTables.entries.foldl ackTable (taken.1, !taken.2.isEmpty)
    else (taken.1, !taken.2.isEmpty)
  (settle opts acc, taken.2)

/-- The record generations of a loaded map of records, all new. -/
def rebuildRecords (part : RecordMap) (o : Outbox) : Outbox :=
  (o.queue.records part).entries₂.foldl (fun o entry => bumpRecord ⟨part.operation, entry.1, entry.2.1⟩ o) o

def rebuildGenerations (o : Outbox) : Outbox :=
  let cleared := { o with recordGenerations := .empty, tableGenerations := .empty }
  let bumped := rebuildRecords .patches (rebuildRecords .upserts cleared)
  let bumped := (bumped.queue.deletes.filter fun item => item.table ≠ "" && item.id ≠ "").foldl
    (fun o item => bumpRecord ⟨.delete, item.table, item.id⟩ o) bumped
  bumped.queue.dirtyTables.entries.foldl (fun o entry =>
    if entry.2 then { o with
      generation := o.generation + 1
      tableGenerations := o.tableGenerations.set entry.1 (o.generation + 1) }
    else o) bumped

/-- The queue and the local deletions of `hydrate` and `restore`, with new generations. -/
def load (queue : Option MutationQueue) (localDeletions : List Deletion) (o : Outbox) : Outbox :=
  rebuildGenerations { o with
    queue := normalizeMutationQueue queue (opts.getBaseSyncVersion o.calls) (opts.createId o.calls)
    localDeletions := localDeletions
    calls := o.calls + 1 }

def restore (queue : Option MutationQueue) (localDeletions : List Deletion) (o : Outbox) : Outbox :=
  persist opts (load opts queue localDeletions o)

def discard (o : Outbox) : Outbox :=
  if !mutationQueueHasChanges o.queue && o.localDeletions.isEmpty then o else clear opts o

def renewClientMutationId (o : Outbox) : Outbox :=
  if mutationQueueHasChanges o.queue then persist opts (touchForNewPayload opts o) else o

end Outbox

/-- The calls that change an outbox, with what they are given from outside. -/
inductive Command where
  | upsert (table : String) (records baseRecords : List Record)
  | patch (table : String) (records baseRecords : List Record)
  | replaceTable (table : String) (records baseRecords : List Record)
  | delete (table : String) (records : List Record)
  | serverRowVersion (entries : List ServerRowVersion)
  | ackServerDeletions (deletions : List TableKey)
  | rebase (syncVersion : String)
  | repairDuplicatePlanVersions (state : WorkspaceState)
  | snapshotForSync (state : WorkspaceState)
  | ack (receipt : Receipt)
  | reject (receipt : Receipt) (errors : List Outbox.SyncError) (fallbackToBatch : Bool) (state : Option WorkspaceState)
  | hydrate (queue : Option MutationQueue) (localDeletions : List Deletion)
  | restore (queue : Option MutationQueue) (localDeletions : List Deletion)
  | discard
  | renewClientMutationId
  | retryPersistence

def step (opts : OutboxOptions) (o : Outbox) : Command → Outbox
  | .upsert table records bases => o.enqueue opts (Outbox.enqueueUpserts opts table records bases)
  | .patch table records bases => o.enqueue opts (Outbox.enqueuePatches opts table records bases)
  | .replaceTable table records bases => o.enqueue opts (Outbox.replaceTable opts table records bases)
  | .delete table records => o.enqueue opts (Outbox.enqueueDeletes opts table records)
  | .serverRowVersion entries => o.enqueue opts (Outbox.applyServerRowVersions opts entries)
  | .ackServerDeletions deletions => o.enqueue opts (Outbox.acknowledgeServerDeletions opts deletions)
  | .rebase syncVersion => o.enqueue opts (Outbox.rebase opts syncVersion)
  | .repairDuplicatePlanVersions state =>
    match o.repairDuplicatePlanVersions opts state with
    | none => o
    | some repaired => repaired.outbox
  | .snapshotForSync state => (o.snapshotForSync opts state).1
  | .ack receipt => (o.ack opts receipt).1
  | .reject receipt errors fallbackToBatch state => (o.reject opts receipt errors fallbackToBatch state).1
  | .hydrate queue localDeletions => o.load opts queue localDeletions
  | .restore queue localDeletions => o.restore opts queue localDeletions
  | .discard => o.discard opts
  | .renewClientMutationId => o.renewClientMutationId opts
  | .retryPersistence => o.persist opts

def run (opts : OutboxOptions) (o : Outbox) (commands : List Command) : Outbox :=
  commands.foldl (step opts) o

end Bidding
