import Bidding.Foundations.Json

/-!
# The mutation queue

Three maps of pending operations by table and record id, the base snapshots beside them, and the receipt that remembers
what a push has sent. The triple `RecordKey` stands for the text `operation:table:id`, since the table names are fixed
words without a colon.
-/

namespace Bidding

open Foundations

abbrev TableRecords := Dict String (Dict String Record)

abbrev WorkspaceState := Dict String (List Record)

def stateTable (state : WorkspaceState) (table : String) : List Record :=
  (state.get? table).getD []

variable (record : Record)

/-- `String(record.id)`. -/
def recordId : String :=
  match record.get? "id" with
  | none => "undefined"
  | some v => v.jsString

/-- `String(value || "")` of a field of a record. -/
def fieldText (field : String) : String :=
  match record.get? field with
  | none => ""
  | some v => if v.jsTruthy then v.jsString else ""

/-- `if (record.field)`. -/
def fieldTruthy (field : String) : Bool :=
  match record.get? field with
  | none => false
  | some v => v.jsTruthy

/-- Whether a value is neither missing nor `null` nor written as the empty text. -/
def presentText : Option Value → Option String
  | none => none
  | some .null => none
  | some v => if v.jsString = "" then none else some v.jsString

def hasRecordId : Bool := (presentText (record.get? "id")).isSome

/-- A record addressed by table and id, the text `table:id` of the program. -/
abbrev TableKey := String × String

inductive Operation where
  | upsert
  | patch
  | delete
  deriving DecidableEq

structure RecordKey where
  operation : Operation
  table : String
  id : String
  deriving DecidableEq

/-- An entry of `queue.deletes` and of the local deletions. -/
structure Deletion where
  table : String
  id : String
  expectedVersion : Option Int
  deriving DecidableEq

def Deletion.names (item : Deletion) (table id : String) : Bool := item.table = table && item.id = id

/-- The mutation queue. -/
structure MutationQueue where
  baseSyncVersion : String
  clientMutationId : String
  dirtyTables : Dict String Bool
  upserts : TableRecords
  patches : TableRecords
  baseSnapshots : TableRecords
  deletes : List Deletion
  revision : ℕ
  deriving DecidableEq

def createEmptyMutationQueue (baseSyncVersion clientMutationId : String) : MutationQueue where
  baseSyncVersion := if baseSyncVersion = "" then "0" else baseSyncVersion
  clientMutationId := clientMutationId
  dirtyTables := .empty
  upserts := .empty
  patches := .empty
  baseSnapshots := .empty
  deletes := []
  revision := 0

/-- `normalizeMutationQueue(queue, { baseSyncVersion, createId })`: a missing queue is the
empty one, and a queue without a mutation id gets a new one. -/
def normalizeMutationQueue (queue : Option MutationQueue) (baseSyncVersion createdId : String) : MutationQueue :=
  let normalized := queue.getD (createEmptyMutationQueue baseSyncVersion createdId)
  { normalized with
    clientMutationId :=
      if normalized.clientMutationId = "" then createdId else normalized.clientMutationId }

variable (queue : MutationQueue)

def mutationQueueHasChanges : Bool :=
  queue.dirtyTables.values.any id || queue.upserts.hasEntries || queue.patches.hasEntries
    || !queue.deletes.isEmpty

def patchAuthoritativeFields : List String :=
  ["id", "rootId", "rowVersion", "organizationId", "ownerType", "syncVersion", "createdAt", "archivedAt"]

/-- `applyRecordPatch(canonical, patch)`: the patched fields over the canonical record, but
never an authoritative one. The second loop of the source writes the canonical values of
the authoritative fields back; the first has not touched them. -/
def applyRecordPatch (canonical patch : Record) : Record :=
  let merged := canonical.spread (patch.filterKeys fun field => field ∉ patchAuthoritativeFields)
  patchAuthoritativeFields.foldl (fun merged field =>
    match canonical.get? field with
    | none => merged
    | some value => merged.set field value) merged

/-- What a push has sent: for every pending operation the generation it was sent at. The
deletions are kept under the record key text of the deletion, here the pair of its table and
id. -/
structure Receipt where
  clientMutationId : String
  revision : ℕ
  upserts : Dict String (Dict String ℕ)
  patches : Dict String (Dict String ℕ)
  deletes : Dict TableKey ℕ
  dirtyTables : Dict String ℕ
  recordSnapshotUpserts : TableRecords
  recordSnapshotPatches : TableRecords
  baseSnapshots : TableRecords
  deriving DecidableEq

/-- The operations a payload carries. -/
structure SentOperations where
  dirtyTables : List String
  upserts : List (String × String)
  patches : List (String × String)
  deletes : List TableKey
  deriving DecidableEq

def filterReceiptBySentOperations (snapshot : Receipt) (sent : SentOperations) : Receipt :=
  { snapshot with
    upserts := snapshot.upserts.filter₂ fun table id => (table, id) ∈ sent.upserts
    patches := snapshot.patches.filter₂ fun table id => (table, id) ∈ sent.patches
    recordSnapshotUpserts :=
      snapshot.recordSnapshotUpserts.filter₂ fun table id => (table, id) ∈ sent.upserts
    recordSnapshotPatches :=
      snapshot.recordSnapshotPatches.filter₂ fun table id => (table, id) ∈ sent.patches
    baseSnapshots := snapshot.baseSnapshots.filter₂ fun table id => (table, id) ∈ sent.upserts || (table, id) ∈ sent.patches
    deletes := snapshot.deletes.filterKeys fun key => key ∈ sent.deletes
    dirtyTables := snapshot.dirtyTables.filterKeys fun table => table ∈ sent.dirtyTables }

/-- A push payload. -/
structure Payload where
  clientMutationId : String
  baseSyncVersion : String
  tables : Dict String (List Record)
  deletions : List Deletion
  deriving DecidableEq

/-- What `buildMutationPayload` has collected so far: the tables of the payload and the
operations it sends. -/
structure PayloadDraft where
  tables : Dict String (List Record)
  sent : SentOperations

variable (state : WorkspaceState)

variable (isSyncedType : String → Bool)

variable (normalizeRecord : Record → String → Record)

variable (draft : PayloadDraft)

/-- The tables sent whole because they are dirty. -/
def addDirtyTables : PayloadDraft :=
  queue.dirtyTables.entries.foldl (fun draft entry =>
    if !entry.2 || !isSyncedType entry.1 then draft
    else
      { tables := draft.tables.set entry.1
          ((stateTable state entry.1).map fun record => normalizeRecord record entry.1)
        sent := { draft.sent with dirtyTables := draft.sent.dirtyTables ++ [entry.1] } }) draft

/-- The queued records of the tables that are not sent whole. -/
def addUpserts : PayloadDraft :=
  queue.upserts.entries.foldl (fun draft entry =>
    if !isSyncedType entry.1 || draft.tables.contains entry.1 then draft
    else if entry.2.isEmpty then draft
    else
      { tables := draft.tables.set entry.1
          (entry.2.values.map fun record => normalizeRecord record entry.1)
        sent := { draft.sent with
          upserts := draft.sent.upserts ++ (entry.2.keys.filter (· ≠ "")).map fun id => (entry.1, id) } }) draft

/-- The records of a list by `String(record?.id || "")`, a later one over an earlier one. -/
def recordsById (records : List Record) : Dict String Record :=
  Dict.ofList (records.map fun record => (fieldText record "id", record))

def canonicalRecord (table : String) (patch : Record) : Option Record :=
  ((stateTable state table).filter fun record =>
    match record.get? "id" with
    | none => false
    | some v => v ≠ .null && v.jsString = fieldText patch "id").getLast?

def addPatches : PayloadDraft :=
  queue.patches.entries.foldl (fun draft entry =>
    if !isSyncedType entry.1 then draft
    else
      let found := entry.2.entries.filterMap fun item =>
        (canonicalRecord state entry.1 item.2).map fun canonical =>
          (item.1, normalizeRecord (applyRecordPatch canonical item.2) entry.1)
      let sent := { draft.sent with
        patches := draft.sent.patches ++ ((found.map Prod.fst).filter (· ≠ "")).map fun id => (entry.1, id) }
      if found.isEmpty then { draft with sent := sent }
      else
        let existing := recordsById ((draft.tables.get? entry.1).getD [])
        { tables := draft.tables.set entry.1
            ((found.map Prod.snd).foldl
              (fun byId record => byId.set (recordId record) record) existing).values
          sent := sent }) draft

/-- The deletions of a payload: one for every record, the last one listed. -/
def payloadDeletions (deletions : List Deletion) : List Deletion :=
  (Dict.ofList ((deletions.filter fun item => item.table ≠ "" && item.id ≠ "").map fun item =>
    ((item.table, item.id), item))).values

/-- `buildMutationPayload({ … })`: the payload of a push and the receipt of what it sends,
or nothing when there is nothing to send. -/
def buildMutationPayload (localDeletions : List Deletion) (isSyncedType : String → Bool)
    (normalizeRecord : Record → String → Record) (snapshot : Receipt) : Option (Payload × Receipt) :=
  let draft := addPatches queue state isSyncedType normalizeRecord <|
    addUpserts queue isSyncedType normalizeRecord <|
    addDirtyTables queue state isSyncedType normalizeRecord ⟨.empty, ⟨[], [], [], []⟩⟩
  let sent := { draft.sent with
    deletes := (queue.deletes.filter fun item => item.table ≠ "" && item.id ≠ "").map fun item => (item.table, item.id) }
  let deletions := payloadDeletions (queue.deletes ++ localDeletions)
  if draft.tables.isEmpty && deletions.isEmpty then none
  else some
    ({ clientMutationId := queue.clientMutationId
       baseSyncVersion := queue.baseSyncVersion
       tables := draft.tables
       deletions := deletions }, filterReceiptBySentOperations snapshot sent)

theorem empty_of_not_hasChanges {queue : MutationQueue} (h : mutationQueueHasChanges queue = false) :
    (∀ table id, queue.upserts.get₂ table id = none) ∧
    (∀ table id, queue.patches.get₂ table id = none) ∧ queue.deletes = [] := by
  simp only [mutationQueueHasChanges, Bool.or_eq_false_iff, Bool.not_eq_false', List.isEmpty_iff] at h
  obtain ⟨⟨⟨-, hu⟩, hp⟩, hd⟩ := h
  have none_of : ∀ d : TableRecords, d.hasEntries = false → ∀ table id, d.get₂ table id = none := by
    intro d hd table id
    rw [← Bool.not_eq_true, Dict.hasEntries_iff] at hd
    exact Option.eq_none_iff_forall_ne_some.mpr fun v hv => hd ⟨table, id, v, hv⟩
  exact ⟨none_of _ hu, none_of _ hp, hd⟩

end Bidding
