import Bidding.Outbox.Model

/-!
# The durable store of the outbox

Every tab saves its outbox into one database record, by a three-way merge: the record found there, the request this tab
saved last, and the new one. `TableKey` stands for the text `table::id` of a deletion, `splitId` for the id of
`key.split("::")`.
-/

namespace Bidding

open Foundations

/-- An envelope: the saved form of an outbox. A missing list of local deletions is an envelope
of an older version. -/
structure Envelope where
  version : ℕ
  revision : ℕ
  savedAt : ℕ
  queue : Option MutationQueue
  localDeletions : Option (List Deletion)
  deriving DecidableEq

/-- `isMutationQueue(value)`, for a value that has the shape of a queue: no deletion has a blank
table or id. -/
def isMutationQueue (queue : MutationQueue) : Bool :=
  queue.deletes.all fun item => jsTrim item.table ≠ "" && jsTrim item.id ≠ ""

/-- `normalizeEnvelope(value)`: an envelope whose queue is not valid counts as none. -/
def normalizeEnvelope (value : Option Envelope) : Option Envelope :=
  value.filter fun envelope => envelope.queue.all isMutationQueue

def envelopeQueue (value : Option Envelope) : Option MutationQueue :=
  (normalizeEnvelope value).bind Envelope.queue

def deletionMap (values : List Deletion) : Dict TableKey Deletion :=
  .ofList (values.map fun item => ((item.table, item.id), item))

/-- `new Set([...a, ...b])` of two lists of keys. -/
def unionKeys {κ : Type} [DecidableEq κ] (a b : List κ) : List κ := a ++ b.filter (· ∉ a)

/-- The characters before the first separator `::`. -/
def beforeSeparator : List Char → List Char
  | ':' :: ':' :: _ => []
  | c :: rest => c :: beforeSeparator rest
  | [] => []

/-- The second part of `key.split("::")`. -/
def splitId (id : String) : String := .ofList (beforeSeparator id.toList)

/-- What the merge works on: the durable queue, and the records it has found authored or
unchanged by the request. -/
structure MergeState where
  queue : MutationQueue
  authored : List TableKey
  unchanged : List TableKey

def mergeUpsert (table : String) (before after : Dict String Record) (acc : MergeState) (id : String) : MergeState :=
  match after.get? id with
  | some record =>
    if before.get? id = some record then
      if acc.queue.upserts.get₂ table id = before.get? id then
        { acc with unchanged := acc.unchanged ++ [(table, id)] }
      else acc
    else
      { acc with
        queue := { acc.queue with
          upserts := acc.queue.upserts.set₂ table id record
          patches := (acc.queue.patches.erase₂ table id).dropIfEmpty table
          deletes := acc.queue.deletes.filter fun item => !item.names table id }
        authored := acc.authored ++ [(table, id)] }
  | none =>
    if acc.queue.upserts.get₂ table id = before.get? id then
      { acc with queue := { acc.queue with upserts := acc.queue.upserts.erase₂ table id } }
    else acc

variable (previous requested : TableRecords)

variable (acc : MergeState)

def mergeUpsertTable (table : String) : MergeState :=
  let before := (previous.get? table).getD .empty
  let after := (requested.get? table).getD .empty
  let merged := (unionKeys before.keys after.keys).foldl (mergeUpsert table before after) acc
  { merged with queue := { merged.queue with upserts := merged.queue.upserts.dropIfEmpty table } }

def mergeUpserts : MergeState :=
  (unionKeys previous.keys requested.keys).foldl (mergeUpsertTable previous requested) acc

def mergePatchField (before after : Record) (acc : Record × Record) (field : String) : Record × Record :=
  if field = "id" then acc
  else
    match after.get? field with
    | some value =>
      if before.get? field = some value then acc
      else (acc.1.set field value, acc.2.set field value)
    | none =>
      match acc.1.get? field with
      | none => acc
      | some value => if before.get? field = some value then (acc.1.erase field, acc.2) else acc

def mergePatchFields (durable before after : Record) : Record × Record :=
  (unionKeys before.keys after.keys).foldl (mergePatchField before after) (durable, .empty)

/-- `value?.id`, nothing when it is missing or `null`. -/
def patchId (patch : Option Record) : Option Value :=
  match patch.bind fun record => record.get? "id" with
  | some .null => none
  | other => other

def samePatchFields (left right : Option Record) : Bool :=
  match left, right with
  | some left, some right =>
    left.keys.length = right.keys.length && left.entries.all fun field => right.get? field.1 = some field.2
  | none, none => true
  | _, _ => false

def hasPatchFields (patch : Record) : Bool := patch.keys.any (· ≠ "id")

def mergePatch (table : String) (before after : Dict String Record) (acc : MergeState) (id : String) : MergeState :=
  let durable := acc.queue.patches.get₂ table id
  let unchanged :=
    if (after.get? id).isSome && samePatchFields (after.get? id) (before.get? id)
        && samePatchFields durable (before.get? id) then acc.unchanged ++ [(table, id)]
    else acc.unchanged
  let fields := mergePatchFields (durable.getD .empty) ((before.get? id).getD .empty) ((after.get? id).getD .empty)
  let authored := !fields.2.isEmpty
  let queue :=
    match (if authored then acc.queue.upserts.get₂ table id else none) with
    | some upsert => { acc.queue with
        upserts := acc.queue.upserts.set₂ table id (applyRecordPatch upsert fields.2)
        patches := acc.queue.patches.erase₂ table id }
    | none =>
      if hasPatchFields fields.1 then
        let idValue := (((patchId (after.get? id)).or (patchId durable)).or (patchId (before.get? id))).getD (.str id)
        { acc.queue with patches := acc.queue.patches.set₂ table id (fields.1.set "id" idValue) }
      else { acc.queue with patches := acc.queue.patches.erase₂ table id }
  { queue := if authored then
      { queue with deletes := queue.deletes.filter fun item => !item.names table id }
    else queue
    authored := if authored then acc.authored ++ [(table, id)] else acc.authored
    unchanged := unchanged }

def mergePatchTable (table : String) : MergeState :=
  let before := (previous.get? table).getD .empty
  let after := (requested.get? table).getD .empty
  let merged := (unionKeys before.keys after.keys).foldl (mergePatch table before after) acc
  { merged with queue := { merged.queue with patches := merged.queue.patches.dropIfEmpty table } }

def mergePatches : MergeState :=
  (unionKeys previous.keys requested.keys).foldl (mergePatchTable previous requested) acc

/-- One deletion. An authored deletion clears the upsert and the patch of the record whose id
is `splitId` of its own. -/
def mergeDeletion (before after : Dict TableKey Deletion)
    (acc : MergeState × Dict TableKey Deletion) (key : TableKey) : MergeState × Dict TableKey Deletion :=
  match after.get? key with
  | some item =>
    if before.get? key = some item then
      if acc.2.get? key = before.get? key then
        ({ acc.1 with unchanged := acc.1.unchanged ++ [key] }, acc.2)
      else acc
    else
      ({ acc.1 with
          queue := { acc.1.queue with
            upserts := (acc.1.queue.upserts.erase₂ key.1 (splitId key.2)).dropIfEmpty key.1
            patches := (acc.1.queue.patches.erase₂ key.1 (splitId key.2)).dropIfEmpty key.1 }
          authored := acc.1.authored ++ [key] }, acc.2.set key item)
  | none => if acc.2.get? key = before.get? key then (acc.1, acc.2.erase key) else acc

/-- All deletions, with the resulting map of deletions. -/
def mergeDeletions (previous requested : List Deletion) (acc : MergeState) : MergeState × Dict TableKey Deletion :=
  let before := deletionMap previous
  let after := deletionMap requested
  let merged := (unionKeys before.keys after.keys).foldl (mergeDeletion before after) (acc, deletionMap acc.queue.deletes)
  ({ merged.1 with queue := { merged.1.queue with deletes := merged.2.values } }, merged.2)

def mergeBaseSnapshot (key : TableKey) : MergeState :=
  let authored : Bool := key ∈ acc.authored
  let before := previous.get₂ key.1 key.2
  let after := requested.get₂ key.1 key.2
  let durable := acc.queue.baseSnapshots.get₂ key.1 key.2
  if !authored && (key ∉ acc.unchanged || after = before) then acc
  else if durable ≠ before && !(authored && durable.isNone) then acc
  else
    match after with
    | some base => { acc with queue := { acc.queue with
        baseSnapshots := acc.queue.baseSnapshots.set₂ key.1 key.2 base } }
    | none => { acc with queue := { acc.queue with
        baseSnapshots := acc.queue.baseSnapshots.erase₂ key.1 key.2 } }

/-- All base snapshots; those without a pending operation are dropped. -/
def mergeBaseSnapshots (acc : MergeState × Dict TableKey Deletion) : MutationQueue :=
  let keys := unionKeys (previous.entries₂.map fun entry => (entry.1, entry.2.1))
    (requested.entries₂.map fun entry => (entry.1, entry.2.1))
  let queue := (keys.foldl (mergeBaseSnapshot previous requested) acc.1).queue
  { queue with
    baseSnapshots := queue.baseSnapshots.filter₂ fun table id =>
      (queue.upserts.get₂ table id).isSome || (queue.patches.get₂ table id).isSome
        || acc.2.contains (table, id) }

def mergeDirtyTables (previous requested current : Dict String Bool) : Dict String Bool :=
  (unionKeys previous.keys requested.keys).foldl (fun current table =>
    match requested.get? table with
    | some dirty => current.set table dirty
    | none => if current.get? table = previous.get? table then current.erase table else current)
    current

def firstText (texts : List String) : String := (texts.find? (· ≠ "")).getD ""

def mergeMutationQueue (currentQueue previousQueue requestedQueue : Option MutationQueue) : MutationQueue :=
  let base := fun queue : Option MutationQueue => (queue.map MutationQueue.baseSyncVersion).getD ""
  let client := fun queue : Option MutationQueue => (queue.map MutationQueue.clientMutationId).getD ""
  let current := normalizeMutationQueue currentQueue (firstText [base requestedQueue, base previousQueue, "0"])
    (firstText [client requestedQueue, client previousQueue])
  let previous := previousQueue.getD (createEmptyMutationQueue "" "")
  let requested := requestedQueue.getD (createEmptyMutationQueue "" "")
  let upserted := mergeUpserts previous.upserts requested.upserts ⟨current, [], []⟩
  let patched := mergePatches previous.patches requested.patches upserted
  let deleted := mergeDeletions previous.deletes requested.deletes patched
  let merged := mergeBaseSnapshots previous.baseSnapshots requested.baseSnapshots deleted
  { merged with
    dirtyTables := mergeDirtyTables previous.dirtyTables requested.dirtyTables merged.dirtyTables
    baseSyncVersion := firstText [base requestedQueue, merged.baseSyncVersion, "0"]
    clientMutationId := firstText [client requestedQueue, merged.clientMutationId]
    revision := max merged.revision ((requestedQueue.map MutationQueue.revision).getD 0) }

def mergeLocalDeletions (currentValues previousValues requestedValues : List Deletion) : List Deletion :=
  let previous := deletionMap previousValues
  let requested := deletionMap requestedValues
  ((unionKeys previous.keys requested.keys).foldl (fun (current : Dict TableKey Deletion) key =>
    match requested.get? key with
    | some item => if previous.get? key = some item then current else current.set key item
    | none => if current.get? key = previous.get? key then current.erase key else current)
    (deletionMap currentValues)).values

def mergeEnvelope (currentValue previousValue requestedValue : Option Envelope) (savedAt : ℕ) : Envelope :=
  let current := normalizeEnvelope currentValue
  let previous := normalizeEnvelope previousValue
  let requested := normalizeEnvelope requestedValue
  let queue := mergeMutationQueue (current.bind Envelope.queue) (previous.bind Envelope.queue) (requested.bind Envelope.queue)
  let locals := fun envelope : Option Envelope => (envelope.bind Envelope.localDeletions).getD []
  let revision := fun envelope : Option Envelope => (envelope.map Envelope.revision).getD 0
  { version := 1
    revision := max (revision current) (max (revision previous) (revision requested)) + 1
    savedAt := savedAt
    queue := some queue
    localDeletions := some ((mergeLocalDeletions (locals current) (locals previous)
      (locals requested)).filter fun item =>
        (queue.upserts.get₂ item.table item.id).isNone
          && (queue.patches.get₂ item.table item.id).isNone) }

/-- The store of one tab. -/
structure TabStore where
  revision : ℕ
  persistedRequestEnvelope : Option Envelope

structure SharedStore (τ : Type) where
  durable : Option Envelope
  tabs : τ → TabStore

def SharedStore.empty {τ : Type} : SharedStore τ := ⟨none, fun _ => ⟨0, none⟩⟩

namespace SharedStore

variable {τ : Type} [DecidableEq τ]

variable (store : SharedStore τ)

def requestEnvelope (tab : τ) (queue : Option MutationQueue) (localDeletions : List Deletion) (now : ℕ) : Envelope :=
  ⟨1, (store.tabs tab).revision + 1, now, queue, some localDeletions⟩

/-- `persist(queue, localDeletions)` of one tab, as the one atomic update of the database it
ends in. -/
def persist (tab : τ) (queue : Option MutationQueue) (localDeletions : List Deletion) (now : ℕ) : SharedStore τ :=
  let requested := store.requestEnvelope tab queue localDeletions now
  let durable := mergeEnvelope store.durable (store.tabs tab).persistedRequestEnvelope (some requested) now
  { durable := some durable
    tabs := Function.update store.tabs tab
      ⟨max requested.revision durable.revision, some requested⟩ }

/-- `hydrate()` of one tab: its base is the record it has read. -/
def hydrate (tab : τ) : SharedStore τ :=
  let selected := normalizeEnvelope store.durable
  let loaded : TabStore :=
    ⟨max (store.tabs tab).revision ((selected.map Envelope.revision).getD 0), selected⟩
  { store with tabs := Function.update store.tabs tab loaded }

end SharedStore

inductive StoreStep (τ : Type) where
  | persist (tab : τ) (queue : Option MutationQueue) (localDeletions : List Deletion) (now : ℕ)
  | hydrate (tab : τ)

def SharedStore.step {τ : Type} [DecidableEq τ] (store : SharedStore τ) : StoreStep τ → SharedStore τ
  | .persist tab queue localDeletions now => store.persist tab queue localDeletions now
  | .hydrate tab => store.hydrate tab

def SharedStore.run {τ : Type} [DecidableEq τ] (store : SharedStore τ) (steps : List (StoreStep τ)) : SharedStore τ :=
  steps.foldl SharedStore.step store

end Bidding
