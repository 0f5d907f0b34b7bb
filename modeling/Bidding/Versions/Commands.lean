import Bidding.Versions.Rows

/-!
# The commands on a versioned table

A sync batch writes records, recalculates the flags of the families it touched, applies its deletions and recalculates
again; a restore brings a deleted record back. A command that is refused changes nothing.
-/

namespace Bidding.Versions

open Foundations

/-- A row of `deleted_records`; the snapshot is missing where only a marker was written. -/
structure Tombstone where
  deleteVersion : ℕ
  snapshot : Option VersionRow
  deriving DecidableEq

structure Store (t : VersionedTable) where
  rows : Rows t
  tombstones : Dict String Tombstone

/-! ## Writing records -/

/-- A canonical record of the payload, with the fields versioning reads; a column the record does
not carry is `none`. -/
structure VersionItem where
  id : Scalar
  rootId : Scalar
  keHoachId : Scalar
  phienBan : Option ℕ
  archivedAt : Option (Option ℕ)
  expectedVersion : Option ℕ

/-- The write of a record: the id drawn for a record without one, and whether the statement meets
a foreign key that is not there. -/
structure Write where
  item : VersionItem
  generatedId : String
  generated_stored : IsStoredId generatedId
  missingParent : Bool

/-- `db_row_data`; a column that is not written is `none`. -/
structure RowData where
  id : String
  idGoc : Option String
  keHoachId : Option String
  phienBan : Option ℕ
  archivedAt : Option (Option ℕ)

/-- `serialize`, on these columns. -/
def Write.serialize (w : Write) (previous : Option VersionRow) : RowData where
  id := (idOf w.item.id).getD w.generatedId
  idGoc := ((idOf w.item.rootId).or (previous.bind fun r => (r.idGoc.map Scalar.str).bind idOf)).or (idOf w.item.id)
  keHoachId := idOf w.item.keHoachId
  phienBan := w.item.phienBan
  archivedAt := w.item.archivedAt

variable {t : VersionedTable}

/-- The checks of the validator that read the row and the tombstone of the record. -/
def Write.validates (w : Write) (start : Store t) : Bool :=
  match idOf w.item.id with
  | none => true
  | some id =>
    match start.rows.find? id with
    | some stored =>
      stored.archivedAt.isNone && (!t.immutableHistory || stored.isLatest) && w.item.expectedVersion = some stored.rowVersion
    | none => (start.tombstones.get? id).isNone && w.item.expectedVersion.isNone

/-- The family `track_record` notes for a record given by its columns. -/
def trackedFamily (t : VersionedTable) (id : String) (idGoc keHoachId : Option String) : Option Family :=
  ((idGoc.bind fun root => if root = "" then none else idOf (.str root)).or (idOf (.str id))).map
    fun root => (root, if t.isPackage then ((keHoachId.map Scalar.str).bind idOf).getD "" else "")

structure Progress (t : VersionedTable) where
  store : Store t
  affected : List Family

/-- `DELETED_RECORD_UPSERT_SQL`: a snapshot that is there stays. -/
def markDeleted (tombstones : Dict String Tombstone) (id : String) (version : ℕ) : Dict String Tombstone :=
  match tombstones.get? id with
  | some old => tombstones.set id { old with deleteVersion := max old.deleteVersion version }
  | none => tombstones.set id ⟨version, none⟩

variable (now : ℕ)

/-- The update of a stored row: the columns the record carries. `bf_set_lineage` refuses a new
lineage root. -/
def updatedRow (data : RowData) (expected : ℕ) (r : VersionRow) : VersionRow :=
  { r with
    idGoc := data.idGoc
    keHoachId := data.keHoachId.or r.keHoachId
    phienBan := data.phienBan.getD r.phienBan
    isLatest := false
    archivedAt := data.archivedAt.getD r.archivedAt
    updatedAt := now
    rowVersion := expected + 1 }

/-- The row of a new record, with the defaults of the columns it does not carry. -/
def insertedRow (data : RowData) : VersionRow where
  id := data.id
  idGoc := data.idGoc
  keHoachId := data.keHoachId
  phienBan := data.phienBan.getD 0
  isLatest := false
  archivedAt := data.archivedAt.getD none
  updatedAt := now
  rowVersion := 1

def lineageKept (r : VersionRow) (data : RowData) : Bool :=
  match r.idGoc with
  | some root => pyStrip root = "" || data.idGoc = some root
  | none => true

/-- `SyncRecordWriter.write` for one record of the batch. `defer_version_latest_flag` has staged
the flag as 0. A write that misses its parent leaves a tombstone, and only packages are allowed
to. -/
def writeItem (start : Store t) (now version : ℕ) (p : Progress t) (w : Write) : Option (Progress t) :=
  let previous := (idOf w.item.id).bind start.rows.find?
  let data := w.serialize previous
  if w.missingParent then
    if t.isPackage then
      some { p with store := { p.store with
        tombstones := markDeleted p.store.tombstones data.id version } }
    else none
  else
    let written : Option (Rows t) :=
      -- an id that was drawn belongs to no row
      match (idOf w.item.id).bind p.store.rows.find? with
      | some stored =>
        match w.item.expectedVersion with
        | some expected =>
          if expected = stored.rowVersion ∧ lineageKept stored data = true then
            p.store.rows.update data.id (updatedRow now data expected)
          else none
        | none => none
      | none => p.store.rows.insert (insertedRow now data)
    written.map fun rows =>
      ⟨{ p.store with rows := rows }, p.affected ++ (previous.bind fun r => trackedFamily t r.id r.idGoc r.keHoachId).toList
        ++ (trackedFamily t data.id data.idGoc data.keHoachId).toList⟩

/-- A deletion of the payload. `referenced` tells whether another record points at the target,
`version` is the version its tombstone gets. -/
structure Deletion where
  id : Scalar
  expectedVersion : Option ℕ
  referenced : Bool
  version : ℕ

def entomb (tombstones : Dict String Tombstone) (id : String) (version : ℕ) (record : VersionRow) : Dict String Tombstone :=
  tombstones.set id ⟨max (((tombstones.get? id).map Tombstone.deleteVersion).getD 0) version, some record⟩

/-- `archive_versioned_record`. -/
def archivedRow (r : VersionRow) : VersionRow :=
  { r with archivedAt := some now, isLatest := false, updatedAt := now }

/-- `apply_sync_deletions` for one deletion: a record that is referenced is archived, another one
is deleted. -/
def applyDeletion (p : Progress t) (d : Deletion) : Option (Progress t) :=
  match idOf d.id with
  | none => some p
  | some id =>
    match p.store.rows.find? id with
    | none => some p
    | some record =>
      if d.expectedVersion ≠ some record.rowVersion then none
      else if record.archivedAt.isSome then some p
      else
        let affected := p.affected ++ (trackedFamily t record.id record.idGoc record.keHoachId).toList
        if d.referenced then
          (p.store.rows.update id (archivedRow now)).map fun rows =>
            ⟨⟨rows, entomb p.store.tombstones id d.version
              { record with archivedAt := some now }⟩, affected⟩
        else
          (p.store.rows.delete id).map fun rows => ⟨⟨rows, entomb p.store.tombstones id d.version record⟩, affected⟩

/-- A sync batch, as far as it concerns one versioned table. `refused` tells whether any check
not modelled here refuses it; `touched` are the rows that get a new `updated_at` in passing, as
plans do when their total is recalculated. -/
structure SyncBatch where
  refused : Bool
  now : ℕ
  version : ℕ
  writes : List Write
  deletions : List Deletion
  touched : List String

def touch (touched : List String) (r : VersionRow) : VersionRow :=
  if r.id ∈ touched then { r with updatedAt := now } else r

variable (collation : Collation)

/-- `execute_sync_mutation`; nothing where the batch is rolled back. -/
def SyncBatch.execute (b : SyncBatch) (s : Store t) : Option (Store t) :=
  if b.refused || !b.writes.all fun w => w.validates s then none
  else
    (b.writes.foldlM (writeItem s b.now b.version) ⟨s, []⟩).bind fun written =>
    (recalculateIsLatest collation b.now written.affected written.store.rows).bind fun rows =>
    (b.deletions.foldlM (applyDeletion b.now) ⟨⟨rows, written.store.tombstones⟩, written.affected⟩).bind fun deleted =>
    (recalculateIsLatest collation b.now deleted.affected deleted.store.rows).bind fun rows =>
    (Rows.checked (rows.list.map (touch b.now b.touched))).map fun rows => ⟨rows, deleted.store.tombstones⟩

/-- A restore command. `refused` tells whether the checks of the actor, the reason or the
mutation id refuse it. -/
structure Restore where
  refused : Bool
  recordId : String
  expectedDeleteVersion : ℕ
  now : ℕ

/-- The row a restore leaves for its record: the archived row, or the snapshot of a deleted one,
in both cases with the flag set. -/
def Restore.restoredRow (cmd : Restore) (s : Store t) : Option VersionRow :=
  if cmd.refused then none
  else
    (s.tombstones.get? cmd.recordId).bind fun tombstone =>
      if tombstone.deleteVersion ≠ cmd.expectedDeleteVersion then none
      else
        tombstone.snapshot.bind fun snapshot =>
          match s.rows.find? cmd.recordId with
          | some existing =>
            if existing.archivedAt.isNone then none
            else some { existing with
              archivedAt := none, isLatest := true, updatedAt := cmd.now,
              rowVersion := existing.rowVersion + 1 }
          | none => some (setLineage { snapshot with
              id := cmd.recordId, archivedAt := none, isLatest := true, updatedAt := cmd.now,
              rowVersion := snapshot.rowVersion + 1 })

/-- The rows after the statement of a restore whose checks pass: an update where the row is still
there, else an insert. -/
def Restore.restoredRows (cmd : Restore) (s : Store t) : Option (List VersionRow) :=
  (cmd.restoredRow s).map fun restored =>
    match s.rows.find? cmd.recordId with
    | some _ => s.rows.list.map fun r => if r.id = cmd.recordId then restored else r
    | none => s.rows.list ++ [restored]

/-- `restore_tombstoned_record`; nothing where the command is refused or its statement fails. -/
def Restore.execute (cmd : Restore) (s : Store t) : Option (Store t) :=
  (cmd.restoredRows s).bind fun list =>
    (Rows.checked list).map fun rows => ⟨rows, s.tombstones.erase cmd.recordId⟩

inductive Command where
  | sync (batch : SyncBatch)
  | restore (restore : Restore)

def Store.run (s : Store t) : Command → Store t
  | .sync batch => (batch.execute collation s).getD s
  | .restore restore => (restore.execute s).getD s

def Store.runAll (s : Store t) (commands : List Command) : Store t :=
  commands.foldl (Store.run collation) s

end Bidding.Versions
