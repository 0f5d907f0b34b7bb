import Bidding.Delta.Access

/-!
# Deletions of a sync batch

`apply_sync_deletions` on the tables of one workspace, with the assignments of a record, the rows a foreign key takes along
and the tombstones. What other rules decide about a deletion is a `Verdict` that comes with it.
-/

namespace Bidding.Delta

open Foundations List

variable (r : LiveRow) {name other : String} {value : Scalar}

def LiveRow.Stored : Prop :=
  (r.columns.getValue "id" = .str r.id ∧ IsStoredId r.id) ∧
    ∀ id, column r.columns "goi_thau_id" = some id → IsStoredId id

def StoredRow : Type := {r : LiveRow // r.Stored}

theorem Database.stored (db : Database) {t : TableKey} {r : LiveRow} (h : r ∈ db.rows t) : r.Stored :=
  ⟨db.row_id t r h, db.row_package t r h⟩

def LiveRow.setColumn (name : String) (value : Scalar) : LiveRow :=
  { r with columns := r.columns.set name value }

theorem getValue_setColumn {r : LiveRow} (h : other ≠ name) :
    (r.setColumn name value).columns.getValue other = r.columns.getValue other := by
  rw [Fields.getValue, Fields.getValue, LiveRow.setColumn, Dict.get?_set_of_ne _ _ h]

theorem column_setColumn {r : LiveRow} (h : other ≠ name) :
    column (r.setColumn name value).columns other = column r.columns other := by
  rw [column, column, getValue_setColumn h]

theorem LiveRow.Stored.setColumn {r : LiveRow} (h : r.Stored)
    (hid : "id" ≠ name) (hpackage : "goi_thau_id" ≠ name) : (r.setColumn name value).Stored := by
  refine ⟨⟨?_, h.1.2⟩, ?_⟩
  · rw [getValue_setColumn hid]
    exact h.1.1
  · rw [column_setColumn hpackage]
    exact h.2

/-- `int(record.get("row_version") or 1)`, of a column of integers. -/
def LiveRow.rowVersion : ℤ :=
  match r.columns.getValue "row_version" with
  | .int n => if n = 0 then 1 else n
  | _ => 1

/-- `bool(record.get("archived_at"))`. -/
def LiveRow.archived : Bool := (r.columns.getValue "archived_at").truthy

/-! ## Statements -/

namespace Database

variable (db : Database)

variable (t : TableKey)

/-- `DELETE` of one row, without what its triggers do. -/
def removeRow (r : LiveRow) : Database where
  rows u := if u = t then (db.rows u).filter fun r' => r' ≠ r else db.rows u
  tombstones := db.tombstones
  currentVersion := db.currentVersion
  minAvailableVersion := db.minAvailableVersion
  nodup_ids u := by
    split
    · exact (db.nodup_ids u).sublist (filter_sublist.map _)
    · exact db.nodup_ids u
  nodup_tombstones := db.nodup_tombstones
  row_id u r' hr' := db.row_id u r' (by split at hr' <;> simp_all)
  snapshot_id := db.snapshot_id
  row_package u r' hr' := db.row_package u r' (by split at hr' <;> simp_all)
  snapshot_package := db.snapshot_package

/-- The `delete_version` the tombstone of a record has; 0 where it has none. -/
def deleteVersion (id : String) : ℕ :=
  ((db.tombstones.find? fun d => d.table = t ∧ d.recordId = id).map Tombstone.version).getD 0

/-- The tombstone of a record, written over the one it has. -/
def putTombstone (r : StoredRow) (version : ℕ) : Database where
  rows := db.rows
  tombstones := ⟨t, r.val.id, max (db.deleteVersion t r.val.id) version, r.val.columns⟩ ::
    db.tombstones.filter fun d => ¬ (d.table = t ∧ d.recordId = r.val.id)
  currentVersion := db.currentVersion
  minAvailableVersion := db.minAvailableVersion
  nodup_ids := db.nodup_ids
  nodup_tombstones := by
    rw [map_cons, nodup_cons]
    refine ⟨?_, (db.nodup_tombstones).sublist (filter_sublist.map _)⟩
    intro hmem
    obtain ⟨d, hd, hkey⟩ := mem_map.mp hmem
    have hother := (mem_filter.mp hd).2
    simp_all
  row_id := db.row_id
  snapshot_id d hd := by
    rcases mem_cons.mp hd with rfl | hd
    · exact ⟨r.property.1.2, fun _ => r.property.1.1⟩
    · exact db.snapshot_id d (mem_filter.mp hd).1
  row_package := db.row_package
  snapshot_package d hd := by
    rcases mem_cons.mp hd with rfl | hd
    · exact r.property.2
    · exact db.snapshot_package d (mem_filter.mp hd).1

def advanceVersion : Database := { db with currentVersion := db.currentVersion + 1 }

/-- `DELETE` of one row with `bf_log_synced_delete`; nothing where the row is gone. -/
def deleteRow (r : LiveRow) : Database :=
  if h : r ∈ db.rows t then
    ((db.removeRow t r).advanceVersion).putTombstone t ⟨r, db.stored h⟩ (db.currentVersion + 1)
  else db

/-- `DELETE` of several rows. -/
def deleteRows (rows : List (TableKey × LiveRow)) : Database :=
  rows.foldl (fun db e => db.deleteRow e.1 e.2) db

def rowsWith (name text : String) : List (TableKey × LiveRow) :=
  ((db.rows t).filter fun r => column r.columns name = some text).map fun r => (t, r)

def deleteAssignmentDependents (id : String) : Database :=
  match t.assignedType with
  | none => db
  | some type => db.deleteRows ((db.rowsWith .assignments "id_muc_tieu" id).filter fun e =>
      column e.2.columns "loai_doi_tuong" = some type)

/-- The synced rows the foreign keys delete with a record. -/
def cascade (id : String) : List (TableKey × LiveRow) :=
  match t with
  | .goithau => db.rowsWith .goithauhanghoa "goi_thau_id" id ++ db.rowsWith .hanghoaduthaunhathau "goi_thau_id" id
  | .thongtinmothau => db.rowsWith .hanghoaduthaunhathau "thong_tin_mo_thau_id" id
  | _ => []

/-- `DELETE` of a record with what the foreign keys take along. -/
def deleteRecord (r : LiveRow) : Database :=
  (db.deleteRow t r).deleteRows (db.cascade t r.id)

/-- The soft deletion of a row. -/
def archiveRow (r : LiveRow) (versioned : Bool) (now : String) (syncVersion : ℕ) : LiveRow :=
  let r := r.setColumn "archived_at" (.str now)
  let r := if versioned then r.setColumn "is_latest" (.int 0) else r
  { r.setColumn "updated_at" (.str now) with version := syncVersion }

theorem archiveRow_id (r : LiveRow) (versioned : Bool) (now : String) (syncVersion : ℕ) :
    (archiveRow r versioned now syncVersion).id = r.id := by
  cases versioned <;> rfl

theorem column_archiveRow {r : LiveRow} {versioned : Bool} {now : String} {syncVersion : ℕ}
    (h : name ∉ ["archived_at", "is_latest", "updated_at"]) :
    column (archiveRow r versioned now syncVersion).columns name = column r.columns name := by
  simp only [mem_cons, not_mem_nil, or_false, not_or] at h
  obtain ⟨harchived, hlatest, hupdated⟩ := h
  cases versioned <;>
    simp [archiveRow, column_setColumn harchived, column_setColumn hlatest, column_setColumn hupdated]

theorem stored_archiveRow {r : LiveRow} (h : r.Stored) (versioned : Bool) (now : String)
    (syncVersion : ℕ) : (archiveRow r versioned now syncVersion).Stored := by
  have harchived : (r.setColumn "archived_at" (.str now)).Stored := h.setColumn (by decide) (by decide)
  cases versioned with
  | false => exact harchived.setColumn (by decide) (by decide)
  | true =>
    have hlatest : ((r.setColumn "archived_at" (.str now)).setColumn "is_latest" (.int 0)).Stored :=
      harchived.setColumn (by decide) (by decide)
    exact hlatest.setColumn (by decide) (by decide)

/-- The `UPDATE` that archives one row. -/
def archive (r : LiveRow) (versioned : Bool) (now : String) (syncVersion : ℕ) : Database where
  rows u := if u = t then
      (db.rows u).map fun r' => if r' = r then archiveRow r' versioned now syncVersion else r'
    else db.rows u
  tombstones := db.tombstones
  currentVersion := db.currentVersion
  minAvailableVersion := db.minAvailableVersion
  nodup_ids u := by
    split
    · rw [map_map]
      have hids : (LiveRow.id ∘ fun r' => if r' = r then archiveRow r' versioned now syncVersion
          else r') = LiveRow.id := by
        funext r'
        rw [Function.comp_apply]
        split
        · exact archiveRow_id r' versioned now syncVersion
        · rfl
      rw [hids]
      exact db.nodup_ids u
    · exact db.nodup_ids u
  nodup_tombstones := db.nodup_tombstones
  row_id u r' hr' := by
    split at hr'
    · obtain ⟨r'', hr'', rfl⟩ := mem_map.mp hr'
      split
      · exact (stored_archiveRow (db.stored hr'') versioned now syncVersion).1
      · exact db.row_id u r'' hr''
    · exact db.row_id u r' hr'
  snapshot_id := db.snapshot_id
  row_package u r' hr' := by
    split at hr'
    · obtain ⟨r'', hr'', rfl⟩ := mem_map.mp hr'
      split
      · exact (stored_archiveRow (db.stored hr'') versioned now syncVersion).2
      · exact db.row_package u r'' hr''
    · exact db.row_package u r' hr'
  snapshot_package := db.snapshot_package

end Database

/-! ## The service -/

/-- An entry of `deletions`, of a synced table. -/
structure Deletion where
  table : TableKey
  id : Scalar
  expectedVersion : ℤ

/-- `clean_sync_record_id`, nothing where the id is empty. -/
def cleanRecordId (t : TableKey) (id : Scalar) : Option String :=
  match id with
  | .none => none
  | id =>
    if t = .assignments ∨ t = .customcontractstatuses then
      if pyStrip id.text = "" then none else some (pyStrip id.text)
    else idOf id

/-- `VERSIONED_TABLES`. -/
def TableKey.versioned (t : TableKey) : Bool :=
  t = .chudautu ∨ t = .kehoach ∨ t = .goithau ∨ t = .nhathau ∨ t = .chuyengia ∨ t = .hopdong

/-- `ARCHIVABLE_TABLES`. -/
def TableKey.archivable (t : TableKey) : Bool := t.versioned || t = .thongtinmothau

/-- What the checks decide about a deletion: the record stays, or is archived, or deleted. -/
inductive Verdict where
  | refused
  | archived
  | deleted

structure Deleting where
  db : Database
  recordsByTable : TableKey → List StoredRow

namespace Deleting

/-- `_remove_cached_assignment_dependents`. -/
def dropAssignmentDependents (records : TableKey → List StoredRow) (t : TableKey) (id : String) : TableKey → List StoredRow :=
  match t.assignedType with
  | none => records
  | some type => fun u => if u = .assignments then
      (records u).filter fun r => ¬ (column r.val.columns "id_muc_tieu" = some id ∧
        column r.val.columns "loai_doi_tuong" = some type)
    else records u

/-- The record with `archived_at` set. -/
def archivedRecord (r : StoredRow) (now : String) : StoredRow :=
  ⟨r.val.setColumn "archived_at" (.str now), r.property.setColumn (by decide) (by decide)⟩

/-- The deletion of one record, once it is looked up and its version is right; the savepoint takes
back the assignments where the row has changed. -/
def carryOut (s : Deleting) (now : String) (syncVersion : ℕ) (t : TableKey) (record : StoredRow) : Verdict → Deleting
  | .refused => s
  | .archived =>
    if t.archivable then
      let db := s.db.deleteAssignmentDependents t record.val.id
      match (db.rows t).find? fun r => r.id = record.val.id ∧
          r.columns.getValue "archived_at" = .none ∧ r.rowVersion = record.val.rowVersion with
      | none => s
      | some r =>
        let archived := archivedRecord record now
        { db := (db.archive t r t.versioned now syncVersion).putTombstone t archived syncVersion
          recordsByTable := fun u => (dropAssignmentDependents s.recordsByTable t record.val.id u).map
            fun r' => if u = t ∧ r'.val.id = record.val.id then archivedRecord r' now else r' }
    else s
  | .deleted =>
    let db := s.db.deleteAssignmentDependents t record.val.id
    match (db.rows t).find? fun r => r.id = record.val.id ∧ r.rowVersion = record.val.rowVersion with
    | none => s
    | some r =>
      { db := (db.deleteRecord t r).putTombstone t record syncVersion
        recordsByTable := fun u => (dropAssignmentDependents s.recordsByTable t record.val.id u).filter
          fun r' => ¬ (u = t ∧ r'.val.id = record.val.id) }

def step (s : Deleting) (now : String) (syncVersion : ℕ) (deletion : Deletion) (verdict : Verdict) : Deleting :=
  match cleanRecordId deletion.table deletion.id with
  | none => s
  | some id =>
    match (s.recordsByTable deletion.table).find? fun r => r.val.id = id with
    | none => s
    | some record =>
      if deletion.expectedVersion ≠ record.val.rowVersion then s
      else if deletion.table.archivable && record.val.archived then s
      else s.carryOut now syncVersion deletion.table record verdict

end Deleting

/-- The records of the batch, as the service reads them first. -/
def Database.fetchRecords (db : Database) (batch : List (Deletion × Verdict)) (t : TableKey) : List StoredRow :=
  let ids := batch.filterMap fun e => if e.1.table = t then cleanRecordId t e.1.id else none
  ((db.rows t).attach.map fun r => (⟨r.val, db.stored r.property⟩ : StoredRow)).filter fun r => r.val.id ∈ ids

/-- `apply_sync_deletions`, on the tables. -/
def Database.applySyncDeletions (db : Database) (now : String) (syncVersion : ℕ)
    (batch : List (Deletion × Verdict)) : Database :=
  (batch.foldl (fun (s : Deleting) e => s.step now syncVersion e.1 e.2) ⟨db, db.fetchRecords batch⟩).db

end Bidding.Delta
