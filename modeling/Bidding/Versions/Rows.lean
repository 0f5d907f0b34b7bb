import Bidding.Sync.Text
import Bidding.Foundations.Collation

/-!
# Rows of a versioned table

The versions of one record form a family, named by their lineage root and, for packages, by the plan. The rows of a table
meet the unique keys of the database by construction: a statement that would break one fails.
-/

namespace Bidding.Versions

open Foundations

/-- `VERSIONED_TABLES`. -/
inductive VersionedTable where
  | chuDauTu | keHoachLcnt | goiThau | nhaThau | chuyenGia | hopDong
  deriving DecidableEq

/-- `is_package` of the recalculation. -/
def VersionedTable.isPackage (t : VersionedTable) : Bool := t = .goiThau

/-- `_VERSIONED_IMMUTABLE_HISTORY_TABLES`. -/
def VersionedTable.immutableHistory (t : VersionedTable) : Bool := t = .keHoachLcnt ∨ t = .goiThau

/-- A row, with the columns versioning reads and writes. -/
structure VersionRow where
  id : String
  idGoc : Option String
  keHoachId : Option String
  phienBan : ℕ
  isLatest : Bool
  archivedAt : Option ℕ
  updatedAt : ℕ
  rowVersion : ℕ
  deriving DecidableEq

abbrev Family : Type := String × String

namespace VersionRow

/-- `COALESCE(NULLIF(id_goc, ''), id)`. -/
def root (r : VersionRow) : String :=
  match r.idGoc with
  | some root => if root = "" then r.id else root
  | none => r.id

def family (t : VersionedTable) (r : VersionRow) : Family :=
  (r.root, if t.isPackage then r.keHoachId.getD "" else "")

/-- The order of `ROW_NUMBER() OVER (… ORDER BY phien_ban DESC, updated_at DESC, id DESC)`. -/
def rank (collation : Collation) (r : VersionRow) : ℕ ×ₗ ℕ ×ₗ Collated collation :=
  toLex (r.phienBan, toLex (r.updatedAt, r.id))

end VersionRow

/-- One version of a family carries the flag `is_latest`: the index `idx_*_unique_latest`. -/
def LatestKey (t : VersionedTable) (rows : List VersionRow) : Prop :=
  ∀ a ∈ rows, ∀ b ∈ rows, a.family t = b.family t → a.isLatest = true → b.isLatest = true → a.id = b.id

/-- The keys of a versioned table: the id, the version number in a family, the latest version of a
family. -/
structure KeysHold (t : VersionedTable) (rows : List VersionRow) : Prop where
  id : (rows.map VersionRow.id).Nodup
  version : ∀ a ∈ rows, ∀ b ∈ rows, a.family t = b.family t → a.phienBan = b.phienBan → a.id = b.id
  latest : LatestKey t rows

instance (t : VersionedTable) (rows : List VersionRow) : Decidable (LatestKey t rows) := by
  unfold LatestKey
  infer_instance

instance (t : VersionedTable) (rows : List VersionRow) : Decidable (KeysHold t rows) :=
  decidable_of_iff ((rows.map VersionRow.id).Nodup ∧
    (∀ a ∈ rows, ∀ b ∈ rows, a.family t = b.family t → a.phienBan = b.phienBan → a.id = b.id) ∧
    LatestKey t rows) ⟨fun h => ⟨h.1, h.2.1, h.2.2⟩, fun h => ⟨h.id, h.version, h.latest⟩⟩

structure Rows (t : VersionedTable) where
  list : List VersionRow
  keys : KeysHold t list

def Rows.checked {t : VersionedTable} (list : List VersionRow) : Option (Rows t) :=
  if h : KeysHold t list then some ⟨list, h⟩ else none

/-- `bf_set_lineage` before an insert. -/
def setLineage (r : VersionRow) : VersionRow :=
  match r.idGoc with
  | some root => if pyStrip root = "" then { r with idGoc := some r.id } else r
  | none => { r with idGoc := some r.id }

namespace Rows

variable {t : VersionedTable}

def find? (rows : Rows t) (id : String) : Option VersionRow := rows.list.find? fun r => r.id = id

/-- `INSERT INTO`. -/
def insert (rows : Rows t) (r : VersionRow) : Option (Rows t) := checked (rows.list ++ [setLineage r])

/-- `UPDATE … WHERE id = ?` of one row. -/
def update (rows : Rows t) (id : String) (f : VersionRow → VersionRow) : Option (Rows t) :=
  checked (rows.list.map fun r => if r.id = id then f r else r)

/-- `DELETE … WHERE id = ?`. -/
def delete (rows : Rows t) (id : String) : Option (Rows t) :=
  checked (rows.list.filter fun r => r.id ≠ id)

end Rows

/-- The first statement of `recalculate_is_latest`: the flag is taken from every row of the
affected families. A row the statement changes gets a new `updated_at` from its trigger. -/
def demote (t : VersionedTable) (now : ℕ) (affected : List Family) (r : VersionRow) : VersionRow :=
  if r.family t ∈ affected ∧ r.isLatest = true then { r with isLatest := false, updatedAt := now }
  else r

def isWinner (t : VersionedTable) (collation : Collation) (rows : List VersionRow) (r : VersionRow) : Bool :=
  r.archivedAt.isNone && rows.all fun o =>
    !(o.archivedAt.isNone && o.family t = r.family t) || o.rank collation ≤ r.rank collation

/-- The second statement: the winners of the affected families get the flag. -/
def promote (t : VersionedTable) (collation : Collation) (now : ℕ) (affected : List Family)
    (rows : List VersionRow) (r : VersionRow) : VersionRow :=
  if r.family t ∈ affected ∧ isWinner t collation rows r = true ∧ r.isLatest = false then
    { r with isLatest := true, updatedAt := now }
  else r

def recalculateIsLatest {t : VersionedTable} (collation : Collation) (now : ℕ)
    (affected : List Family) (rows : Rows t) : Option (Rows t) :=
  (Rows.checked (rows.list.map (demote t now affected))).bind fun demoted : Rows t =>
    Rows.checked (demoted.list.map (promote t collation now affected demoted.list))

end Bidding.Versions
