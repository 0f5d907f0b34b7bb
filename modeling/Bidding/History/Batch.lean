import Bidding.Versions.Commands
import Bidding.Sync.PackageItem

/-!
# Sync batches over plans, packages and what belongs to packages

A batch is validated as a whole against the store and what it carries itself, then written record by record. Of a row
only the columns are kept that name other rows or say which version it is.
-/

namespace Bidding.History

open Foundations Versions

/-- The tables whose rows belong to a package: the assignments, and those of `PACKAGE_CHILD_TABLES` that
a batch carries. -/
inductive OwnedTable where
  | phanCongNhanSu | thongTinMoThau | goiThauHangHoa | hangHoaDuThauNhaThau
  deriving DecidableEq

/-- A row of one of these tables. `ownerType` is `loai_doi_tuong` of an assignment, and `ownerId` its
`id_muc_tieu`; another row belongs to the package `goi_thau_id`. -/
structure OwnedRow where
  ownerType : String
  ownerId : String
  rowVersion : ℕ
  deriving DecidableEq

def goithau : String := "goithau"

def OwnedRow.package (r : OwnedRow) : Option String := if r.ownerType = goithau then some r.ownerId else none

structure Store where
  plans : Rows .keHoachLcnt
  packages : Rows .goiThau
  tongMucDauTu : Dict String ℕ
  owned : OwnedTable → Dict String OwnedRow

def Store.setOwned (s : Store) (t : OwnedTable) (rows : Dict String OwnedRow) : Store :=
  { s with owned := fun t' => if t' = t then rows else s.owned t' }

/-- `json_key_for_column`, for the columns that are read here. -/
def jsonKeyForColumn (column : String) : String :=
  if column = "id_goc" then "rootId"
  else if column = "id_nhan_vien" then "empId"
  else if column = "id_muc_tieu" then "targetId"
  else if column = "loai_doi_tuong" then "type"
  else toCamelCase column

/-- An item of a batch, with its fields as sent, by key or by name. `expectedVersion` is `item.get("expectedVersion",
item.get("rowVersion"))`. `missingReference` tells whether the statement misses a row other than the plan or the package,
`fails` whether it fails otherwise, `unresolved` whether the references of an assignment are in error. -/
structure SyncItem where
  fields : Fields
  phienBan : Option ℕ
  archivedAt : Option (Option ℕ)
  tongMucDauTu : Option ℕ
  expectedVersion : Option ℕ
  generatedId : String
  generated_stored : IsStoredId generatedId
  missingReference : Bool
  fails : Bool
  unresolved : Bool

/-- `canonicalize_payload_item`, for these columns. -/
def SyncItem.canonical (item : SyncItem) (columns : List String) : Fields :=
  canonicalizeFields jsonKeyForColumn (columns.map textColumn) item.fields

/-- `_value(record, camel_name, snake_name)`. -/
def recordValue (record : Fields) (camelName snakeName : String) : Scalar :=
  match record.get? camelName with
  | some value => value
  | none => record.getValue snakeName

namespace SyncItem

variable (t : VersionedTable)

variable (item : SyncItem)

def versioned : Fields :=
  item.canonical (if t.isPackage then ["id", "id_goc", "is_latest", "ke_hoach_id"] else ["id", "id_goc", "is_latest"])

def planValue : Scalar :=
  if t.isPackage then (item.versioned t).getValue "keHoachId" else .none

def ownedFields (t : OwnedTable) (item : SyncItem) : Fields :=
  item.canonical (if t = .phanCongNhanSu then ["id", "id_muc_tieu", "loai_doi_tuong"] else ["id", "goi_thau_id"])

def write : Write where
  item := ⟨(item.versioned t).getValue "id", (item.versioned t).getValue "rootId", item.planValue t,
    item.phienBan, item.archivedAt, item.expectedVersion⟩
  generatedId := item.generatedId
  generated_stored := item.generated_stored
  missingParent := false

/-- `clean_id(item.get("id"))` of a plan or a package. -/
def recordId : Option String := idOf ((item.versioned t).getValue "id")

/-- `clean_id(item.get("id"))` of another row. -/
def ownedId (t : OwnedTable) (item : SyncItem) : Option String := idOf ((item.ownedFields t).getValue "id")

end SyncItem

/-- A sync batch. The packages are in the order `_order_package_dependencies` gives them.
`planTotal` is what `recalculate_tong_muc_dau_tu` finds for a plan whose total is automatic. -/
structure SyncBatch where
  refused : Bool
  now : ℕ
  plans : List SyncItem
  packages : List SyncItem
  owned : OwnedTable → List SyncItem
  planTotal : String → Option ℕ

structure AggregateMutabilityContext where
  packagePlanById : Dict String String
  planIsLatestById : Dict String Bool

/-- `package_is_mutable(package_id)`, of a cleaned id. -/
def AggregateMutabilityContext.packageIsMutable (context : AggregateMutabilityContext) (packageId : Option String) : Bool :=
  match packageId.bind context.packagePlanById.get? with
  | none => true
  | some planId => planId = "" || (context.planIsLatestById.get? planId).getD false

/-- The plan an item of a package names, else the one that is stored. -/
def packagePlan (item : SyncItem) (current : Option VersionRow) : Option String :=
  idOf ((recordValue (item.versioned .goiThau) "keHoachId" "ke_hoach_id").orElse (match current.bind VersionRow.keHoachId with
    | some planId => .str planId
    | none => .none))

/-- The package `historical_parent_mutation_error` reads from an item of another table, or from the
stored row; of an assignment only the item is read. -/
def ownerPackage (t : OwnedTable) (item : SyncItem) (current : Option OwnedRow) : Option String :=
  let fields := item.ownedFields t
  if t = .phanCongNhanSu then
    if (recordValue fields "type" "loai_doi_tuong").orEmptyText = goithau then
      idOf (recordValue fields "targetId" "id_muc_tieu")
    else none
  else
    idOf ((recordValue fields "goiThauId" "goi_thau_id").orElse (match current with
      | some row => .str row.ownerId
      | none => .none))

variable (s : Store)

/-- The stored row of an item. -/
def Store.currentOwned (t : OwnedTable) (item : SyncItem) : Option OwnedRow :=
  (item.ownedId t).bind (s.owned t).get?

def OwnedTable.all : List OwnedTable :=
  [.phanCongNhanSu, .thongTinMoThau, .goiThauHangHoa, .hangHoaDuThauNhaThau]

def incomingPackagePlans (packages : List SyncItem) : Dict String String :=
  packages.foldl (fun plans item =>
    match item.recordId .goiThau with
    | none => plans
    | some packageId =>
      match packagePlan item (s.packages.find? packageId) with
      | some planId => plans.set packageId planId
      | none => plans) .empty

def incomingPlanIsLatest (item : SyncItem) (current : Option VersionRow) : Bool :=
  match current with
  | some row => row.isLatest
  | none =>
    match recordValue (item.versioned .keHoachLcnt) "isLatest" "is_latest" with
    | .none => true
    | value => value.toInt = some 1

def incomingPlans (plans : List SyncItem) : Dict String Bool :=
  plans.foldl (fun latest item =>
    match item.recordId .keHoachLcnt with
    | none => latest
    | some planId => latest.set planId (incomingPlanIsLatest item (s.plans.find? planId))) .empty

variable (b : SyncBatch)

def batchPackageIds : List String :=
  b.packages.filterMap (SyncItem.recordId .goiThau) ++
    OwnedTable.all.flatMap fun t => (b.owned t).filterMap fun item => ownerPackage t item (s.currentOwned t item)

/-- `build_aggregate_mutability_context`: what the batch says, and the rows of the database for the rest. -/
def buildContext : AggregateMutabilityContext :=
  let incoming := incomingPackagePlans s b.packages
  let missing := (batchPackageIds s b).filter fun id => !incoming.contains id
  let packagePlanById := incoming.spread (.ofList (missing.filterMap fun id =>
    (s.packages.find? id).map fun row => (id, row.keHoachId.getD "None")))
  let latest := incomingPlans s b.plans
  let missingPlans := packagePlanById.values.filter fun id => !latest.contains id
  ⟨packagePlanById, latest.spread (.ofList (missingPlans.filterMap fun id =>
    (s.plans.find? id).map fun row => (id, row.isLatest)))⟩

/-- The checks of the version of a record: a stored one is named by its version, a new one by none. -/
def versionExpected (stored : Option ℕ) (item : SyncItem) : Bool := item.expectedVersion = stored

def validatesRecord {t : VersionedTable} (rows : Rows t) (item : SyncItem) : Bool :=
  match item.recordId t with
  | none => true
  | some id =>
    let current := rows.find? id
    versionExpected (current.map VersionRow.rowVersion) item
      && current.all fun row => row.archivedAt.isNone && (!t.immutableHistory || row.isLatest)

def validatesOwned (t : OwnedTable) (item : SyncItem) : Bool :=
  match item.ownedId t with
  | none => true
  | some id => versionExpected (((s.owned t).get? id).map OwnedRow.rowVersion) item

/-- The part of `validate_payload` that keeps history: the checks on the row itself, and
`historical_parent_mutation_error`. An assignment whose references are in error is not looked at, nor
written. -/
def SyncBatch.validates (s : Store) : Bool :=
  let context := buildContext s b
  b.plans.all (validatesRecord s.plans)
    && b.packages.all (fun item => validatesRecord s.packages item && context.packageIsMutable (item.recordId .goiThau))
    && OwnedTable.all.all fun t => (b.owned t).all fun item =>
      validatesOwned s t item && ((t = .phanCongNhanSu && item.unresolved)
          || context.packageIsMutable (ownerPackage t item (s.currentOwned t item)))

/-! ## Writing -/

/-- The store on the way through a batch, with what `SyncMutationTracker` notes. -/
structure Progress where
  store : Store
  planFamilies : List Family
  packageFamilies : List Family
  planIds : List String

/-- `SyncRecordWriter.write` on a versioned row: nothing where the version is not the expected one or the
statement fails, and `some none` where it misses a row it names and the table may have orphans. -/
def writeVersioned {t : VersionedTable} (now : ℕ) (fails missing : Option VersionRow → Bool) (item : SyncItem)
    (data : RowData) (rows : Rows t) : Option (Option (Rows t)) :=
  let orphaned (stored : Option VersionRow) (written : Rows t) : Option (Option (Rows t)) :=
    if missing stored then if t.isPackage then some none else none else some (some written)
  match (item.recordId t).bind rows.find? with
  | some stored =>
    match item.expectedVersion with
    | none => none
    | some expected =>
      if expected ≠ stored.rowVersion || fails (some stored) || !lineageKept stored data then none
      else (rows.update data.id (updatedRow now data expected)).bind (orphaned (some stored))
  | none => if fails none then none else (rows.insert (insertedRow now data)).bind (orphaned none)

def writePlan (start : Store) (now : ℕ) (p : Progress) (item : SyncItem) : Option Progress :=
  let previous := (item.recordId .keHoachLcnt).bind start.plans.find?
  let data := (item.write .keHoachLcnt).serialize previous
  (writeVersioned now (fun _ => item.fails) (fun _ => item.missingReference) item data p.store.plans).map fun written =>
    match written with
    | none => p
    | some rows =>
      { p with
        store := { p.store with
          plans := rows
          tongMucDauTu := match item.tongMucDauTu with
            | some total => p.store.tongMucDauTu.set data.id total
            | none => p.store.tongMucDauTu }
        planFamilies := p.planFamilies ++ (previous.bind fun r => trackedFamily .keHoachLcnt r.id r.idGoc r.keHoachId).toList
          ++ (trackedFamily .keHoachLcnt data.id data.idGoc data.keHoachId).toList
        planIds := data.id :: p.planIds }

/-- The plan id `track_record` notes for a package. -/
def trackedPlan (keHoachId : Option String) : Option String := (keHoachId.map Scalar.str).bind idOf

def planColumnFails (item : SyncItem) (data : RowData) (stored : Option VersionRow) : Bool :=
  (!(item.planValue .goiThau).blank && pyStrip (item.planValue .goiThau).text = "")
    || (stored.isNone && data.keHoachId.isNone)

def missesPlan (data : RowData) (stored : Option VersionRow) : Bool :=
  match data.keHoachId with
  | some plan => (stored.bind VersionRow.keHoachId) ≠ some plan && (s.plans.find? plan).isNone
  | none => false

def writePackage (start : Store) (now : ℕ) (p : Progress) (item : SyncItem) : Option Progress :=
  let previous := (item.recordId .goiThau).bind start.packages.find?
  let data := (item.write .goiThau).serialize previous
  (writeVersioned now (fun stored => item.fails || planColumnFails item data stored)
    (fun stored => item.missingReference || missesPlan p.store data stored) item data p.store.packages).map fun written =>
      match written with
      | none => p
      | some rows =>
        { p with
          store := { p.store with packages := rows }
          packageFamilies := p.packageFamilies
            ++ (previous.bind fun r => trackedFamily .goiThau r.id r.idGoc r.keHoachId).toList
            ++ (trackedFamily .goiThau data.id data.idGoc data.keHoachId).toList
          planIds := (previous.bind fun r => trackedPlan r.keHoachId).toList ++ (trackedPlan data.keHoachId).toList
            ++ p.planIds }

def columnText : Scalar → Option String
  | .none => none
  | value => some (pyStrip value.text)

def writtenOwner (t : OwnedTable) (item : SyncItem) : Option String × Option String :=
  let fields := item.ownedFields t
  if t = .phanCongNhanSu then (columnText (fields.getValue "type"), columnText (fields.getValue "targetId"))
  else (some goithau, columnText (cleanId (fields.getValue "goiThauId")))

def updatedOwned (t : OwnedTable) (item : SyncItem) (expected : ℕ) (stored : OwnedRow) : OwnedRow :=
  ⟨(writtenOwner t item).1.getD stored.ownerType, (writtenOwner t item).2.getD stored.ownerId, expected + 1⟩

def missesPackage (t : OwnedTable) (row : OwnedRow) : Bool :=
  t ≠ .phanCongNhanSu && (s.packages.find? row.ownerId).isNone

/-- The row an item leaves over the stored one, or as a new one; nothing where the version is not the
expected one or a column is missing. -/
def ownedRow (t : OwnedTable) (item : SyncItem) (stored : Option OwnedRow) : Option OwnedRow :=
  match stored with
  | some row =>
    match item.expectedVersion with
    | some expected => if expected = row.rowVersion then some (updatedOwned t item expected row) else none
    | none => none
  | none =>
    match writtenOwner t item with
    | (some ownerType, some ownerId) => some ⟨ownerType, ownerId, 1⟩
    | _ => none

/-- A row of another table. -/
def writeOwned (t : OwnedTable) (p : Progress) (item : SyncItem) : Option Progress :=
  if t = .phanCongNhanSu && item.unresolved then some p
  else
    let rows := p.store.owned t
    let stored := (item.ownedId t).bind rows.get?
    let id := (item.ownedId t).getD item.generatedId
    (ownedRow t item stored).bind fun row =>
      if item.fails || (stored.isNone && rows.contains id) then none
      else if item.missingReference || (stored.map OwnedRow.ownerId ≠ some row.ownerId && missesPackage p.store t row) then
        if t = .thongTinMoThau then some p else none
      else some { p with store := p.store.setOwned t (rows.set id row) }

/-- `apply_recalculations`: the flags of the families and the totals of the plans that were noted. -/
def recalculate (collation : Collation) (b : SyncBatch) (p : Progress) : Option Progress :=
  (recalculateIsLatest collation b.now p.planFamilies p.store.plans).bind fun plans =>
  (recalculateIsLatest collation b.now p.packageFamilies p.store.packages).map fun packages =>
    { p with store := { p.store with
      plans := plans
      packages := packages
      tongMucDauTu := p.planIds.foldl (fun totals id =>
        match b.planTotal id with
        | some total => totals.set id total
        | none => totals) p.store.tongMucDauTu } }

def writeAllOwned (p : Progress) : Option Progress :=
  OwnedTable.all.foldlM (fun p t => (b.owned t).foldlM (writeOwned t) p) p

/-- `execute_sync_mutation` without deletions: nothing where the batch is rolled back. -/
def SyncBatch.execute (collation : Collation) (b : SyncBatch) (s : Store) : Option Store :=
  if b.refused || !b.validates s then none
  else
    (b.plans.foldlM (writePlan s b.now) ⟨s, [], [], []⟩).bind fun p =>
    (b.packages.foldlM (writePackage s b.now) p).bind fun p =>
    (writeAllOwned b p).bind fun p =>
    (recalculate collation b p).bind fun p =>
    (recalculate collation b p).map Progress.store

end Bidding.History
