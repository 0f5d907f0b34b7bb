import Bidding.Sync.Text
import Mathlib.Data.List.Sort

/-!
# Who may read a synced record

The synced tables of one workspace, the reader, and the two policies of a synchronisation read: the visibility scope, which
is part of the query, and the read policy of the access rules, for a single record and for a batch.
-/

namespace Bidding.Delta

open Foundations

/-- The synced tables under their payload keys. -/
inductive TableKey where
  | chudautu | kehoach | goithau | chuyengia | nhathau | customcontractstatuses | hopdong
  | assignments | thongtinmothau | permissionmatrix | goithauhanghoa | hanghoaduthaunhathau
  deriving DecidableEq

namespace TableKey

/-- The tables in the order of `TABLE_KEYS`. -/
def all : List TableKey :=
  [chudautu, kehoach, goithau, chuyengia, nhathau, customcontractstatuses, hopdong, assignments,
    thongtinmothau, permissionmatrix, goithauhanghoa, hanghoaduthaunhathau]

def payloadKey : TableKey → String
  | chudautu => "chudautu"
  | kehoach => "kehoach"
  | goithau => "goithau"
  | chuyengia => "chuyengia"
  | nhathau => "nhathau"
  | customcontractstatuses => "customcontractstatuses"
  | hopdong => "hopdong"
  | assignments => "assignments"
  | thongtinmothau => "thongtinmothau"
  | permissionmatrix => "permissionmatrix"
  | goithauhanghoa => "goithauhanghoa"
  | hanghoaduthaunhathau => "hanghoaduthaunhathau"

theorem mem_all (t : TableKey) : t ∈ all := by cases t <;> decide

theorem nodup_all : all.Nodup := by decide

theorem payloadKey_injective : Function.Injective payloadKey := by
  intro t u h
  cases t <;> cases u <;> first | rfl | exact absurd h (by decide)

/-- `WRITE_PROTECTED_KEYS`, as far as they are synced tables. -/
def writeProtected (t : TableKey) : Bool :=
  t = assignments ∨ t = customcontractstatuses ∨ t = permissionmatrix

/-- `ASSIGNED_TABLE_TYPES`. -/
def assignedType : TableKey → Option String
  | kehoach => some "kehoach"
  | goithau => some "goithau"
  | hopdong => some "hopdong"
  | _ => none

/-- `_PACKAGE_CHILDREN`. -/
def packageChild (t : TableKey) : Bool :=
  t = thongtinmothau ∨ t = goithauhanghoa ∨ t = hanghoaduthaunhathau

/-- `TABLE_TO_MODULE`. -/
def toModule : TableKey → Option String
  | chudautu => some "chudautu"
  | kehoach => some "kehoach"
  | goithau => some "goithau"
  | chuyengia => some "chuyengia"
  | nhathau => some "nhathau"
  | hopdong => some "hopdong"
  | thongtinmothau => some "goithau"
  | goithauhanghoa => some "goithau"
  | hanghoaduthaunhathau => some "goithau"
  | customcontractstatuses => some "hopdong"
  | assignments => none
  | permissionmatrix => none

end TableKey

/-- `record ->> 'column'` of a column of texts. -/
def column (record : Fields) (name : String) : Option String :=
  match record.getValue name with
  | .str text => some text
  | _ => none

theorem column_eq_some {record : Fields} {name text : String} :
    column record name = some text ↔ record.getValue name = .str text := by
  unfold column
  split <;> simp_all

/-- A live row: its id, its `sync_version` and its columns. -/
structure LiveRow where
  id : String
  version : ℕ
  columns : Fields
  deriving DecidableEq

/-- A row of `deleted_records`. The snapshot has no columns when none was stored, or no JSON
object. -/
structure Tombstone where
  table : TableKey
  recordId : String
  version : ℕ
  snapshot : Fields
  deriving DecidableEq

/-- The tables and the counters of one workspace in one repeatable-read transaction. A row and
a snapshot carry their own id, ids are unique and stored cleaned, and a package id is the id of
a package. -/
structure Database where
  rows : TableKey → List LiveRow
  tombstones : List Tombstone
  currentVersion : ℕ
  minAvailableVersion : ℕ
  nodup_ids : ∀ t, ((rows t).map LiveRow.id).Nodup
  nodup_tombstones : (tombstones.map fun d => (d.table, d.recordId)).Nodup
  row_id : ∀ t, ∀ r ∈ rows t, r.columns.getValue "id" = .str r.id ∧ IsStoredId r.id
  snapshot_id : ∀ d ∈ tombstones, IsStoredId d.recordId ∧
    (d.snapshot.isEmpty = false → d.snapshot.getValue "id" = .str d.recordId)
  row_package : ∀ t, ∀ r ∈ rows t, ∀ id, column r.columns "goi_thau_id" = some id → IsStoredId id
  snapshot_package : ∀ d ∈ tombstones, ∀ id, column d.snapshot "goi_thau_id" = some id → IsStoredId id

structure ReadItem where
  id : Scalar
  goiThauId : Scalar := .none
  empId : Scalar := .none
  deriving DecidableEq

/-- `map_db_to_json`, on these fields. -/
def mapDbToJson (t : TableKey) (record : Fields) : ReadItem where
  id := record.getValue "id"
  goiThauId := record.getValue "goi_thau_id"
  empId := record.getValue (if t = .permissionmatrix then "emp_id" else "id_nhan_vien")

/-- The account, its active membership and its row of the permission matrix. Roles and
permissions are given trimmed and in lower case, as they are read. -/
structure Principal where
  userId : String
  activeRole : Option String
  platformAdmin : Bool
  membershipRole : Option String
  personalScope : Bool
  personalOwner : Bool
  permission : String → String
  /-- the owner's scope is a personal one -/
  personal : personalOwner = true → personalScope = true

/-- A principal `get_active_org` lets into the workspace; it refuses everyone else. -/
structure Reader extends Principal where
  admitted : personalOwner = true ∨ membershipRole.isSome = true

instance : Coe Reader Principal := ⟨Reader.toPrincipal⟩

namespace Principal

variable (reader : Principal)

def isManagerRole : Bool :=
  match reader.activeRole with
  | some role => role = "super_admin"
  | none => reader.platformAdmin

def isOrganizationManager : Bool :=
  if reader.activeRole = some "employee" then false
  else reader.isManagerRole || reader.membershipRole = some "manager"

def hasActiveOrganizationMembership : Bool :=
  reader.isManagerRole || reader.membershipRole.isSome

def hasInheritedSpecialistAccess : Bool :=
  reader.activeRole = some "employee" && reader.membershipRole = some "manager"

/-- `has_module_permission(…, "view")`. -/
def hasModulePermission : Option String → Bool
  | none => false
  | some module =>
    reader.isOrganizationManager || reader.personalOwner || reader.hasInheritedSpecialistAccess
      || (reader.hasActiveOrganizationMembership && (reader.permission module = "view" || reader.permission module = "edit"))

def canReadTable (t : TableKey) : Bool :=
  if reader.isOrganizationManager then true
  else if reader.personalOwner then !t.writeProtected
  else if !reader.hasActiveOrganizationMembership then false
  else if t = .assignments ∨ t = .permissionmatrix then true
  else reader.hasModulePermission t.toModule

def unrestricted : Bool := reader.isOrganizationManager || reader.personalOwner

/-- `VisibilityScope.permissions` of a module. -/
def scopePermission (module : String) : Option String :=
  if reader.membershipRole = none then none
  else if reader.permission module = "edit" then some "edit"
  else if reader.permission module = "view" ∨ reader.hasInheritedSpecialistAccess then some "view"
  else none

def hasModule (t : TableKey) : Bool :=
  match t.toModule with
  | none => false
  | some module => reader.scopePermission module = some "view"
      || reader.scopePermission module = some "edit"

end Principal

/-- A row of `phan_cong_nhan_su`, live or kept in a snapshot, that gives `user` the `target`. -/
def grants (record : Fields) (user target type : String) : Bool :=
  column record "id_nhan_vien" = some user && column record "id_muc_tieu" = some target
    && column record "loai_doi_tuong" = some type

namespace Database

variable (db : Database)

/-- Some live assignment gives `user` the `target`. -/
def grantsLive (user target type : String) : Bool :=
  (db.rows .assignments).any fun r => grants r.columns user target type

def assigned (user : String) (target : Option String) (type : String) : Bool :=
  target.any fun id => db.grantsLive user id type

/-- Some live package of the plan satisfies `p`. -/
def anyPackageOf (plan : String) (p : String → Bool) : Bool :=
  (db.rows .goithau).any fun r => column r.columns "ke_hoach_id" = some plan && p r.id

/-- `_effective_assignment_targets` for targets of one type. -/
def effectiveAssignmentTargets (user type : String) (targets : List String) : List String :=
  targets.filter fun id => db.grantsLive user id type
    || (type = "kehoach" && db.anyPackageOf id fun package => db.grantsLive user package "goithau")

/-- The `goi_thau_id` of the live row of a child table with an id. -/
def packageOfChild (t : TableKey) (id : String) : Option String :=
  ((db.rows t).find? fun r => r.id = id).bind fun r => idOf (r.columns.getValue "goi_thau_id")

/-- The package a child record belongs to: the one it names, else the one its live row names. -/
def parentOf (t : TableKey) (item : ReadItem) : Option String :=
  (idOf item.goiThauId).or ((idOf item.id).bind (db.packageOfChild t))

/-- The live rows of a child table with one of the ids whose package is assigned to the user. -/
def assignedChildren (user : String) (t : TableKey) (ids : List String) : List String :=
  ((db.rows t).filter fun r => r.id ∈ ids && (column r.columns "goi_thau_id").any fun package =>
      db.grantsLive user package "goithau").filterMap fun r => idOf (.str r.id)

variable (reader : Principal)

def canReadRecord (t : TableKey) (item : ReadItem) : Bool :=
  if reader.isOrganizationManager then true
  else if reader.personalOwner then !t.writeProtected
  else if !reader.canReadTable t then false
  else if t.packageChild then db.assigned reader.userId (db.parentOf t item) "goithau"
  else match t.assignedType with
    | none => true
    | some type =>
      (idOf item.id).any fun id => id ∈ db.effectiveAssignmentTargets reader.userId type [id]

def filterItemsForRead (t : TableKey) (items : List ReadItem) : List ReadItem :=
  if reader.isOrganizationManager then items
  else if reader.personalOwner then if t.writeProtected then [] else items
  else if t = .assignments ∨ t = .permissionmatrix then
    items.filter fun item => (if item.empId.truthy then item.empId.text else "") = reader.userId
  else if !reader.canReadTable t then []
  else
    let recordIds := items.filterMap fun item => idOf item.id
    if t.packageChild then
      items.filter fun item => (idOf item.id).any fun id => id ∈ db.assignedChildren reader.userId t recordIds
    else match t.assignedType with
      | none => items
      | some type => items.filter fun item => (idOf item.id).any fun id =>
          id ∈ db.effectiveAssignmentTargets reader.userId type recordIds

def livePredicate (t : TableKey) (row : LiveRow) : Bool :=
  if reader.unrestricted then !(t.writeProtected && reader.personalScope)
  else if t = .assignments then column row.columns "id_nhan_vien" = some reader.userId
  else if t = .permissionmatrix then column row.columns "emp_id" = some reader.userId
  else if !reader.hasModule t then false
  else if t = .kehoach then
    db.grantsLive reader.userId row.id "kehoach"
      || db.anyPackageOf row.id fun package => db.grantsLive reader.userId package "goithau"
  else if t.packageChild then
    (column row.columns "goi_thau_id").any fun package => db.grantsLive reader.userId package "goithau"
  else match t.assignedType with
    | some type => db.grantsLive reader.userId row.id type
    | none => true

/-- `assignment_evidence`: an assignment that is live, or that was deleted. -/
def assignmentEvidence (user target type : String) : Bool :=
  db.grantsLive user target type
    || db.tombstones.any fun d => d.table = .assignments && grants d.snapshot user target type

def deletionPredicate (d : Tombstone) : Bool :=
  if reader.unrestricted then !(d.table.writeProtected && reader.personalScope)
  else if !reader.hasModule d.table && d.table ≠ .assignments && d.table ≠ .permissionmatrix then
    false
  else if d.table = .assignments then column d.snapshot "id_nhan_vien" = some reader.userId
  else if d.table = .permissionmatrix then column d.snapshot "emp_id" = some reader.userId
  else if d.table = .kehoach then
    db.assignmentEvidence reader.userId d.recordId "kehoach"
      || (db.anyPackageOf d.recordId fun package => db.assignmentEvidence reader.userId package "goithau")
      || db.tombstones.any fun package => package.table = .goithau && column package.snapshot "ke_hoach_id" = some d.recordId
          && db.assignmentEvidence reader.userId package.recordId "goithau"
  else if d.table.packageChild then
    (column d.snapshot "goi_thau_id").any fun package => db.assignmentEvidence reader.userId package "goithau"
  else match d.table.assignedType with
    | some type => db.assignmentEvidence reader.userId d.recordId type
    | none => true

end Database

end Bidding.Delta
