import Bidding.Sync.Text

/-!
# Uniqueness of the records of an organisation

Two validators report a conflict of a record in a batch: one asks the database for each record, the other looks into
candidates that were fetched once for the whole batch. The order of the rows of a query is a parameter of both.
-/

namespace Bidding.Uniqueness

open Foundations

/-- The tables the rules read. -/
inductive DomainTable where
  | chuDauTu
  | keHoachLcnt
  | goiThau
  | nhaThau
  | chuyenGia
  | hopDong
  | danhMucTrangThaiHopDong
  | phanCongNhanSu
  | other (name : String)
  deriving DecidableEq

/-- The fields a rule is about. -/
inductive Token where
  | code
  | taxCode
  | citizenId
  | number
  | name
  deriving DecidableEq

structure UniquenessRule where
  token : Token
  itemKeys : List String
  column : String
  caseInsensitive : Bool
  archived : Bool
  lineageScoped : Bool
  deriving DecidableEq

def UniquenessRule.standard (token : Token) (itemKeys : List String) (column : String) : UniquenessRule :=
  ⟨token, itemKeys, column, true, true, true⟩

def rulesByTable : DomainTable → List UniquenessRule
  | .chuDauTu => [.standard .code ["maChuDauTu"] "ma_chu_dau_tu", .standard .taxCode ["maSoThue"] "ma_so_thue"]
  | .keHoachLcnt => [.standard .code ["maKeHoach"] "ma_ke_hoach"]
  | .goiThau => [.standard .code ["maGoiThau"] "ma_goi_thau"]
  | .nhaThau => [.standard .code ["maNhaThau"] "ma_nha_thau", .standard .taxCode ["maSoThue"] "ma_so_thue"]
  | .chuyenGia => [⟨.citizenId, ["soCCCD"], "so_cccd", false, true, true⟩]
  | .hopDong => [.standard .number ["soHopDong"] "so_hop_dong"]
  | .danhMucTrangThaiHopDong => [⟨.name, ["name", "tenTrangThai"], "name", true, false, false⟩]
  | .phanCongNhanSu => []
  | .other _ => []

/-- The tables with rules, in the order of `_RULES_BY_TABLE`. -/
def ruledTables : List DomainTable :=
  [.chuDauTu, .keHoachLcnt, .goiThau, .nhaThau, .chuyenGia, .hopDong, .danhMucTrangThaiHopDong]

/-- A stored record: its organisation, its id (a record without one is stored under a generated one),
the root of its versions, whether it is archived, and the texts of its columns that are not `NULL`. -/
structure StoredRecord where
  organizationId : String
  id : String
  id_ne : id ≠ ""
  idGoc : Option String
  archived : Bool
  columns : Dict String String

abbrev Store := DomainTable → List StoredRecord

/-- The records of a batch, by table: `records_by_table`. -/
abbrev Batch := DomainTable → List Fields

inductive Query where
  | candidates (table : DomainTable) (token : Token) (values : List String)
  | assignments (keys : List (String × String × String))
  | conflicting (table : DomainTable) (column : String) (value : String)

structure Planner where
  order : Query → List StoredRecord → List StoredRecord
  perm : ∀ query rows, (order query rows).Perm rows

def Planner.stored : Planner := ⟨fun _ rows => rows, fun _ rows => List.Perm.refl rows⟩

/-- `_value(item, *keys)`. -/
def fieldValue (item : Fields) : List String → String
  | [] => ""
  | key :: keys =>
    let value := (item.getValue key).orEmptyText
    if value ≠ "" then value else fieldValue item keys

variable (t : PyText)

/-- `_normalized_value(rule, value)`; in a query, `lower(trim(column))` or `trim(column)`. -/
def normalizedValue (caseInsensitive : Bool) (value : String) : String :=
  let normalized := pyStrip value
  if caseInsensitive then t.lower normalized else normalized

/-- The normalised text of a column; `NULL` stays `NULL`. -/
def StoredRecord.normalized (column : String) (caseInsensitive : Bool) (row : StoredRecord) : Option String :=
  (row.columns.get? column).map (normalizedValue t caseInsensitive)

def assignmentKey (item : Fields) : Option (String × String × String) :=
  let employeeId := fieldValue item ["empId", "id_nhan_vien"]
  let targetId := fieldValue item ["targetId", "id_muc_tieu"]
  let targetType := fieldValue item ["type", "loai_doi_tuong"]
  if employeeId = "" ∨ targetId = "" ∨ targetType = "" then none
  else some (employeeId, targetId, targetType)

/-- The key of a stored assignment; a row with a `NULL` column has none. -/
def StoredRecord.assignmentKey (row : StoredRecord) : Option (String × String × String) := do
  let employeeId ← row.columns.get? "id_nhan_vien"
  let targetId ← row.columns.get? "id_muc_tieu"
  let targetType ← row.columns.get? "loai_doi_tuong"
  pure (employeeId, targetId, targetType)

/-- `str(item.get("id") or "").strip()`. -/
def itemId (item : Fields) : String := (item.getValue "id").orEmptyText

inductive UniquenessError where
  | text (message : String)
  | detail (message : String) (conflictingId : String)
  | assignment (conflictingId : String)
  deriving DecidableEq

def UniquenessError.message : UniquenessError → String
  | .text message => message
  | .detail message _ => message
  | .assignment _ => "Nhân sự đã được phân công cho đối tượng này."

/-- `if conflicting_id: errors.append(…)`, with the id. -/
def reportDetail (message : String) : Option String → List UniquenessError
  | some id => if id = "" then [] else [.detail message id]
  | none => []

/-- `if conflict(…): errors.append(…)`, with the message only. -/
def reportText (message : String) (conflict : Option String) : List UniquenessError :=
  if conflict.getD "" = "" then [] else [.text message]

def existsMessage (label value : String) : String := label ++ " '" ++ value ++ "' đã tồn tại."

structure DomainUniquenessContext where
  candidates : Dict (DomainTable × Token × String) (List (String × Option String))
  assignmentCandidates : Dict (String × String × String) (List String)

/-- `d.setdefault(key, []).append(value)`. -/
def appendTo {κ α : Type} [DecidableEq κ] (d : Dict κ (List α)) (entry : κ × α) : Dict κ (List α) :=
  d.set entry.1 ((d.get? entry.1).getD [] ++ [entry.2])

def queryChunkSize : ℕ := 500

/-- The values in chunks: `values[offset:offset + _QUERY_CHUNK_SIZE]` for each offset. -/
def chunks {α : Type} (values : List α) : List (List α) :=
  (List.range ((values.length + (queryChunkSize - 1)) / queryChunkSize)).map fun i =>
    (values.drop (queryChunkSize * i)).take queryChunkSize

/-- The distinct values a rule compares in a batch. -/
def ruleValues (rule : UniquenessRule) (items : List Fields) : List String :=
  ((((items.map (fieldValue · rule.itemKeys)).filter (· ≠ "")).map
    (normalizedValue t rule.caseInsensitive)).filter (· ≠ "")).eraseDups

variable (planner : Planner)

variable (store : Store)

variable (organizationId : String)

variable (table : DomainTable)

def fetchChunk (rule : UniquenessRule) (chunk : List String) :
    List ((DomainTable × Token × String) × (String × Option String)) :=
  let rows := planner.order (.candidates table rule.token chunk) ((store table).filter fun row =>
    row.organizationId = organizationId ∧ (rule.archived → row.archived = false) ∧
      ∃ value ∈ chunk, row.normalized t rule.column rule.caseInsensitive = some value)
  rows.filterMap fun row =>
    (row.normalized t rule.column rule.caseInsensitive).map fun value =>
      ((table, rule.token, value), (row.id, if rule.lineageScoped then row.idGoc else none))

def fetchCandidates (batch : Batch) : List ((DomainTable × Token × String) × (String × Option String)) :=
  ruledTables.flatMap fun table =>
    (rulesByTable table).flatMap fun rule =>
      (chunks (ruleValues t rule (batch table))).flatMap (fetchChunk t planner store organizationId table rule)

/-- The stored assignments with the keys of the batch. -/
def fetchAssignments (items : List Fields) : List ((String × String × String) × String) :=
  (chunks (items.filterMap assignmentKey).eraseDups).flatMap fun chunk =>
    let rows := planner.order (.assignments chunk) ((store .phanCongNhanSu).filter fun row =>
      row.organizationId = organizationId ∧ ∃ key ∈ chunk, row.assignmentKey = some key)
    rows.filterMap fun row => row.assignmentKey.map fun key => (key, row.id)

/-- An assignment of the batch is a candidate too. -/
def addAssignment (candidates : Dict (String × String × String) (List String)) (item : Fields) :
    Dict (String × String × String) (List String) :=
  match assignmentKey item with
  | none => candidates
  | some key =>
    if itemId item = "" then candidates
    else
      let known := (candidates.get? key).getD []
      candidates.set key (if itemId item ∈ known then known else known ++ [itemId item])

def buildDomainUniquenessContext (batch : Batch) : DomainUniquenessContext where
  candidates := (fetchCandidates t planner store organizationId batch).foldl appendTo .empty
  assignmentCandidates := (batch .phanCongNhanSu).foldl addAssignment
    ((fetchAssignments planner store organizationId (batch .phanCongNhanSu)).foldl appendTo .empty)

/-- A candidate conflicts with a record: another id, and another lineage where the rule is about lineages. -/
def candidateConflicts (rule : UniquenessRule) (recordId : String) (rootId : Option String)
    (candidate : String × Option String) : Bool :=
  if candidate.1 = recordId then false
  else if rule.lineageScoped = false then true
  else
    match rootId with
    | none => candidate.2 = none
    | some root => candidate.2 = none ∨ candidate.2 ≠ some root

def contextConflictingId (context : DomainUniquenessContext) (table : DomainTable)
    (rule : UniquenessRule) (value : String) (recordId rootId : Option String) : Option String :=
  match recordId with
  | none => none
  | some recordId =>
    let candidates := (context.candidates.get? (table, rule.token, normalizedValue t rule.caseInsensitive value)).getD []
    (candidates.find? (candidateConflicts rule recordId rootId)).map Prod.fst

def validateDomainUniquenessFromContext (context : DomainUniquenessContext)
    (table : DomainTable) (item : Fields) (recordId rootId : Option String) : List UniquenessError :=
  let conflict (token : Token) (value : String) : Option String :=
    if value = "" then none
    else ((rulesByTable table).find? (·.token = token)).bind fun rule =>
      contextConflictingId t context table rule value recordId rootId
  match table with
  | .phanCongNhanSu =>
    let known := ((assignmentKey item).bind context.assignmentCandidates.get?).getD []
    match known.find? (· ≠ recordId.getD "None") with
    | some conflictingId => if conflictingId = "" then [] else [.assignment conflictingId]
    | none => []
  | .chuDauTu =>
    let code := fieldValue item ["maChuDauTu"]
    let taxCode := fieldValue item ["maSoThue"]
    reportDetail (existsMessage "Mã chủ đầu tư" code) (conflict .code code)
      ++ reportDetail (existsMessage "Mã số thuế" taxCode) (conflict .taxCode taxCode)
  | .keHoachLcnt =>
    let code := fieldValue item ["maKeHoach"]
    reportText (existsMessage "Mã kế hoạch" code) (conflict .code code)
  | .goiThau =>
    let code := fieldValue item ["maGoiThau"]
    reportText (existsMessage "Mã gói thầu" code) (conflict .code code)
  | .nhaThau =>
    let code := fieldValue item ["maNhaThau"]
    let taxCode := fieldValue item ["maSoThue"]
    reportDetail (existsMessage "Mã nhà thầu" code) (conflict .code code)
      ++ reportDetail (existsMessage "Mã số thuế" taxCode) (conflict .taxCode taxCode)
  | .chuyenGia =>
    let citizenId := fieldValue item ["soCCCD"]
    reportText (existsMessage "Số CCCD chuyên gia" citizenId) (conflict .citizenId citizenId)
  | .hopDong =>
    let contractNumber := fieldValue item ["soHopDong"]
    reportText (existsMessage "Số hợp đồng" contractNumber) (conflict .number contractNumber)
  | .danhMucTrangThaiHopDong =>
    let statusName := fieldValue item ["name", "tenTrangThai"]
    reportText (existsMessage "Trạng thái hợp đồng" statusName) (conflict .name statusName)
  | .other _ => []

/-- `a != b` of SQL is true: both are not `NULL`, and they differ. -/
def sqlDiffers : Option String → Option String → Bool
  | some a, some b => a ≠ b
  | _, _ => false

/-- `_conflicting_id` with one of the queries: the id of the first row, if there is one. -/
def conflictingId (column : String) (caseInsensitive active lineage : Bool) (value : String)
    (recordId rootId : Option String) : Option String :=
  let rows := planner.order (.conflicting table column value) ((store table).filter fun row =>
    row.organizationId = organizationId ∧ (active → row.archived = false) ∧
      row.normalized t column caseInsensitive = some (normalizedValue t caseInsensitive value) ∧
      sqlDiffers (some row.id) recordId ∧
      (lineage → row.idGoc = none ∨ sqlDiffers row.idGoc rootId))
  rows.head?.map StoredRecord.id

/-- `SELECT 1` instead of the id: the row only has to be there. -/
def found (conflict : Option String) : Option String := conflict.map fun _ => "1"

def validateDomainUniqueness (item : Fields) (recordId rootId : Option String) : List UniquenessError :=
  let ask (column : String) (caseInsensitive active lineage : Bool) (value : String) : Option String :=
    if value = "" then none
    else conflictingId t planner store organizationId table column caseInsensitive active lineage value recordId rootId
  match table with
  | .chuDauTu =>
    let code := fieldValue item ["maChuDauTu"]
    let taxCode := fieldValue item ["maSoThue"]
    reportDetail (existsMessage "Mã chủ đầu tư" code) (ask "ma_chu_dau_tu" true true true code)
      ++ reportDetail (existsMessage "Mã số thuế" taxCode) (ask "ma_so_thue" true true true taxCode)
  | .keHoachLcnt =>
    let code := fieldValue item ["maKeHoach"]
    reportText (existsMessage "Mã kế hoạch" code) (found (ask "ma_ke_hoach" true true true code))
  | .goiThau =>
    let code := fieldValue item ["maGoiThau"]
    reportText (existsMessage "Mã gói thầu" code) (found (ask "ma_goi_thau" true true true code))
  | .nhaThau =>
    let code := fieldValue item ["maNhaThau"]
    let taxCode := fieldValue item ["maSoThue"]
    reportDetail (existsMessage "Mã nhà thầu" code) (ask "ma_nha_thau" true true true code)
      ++ reportDetail (existsMessage "Mã số thuế" taxCode) (ask "ma_so_thue" true true true taxCode)
  | .chuyenGia =>
    let citizenId := fieldValue item ["soCCCD"]
    reportText (existsMessage "Số CCCD chuyên gia" citizenId) (found (ask "so_cccd" false true true citizenId))
  | .hopDong =>
    let contractNumber := fieldValue item ["soHopDong"]
    reportText (existsMessage "Số hợp đồng" contractNumber) (found (ask "so_hop_dong" true true true contractNumber))
  | .danhMucTrangThaiHopDong =>
    let statusName := fieldValue item ["name", "tenTrangThai"]
    reportText (existsMessage "Trạng thái hợp đồng" statusName) (found (ask "name" true false false statusName))
  | .phanCongNhanSu => []
  | .other _ => []

end Bidding.Uniqueness
