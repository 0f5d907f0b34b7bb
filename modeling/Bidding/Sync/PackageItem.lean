import Bidding.Sync.Text

/-!
# Package items of a sync batch

The keys of a package are made canonical, its derived totals are set, and its status and fields are checked against the
stored row, all on a canonical copy; the write makes its own (`PackageRow.lean`). A field is a scalar; the two lists of lots
are kept beside the fields.
-/

namespace Bidding

open Foundations

/-- The statuses of a package. -/
inductive PackageStatus where
  | unknown | preparing | invited | opened | evaluating | partiallyAwarded | awarded | cancelled
  deriving DecidableEq

namespace PackageStatus

/-- All statuses, in the order of `PACKAGE_STATUS_LABELS`. -/
def all : List PackageStatus :=
  [unknown, preparing, invited, opened, evaluating, partiallyAwarded, awarded, cancelled]

/-- What the database stores. -/
def code : PackageStatus → String
  | unknown => "UNKNOWN"
  | preparing => "PREPARING"
  | invited => "INVITED"
  | opened => "OPENED"
  | evaluating => "EVALUATING"
  | partiallyAwarded => "PARTIALLY_AWARDED"
  | awarded => "AWARDED"
  | cancelled => "CANCELLED"

/-- What the API sends. -/
def label : PackageStatus → String
  | unknown => "Chưa xác định"
  | preparing => "Chuẩn bị"
  | invited => "Đang mời thầu"
  | opened => "Đã mở thầu"
  | evaluating => "Đang chấm thầu"
  | partiallyAwarded => "Đã có kết quả một phần"
  | awarded => "Đã có kết quả"
  | cancelled => "Hủy thầu"

def ofCode? (text : String) : Option PackageStatus := all.find? fun status => status.code = text

def ofLabel? (text : String) : Option PackageStatus := all.find? fun status => status.label = text

@[simp] theorem ofCode?_code (status : PackageStatus) : ofCode? status.code = some status := by cases status <;> decide

@[simp] theorem ofLabel?_label (status : PackageStatus) : ofLabel? status.label = some status := by cases status <;> decide

theorem label_of_ofLabel? {text : String} {status : PackageStatus} (h : ofLabel? text = some status) : status.label = text := by
  simpa using List.find?_some h

/-- `PACKAGE_STATUS_TRANSITIONS`. -/
def transitions : PackageStatus → List PackageStatus
  | preparing => [invited, cancelled]
  | invited => [opened, cancelled]
  | opened => [evaluating, cancelled]
  | evaluating => [partiallyAwarded, awarded, cancelled]
  | partiallyAwarded => [evaluating, awarded, cancelled]
  | awarded => [evaluating, partiallyAwarded, cancelled]
  | cancelled => all.filter (· ≠ cancelled)
  | unknown => []

end PackageStatus

def legacyCancelledLabel : String := "Huỷ thầu"

/-- `LEGACY_PACKAGE_STATUS_ALIASES.get(text, text)`. -/
def statusAlias (text : String) : String :=
  if text = legacyCancelledLabel then PackageStatus.cancelled.label else text

/-- `enum_label("goi_thau", "trang_thai", value)`. -/
def statusLabel (value : Scalar) : Scalar :=
  match value with
  | .none => .none
  | value =>
    match PackageStatus.ofCode? (pyStrip value.text) with
    | some status => .str status.label
    | none => value

/-- `enum_code("goi_thau", "trang_thai", value)`. -/
def statusCode (value : Scalar) : Scalar :=
  match value with
  | .none => .none
  | value =>
    let text := pyStrip value.text
    if (PackageStatus.ofCode? text).isSome then .str text
    else if text = legacyCancelledLabel then .str PackageStatus.cancelled.code
    else
      match PackageStatus.ofLabel? text with
      | some status => .str status.code
      | none => .str text

/-- `x.title()` of a word. -/
def titleChars : Bool → List Char → List Char
  | _, [] => []
  | inWord, c :: rest =>
    if c.isAlpha then (if inWord then c.toLower else c.toUpper) :: titleChars true rest
    else c :: titleChars false rest

def splitUnderscore : List Char → List (List Char)
  | [] => [[]]
  | c :: rest =>
    if c = '_' then [] :: splitUnderscore rest
    else
      match splitUnderscore rest with
      | word :: words => (c :: word) :: words
      | [] => [[c]]

def toCamelCase (column : String) : String :=
  match splitUnderscore column.toList with
  | first :: words => .ofList (first ++ (words.map (titleChars false)).flatten)
  | [] => ""

inductive ColumnKind where
  | id | text | money | status
  deriving DecidableEq

/-- A column of a table: how it is written, the default the serializer finds in its upper-cased
definition, and what the database checks. -/
structure Column where
  name : String
  kind : ColumnKind
  notNull : Bool
  upperDefault : Option String
  allowed : Option (List String)
  notBlank : Bool
  deriving DecidableEq

/-- The `field_map` of the packages, for the modelled columns. -/
def goiThauFieldMap : List (String × String) :=
  [("nha_thau_trung_thau_id", "nhaThauTrungThauId"), ("phuong_phap_danh_gia", "phuongPhapDanhGia")]

/-- `json_key_for_column("goi_thau", col)`. -/
def goiThauKey (column : String) : String :=
  match goiThauFieldMap.find? fun entry => entry.1 = column with
  | some entry => entry.2
  | none => if column = "id_goc" then "rootId" else toCamelCase column

def textColumn (name : String) : Column := ⟨name, .text, false, none, none, false⟩

def filledColumn (name : String) : Column := ⟨name, .text, true, none, none, true⟩

def choiceColumn (name : String) (notNull : Bool) (upperDefault : String) (allowed : List String) : Column :=
  ⟨name, .text, notNull, some upperDefault, some allowed, false⟩

/-- The modelled columns of a package. A default is found by a pattern in the upper-cased
definition, so it is an upper-cased text. -/
def goiThauColumns : List Column :=
  [ textColumn "ma_goi_thau", ⟨"ke_hoach_id", .id, true, none, none, true⟩,
    ⟨"ten_goi_thau", .text, true, none, none, false⟩, ⟨"gia_goi_thau", .money, true, none, none, false⟩,
    textColumn "loai_hop_dong", textColumn "hinh_thuc_lua_chon", textColumn "phuong_thuc_lua_chon",
    choiceColumn "qua_mang" true "QUA MẠNG" ["Qua mạng", "Không qua mạng"],
    choiceColumn "trong_nuoc_quoc_te" true "TRONG NƯỚC" ["Trong nước", "Quốc tế"], filledColumn "thoi_gian_thuc_hien",
    filledColumn "nguon_von", ⟨"nha_thau_trung_thau_id", .id, false, none, none, false⟩,
    ⟨"gia_trung_thau", .money, false, none, none, false⟩, textColumn "linh_vuc",
    choiceColumn "tuy_chon_mua_them" false "KHÔNG" ["Có", "Không"], filledColumn "thoi_gian_to_chuc",
    filledColumn "thoi_gian_bat_dau_to_chuc", choiceColumn "phan_lo" false "KHÔNG" ["Có", "Không"],
    textColumn "phuong_phap_danh_gia",
    ⟨"trang_thai", .status, true, some "PREPARING", some (PackageStatus.all.map PackageStatus.code), false⟩ ]

/-- `PACKAGE_LOCKED_FIELDS_AFTER_INVITATION`: keys and columns. -/
def packageLockedFields : List (String × String) :=
  [("maGoiThau", "ma_goi_thau"), ("keHoachId", "ke_hoach_id"), ("tenGoiThau", "ten_goi_thau"),
    ("giaGoiThau", "gia_goi_thau"), ("loaiHopDong", "loai_hop_dong"),
    ("hinhThucLuaChon", "hinh_thuc_lua_chon"), ("phuongThucLuaChon", "phuong_thuc_lua_chon"),
    ("phuongPhapDanhGia", "phuong_phap_danh_gia"), ("quaMang", "qua_mang"),
    ("trongNuocQuocTe", "trong_nuoc_quoc_te"), ("linhVuc", "linh_vuc"), ("nguonVon", "nguon_von"),
    ("phanLo", "phan_lo"), ("thoiGianThucHien", "thoi_gian_thuc_hien"), ("thoiGianToChuc", "thoi_gian_to_chuc"),
    ("thoiGianBatDauToChuc", "thoi_gian_bat_dau_to_chuc"), ("tuyChonMuaThem", "tuy_chon_mua_them")]

theorem lockedField_column : ∀ field ∈ packageLockedFields, field.1 = goiThauKey field.2 ∧
    ∃ column ∈ goiThauColumns, column.name = field.2 ∧ column.kind ≠ .status := by
  decide

/-- A package of a batch; `path` is where it stands in the batch, as errors name it. -/
structure PackageItem where
  path : String
  fields : Fields
  phanLoList : Option (List Fields)
  awardedPhanLoList : Option (List Fields)

namespace PackageItem

variable (item : PackageItem)

def get (key : String) : Scalar := item.fields.getValue key

/-- `item[key] = value`. -/
def set (item : PackageItem) (key : String) (value : Scalar) : PackageItem :=
  { item with fields := item.fields.set key value }

/-- `_as_list(item.get("phanLoList"))`. -/
def lots : List Fields := item.phanLoList.getD []

/-- `str(item.get("phanLo") or "").strip() == "Có"`. -/
def lotted : Bool := (item.get "phanLo").orEmptyText = "Có"

end PackageItem

/-- The canonical keys of the columns: a value under the canonical key, else one under the name
of the column. -/
def canonicalizeFields (keyOf : String → String) (columns : List Column) (fields : Fields) : Fields :=
  columns.foldl (fun normalized column =>
    match fields.get? (keyOf column.name) with
    | some value => normalized.set (keyOf column.name) value
    | none =>
      match fields.get? column.name with
      | some value => normalized.set (keyOf column.name) value
      | none => normalized)
    (fields.filterKeys fun key => key ∉ columns.map Column.name)

/-- `canonicalize_payload_item("goi_thau", item)`, the fields. -/
def canonicalizePackage (t : PyText) (item : PackageItem) : PackageItem :=
  let normalized := canonicalizeFields goiThauKey goiThauColumns item.fields
  let normalized :=
    if (normalized.getValue "maGoiThau").blank then normalized
    else normalized.set "maGoiThau" (.str (normalizeBusinessIdentifier t (normalized.getValue "maGoiThau")))
  let competitive := t.lower (normalized.getValue "hinhThucLuaChon").orEmptyText = "chào hàng cạnh tranh"
  { item with
    fields :=
      if competitive then
        ((normalized.set "yeuCauThamDinhHsmt" (.str "Không")).set "soBaoCaoThamDinhHsmt"
          (.str "")).set "ngayBaoCaoThamDinhHsmt" (.str "")
      else normalized }

/-! ## Checks of the item -/

structure FieldError where
  field : String
  code : String
  message : String
  deriving DecidableEq

def textError (message : String) : FieldError := ⟨"$record", "SYNC_ITEM_INVALID", message⟩

def maxSyncTextLength : ℕ := 100000

/-- The shape check of one field that is a column. -/
def shapeError (column : Column) (path : String) (value : Scalar) : Option FieldError :=
  match value with
  | .none =>
    if column.notNull then some ⟨path, "NULL_NOT_ALLOWED", "Trường này không được là null."⟩
    else none
  | value =>
    if column.kind = .money then
      if (parseVndAmount value).isNone then
        some ⟨path, "INVALID_MONEY", "Số tiền phải là số nguyên không âm hợp lệ."⟩
      else none
    else
      match value with
      | .str s =>
        if s.length > maxSyncTextLength then
          some ⟨path, "STRING_TOO_LONG", "Chuỗi vượt quá giới hạn cho phép."⟩
        else none
      | _ => some ⟨path, "INVALID_STRING", "Giá trị phải là chuỗi."⟩

variable (item : PackageItem)

/-- `validate_sync_payload_shape`, the modelled columns of one package: a column is named by its
key or by its own name. -/
def validatePackageShape : List FieldError :=
  item.fields.entries.filterMap fun entry =>
    match goiThauColumns.find? fun column =>
      column.name = entry.1 || goiThauKey column.name = entry.1 with
    | some column => shapeError column (item.path ++ "." ++ entry.1) entry.2
    | none => none

/-- `lot.get(key, lot.get(column))`. -/
def lotValue (lot : Fields) (key column : String) : Scalar :=
  match lot.get? key with
  | some value => value
  | none => lot.getValue column

/-- `lot.get(key) or lot.get(column)`. -/
def lotOr (lot : Fields) (key column : String) : Scalar :=
  if (lot.getValue key).truthy then lot.getValue key else lot.getValue column

def lotsTotal (key column : String) (lots : List Fields) : ℕ :=
  (lots.map fun lot => (parseVndAmount (lotValue lot key column)).getD 0).sum

def deriveLottedPackagePrice : Option ℕ :=
  if item.lotted ∧ item.lots ≠ [] then some (lotsTotal "giaTriPhanLo" "gia_tri_phan_lo" item.lots)
  else none

def isBlank : Scalar → Bool
  | .none => true
  | .str s => pyStrip s = ""
  | _ => false

def requireFields (fields : List (String × String)) : List FieldError :=
  (fields.filter fun field => isBlank (item.get field.1)).map fun field => textError (field.2 ++ " không được để trống.")

/-- `_require_fields_for_goi_thau`: the derived price, then the required fields. -/
def requireFieldsForGoiThau : PackageItem × List FieldError :=
  let item :=
    match deriveLottedPackagePrice item with
    | some total => item.set "giaGoiThau" (.str (toString (total : Int)))
    | none => item
  (item, requireFields item [("keHoachId", "Kế hoạch LCNT liên kết"), ("tenGoiThau", "Tên gói thầu"),
      ("giaGoiThau", "Giá gói thầu"), ("thoiGianThucHien", "Thời gian thực hiện"),
      ("nguonVon", "Nguồn vốn"), ("thoiGianToChuc", "Thời gian tổ chức LCNT"),
      ("thoiGianBatDauToChuc", "Thời gian bắt đầu tổ chức")])

/-- `str(item.get("trangThai") or "Chuẩn bị").strip()`, in the current spelling. -/
def requestedStatus : String :=
  statusAlias (pyStrip (if (item.get "trangThai").truthy then (item.get "trangThai").text
    else PackageStatus.preparing.label))

def normalizePackageStatus : PackageItem × List FieldError :=
  let status := requestedStatus item
  let item' := item.set "trangThai" (.str status)
  (item', if (PackageStatus.ofLabel? status).isNone then
      [textError ("Trạng thái gói thầu '" ++ (item.get "trangThai").text ++ "' không hợp lệ.")]
    else if status = PackageStatus.partiallyAwarded.label ∧ !item.lotted then
      [textError "Trạng thái 'Đã có kết quả một phần' chỉ áp dụng cho gói thầu có phần lô."]
    else [])

/-- How far a package is, `status_order.get(item.get("trangThai"), 0)`. -/
def statusLevel (status : String) : ℕ :=
  match PackageStatus.ofLabel? status with
  | some .invited => 1
  | some .opened => 2
  | some .evaluating => 3
  | some .partiallyAwarded => 4
  | some .awarded => 5
  | _ => 0

def directOrSpecial : Bool :=
  (item.get "hinhThucLuaChon").orEmptyText ∈ ["Chỉ định thầu rút gọn", "Lựa chọn nhà thầu trong trường hợp đặc biệt"]

/-- `safe_int(item.get("hieuLucHsdt"))`; the shape check lets only integers through. -/
def bidValidityDays : Option Int :=
  match item.get "hieuLucHsdt" with
  | .int n => some n
  | _ => none

variable (t : PyText)

def lotCode (lot : Fields) : String :=
  normalizeLotCode t (lotOr lot "maPhanLo" "ma_phan_lo")

def lotWinner (lot : Fields) : String :=
  (lotOr lot "nhaThauTrungThauId" "nha_thau_trung_thau_id").orEmptyText

/-- What a status asks for. -/
def statusRequirements : List FieldError :=
  let level := statusLevel (item.get "trangThai").text
  (if 1 ≤ level ∧ !directOrSpecial item then
    requireFields item [("thoiGianDangTai", "Thời gian đăng tải"), ("thoiGianDongThau", "Thời gian đóng thầu")] ++
      (if (bidValidityDays item).all (· ≤ 0) then
        [textError "Hiệu lực HSDT phải lớn hơn 0 khi gói đã mời thầu."] else [])
    else []) ++
  (if 2 ≤ level ∧ !directOrSpecial item then
    requireFields item [("thoiGianMoThau", "Thời gian mở thầu")] else []) ++
  (if 4 ≤ level then
    requireFields item [("soQuyetDinhKetQua", "Số quyết định kết quả"),
      ("ngayQuyetDinhKetQua", "Ngày quyết định kết quả"), ("giaTrungThau", "Giá trúng thầu")] ++ (if item.lotted then [] else
        requireFields item [("nhaThauTrungThauId", "Nhà thầu trúng thầu")])
    else [])

/-- The lots of the item, and the price they give. -/
def packageLots (item : PackageItem) : PackageItem × List FieldError :=
  if item.lotted then
    let codes := (item.lots.map (lotCode t)).filter (· ≠ "")
    (if item.lots = [] then item
      else item.set "giaGoiThau" (.str (toString (lotsTotal "giaTriPhanLo" "gia_tri_phan_lo" item.lots : Int))),
      (if item.lots = [] then [textError "Gói thầu phân lô phải có ít nhất một phần lô."] else []) ++
      ((List.range item.lots.length).zip item.lots).filterMap (fun entry =>
        if lotCode t entry.2 = "" then
          some (textError ("Phần lô thứ " ++ toString (entry.1 + 1) ++ " chưa có mã phần lô."))
        else none) ++
      (if codes.Nodup then [] else
        [textError "Mã phần lô không được trùng trong cùng gói thầu."]))
  else
    (item, if item.lots = [] then [] else
      [textError "Gói không phân lô không được chứa danh sách phần lô."])

def awardedLots : List Fields :=
  let awarded := item.awardedPhanLoList.getD []
  if awarded ≠ [] then awarded
  else item.lots.filter fun lot => (lotOr lot "nhaThauTrungThauId" "nha_thau_trung_thau_id").truthy

def awardErrors (knownCodes : List String) (lot : Fields) : List FieldError :=
  (if lotCode t lot = "" ∨ lotCode t lot ∉ knownCodes then
    [textError "Kết quả trúng thầu chứa phần lô không thuộc gói thầu."] else []) ++
  (if lotWinner lot = "" then
    [textError "Mỗi phần lô trúng thầu phải xác định nhà thầu trúng thầu."] else []) ++
  (if (parseVndAmount (lotValue lot "giaTrungThau" "gia_trung_thau")).isNone then
    [textError "Mỗi phần lô trúng thầu phải có giá trúng thầu hợp lệ."] else [])

/-- The award of a lotted package, and the award price it gives. -/
def packageAward (item : PackageItem) : PackageItem × List FieldError :=
  if 4 ≤ statusLevel (item.get "trangThai").text ∧ item.lotted then
    let awarded := awardedLots item
    let winners := (awarded.map lotWinner).filter (· ≠ "")
    (if awarded = [] then item
      else
        (item.set "giaTrungThau" (.str (toString (lotsTotal "giaTrungThau" "gia_trung_thau" awarded : Int)))).set
            "nhaThauTrungThauId" (match winners.dedup with
              | [winner] => .str winner
              | _ => .none),
      (awarded.map (awardErrors t (item.lots.map (lotCode t)))).flatten ++
      (if (awarded.map (lotCode t)).Nodup then [] else
        [textError "Một phần lô không được xuất hiện nhiều lần trong kết quả trúng thầu."]))
  else (item, [])

def validatePackageStatusAndLots (item : PackageItem) : PackageItem × List FieldError :=
  let required := statusRequirements item
  let lots := packageLots t item
  let award := packageAward t lots.1
  (award.1, required ++ lots.2 ++ award.2)

def validatePackagePrice : List FieldError :=
  if !(item.get "giaGoiThau").blank ∧ (parseVndAmount (item.get "giaGoiThau")).isNone then
    [textError "Giá gói thầu không được nhỏ hơn 0."]
  else []

/-- `validate_sync_item("goi_thau", item)`, the checks and changes of the modelled fields. -/
def validatePackageItem (item : PackageItem) : PackageItem × List FieldError :=
  let required := requireFieldsForGoiThau item
  let status := normalizePackageStatus required.1
  let lots := validatePackageStatusAndLots t status.1
  (lots.1, required.2 ++ status.2 ++ lots.2 ++ validatePackagePrice lots.1)

def validatePackageStatusTransition (previousStatus : Scalar) (item : PackageItem)
    (allowSourceReconciliation : Bool) : List FieldError :=
  let oldStatus := statusAlias (statusLabel previousStatus).orEmptyText
  let newStatus := requestedStatus item
  if oldStatus = "" ∨ oldStatus = newStatus then []
  else if allowSourceReconciliation ∧ oldStatus = PackageStatus.unknown.label ∧ newStatus = PackageStatus.invited.label then []
  else if directOrSpecial item ∧ oldStatus = PackageStatus.preparing.label
      ∧ newStatus ∈ [PackageStatus.evaluating.label, PackageStatus.partiallyAwarded.label,
        PackageStatus.awarded.label, PackageStatus.cancelled.label] then []
  else if newStatus ∈ ((PackageStatus.ofLabel? oldStatus).elim [] fun status =>
      status.transitions.map PackageStatus.label) then []
  else [textError ("Không được chuyển trạng thái gói thầu từ '" ++ oldStatus ++ "' sang '" ++ newStatus ++ "'.")]

def lockStatus (previousRecord : Fields) : String :=
  let status := statusLabel (previousRecord.getValue "trang_thai")
  statusAlias (pyStrip (if status.truthy then status.text else PackageStatus.preparing.label))

def validatePackageLockedFields (previousRecord : Fields) (item : PackageItem)
    (allowSourceReconciliation : Bool) : List FieldError :=
  if lockStatus previousRecord = PackageStatus.preparing.label ∨ allowSourceReconciliation then []
  else packageLockedFields.filterMap fun field =>
    match item.fields.get? field.1 with
    | none => none
    | some after =>
      if (previousRecord.getValue field.2).fieldText = after.fieldText then none
      else some ⟨field.1, "PACKAGE_FIELD_LOCKED",
        "Trường này không được sửa sau khi phát hành mời thầu; hãy tạo phiên bản gói thầu mới."⟩

end Bidding
