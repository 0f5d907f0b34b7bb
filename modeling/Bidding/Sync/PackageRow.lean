import Bidding.Foundations.Saturate
import Bidding.Sync.PackageItem

/-!
# Stored packages

A stored package is a row that passes the checks of its table. An accepted update overwrites the
columns the item gives a value for; the serializer works on its own canonical copy of the
item, not on the copy the checks have worked on.
-/

namespace Bidding

open Foundations

/-- What the database accepts in a column: its type, `NOT NULL`, and its `CHECK`. -/
def Column.accepts (column : Column) : Scalar → Bool
  | .none => !column.notNull
  | .int n => column.kind = .money && 0 ≤ n && n ≤ maxAmount
  | .str s => column.kind ≠ .money && column.allowed.all (s ∈ ·) && (!column.notBlank || s.toList.any (· ≠ ' '))
  | _ => false

/-- A text is stripped unless it looks like a JSON list or object. -/
def stripText : Scalar → Scalar
  | .str s =>
    match s.toList with
    | '[' :: _ => .str s
    | '{' :: _ => .str s
    | _ => .str (pyStrip s)
  | value => value

/-- What the serializer writes into a column; nothing for a missing value of a column that must
have one. -/
def serializeColumn (column : Column) (value : Scalar) : Option Scalar :=
  let value := if column.kind = .id then cleanId value else value
  let value := stripText value
  let value := if column.kind = .money then amountScalar (parseVndAmount value) else value
  let value := if value = .none then (column.upperDefault.map Scalar.str).getD .none else value
  if value = .none ∧ column.notNull = true then none
  else some (if column.kind = .status then statusCode value else value)

variable (f : Column → Option Scalar) {column : Column}

def writeColumn (row : Fields) (column : Column) : Fields :=
  match f column with
  | some written => row.set column.name written
  | none => row

def writeColumns (columns : List Column) : Fields :=
  columns.foldl (writeColumn f) .empty

/-- `serialize("goi_thau", item)`, the modelled columns. -/
def serializePackage (item : PackageItem) : Fields :=
  writeColumns (fun column => (item.fields.get? (goiThauKey column.name)).bind (serializeColumn column)) goiThauColumns

structure PackageRow where
  columns : Fields
  accepted : ∀ column ∈ goiThauColumns, column.accepts (columns.getValue column.name) = true

def PackageRow.fieldText (row : PackageRow) (column : String) : String :=
  (row.columns.getValue column).fieldText

def PackageRow.status (row : PackageRow) : Option PackageStatus :=
  PackageStatus.ofCode? (row.columns.getValue "trang_thai").text

def packageErrors (t : PyText) (row : PackageRow) (item : PackageItem) (trustedImport : Bool) : List FieldError :=
  let validated := validatePackageItem t item
  validated.2 ++ validatePackageStatusTransition (row.columns.getValue "trang_thai") validated.1 trustedImport ++
    validatePackageLockedFields row.columns validated.1 trustedImport

def writtenColumns (row : PackageRow) (item : PackageItem) : Fields :=
  row.columns.spread (serializePackage item)

/-- An update of a stored package by one item of a batch: the new row, or nothing when the
batch is refused. `refused` says which updates the other checks of the batch refuse (access,
row versions, references, uniqueness, dates, goods). -/
def updatePackage (t : PyText) (refused : PackageRow → PackageItem → Bool) (row : PackageRow)
    (raw : PackageItem) : Option PackageRow :=
  if validatePackageShape raw ≠ [] ∨ packageErrors t row (canonicalizePackage t raw) false ≠ [] ∨ refused row raw then none
  else
    let written := writtenColumns row (canonicalizePackage t raw)
    if h : ∀ column ∈ goiThauColumns, column.accepts (written.getValue column.name) = true then
      some ⟨written, h⟩
    else none

def runUpdates (t : PyText) (refused : PackageRow → PackageItem → Bool) (row : PackageRow)
    (items : List PackageItem) : PackageRow :=
  items.foldl (fun row raw => (updatePackage t refused row raw).getD row) row

theorem goiThauColumns_nodup : (goiThauColumns.map Column.name).Nodup := by decide

theorem get?_writeColumns {columns : List Column} (hnodup : (columns.map Column.name).Nodup) (hmem : column ∈ columns) :
    (writeColumns f columns).get? column.name = f column := by
  have hdistinct : ∀ column' ∈ columns, column' ≠ column → column'.name ≠ column.name :=
    fun column' hmem' hne heq => hne (List.inj_on_of_nodup_map hnodup hmem' hmem heq)
  have h := foldl_once (writeColumn f) (fun row => row.get? column.name)
    (fun old => (f column).or old) column columns hnodup.of_map (fun row => by
      unfold writeColumn
      cases f column <;> simp)
    (fun row column' hmem' hne => by
      unfold writeColumn
      cases f column' with
      | none => rfl
      | some written => exact Dict.get?_set_of_ne _ _ (Ne.symm (hdistinct column' hmem' hne)))
    .empty
  unfold writeColumns
  rw [h, if_pos hmem]
  simp

theorem get?_serializePackage (item : PackageItem) (hmem : column ∈ goiThauColumns) : (serializePackage item).get? column.name =
    (item.fields.get? (goiThauKey column.name)).bind (serializeColumn column) :=
  get?_writeColumns _ goiThauColumns_nodup hmem

theorem getValue_writtenColumns (row : PackageRow) (item : PackageItem)
    (hmem : column ∈ goiThauColumns) : (writtenColumns row item).getValue column.name =
      match (item.fields.get? (goiThauKey column.name)).bind (serializeColumn column) with
      | some written => written
      | none => row.columns.getValue column.name := by
  unfold writtenColumns Fields.getValue
  rw [Dict.get?_spread, get?_serializePackage item hmem]
  cases (item.fields.get? (goiThauKey column.name)).bind (serializeColumn column) <;> rfl

theorem updatePackage_eq_some {t : PyText} {refused : PackageRow → PackageItem → Bool}
    {row row' : PackageRow} {raw : PackageItem} (h : updatePackage t refused row raw = some row') :
    validatePackageShape raw = [] ∧ packageErrors t row (canonicalizePackage t raw) false = [] ∧
      row'.columns = writtenColumns row (canonicalizePackage t raw) := by
  unfold updatePackage at h
  split at h
  · cases h
  rename_i hpass
  simp only at h
  split at h
  · cases h
    exact ⟨by_contra fun hne => hpass (.inl hne), by_contra fun hne => hpass (.inr (.inl hne)), rfl⟩
  · cases h

end Bidding
