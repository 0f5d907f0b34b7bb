import Bidding.Foundations.Dict
import Bidding.Clarifications.Times

/-!
# Appending clarifications

The clarifications of the source are merged into the stored rows of a package: a source row that was imported before, or
that a row without origin already has, adds nothing; every other one is planned as a new row.
-/

namespace Bidding.Clarifications

open Foundations

/-- The kinds of clarifications, stored as `yeu_cau` and `tra_loi`. -/
inductive Kind where
  | request
  | response
  deriving DecidableEq

def Kind.name : Kind → List Char
  | .request => "request".toList
  | .response => "response".toList

/-- A clarification of the source, with the time of its kind; what is missing is empty. -/
structure SourceRow where
  time : List Char
  content : List Char
  requestNo : List Char
  requestId : List Char

structure SourceRows where
  requests : List SourceRow
  responses : List SourceRow

def SourceRows.of (rows : SourceRows) : Kind → List SourceRow
  | .request => rows.requests
  | .response => rows.responses

/-- A row of `goi_thau_lam_ro`. -/
structure StoredRow where
  id : List Char
  loai : Kind
  thoiGian : List Char
  noiDung : List Char
  sortOrder : ℤ

/-- A row to append. -/
structure PlannedRow where
  id : List Char
  loai : Kind
  thoiGian : List Char
  noiDung : List Char
  displayTime : List Char

inductive NoticeTargetError where
  | revisionInvalid
  deriving DecidableEq

def revisionNumber (value : List Char) : Except NoticeTargetError (List Char) :=
  let text := jsTrim value
  if 1 ≤ text.length ∧ text.length ≤ 16 ∧ text.all Char.isDigit then
    let stripped := text.dropWhile (· = '0')
    let number := if stripped = [] then ['0'] else stripped
    .ok (List.replicate (2 - number.length) '0' ++ number)
  else .error .revisionInvalid

/-- `int(version)`. -/
def versionValue (version : List Char) : ℕ := version.foldl (fun value c => value * 10 + digitValue c) 0

/-- A version in the loop of `rows_in_scope`. -/
def addVersion (versions : List (List Char × SourceRows)) (entry : List Char × SourceRows) :
    Except NoticeTargetError (List (List Char × SourceRows)) := do
  let version ← revisionNumber entry.1
  if version ∈ versions.map Prod.fst then throw .revisionInvalid
  return versions ++ [(version, entry.2)]

def rowsInScope (rowsByVersion : Dict (List Char) SourceRows) (target : List Char) :
    Except NoticeTargetError (List (List Char × SourceRows) × Bool) := do
  let versions ← rowsByVersion.entries.foldlM addVersion []
  let ordered := versions.mergeSort fun v w => decide (versionValue v.1 ≤ versionValue w.1)
  return (ordered.filter fun v => versionValue v.1 ≤ versionValue target,
    ordered.any fun v => decide (versionValue target < versionValue v.1) &&
      !(v.2.requests.isEmpty && v.2.responses.isEmpty))

/-- `re.sub(r"\r\n?", "\n", text)`. -/
def breaksToLf : List Char → List Char
  | [] => []
  | '\r' :: '\n' :: rest => '\n' :: breaksToLf rest
  | c :: rest => (if c = '\r' then '\n' else c) :: breaksToLf rest

def normalizedContent (value : List Char) : List Char := jsTrim (breaksToLf value)

def sourceIdentity (row : SourceRow) : List Char :=
  if jsTrim row.requestNo = [] then jsTrim row.requestId else jsTrim row.requestNo

abbrev Digest := {digits : List (Fin 16) // digits.length = 64}

abbrev Uuid := {text : List Char // text.length = 36}

def Digest.hex (digest : Digest) : List Char := digest.1.map fun digit : Fin 16 => Nat.digitChar digit.val

def rowIdStart : List Char := "lr-".toList

def importedRowId (id : List Char) : Bool :=
  id.take 3 == rowIdStart && (id.drop 3).length == 64 && (id.drop 3).all ("0123456789abcdef".toList.contains ·)

/-- What a merge works with: the record, how times in another form than the display form are
read, SHA-256 of a JSON list of texts, and random UUIDs. -/
structure MergeInput where
  packageId : List Char
  noticeNo : List Char
  parseOther : List Char → Option (Clock × ℕ)
  sha256 : List (List Char) → Digest
  uuid : ℕ → Uuid

variable (input : MergeInput)

variable (kind : Kind)

def MergeInput.payload (version identity : List Char) : List (List Char) :=
  [input.packageId, input.noticeNo, version, kind.name, identity]

def localRowId (version identity : List Char) : List Char :=
  rowIdStart ++ (input.sha256 (input.payload kind version identity)).hex

abbrev SourceItem := List Char × SourceRow

def rowIdOf (item : SourceItem) : Option (List Char) :=
  if sourceIdentity item.2 = [] then none else some (localRowId input kind item.1 (sourceIdentity item.2))

def contentIdentity (time content : List Char) : List Char × List Char :=
  (formatForDatetimeLocal input.parseOther time, normalizedContent content)

/-- The bookkeeping of the merge: ids in use, rows without origin, source rows met, rows planned. -/
structure MergeState where
  currentIds : List (List Char)
  unkeyed : Dict (List Char × List Char) (List (List Char))
  seenKeys : List (List Char × List Char)
  planned : List PlannedRow
  generated : ℕ

def unkeyedRow (row : StoredRow) : Bool :=
  !importedRowId row.id && row.thoiGian != [] && normalizedContent row.noiDung != []

def addUnkeyed (unkeyed : Dict (List Char × List Char) (List (List Char))) (row : StoredRow) :
    Dict (List Char × List Char) (List (List Char)) :=
  if unkeyedRow row then
    unkeyed.set (contentIdentity input row.thoiGian row.noiDung)
      ((unkeyed.get? (contentIdentity input row.thoiGian row.noiDung)).getD [] ++ [row.id])
  else unkeyed

variable (current : List StoredRow)

def mergeStart (generated : ℕ) : MergeState where
  currentIds := current.map StoredRow.id
  unkeyed := current.foldl (addUnkeyed input) Dict.empty
  seenKeys := []
  planned := []
  generated := generated

/-- A source row in the loop of `plan_append`. -/
def mergeSource (state : MergeState) (item : SourceItem) : MergeState :=
  let time := formatForDatetimeLocal input.parseOther item.2.time
  if time = [] ∨ normalizedContent item.2.content = [] then state
  else
    let rowId := rowIdOf input kind item
    let seenKeys := state.seenKeys ++ (rowId.map fun id => (item.1, id)).toList
    if rowId.any fun id => decide ((item.1, id) ∈ state.seenKeys) then state
    else if rowId.any fun id => decide (id ∈ state.currentIds) then { state with seenKeys := seenKeys }
    else
      match state.unkeyed.get? (contentIdentity input time item.2.content) with
      | some (_ :: rest) =>
        { state with
          unkeyed := state.unkeyed.set (contentIdentity input time item.2.content) rest
          seenKeys := seenKeys }
      | _ =>
        let newId := rowId.getD (rowIdStart ++ (input.uuid state.generated).1)
        let row : PlannedRow :=
          ⟨newId, kind, normalizeDatetimeValue input.parseOther time, item.2.content, time⟩
        { state with
          currentIds := state.currentIds ++ [newId]
          seenKeys := seenKeys
          planned := state.planned ++ [row]
          generated := if rowId.isSome then state.generated else state.generated + 1 }

def sourceItems (versions : List (List Char × SourceRows)) (kind : Kind) : List SourceItem :=
  versions.flatMap fun version => (version.2.of kind).map fun source => (version.1, source)

def mergeKind (versions : List (List Char × SourceRows)) (generated : ℕ) : MergeState :=
  (sourceItems versions kind).foldl (mergeSource input kind)
    (mergeStart input (current.filter fun row => row.loai = kind) generated)

structure AppendPlan where
  requests : List PlannedRow
  responses : List PlannedRow
  newerRevisionRows : Bool

def AppendPlan.rows (plan : AppendPlan) : List PlannedRow := plan.requests ++ plan.responses

/-- `plan_append(package_id, notice_no, target_version, current_rows, rows_by_version)`, after so many random ids. -/
def planAppend (generated : ℕ) (target : List Char) (current : List StoredRow)
    (rowsByVersion : Dict (List Char) SourceRows) : Except NoticeTargetError AppendPlan := do
  let scope ← rowsInScope rowsByVersion target
  let requests := mergeKind input .request current scope.1 generated
  let responses := mergeKind input .response current scope.1 requests.generated
  return { requests := requests.planned, responses := responses.planned, newerRevisionRows := scope.2 }

def nextOrder (kind : Kind) : ℤ :=
  ((current.filter fun row => row.loai = kind).map StoredRow.sortOrder).foldl max (-1) + 1

def PlannedRow.stored (row : PlannedRow) (sortOrder : ℤ) : StoredRow where
  id := row.id
  loai := row.loai
  thoiGian := row.thoiGian
  noiDung := row.noiDung
  sortOrder := sortOrder

/-- The rows that `append_clarifications` inserts. -/
def insertedRows (plan : AppendPlan) : List StoredRow :=
  (plan.requests.mapIdx fun i row => row.stored (nextOrder current .request + i)) ++
    plan.responses.mapIdx fun i row => row.stored (nextOrder current .response + i)

end Bidding.Clarifications
