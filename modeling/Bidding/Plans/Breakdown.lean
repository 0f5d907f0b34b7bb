import Bidding.Foundations.Json

/-!
# The draft of an open plan breakdown

While a plan is edited, the rows of eight tables live in the state of the page together with a snapshot of them. When rows
of the server are merged meanwhile, three versions of each row meet, and what is saved is found by comparing with the
rebased snapshot.
-/

namespace Bidding.Plans.Breakdown

open Foundations

/-- A row of a table: an own property whose value is `undefined` is `none`. -/
abbrev DraftRow : Type := Dict String (Option Value)

variable (row : DraftRow)

/-- `row[field]`, where `undefined` is `none`; two fields have one `JSON.stringify` if and only if they are equal. -/
def field (name : String) : Option Value := (row.get? name).join

/-- `JSON.stringify(row)`, as the pairs that are written: those with a value. -/
def jsonText : List (String × Value) := row.entries.filterMap fun entry => entry.2.map fun value => (entry.1, value)

/-- `String(row?.[name] || "")`. -/
def textOf (name : String) : String :=
  match field row name with
  | some value => if value.jsTruthy then value.jsString else ""
  | none => ""

/-- `String(row?.id || "")`, the key of a row. -/
def rowKey : String := textOf row "id"

/-- `String(row.id)`. -/
def idText : String :=
  match field row "id" with
  | some value => value.jsString
  | none => "undefined"

/-- `Number.isInteger(row?.rowVersion) && row.rowVersion > 0`. -/
def isCommitted : Bool :=
  match field row "rowVersion" with
  | some (.num n) => 0 < n
  | _ => false

def serverOwnedDraftFields : List String :=
  ["rowVersion", "expectedVersion", "syncVersion", "organizationId", "createdAt", "updatedAt", "referenceOnly", "allVersions",
    "canEdit", "deleteOwnerUserId", "_valid", "_comment", "_operation"]

def changedFieldNames (current baseline : DraftRow) : List String :=
  (current.keys ++ baseline.keys.filter fun name => name ∉ current.keys).filter fun name =>
    name ∉ serverOwnedDraftFields ∧ field current name ≠ field baseline name

def withFields (base row : DraftRow) (names : List String) : DraftRow :=
  names.foldl (fun merged name => merged.set name (field row name)) base

/-- `new Map(rows.map((row) => [String(row?.id || ""), row]))`. -/
def rowsById (rows : List DraftRow) : Dict String DraftRow := Dict.ofList (rows.map fun row => (rowKey row, row))

/-- The rows of the form, the snapshot, and whether an edit was put on a newer row. -/
structure Rebasing where
  rows : Dict String DraftRow
  snapshot : Dict String DraftRow
  rebased : Bool

/-- `localRow?.referenceOnly === true && serverRow?.referenceOnly === false`. -/
def hydrates (localRow serverRow : DraftRow) : Bool :=
  field localRow "referenceOnly" = some (.bool true) && field serverRow "referenceOnly" = some (.bool false)

/-- The row of the server that takes the place of a reference, with the fields the user changed. -/
def hydrated (baseRow : Option DraftRow) (localRow serverRow : DraftRow) : DraftRow :=
  match baseRow with
  | some baseRow =>
    withFields serverRow localRow ((changedFieldNames localRow baseRow).filter fun name => localRow.contains name)
  | none => serverRow

def rebaseServerRow (baseline localRows : Dict String DraftRow) (state : Rebasing) (entry : String × DraftRow) : Rebasing :=
  let (id, serverRow) := entry
  match baseline.get? id, localRows.get? id with
  | none, none => { state with snapshot := state.snapshot.set id serverRow }
  | none, some localRow =>
    if hydrates localRow serverRow then
      ⟨state.rows.set id (hydrated none localRow serverRow), state.snapshot.set id serverRow, true⟩
    else { state with rows := state.rows.set id localRow }
  | some baseRow, none =>
    { state with
      rows := state.rows.erase id
      snapshot := if changedFieldNames serverRow baseRow = [] then state.snapshot.set id serverRow else state.snapshot }
  | some baseRow, some localRow =>
    if hydrates localRow serverRow then
      ⟨state.rows.set id (hydrated (some baseRow) localRow serverRow), state.snapshot.set id serverRow, true⟩
    else if changedFieldNames localRow baseRow = [] then { state with snapshot := state.snapshot.set id serverRow }
    else if changedFieldNames serverRow baseRow ≠ [] then { state with rows := state.rows.set id localRow }
    else
      ⟨state.rows.set id (withFields serverRow localRow (changedFieldNames localRow baseRow)), state.snapshot.set id serverRow, true⟩

/-- One row of the form that the server may not have. -/
def rebaseLocalRow (baseline : Dict String DraftRow) (state : Rebasing) (entry : String × DraftRow) : Rebasing :=
  let (id, localRow) := entry
  match baseline.get? id, state.rows.get? id with
  | none, none => { state with rows := state.rows.set id localRow }
  | some baseRow, none =>
    if changedFieldNames localRow baseRow ≠ [] then { state with rows := state.rows.set id localRow }
    else { state with snapshot := state.snapshot.erase id }
  | _, some _ => state

/-- One row of the snapshot that neither the form nor the server has. -/
def dropDeletedRow (localRows serverRows : Dict String DraftRow) (state : Rebasing) (entry : String × DraftRow) : Rebasing :=
  if !localRows.contains entry.1 && !serverRows.contains entry.1 then { state with snapshot := state.snapshot.erase entry.1 }
  else state

/-- `preserveDraftRow(row)`: a row that is revoked and was committed is dropped. -/
def preserveDraftRow (revokedIds : List String) (snapshot localBefore : List DraftRow) (row : DraftRow) : Bool :=
  idText row ∉ revokedIds || idText row ∉ ((snapshot ++ localBefore).filter isCommitted).map idText

structure ThreeVersions where
  baseline : Dict String DraftRow
  localRows : Dict String DraftRow
  serverRows : Dict String DraftRow

def threeVersions (revokedIds : List String) (snapshot localBefore serverRows : List DraftRow) : ThreeVersions where
  baseline := rowsById (snapshot.filter (preserveDraftRow revokedIds snapshot localBefore))
  localRows := rowsById (localBefore.filter (preserveDraftRow revokedIds snapshot localBefore))
  serverRows := rowsById serverRows

/-- The three loops over a table. -/
def rebaseVersions (versions : ThreeVersions) : Rebasing :=
  let merged := versions.serverRows.entries.foldl (rebaseServerRow versions.baseline versions.localRows)
    ⟨versions.serverRows, versions.baseline, false⟩
  let completed := versions.localRows.entries.foldl (rebaseLocalRow versions.baseline) merged
  versions.baseline.entries.foldl (dropDeletedRow versions.localRows versions.serverRows) completed

/-- `PLAN_BREAKDOWN_DRAFT_TABLES`. -/
inductive DraftTable where
  | chudautu
  | chuyengia
  | kehoach
  | goithau
  | goithauhanghoa
  | thongtinmothau
  | hanghoaduthaunhathau
  | assignments
  deriving DecidableEq

abbrev DraftTables : Type := DraftTable → List DraftRow

structure DraftState where
  tables : DraftTables
  snapshot : DraftTables

/-- `rebasePlanBreakdownDraftAfterServerMerge(model, draft, localBefore, changedTables, { revokedIdsByTable })` of an active draft. -/
def rebaseDraft (localBefore : DraftTables) (changedTables : List DraftTable) (revokedIdsByTable : DraftTable → List String)
    (state : DraftState) : DraftState :=
  let rebased := fun table =>
    rebaseVersions (threeVersions (revokedIdsByTable table) (state.snapshot table) (localBefore table) (state.tables table))
  { tables := fun table => if table ∈ changedTables then (rebased table).rows.values else state.tables table
    snapshot := fun table => if table ∈ changedTables then (rebased table).snapshot.values else state.snapshot table }

/-- `removedIds(before, after)`: the ids, as texts. -/
def removedIds (before after : List DraftRow) : List String :=
  (before.filter fun row => (field row "id").any Value.jsTruthy ∧ rowKey row ∉ after.map rowKey).map rowKey

def changedRows (currentRows previousRows : List DraftRow) : List DraftRow :=
  currentRows.filter fun row =>
    match (rowsById previousRows).get? (rowKey row) with
    | none => true
    | some previous => jsonText row ≠ jsonText previous

variable (planId : String)

variable (state : DraftState)

def packageIds : List String :=
  ((state.tables .goithau ++ state.snapshot .goithau).filter fun row => textOf row "keHoachId" = planId).map rowKey

/-- Whether an assignment is to the plan or to a package of it. -/
def isPlanAssignment (row : DraftRow) : Bool :=
  (field row "type" = some (.str "kehoach") && textOf row "targetId" = planId) ||
    (field row "type" = some (.str "goithau") && textOf row "targetId" ∈ planId :: packageIds planId state)

def investorIds : List String :=
  match (state.tables .kehoach).find? fun row => rowKey row = planId with
  | some plan => if textOf plan "chuDauTuId" = "" then [] else [textOf plan "chuDauTuId"]
  | none => []

/-- The rows of a table that belong to the plan. -/
def ofPlan : DraftTable → DraftRow → Bool
  | .kehoach, row => rowKey row = planId
  | .goithau, row => textOf row "keHoachId" = planId
  | .goithauhanghoa, row | .thongtinmothau, row | .hanghoaduthaunhathau, row =>
    textOf row "goiThauId" ∈ packageIds planId state
  | .assignments, row => isPlanAssignment planId state row
  | .chudautu, row => rowKey row ∈ investorIds planId state
  | .chuyengia, _ => true

/-- The rows of the plan in the form and in the snapshot; of the plans of the form the first with the id counts. -/
def currentRows : DraftTable → List DraftRow
  | .kehoach => ((state.tables .kehoach).find? fun row => rowKey row = planId).toList
  | table => (state.tables table).filter (ofPlan planId state table)

def previousRows (table : DraftTable) : List DraftRow :=
  (state.snapshot table).filter (ofPlan planId state table)

/-- `collectPlanBreakdownDraftChanges(state, { planId, snapshot }).upserts`: investors are listed before they are committed,
experts in their latest version. -/
def upserts : DraftTable → List DraftRow
  | .chudautu => (currentRows planId state .chudautu).filter fun row =>
    field row "referenceOnly" ≠ some (.bool true) ∧ ¬Value.jsPositive (field row "rowVersion")
  | .chuyengia => (changedRows (state.tables .chuyengia) (state.snapshot .chuyengia)).filter fun row =>
    (field row "isLatest").bind Value.jsNumber = some 1
  | table => changedRows (currentRows planId state table) (previousRows planId state table)

/-- `collectPlanBreakdownDraftChanges(state, { planId, snapshot }).deletions`. -/
def deletions : DraftTable → List String
  | .chudautu => []
  | table => removedIds (previousRows planId state table) (currentRows planId state table)

end Bidding.Plans.Breakdown
