import Bidding.Foundations.Saturate
import Bidding.Outbox.Queue

/-!
# References between pending records

Which records a pending record depends on, which records belong to a plan version that is
no longer the latest, and when two plan records are the same version of one plan.
-/

namespace Bidding

open Foundations

/-- Fields of a table that refer to records of another one; `many` fields hold arrays. -/
structure ParentReference where
  table : String
  fields : List String
  many : Bool

def outboxParentReferences : String → List ParentReference
  | "kehoach" => [⟨"chudautu", ["chuDauTuId"], false⟩]
  | "goithau" =>
    [⟨"kehoach", ["keHoachId"], false⟩, ⟨"nhathau", ["nhaThauTrungThauId"], false⟩, ⟨"goithau", ["rebidFromPackageId"], false⟩]
  | "hopdong" =>
    [⟨"kehoach", ["keHoachId"], false⟩, ⟨"chudautu", ["chuDauTuId", "chuDauTuThanhLyId"], false⟩,
      ⟨"nhathau", ["nhaThauId", "nhaThauThanhLyId"], false⟩, ⟨"goithau", ["goiThauIds"], true⟩]
  | "thongtinmothau" => [⟨"goithau", ["goiThauId"], false⟩, ⟨"nhathau", ["nhaThauId"], false⟩]
  | "goithauhanghoa" => [⟨"goithau", ["goiThauId"], false⟩]
  | "hanghoaduthaunhathau" =>
    [⟨"goithau", ["goiThauId"], false⟩, ⟨"thongtinmothau", ["thongTinMoThauId"], false⟩,
      ⟨"goithauhanghoa", ["goiThauHangHoaId"], false⟩]
  | _ => []

def referenceValues (record : Record) (field : String) (many : Bool) : List (Option Value) :=
  if many then
    match record.get? field with
    | some (.arr values) => values.map some
    | _ => []
  else [record.get? field]

def parentKeysForRecord (table : String) (record : Record) : List TableKey :=
  let keys := (outboxParentReferences table).flatMap fun reference =>
    reference.fields.flatMap fun field =>
      (referenceValues record field reference.many).filterMap fun value =>
        (presentText value).map fun id => (reference.table, id)
  if table = "assignments" then
    let parentTable := fieldText record "type"
    match record.get? "targetId" with
    | some target =>
      if parentTable ∈ ["kehoach", "goithau", "hopdong"] && target.jsTruthy then
        keys ++ [(parentTable, target.jsString)]
      else keys
    | none => keys
  else keys

def latestFlag (record : Record) : Option Bool :=
  let value := match record.get? "isLatest" with
    | none | some .null => record.get? "is_latest"
    | some v => some v
  match value with
  | none | some .null | some (.str "") => none
  | some v => some (v.jsNumber = some 1)

def recordById (state : WorkspaceState) (table id : String) : Option Record :=
  (stateTable state table).find? fun record => fieldText record "id" = id

def addKey (keys : List TableKey) (key : TableKey) : List TableKey :=
  if key ∈ keys then keys else keys ++ [key]

/-- The pending records a receipt has sent, by their keys. -/
def sentRecords (receipt : Receipt) (queue : MutationQueue) (state : WorkspaceState) : Dict TableKey Record :=
  let upserts := receipt.upserts.entries₂.foldl (fun sent entry =>
    match queue.upserts.get₂ entry.1 entry.2.1 with
    | none => sent
    | some pending => sent.set (entry.1, entry.2.1) pending) Dict.empty
  receipt.patches.entries₂.foldl (fun sent entry =>
    match queue.patches.get₂ entry.1 entry.2.1 with
    | none => sent
    | some pending => sent.set (entry.1, entry.2.1) (((recordById state entry.1 entry.2.1).getD .empty).spread pending)) upserts

def historicalPlanIds (queue : MutationQueue) (state : WorkspaceState) : List String :=
  (stateTable state "kehoach" ++ ((queue.upserts.get? "kehoach").getD .empty).values).filterMap fun plan =>
      if latestFlag plan = some false && fieldTruthy plan "id" then some (fieldText plan "id")
      else none

def historicalPackageIds (queue : MutationQueue) (state : WorkspaceState) : List String :=
  (stateTable state "goithau" ++ ((queue.upserts.get? "goithau").getD .empty).values).filterMap fun pkg =>
      if fieldTruthy pkg "id" && fieldText pkg "keHoachId" ∈ historicalPlanIds queue state then
        some (fieldText pkg "id")
      else none

/-- One pass over the sent records that reaches what depends on a rejected one. -/
def historicalPass (sent : Dict TableKey Record) (rejected : List TableKey) : List TableKey × Bool :=
  sent.entries.foldl (fun acc entry =>
    if entry.1 ∈ acc.1 then acc
    else if (parentKeysForRecord entry.1.1 entry.2).any (· ∈ acc.1) then (acc.1 ++ [entry.1], true)
    else acc) (rejected, false)

def historicalAggregateKeysForReceipt (receipt : Receipt) (queue : MutationQueue)
    (state : Option WorkspaceState) : List TableKey :=
  match state with
  | none => []
  | some state =>
    let sent := sentRecords receipt queue state
    let plans := historicalPlanIds queue state
    let packages := historicalPackageIds queue state
    let rejected := sent.entries.foldl (fun rejected entry =>
      let table := entry.1.1
      let id := entry.1.2
      let rejected := if table = "kehoach" && id ∈ plans then addKey rejected entry.1 else rejected
      let rejected :=
        if table = "goithau" && id ∈ packages then addKey rejected entry.1 else rejected
      if (parentKeysForRecord table entry.2).any fun parent =>
          parent ∈ rejected || (parent.2 ∈ plans && parent.1 = "kehoach")
            || (parent.2 ∈ packages && parent.1 = "goithau") then
        addKey rejected entry.1
      else rejected) []
    saturate (historicalPass sent) (sent.entries.length + 1) rejected

/-- The characters `String.prototype.trim` removes. -/
def jsWhitespace (c : Char) : Bool :=
  c.toNat ∈ [9, 10, 11, 12, 13, 32, 160, 5760, 8232, 8233, 8239, 8287, 12288, 65279]
    || (8192 ≤ c.toNat && c.toNat ≤ 8202)

/-- `text.trim()`. -/
def jsTrim (text : String) : String :=
  String.ofList (((text.toList.dropWhile jsWhitespace).reverse.dropWhile jsWhitespace).reverse)

def normalizedVersion (rawVersion : String) : String :=
  let digits := rawVersion.toList
  if digits ≠ [] && digits.all Char.isDigit then
    match digits.dropWhile (· = '0') with
    | [] => "0"
    | significant => String.ofList significant
  else rawVersion

def planVersionKey (record : Record) : String :=
  let rootId := jsTrim (if fieldTruthy record "rootId" then fieldText record "rootId"
    else fieldText record "id")
  let rawVersion := jsTrim (match record.get? "phienBan" with
    | none | some .null => ""
    | some v => v.jsString)
  let version := normalizedVersion rawVersion
  if rootId ≠ "" && version ≠ "" then rootId ++ ":" ++ version else ""

def authoritativePlanFields : List String :=
  ["id", "rootId", "phienBan", "rowVersion", "organizationId", "ownerType", "syncVersion", "createdAt", "archivedAt"]

def copyField (source : Record) (target : Record) (field : String) : Record :=
  match source.get? field with
  | some value => target.set field value
  | none => target.erase field

def mergePlanIntoAuthoritative (authoritative pending : Record) : Record :=
  let merged := authoritativePlanFields.foldl (copyField authoritative) (authoritative.spread pending)
  let rootField := if fieldTruthy authoritative "rootId" then "rootId" else "id"
  match authoritative.get? rootField with
  | some root => merged.set "rootId" root
  | none => merged.erase "rootId"

/-- `repointPlanReference(table, record, fromId, toId)`: the record with its plan reference
moved, or nothing when it does not refer to the plan. -/
def repointPlanReference (table : String) (record : Record) (fromId toId : String) : Option Record :=
  if table ∈ ["goithau", "hopdong"] && fieldText record "keHoachId" = fromId then
    some (record.set "keHoachId" (.str toId))
  else if table = "assignments" && fieldText record "type" = "kehoach" && fieldText record "targetId" = fromId then
    some (record.set "targetId" (.str toId))
  else none

end Bidding
