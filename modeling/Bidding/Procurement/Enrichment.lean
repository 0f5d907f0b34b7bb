import Bidding.Foundations.LastKeyed
import Bidding.Procurement.Merge
import Bidding.Procurement.Reconcile

/-!
# Linked notices

A package of a plan revision that is linked to a notice takes over what the notice says of it. The notices are looked up
package by package, or each by a worker of its own that works on a copy of all revisions; then the packages of the copies
are put back under their keys.
-/

namespace Bidding.Enrichment

open Foundations
open Bidding.ImportDecisions (valueOf isNamed)
open Bidding.Procurement (revisionSortKey upperCode)

/-- `bool(value)`. -/
def isTruthy : Value → Bool
  | .null => false
  | .bool b => b
  | .num n => n ≠ 0
  | .str s => s ≠ ""
  | .arr xs => !xs.isEmpty
  | .obj fields => !fields.isEmpty

/-- `str(value)`, of what may be an identifier or a number. -/
def pyStr : Value → String
  | .null => "None"
  | .bool b => if b then "True" else "False"
  | .num n => toString n
  | .str s => s
  | .arr _ => "[]"
  | .obj _ => "\x7b\x7d"

/-- `str(value or "")`. -/
def textOr (value : Value) : String := if isTruthy value then pyStr value else ""

/-- `(value or {}).get(key)`. -/
def getIn (value : Value) (key : String) : Value :=
  match value with
  | .obj fields => (fields.lookup key).getD .null
  | _ => .null

/-- `str(value or "").strip().upper()`. -/
def numberText (value : Value) : String := upperCode (pyStrip (textOr value))

def noticeNumber (package : Record) : String := numberText (getIn (valueOf package "noticeLink") "noticeNo")

def linkedNotice (package : Record) : Option String :=
  if getIn (valueOf package "noticeLink") "state" = .str "LINKED" ∧ noticeNumber package ≠ "" then
    some (noticeNumber package)
  else none

/-- `str(planDetailRevisionId or stablePackageId or symbol)`. -/
def packageKey (package : Record) : String :=
  if isTruthy (valueOf package "planDetailRevisionId") then pyStr (valueOf package "planDetailRevisionId")
  else if isTruthy (valueOf package "stablePackageId") then pyStr (valueOf package "stablePackageId")
  else pyStr (valueOf package "symbol")

/-! ## A package and its notice -/

/-- What is looked up, and the `str.casefold` of lot codes. -/
structure Source (ε : Type) where
  casefold : String → String
  lookupCompleteBundle : String → Except ε (Option (List Record))
  listNoticeRevisions : String → Except ε (List Record)
  getNoticeRevision : String → Value → Except ε (Option Record)
  revisionInvalid : ε

variable {ε : Type} (source : Source ε)

def lotCode (value : Value) : String := source.casefold (pyStrip (textOr value))

/-- `target[field] = value` of a JSON object. -/
def setIn (fields : List (String × Value)) (key : String) (value : Value) : List (String × Value) :=
  Dict.put key value fields

/-- A lot of the plan with what its notice says of it. -/
def mergeLot (fields : List (String × Value)) (noticeLot : Value) : List (String × Value) :=
  let guaranteed :=
    if isNamed (getIn noticeLot "bidGuarantee") then setIn fields "bidGuarantee" (getIn noticeLot "bidGuarantee")
    else fields
  ["lotName", "lotPrice", "executionPeriod"].foldl (fun target field =>
    if !isNamed (getIn (.obj target) field) && isNamed (getIn noticeLot field) then
      setIn target field (getIn noticeLot field)
    else target) guaranteed

def mergeNoticeLots (planLots noticeLots : Value) : Value :=
  match noticeLots with
  | .arr (first :: rest) =>
    match planLots with
    | .arr (firstLot :: lots) =>
      let coded := (first :: rest).filter fun row => lotCode source (getIn row "lotNo") ≠ ""
      .arr ((firstLot :: lots).filterMap fun lot =>
        match lot with
        | .obj fields =>
          match coded.reverse.find? fun row => lotCode source (getIn row "lotNo") = lotCode source (getIn lot "lotNo") with
          | some noticeLot => some (.obj (mergeLot fields noticeLot))
          | none => some lot
        | _ => none)
    | _ => noticeLots
  | _ => planLots

/-- The fields of a notice that a package keeps as `noticeFields`. -/
def noticeFieldNames : List String :=
  ["status", "statusForNotify", "publishedAt", "bidClosingAt", "bidOpeningAt", "actualOpeningAt",
    "financialActualOpeningAt", "selectionForm", "selectionMode", "contractType", "publicUrl"]

def takenFieldNames : List String :=
  ["name", "summary", "priceVnd", "estimatePriceVnd", "field", "capitalDetail", "selectionForm", "selectionMode",
    "selectionDuration", "selectionStart", "contractType", "executionPeriod", "onlineMode", "domesticOrInternational",
    "isMedicinePackage", "additionalPurchaseOption", "bidGuaranteeVnd", "bidValidityDays", "additionalPurchaseItems",
    "goodsItems", "evaluationMethod", "technicalWeight", "approvalDecisionNo", "approvalDecisionDate"]

variable (noticeNo : String)

/-- `target["noticeLink"]` of a package that is enriched. -/
def linkOf (detail : Record) : Value :=
  let kind := String.ofList ((if isTruthy (valueOf detail "kind") then pyStr (valueOf detail "kind") else "UNKNOWN").toList.map
    Char.toUpper)
  .obj [("state", .str "LINKED"), ("noticeNo", .str (upperCode (pyStrip noticeNo))),
    ("kind", .str (if kind = "TBMT" ∨ kind = "PRE_NOTIFY" then kind else "UNKNOWN")),
    ("noticeRevisionId", valueOf detail "revisionId"), ("noticeVersion", .str (pyStr (valueOf detail "revisionNumber")))]

/-- `if detail.get(field) not in (None, ""): target[target_field] = detail[field]`. -/
def takeField (detail : Record) (targetField field : String) (target : Record) : Record :=
  if isNamed (valueOf detail field) then target.set targetField (valueOf detail field) else target

/-- The lots of a package that is enriched. -/
def takeLots (detail target : Record) : Record :=
  let multi :=
    match valueOf detail "isMultiLot" with
    | .bool b => target.set "isMultiLot" (.bool b)
    | _ => target
  if valueOf multi "isMultiLot" = .bool true then
    if isTruthy (valueOf detail "lots") then
      multi.set "lots" (mergeNoticeLots source (valueOf multi "lots") (valueOf detail "lots"))
    else multi
  else multi.set "lots" (.arr [])

/-- `enrich_plan_package_with_notice_revision(package, notice_no, detail)`. -/
def enrichPlanPackage (package : Record) (noticeNo : String) (detail : Record) : Record :=
  let linked := package.set "noticeLink" (linkOf noticeNo detail)
  let noticeFields := (noticeFieldNames.filter fun field => isNamed (valueOf detail field)).map fun field =>
    (field, valueOf detail field)
  let fielded := if noticeFields.isEmpty then linked else linked.set "noticeFields" (.obj noticeFields)
  let stated := takeField detail "sourceStatus" "status" fielded
  let taken := takenFieldNames.foldl (fun target field => takeField detail field field target) stated
  let weighed := if detail.contains "technicalWeight" then taken.set "technicalWeight" (valueOf detail "technicalWeight") else taken
  takeLots source detail weighed

/-- What is known of a notice: its history, and its revisions under their numbers in the order of the numbers. -/
structure Found where
  history : List Record
  numbered : List (String × Record)

def numberBefore (row other : Record) : Bool :=
  decide (revisionSortKey (textOr (valueOf row "revisionNumber")) ≤ revisionSortKey (textOr (valueOf other "revisionNumber")))

/-- A revision as it is fetched, with the number and the identifier it is listed under where it has none. -/
def fetchRevision (row : Record) : Except ε (String × Record) :=
  (source.getNoticeRevision noticeNo (valueOf row "revisionId")).map fun fetched =>
    let base := fetched.getD .empty
    let orListed (key : String) : Value := if isTruthy (valueOf base key) then valueOf base key else valueOf row key
    (pyStr (valueOf row "revisionId"),
      (base.set "revisionId" (orListed "revisionId")).set "revisionNumber" (orListed "revisionNumber"))

/-- The revisions of a notice: those of the complete bundle, or those that are listed, fetched one by one. -/
def findNotice : Except ε (Option Found) := do
  match ← source.lookupCompleteBundle noticeNo with
  | some revisions =>
    let sorted := revisions.mergeSort numberBefore
    return some ⟨sorted, sorted.map fun row => (pyStr (valueOf row "revisionNumber"), row)⟩
  | none =>
    let available := (← source.listNoticeRevisions noticeNo).mergeSort numberBefore
    if available.isEmpty then return none
    let details : Dict String Record := .ofList (← available.mapM (fetchRevision source noticeNo))
    let detailOf (row : Record) : Record := (details.get? (pyStr (valueOf row "revisionId"))).getD .empty
    return some ⟨available.map detailOf, available.map fun row => (pyStr (valueOf row "revisionNumber"), detailOf row)⟩

def selectRevision (found : Found) (desiredVersion : String) : Option Record :=
  if desiredVersion ≠ "" then (found.numbered.find? fun entry => entry.1 = desiredVersion).map Prod.snd
  else found.numbered.getLast?.map Prod.snd

/-- `str(link.get("noticeVersion") or "").strip()`. -/
def desiredVersion (package : Record) : String :=
  pyStrip (textOr (getIn (valueOf package "noticeLink") "noticeVersion"))

/-- `revision_history`. -/
abbrev History := Dict String (List Record)

/-- A package linked to a notice takes over the revision it asks for. -/
def enrichPackage (package : Record) (history : History) : Except ε (Record × History) := do
  match ← findNotice source noticeNo with
  | none => return (package, history)
  | some found =>
    match selectRevision found (desiredVersion package) with
    | none => throw source.revisionInvalid
    | some detail => return (enrichPlanPackage source package noticeNo detail, history.set noticeNo found.history)

def admittedNotice (noticeFilter : Option String) (package : Record) : Option String :=
  (linkedNotice package).filter fun noticeNo =>
    match noticeFilter with
    | some only => only = "" || noticeNo = upperCode (pyStrip only)
    | none => true

/-- The loop body of `_enrich_linked_notices`. -/
def lookAt (noticeFilter : Option String) (package : Record) (history : History) : Except ε (Record × History) :=
  match admittedNotice noticeFilter package with
  | some noticeNo => enrichPackage source noticeNo package history
  | none => .ok (package, history)

def enrichLinkedNotices (noticeFilter : Option String) : List Record → History → Except ε (List Record × History)
  | [], history => .ok ([], history)
  | package :: rest, history => do
    let (enriched, history) ← lookAt source noticeFilter package history
    let (others, history) ← enrichLinkedNotices noticeFilter rest history
    return (enriched :: others, history)

def enrichRevisions (noticeFilter : Option String) : List (List Record) → History → Except ε (List (List Record) × History)
  | [], history => .ok ([], history)
  | packages :: rest, history => do
    let (enriched, history) ← enrichLinkedNotices source noticeFilter packages history
    let (others, history) ← enrichRevisions noticeFilter rest history
    return (enriched :: others, history)

def linkedNotices (revisions : List (List Record)) : List String :=
  (revisions.flatMap fun packages => packages.filterMap linkedNotice).eraseDups

structure Failure (ε : Type) where
  noticeNo : String
  /-- The error of the worker; without one the time had run out. -/
  error : Option ε

/-- How the workers end: the notices whose workers are reported, in order, those whose workers have finished when the time
of all runs out but are not reported, and what a worker says that took too long by itself. -/
structure Run (ε : Type) (revisions : List (List Record)) where
  reported : List String
  unreported : List String
  tooLong : String → Option ε
  nodup : (reported ++ unreported).Nodup
  known : ∀ noticeNo ∈ reported ++ unreported, noticeNo ∈ linkedNotices revisions

variable {revisions : List (List Record)} (run : Run ε revisions)

def enrichOne (noticeNo : String) : Except ε (List (List Record) × History) := do
  let result ← enrichRevisions source (some noticeNo) revisions .empty
  match run.tooLong noticeNo with
  | some error => throw error
  | none => return result

/-- The packages of a worker that name its notice are put back under their keys. -/
def mergeRevision (noticeNo : String) (targets children : List Record) : List Record :=
  children.foldl (fun packages child =>
    if noticeNumber child = noticeNo then
      match lastIndex (packageKey child) (targets.map packageKey) with
      | some i => packages.set i child
      | none => packages
    else packages) targets

/-- What `_enrich_linked_notices_bounded` leaves and returns. -/
structure Bounded (ε : Type) where
  revisions : List (List Record)
  history : History
  failures : List (Failure ε)

def completed : List (String × List (List Record) × History) :=
  run.reported.filterMap fun noticeNo =>
    match enrichOne source run noticeNo with
    | .ok result => some (noticeNo, result)
    | .error _ => none

def failureOf (noticeNo : String) : Option (Failure ε) :=
  match enrichOne source run noticeNo with
  | .ok _ => none
  | .error error => some ⟨noticeNo, some error⟩

/-- `failures`: the workers that are reported to have failed, and those that have not finished. -/
def failures : List (Failure ε) :=
  run.reported.filterMap (failureOf source run) ++
  ((linkedNotices revisions).filter fun noticeNo => noticeNo ∉ run.reported ++ run.unreported).map fun noticeNo =>
    ⟨noticeNo, none⟩

def enrichLinkedNoticesBounded : Bounded ε where
  revisions := (completed source run).foldl (fun targets entry =>
    List.zipWith (mergeRevision entry.1) targets entry.2.1) revisions
  history := (completed source run).foldl (fun history entry => history.spread entry.2.2) .empty
  failures := failures source run

end Bidding.Enrichment
