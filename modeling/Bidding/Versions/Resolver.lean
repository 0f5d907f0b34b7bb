import Bidding.Foundations.Binary64
import Bidding.Foundations.CodeUnits
import Bidding.Foundations.Foremost
import Bidding.Tables.Overlay

/-!
# The latest version, on the client

The latest version of a family is chosen by a comparison of version numbers that falls back on a secondary number, the flag
and the ids; marking the latest version and removing it go by the version numbers alone.
-/

namespace Bidding.Resolver

open Foundations Bidding.Tables

/-- A record of a table with versions, by the texts of its fields; a missing text is empty. -/
structure VersionRecord where
  id : String
  rootId : String
  phienBan : String
  isLatest : Bool
  rest : Record
  hasId : id ≠ ""
  deriving DecidableEq

/-- `Number.parseInt(phienBan || "0", 10)`, or zero if that is not finite. -/
def parsedVersion (phienBan : String) : ℚ :=
  ((parseDecimalInt (if phienBan = "" then "0" else phienBan)).bind fun n => nearestDouble n).getD 0

variable (record : VersionRecord)

def versionNumber : ℚ := parsedVersion record.phienBan

def versionRootId : String := if record.rootId ≠ "" then record.rootId else record.id

def latestMarker : ℚ := if record.isLatest then 1 else 0

def stableIdComparison (left right : VersionRecord) : ℚ :=
  if left.id = right.id then 0
  else if left.id = "" then -1
  else if right.id = "" then 1
  else if textLess left.id right.id then 1 else -1

/-- `versionNumber({ phienBan: getSecondaryVersion(record) })`, or nothing to compare if there is no secondary version. -/
def secondaryNumber (secondary : Option (VersionRecord → String)) (record : VersionRecord) : ℚ :=
  match secondary with
  | some getSecondaryVersion => parsedVersion (getSecondaryVersion record)
  | none => 0

section Choice

/- The option `getSecondaryVersion`. -/
variable (secondary : Option (VersionRecord → String))

def compareVersionCandidates (left right : VersionRecord) : ℚ :=
  if versionNumber left - versionNumber right ≠ 0 then versionNumber left - versionNumber right
  else if secondaryNumber secondary left - secondaryNumber secondary right ≠ 0 then
    secondaryNumber secondary left - secondaryNumber secondary right
  else if latestMarker left - latestMarker right ≠ 0 then latestMarker left - latestMarker right
  else stableIdComparison left right

/-- `compareVersionCandidates(candidate, latest, options) > 0`. -/
def isNewer (candidate latest : VersionRecord) : Bool := 0 < compareVersionCandidates secondary candidate latest

variable (records : List VersionRecord)

def selectLatestVersion : Option VersionRecord :=
  records.foldl (keepBetter (isNewer secondary)) none

def versionFamily (reference : VersionRecord) : List VersionRecord :=
  records.filter fun record => versionRootId record = versionRootId reference

inductive VersionReference where
  | record (reference : VersionRecord)
  | text (reference : String)

def resolveLatestVersion (reference : VersionReference) : Option VersionRecord :=
  match reference with
  | .record requested => selectLatestVersion secondary (versionFamily records requested) <|> some requested
  | .text reference =>
    if reference = "" then none
    else
      match records.find? fun record => record.id = reference with
      | some requested => selectLatestVersion secondary (versionFamily records requested) <|> some requested
      | none => selectLatestVersion secondary (records.filter fun record => versionRootId record = reference)

def selectLatestVersionsByRoot : List VersionRecord :=
  (bestByKey (isNewer secondary) versionRootId (records.filter fun record => versionRootId record ≠ "")).values

def sortVersionsDescending : List VersionRecord :=
  records.mergeSort fun left right => !isNewer secondary right left

def selectVersionRepresentatives : List VersionRecord :=
  sortVersionsDescending secondary (bestByKey (isNewer secondary) versionNumber records).values

end Choice

/-- `Math.max(...family.map(versionNumber))` of a family that is not empty. -/
def highestVersion (family : List VersionRecord) : ℚ :=
  match family with
  | [] => 0
  | first :: others =>
    others.foldl (fun highest record => if highest < versionNumber record then versionNumber record else highest)
      (versionNumber first)

/-- `record.isLatest = versionNumber(record) === latestVersion ? 1 : 0`. -/
def markRecord (latestVersion : ℚ) (record : VersionRecord) : VersionRecord :=
  { record with isLatest := versionNumber record = latestVersion }

def markFamily (latestVersion : ℚ) (target : VersionRecord) (records : List VersionRecord) : List VersionRecord :=
  records.map fun record => if versionRootId record = versionRootId target then markRecord latestVersion record else record

/-- `family.filter((record) => versionNumber(record) === latestVersion)`. -/
def topOf (family : List VersionRecord) : List VersionRecord :=
  family.filter fun record => versionNumber record = highestVersion family

variable (records : List VersionRecord)

variable (target : VersionRecord)

/-- `markLatestVersion(records, target)`: the records as it leaves them, and what it returns. -/
def markLatestVersion : List VersionRecord × Option VersionRecord :=
  if versionFamily records target = [] then (records, none)
  else
    let marked := markFamily (highestVersion (versionFamily records target)) target records
    (marked, ((versionFamily marked target).filter fun record => record.isLatest).getLast?)

def deletionFamily : List VersionRecord :=
  if target.id = "" then versionFamily records target
  else (versionFamily records target).map fun record => if record.id = target.id then target else record

structure Removal where
  records : List VersionRecord
  removed : List VersionRecord
  latest : Option VersionRecord

def removeLatestVersion : Removal :=
  let family := deletionFamily records target
  if family = [] then ⟨records, [], none⟩
  else
    let removed := topOf family
    let remaining := records.filter fun record => record.id ∉ removed.map (·.id)
    match versionFamily remaining target with
    | [] => ⟨remaining, removed, none⟩
    | first :: _ => ⟨(markLatestVersion remaining first).1, removed, (markLatestVersion remaining first).2⟩

section Agreement

variable (secondary : Option (VersionRecord → String))

/-- All choices name one record as the latest version of the family of a target; the id of the root stands for the family unless it
is the id of a record of another one. -/
structure NamesLatest (records : List VersionRecord) (target latest : VersionRecord) : Prop where
  selected : selectLatestVersion secondary (versionFamily records target) = some latest
  resolved : resolveLatestVersion secondary records (.record target) = some latest
  resolvedById : resolveLatestVersion secondary records (.text target.id) = some latest
  resolvedByRoot : (∀ record ∈ records, record.id = versionRootId target → versionRootId record = versionRootId target) →
    resolveLatestVersion secondary records (.text (versionRootId target)) = some latest
  byRoot : (selectLatestVersionsByRoot secondary records).filter (fun record => versionRootId record = versionRootId target) =
    [latest]
  sorted : (sortVersionsDescending secondary (versionFamily records target)).head? = some latest
  representative : (selectVersionRepresentatives secondary (versionFamily records target)).head? = some latest

variable (records : List VersionRecord)

def flaggedOf (target : VersionRecord) : List VersionRecord :=
  (versionFamily records target).filter fun record => record.isLatest

def flagged (record : VersionRecord) : VersionRecord := { record with isLatest := true }

def MarksLatest (target latest : VersionRecord) : Prop :=
  flaggedOf (markLatestVersion records target).1 target = [flagged latest] ∧
    (markLatestVersion records target).2 = some (flagged latest)

/-- Removing removes exactly the given record and leaves the one that is chosen from the rest of the family flagged. -/
structure RemovesLatest (records : List VersionRecord) (target latest : VersionRecord) : Prop where
  removed : (removeLatestVersion records target).removed = [latest]
  kept : (removeLatestVersion records target).records.map (·.id) =
    (records.filter fun record => record.id ≠ latest.id).map (·.id)
  next : flaggedOf (removeLatestVersion records target).records target =
    ((selectLatestVersion secondary (versionFamily (records.filter fun record => record.id ≠ latest.id) target)).map
      flagged).toList

def OneLatest (target : VersionRecord) : Prop :=
  (∀ records', records'.Perm records → selectLatestVersion secondary records' = selectLatestVersion secondary records) ∧
    ∃ latest, NamesLatest secondary records target latest ∧ MarksLatest records target latest ∧
      RemovesLatest secondary records target latest

end Agreement

variable (family : List VersionRecord)

def TopAlone : Prop :=
  ∀ a ∈ family, ∀ b ∈ family, (∀ c ∈ family, versionNumber c ≤ versionNumber a) →
    (∀ c ∈ family, versionNumber c ≤ versionNumber b) → a = b

def belowTop : List VersionRecord :=
  family.filter fun record => versionNumber record ≠ highestVersion family

def NoTie : Prop := TopAlone family ∧ TopAlone (belowTop family)

end Bidding.Resolver
