import Bidding.Procurement.Enrichment
import Bidding.Procurement.Lineages

/-!
# Packages that take over a notice

Looking notices up leaves the key of a package and the number of its notice. A run over all revisions succeeds exactly
if every package it looks at finds the revision it asks for, and then it enriches each package by itself.
-/

namespace Bidding.Enrichment

open Foundations List
open Bidding.ImportDecisions (valueOf isNamed)
open Bidding.Procurement (upperCode upperCode_upperCode)

variable {ε : Type} (source : Source ε)

theorem isPySpace_toUpper (c : Char) : isPySpace c.toUpper = isPySpace c := by
  by_cases h : c.isLower
  · have hrange : 97 ≤ c.toNat ∧ c.toNat ≤ 122 := by simpa [Char.isLower, UInt32.le_iff_toNat_le] using h
    have hvalid : (c.toNat - 32).isValidChar := by omega
    -- neither the letter nor its capital is a space
    unfold isPySpace
    rw [Char.toUpper_eq_of_isLower h, Char.toNat_ofNat, if_pos hvalid]
    grind
  · rw [Char.toUpper_eq_of_not_isLower h]

theorem pyStrip_upperCode (text : String) : pyStrip (upperCode text) = upperCode (pyStrip text) := by
  have hspace : (isPySpace ∘ Char.toUpper) = isPySpace := funext isPySpace_toUpper
  unfold pyStrip upperCode trimBoth
  simp only [String.toList_ofList, dropWhile_map, hspace, ← map_reverse]

theorem upperCode_pyStrip_numberText (value : Value) : upperCode (pyStrip (numberText value)) = numberText value := by
  unfold numberText
  rw [pyStrip_upperCode, pyStrip_pyStrip, upperCode_upperCode]

theorem textOr_str (text : String) : textOr (.str text) = text := by
  unfold textOr isTruthy
  by_cases h : text = ""
  · simp [h]
  · simp [h, pyStr]

variable (package : Record) {key : String}

theorem valueOf_set (key : String) (value : Value) : valueOf (package.set key value) key = value := by
  unfold valueOf
  rw [Dict.get?_set_self]
  rfl

theorem valueOf_set_of_ne {key other : String} (value : Value) (h : other ≠ key) :
    valueOf (package.set key value) other = valueOf package other := by
  unfold valueOf
  rw [Dict.get?_set_of_ne package value h]

theorem valueOf_takeField (detail : Record) {target field key : String} (package : Record) (h : key ≠ target) :
    valueOf (takeField detail target field package) key = valueOf package key := by
  unfold takeField
  split
  · exact valueOf_set_of_ne package _ h
  · rfl

theorem valueOf_takeFields (detail : Record) {names : List String} (h : key ∉ names) (package : Record) :
    valueOf (names.foldl (fun target field => takeField detail field field target) package) key = valueOf package key := by
  induction names generalizing package with
  | nil => rfl
  | cons name names ih =>
    rw [mem_cons, not_or] at h
    rw [foldl_cons, ih h.2]
    exact valueOf_takeField detail package h.1

theorem valueOf_takeLots (detail package : Record) (hmulti : key ≠ "isMultiLot") (hlots : key ≠ "lots") :
    valueOf (takeLots source detail package) key = valueOf package key := by
  have hset : ∀ value, valueOf (package.set "isMultiLot" value) key = valueOf package key :=
    fun value => valueOf_set_of_ne package value hmulti
  unfold takeLots
  dsimp only
  split <;> split_ifs <;> simp only [valueOf_set_of_ne _ _ hlots, hset]

def linkKeys : List String := ["noticeLink", "planDetailRevisionId", "stablePackageId", "symbol"]

theorem linkKeys_apart : ∀ key ∈ linkKeys,
    key ∉ takenFieldNames ∧ key ≠ "noticeFields" ∧ key ≠ "sourceStatus" ∧ key ≠ "technicalWeight" ∧ key ≠ "isMultiLot" ∧
      key ≠ "lots" := by
  decide

variable (noticeNo : String)

theorem valueOf_enrichPlanPackage (detail : Record) (h : key ∈ linkKeys) :
    valueOf (enrichPlanPackage source package noticeNo detail) key =
      valueOf (package.set "noticeLink" (linkOf noticeNo detail)) key := by
  obtain ⟨htaken, hfields, hstatus, hweight, hmulti, hlots⟩ := linkKeys_apart key h
  unfold enrichPlanPackage
  rw [valueOf_takeLots source detail _ hmulti hlots]
  have hfielded : ∀ target : Record, ∀ fields : List (String × Value),
      valueOf (if fields.isEmpty then target else target.set "noticeFields" (.obj fields)) key = valueOf target key := by
    intro target fields
    split
    · rfl
    · exact valueOf_set_of_ne target _ hfields
  have hweighed : ∀ target : Record,
      valueOf (if detail.contains "technicalWeight" then target.set "technicalWeight" (valueOf detail "technicalWeight")
        else target) key = valueOf target key := by
    intro target
    split
    · exact valueOf_set_of_ne target _ hweight
    · rfl
  rw [hweighed, valueOf_takeFields detail htaken, valueOf_takeField detail _ hstatus, hfielded]

theorem packageKey_enrichPlanPackage (detail : Record) :
    packageKey (enrichPlanPackage source package noticeNo detail) = packageKey package := by
  have hkept : ∀ key ∈ linkKeys, key ≠ "noticeLink" →
      valueOf (enrichPlanPackage source package noticeNo detail) key = valueOf package key := by
    intro key hkey hlink
    rw [valueOf_enrichPlanPackage source package noticeNo detail hkey]
    exact valueOf_set_of_ne package _ hlink
  unfold packageKey
  rw [hkept "planDetailRevisionId" (by decide) (by decide), hkept "stablePackageId" (by decide) (by decide),
    hkept "symbol" (by decide) (by decide)]

theorem noticeNumber_enrichPlanPackage (detail : Record) :
    noticeNumber (enrichPlanPackage source package noticeNo detail) = upperCode (pyStrip noticeNo) := by
  unfold noticeNumber
  rw [valueOf_enrichPlanPackage source package noticeNo detail (by decide), valueOf_set]
  show numberText (.str (upperCode (pyStrip noticeNo))) = upperCode (pyStrip noticeNo)
  unfold numberText
  rw [textOr_str, pyStrip_upperCode, pyStrip_pyStrip, upperCode_upperCode]

variable (noticeNo : String)

variable (package : Record)

def isLookable : Bool :=
  match findNotice source noticeNo with
  | .ok none => true
  | .ok (some found) => (selectRevision found (desiredVersion package)).isSome
  | .error _ => false

def enrichedWith : Record :=
  match findNotice source noticeNo with
  | .ok (some found) =>
    match selectRevision found (desiredVersion package) with
    | some detail => enrichPlanPackage source package noticeNo detail
    | none => package
  | _ => package

def knownHistory : Option (List Record) :=
  match findNotice source noticeNo with
  | .ok (some found) => some found.history
  | _ => none

def remembered (history : History) : History :=
  match knownHistory source noticeNo with
  | some revisions => history.set noticeNo revisions
  | none => history

theorem enrichPackage_ok_iff (history : History) (result : Record × History) :
    enrichPackage source noticeNo package history = .ok result ↔
      isLookable source noticeNo package = true ∧
        result = (enrichedWith source noticeNo package, remembered source noticeNo history) := by
  unfold enrichPackage isLookable enrichedWith remembered knownHistory
  cases hfind : findNotice source noticeNo with
  | error error => simp [bind, Except.bind]
  | ok answer =>
    cases answer with
    | none => simp [bind, Except.bind, pure, Except.pure, eq_comm]
    | some found =>
      cases hselect : selectRevision found (desiredVersion package) with
      | none => simp [bind, Except.bind, hselect, throw, throwThe, MonadExceptOf.throw]
      | some detail => simp [bind, Except.bind, pure, Except.pure, hselect, eq_comm]

theorem packageKey_enrichedWith : packageKey (enrichedWith source noticeNo package) = packageKey package := by
  unfold enrichedWith
  split
  · split
    · exact packageKey_enrichPlanPackage source package noticeNo _
    · rfl
  · rfl

theorem noticeNumber_enrichedWith {noticeNo : String} {package : Record} (h : noticeNumber package = noticeNo) :
    noticeNumber (enrichedWith source noticeNo package) = noticeNo := by
  have hcode : upperCode (pyStrip noticeNo) = noticeNo := by
    rw [← h]
    exact upperCode_pyStrip_numberText _
  unfold enrichedWith
  split
  · split
    · rw [noticeNumber_enrichPlanPackage, hcode]
    · exact h
  · exact h

theorem get?_remembered (noticeNo other : String) (history : History) : (remembered source noticeNo history).get? other =
    if other = noticeNo then (knownHistory source noticeNo).or (history.get? noticeNo) else history.get? other := by
  unfold remembered
  cases knownHistory source noticeNo with
  | some revisions => rw [Dict.get?_set]; rfl
  | none =>
    split_ifs with h
    · rw [h]; rfl
    · rfl

/-! ## All packages -/

variable (noticeFilter : Option String)

def enrichedUnder (package : Record) : Record :=
  match admittedNotice noticeFilter package with
  | some noticeNo => enrichedWith source noticeNo package
  | none => package

def rememberedUnder (history : History) (package : Record) : History :=
  match admittedNotice noticeFilter package with
  | some noticeNo => remembered source noticeNo history
  | none => history

def IsAdmissible (package : Record) : Prop :=
  ∀ noticeNo, admittedNotice noticeFilter package = some noticeNo → isLookable source noticeNo package = true

theorem lookAt_ok_iff (package : Record) (history : History) (result : Record × History) :
    lookAt source noticeFilter package history = .ok result ↔
      IsAdmissible source noticeFilter package ∧
        result = (enrichedUnder source noticeFilter package, rememberedUnder source noticeFilter history package) := by
  unfold lookAt IsAdmissible enrichedUnder rememberedUnder
  cases admittedNotice noticeFilter package with
  | none =>
    constructor
    · intro h
      exact ⟨fun _ hnone => absurd hnone.symm (Option.some_ne_none _), (Except.ok.inj h).symm⟩
    · intro h
      exact congrArg Except.ok h.2.symm
  | some noticeNo =>
    rw [enrichPackage_ok_iff]
    exact and_congr_left fun _ => ⟨fun h _ hsame => Option.some.inj hsame ▸ h, fun h => h noticeNo rfl⟩

theorem enrichLinkedNotices_ok_iff (packages : List Record) (history : History) (result : List Record × History) :
    enrichLinkedNotices source noticeFilter packages history = .ok result ↔
      (∀ package ∈ packages, IsAdmissible source noticeFilter package) ∧
        result = (packages.map (enrichedUnder source noticeFilter),
          packages.foldl (rememberedUnder source noticeFilter) history) :=
  collect_ok_iff (fun _ => rfl) (fun _ _ _ => rfl) (lookAt_ok_iff source noticeFilter) packages history result

theorem enrichRevisions_ok_iff (revisions : List (List Record)) (history : History)
    (result : List (List Record) × History) : enrichRevisions source noticeFilter revisions history = .ok result ↔
      (∀ packages ∈ revisions, ∀ package ∈ packages, IsAdmissible source noticeFilter package) ∧
        result = (revisions.map (List.map (enrichedUnder source noticeFilter)),
          revisions.flatten.foldl (rememberedUnder source noticeFilter) history) := by
  rw [foldl_flatten]
  exact collect_ok_iff (fun _ => rfl) (fun _ _ _ => rfl) (enrichLinkedNotices_ok_iff source noticeFilter) revisions history result

theorem get?_foldl_rememberedUnder (packages : List Record) (history : History) (noticeNo : String) :
    (packages.foldl (rememberedUnder source noticeFilter) history).get? noticeNo =
      if ∃ package ∈ packages, admittedNotice noticeFilter package = some noticeNo then
        (knownHistory source noticeNo).or (history.get? noticeNo)
      else history.get? noticeNo := by
  induction packages generalizing history with
  | nil => simp
  | cons package rest ih =>
    have hfirst : (rememberedUnder source noticeFilter history package).get? noticeNo =
        if admittedNotice noticeFilter package = some noticeNo then
          (knownHistory source noticeNo).or (history.get? noticeNo)
        else history.get? noticeNo := by
      unfold rememberedUnder
      cases hadmitted : admittedNotice noticeFilter package with
      | none => simp
      | some other =>
        show (remembered source other history).get? noticeNo = _
        rw [get?_remembered]
        by_cases h : noticeNo = other
        · simp [h]
        · simp [h, Ne.symm h]
    rw [foldl_cons, ih, hfirst]
    simp only [exists_mem_cons_iff]
    by_cases h : admittedNotice noticeFilter package = some noticeNo
    · simp only [h, if_true, true_or]
      cases knownHistory source noticeNo <;> simp
    · simp only [h, if_false, false_or]

end Bidding.Enrichment
