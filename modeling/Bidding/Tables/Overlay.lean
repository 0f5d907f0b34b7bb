import Mathlib.Data.Finset.Card
import Bidding.Outbox.References

/-!
# Pending edits over the pages of a table

Until a push is acknowledged the pending edits are laid over each page: deletions take rows out, patches are merged into
their rows, and a pending record replaces the row of its lineage or, on the first page, is added.
-/

namespace Bidding.Tables

open Foundations List

def pendingRecordRoot (record : Record) : String :=
  if fieldTruthy record "rootId" then fieldText record "rootId" else fieldText record "id"

/-- `left?.isLatest ?? left?.is_latest ?? 0`, and the like. -/
def fieldOr (record : Record) (field snakeField : String) : Value :=
  match record.get? field with
  | some .null | none =>
    match record.get? snakeField with
    | some .null | none => .num 0
    | some value => value
  | some value => value

/-- `Number.parseInt(text, 10)`. -/
def parseDecimalInt (text : String) : Option Int :=
  let signed : Int × List Char :=
    match (jsTrim text).toList with
    | '-' :: rest => (-1, rest)
    | '+' :: rest => (1, rest)
    | rest => (1, rest)
  let digits := signed.2.takeWhile Char.isDigit
  if digits = [] then none
  else some (signed.1 * digits.foldl (fun n c => 10 * n + (c.toNat - '0'.toNat : ℕ)) 0)

/-- `Number.parseInt(record.phienBan ?? record.phien_ban ?? 0, 10) || 0`. -/
def pendingVersion (record : Record) : Int :=
  (parseDecimalInt (fieldOr record "phienBan" "phien_ban").jsString).getD 0

/-- `newerPendingVersion(left, right)`; a latest flag that is no number is unequal to everything. -/
def newerPendingVersion (left right : Record) : Record :=
  match (fieldOr left "isLatest" "is_latest").jsNumber, (fieldOr right "isLatest" "is_latest").jsNumber with
  | some leftLatest, some rightLatest =>
    if leftLatest ≠ rightLatest then (if rightLatest > leftLatest then right else left)
    else if pendingVersion right ≥ pendingVersion left then right
    else left
  | _, _ => left

section Overlay

/- `model.normalizeRecordKeys(record, table)`, `recordMatchesPendingQuery(model, record, table, params)` and the order
of `sortRecords` for the parameters of the query. -/
variable (normalize : Record → Record) (matchesQuery : Record → Bool) (sortsBefore : Record → Record → Bool)

def enterLatest (byRoot : Dict String Record) (rawRecord : Record) : Dict String Record :=
  let record := normalize rawRecord
  let root := pendingRecordRoot record
  if root = "" then byRoot
  else
    match byRoot.get? root with
    | some left => byRoot.set root (newerPendingVersion left record)
    | none => byRoot.set root record

def latestPendingUpserts (records : List Record) : List Record :=
  (records.foldl (enterLatest normalize) Dict.empty).values

/-- `[String(record.id), record]`, of a record with an id. -/
def entryById (record : Record) : Option (String × Record) :=
  match record.get? "id" with
  | some .null | none => none
  | some id => some (id.jsString, record)

/-- The records of a page under their ids. -/
def pageById (items : List Record) : Dict String Record := .ofList ((items.map normalize).filterMap entryById)

/-- `byId`, `addedCount` and `removedCount`. -/
structure OverlayState where
  byId : Dict String Record
  addedCount : ℕ
  removedCount : ℕ

def overlayDelete (state : OverlayState) (id : String) : OverlayState :=
  if state.byId.contains id then
    { state with byId := state.byId.erase id, removedCount := state.removedCount + 1 }
  else state

def overlayPatch (state : OverlayState) (patch : Record) : OverlayState :=
  let normalized := normalize patch
  let id := fieldText normalized "id"
  match state.byId.get? id with
  | none => state
  | some existing =>
    if id = "" then state
    else
      let merged := existing.spread normalized
      if matchesQuery merged then { state with byId := state.byId.set id merged }
      else { state with byId := state.byId.erase id, removedCount := state.removedCount + 1 }

/-- The ids of the rows of a lineage, `lineageEntries`. -/
def lineageIds (byId : Dict String Record) (root : String) : List String :=
  (byId.entries.filter fun entry => pendingRecordRoot entry.2 = root).map Prod.fst

def overlayUpsert (pendingDeletes originalIds : List String) (isFirstPage : Bool) (state : OverlayState)
    (record : Record) : OverlayState :=
  let id := fieldText record "id"
  if id = "" ∨ id ∈ pendingDeletes then state
  else
    let lineage := lineageIds state.byId (pendingRecordRoot record)
    let existedOnPage := state.byId.contains id || decide (id ∈ originalIds) || !lineage.isEmpty
    let byId := (lineage.filter fun candidateId => candidateId ≠ id).foldl Dict.erase state.byId
    if !matchesQuery record then
      ⟨byId.erase id, state.addedCount, if existedOnPage then state.removedCount + 1 else state.removedCount⟩
    else if existedOnPage || isFirstPage then
      ⟨byId.set id (((byId.get? id).getD Dict.empty).spread record),
        if existedOnPage then state.addedCount else state.addedCount + 1, state.removedCount⟩
    else ⟨byId, state.addedCount, state.removedCount⟩

structure PendingEdits where
  upserts : List Record
  patches : List Record
  deletes : List String

structure PageParams where
  cursor : String
  page : ℕ
  pageSize : Option ℕ

def PageParams.isFirstPage (params : PageParams) : Bool := jsTrim params.cursor = "" && max 1 params.page = 1

structure PageResult where
  items : List Record
  totalItems : ℕ

/-- `items.slice(0, pageSize)`, where the page size is a positive number. -/
def slicePage (pageSize : Option ℕ) (items : List Record) : List Record :=
  match pageSize with
  | some size => if 0 < size then items.take size else items
  | none => items

/-- The loops over the pending edits. -/
def overlayPage (edits : PendingEdits) (isFirstPage : Bool) (items : List Record) : OverlayState :=
  let byId := pageById normalize items
  let deleted := edits.deletes.foldl overlayDelete ⟨byId, 0, 0⟩
  let patched := edits.patches.foldl (overlayPatch normalize matchesQuery) deleted
  (latestPendingUpserts normalize edits.upserts).foldl (overlayUpsert matchesQuery edits.deletes byId.keys isFirstPage) patched

def overlayPendingPaginatedMutations (edits : PendingEdits) (source : PageResult) (params : PageParams) : PageResult :=
  if edits.upserts = [] ∧ edits.patches = [] ∧ edits.deletes = [] then source
  else
    let state := overlayPage normalize matchesQuery edits params.isFirstPage source.items
    ⟨slicePage params.pageSize (state.byId.values.mergeSort sortsBefore),
      source.totalItems + state.addedCount - state.removedCount⟩

end Overlay

def rowCount (byId : Dict String Record) : ℕ := byId.entries.length

variable (byId : Dict String Record)

theorem rowCount_eq_card : rowCount byId = byId.keys.toFinset.card := by
  exact ((toFinset_card_of_nodup byId.nodupKeys).trans (length_map _)).symm

theorem mem_keys_iff_contains (id : String) : id ∈ byId.keys.toFinset ↔ byId.contains id = true := by
  rw [mem_toFinset, Dict.mem_keys_iff, Dict.contains_iff]

theorem contains_eq_isSome (id : String) : byId.contains id = (byId.get? id).isSome := rfl

variable {byId : Dict String Record}

variable {id : String}

theorem rowCount_erase (h : byId.contains id = true) : rowCount (byId.erase id) + 1 = rowCount byId := by
  rw [rowCount_eq_card, rowCount_eq_card]
  have hkeys : (byId.erase id).keys.toFinset = byId.keys.toFinset.erase id := by
    ext other
    rw [Finset.mem_erase, mem_keys_iff_contains, mem_keys_iff_contains, contains_eq_isSome, Dict.get?_erase, contains_eq_isSome]
    by_cases hother : other = id <;> simp [hother]
  rw [hkeys]
  exact Finset.card_erase_add_one ((mem_keys_iff_contains byId id).mpr h)

theorem rowCount_erase_of_not (h : byId.contains id = false) : rowCount (byId.erase id) = rowCount byId := by
  rw [rowCount_eq_card, rowCount_eq_card]
  congr 1
  ext other
  rw [mem_keys_iff_contains, mem_keys_iff_contains, contains_eq_isSome, Dict.get?_erase, contains_eq_isSome]
  by_cases hother : other = id
  · rw [contains_eq_isSome] at h
    simp [hother, h]
  · simp [hother]

theorem rowCount_set_of_contains (record : Record)
    (h : byId.contains id = true) : rowCount (byId.set id record) = rowCount byId := by
  rw [rowCount_eq_card, rowCount_eq_card]
  congr 1
  ext other
  rw [mem_keys_iff_contains, mem_keys_iff_contains, contains_eq_isSome, Dict.get?_set, contains_eq_isSome]
  by_cases hother : other = id
  · rw [contains_eq_isSome] at h
    simp [hother, h]
  · simp [hother]

theorem rowCount_set_of_not (record : Record)
    (h : byId.contains id = false) : rowCount (byId.set id record) = rowCount byId + 1 := by
  rw [rowCount_eq_card, rowCount_eq_card]
  have hkeys : (byId.set id record).keys.toFinset = insert id byId.keys.toFinset := by
    ext other
    rw [Finset.mem_insert, mem_keys_iff_contains, mem_keys_iff_contains, contains_eq_isSome, Dict.get?_set, contains_eq_isSome]
    by_cases hother : other = id <;> simp [hother]
  have hnot : id ∉ byId.keys.toFinset := by
    rw [mem_keys_iff_contains, h]
    decide
  rw [hkeys, Finset.card_insert_of_notMem hnot]

theorem values_perm {records : List Record} {key : Record → String} (hnodup : (records.map key).Nodup)
    (h : ∀ id record, byId.get? id = some record ↔ record ∈ records ∧ key record = id) : byId.values.Perm records := by
  have hentries : byId.entries.Perm (records.map fun record => (key record, record)) := by
    rw [perm_ext_iff_of_nodup]
    · rintro ⟨id, record⟩
      rw [Dict.mem_entries_iff, h, mem_map]
      constructor
      · rintro ⟨hmem, rfl⟩
        exact ⟨record, hmem, rfl⟩
      · rintro ⟨other, hmem, heq⟩
        obtain ⟨rfl, rfl⟩ := Prod.mk.inj heq
        exact ⟨hmem, rfl⟩
    · exact List.Nodup.of_map _ byId.nodupKeys
    · refine List.Nodup.of_map Prod.fst ?_
      rw [map_map]
      exact hnodup
  have hvalues := hentries.map Prod.snd
  rw [map_map] at hvalues
  exact hvalues.trans (List.Perm.of_eq (map_id _))

section View

variable (normalize : Record → Record) (matchesQuery : Record → Bool) (edits : PendingEdits)

abbrev idText (record : Record) : String := fieldText record "id"

def patchRow (id : String) (row patch : Record) : Option Record :=
  if idText (normalize patch) = id ∧ id ≠ "" then
    if matchesQuery (row.spread (normalize patch)) then some (row.spread (normalize patch)) else none
  else some row

def survivor (row : Record) : Option Record :=
  if idText row ∈ edits.deletes then none
  else edits.patches.foldlM (patchRow normalize matchesQuery (idText row)) row

def pendingRecords : List Record :=
  (latestPendingUpserts normalize edits.upserts).filter fun record => idText record ≠ "" ∧ idText record ∉ edits.deletes

def keptRow (row : Record) : Option Record :=
  (survivor normalize matchesQuery edits row).filter fun record =>
    pendingRecordRoot record ∉ (pendingRecords normalize edits).map pendingRecordRoot

def matchingPending : List Record := (pendingRecords normalize edits).filter fun record => matchesQuery record

def pendingOver (rows : List Record) (record : Record) : Record :=
  (((rows.filterMap (survivor normalize matchesQuery edits)).find? fun row => idText row = idText record).getD
    Dict.empty).spread record

def expectedRecords (rows : List Record) : List Record :=
  rows.filterMap (keptRow normalize matchesQuery edits) ++
    (matchingPending normalize matchesQuery edits).map (pendingOver normalize matchesQuery edits rows)

end View

section Phases

variable {normalize : Record → Record} {matchesQuery : Record → Bool}

variable (state : OverlayState)

theorem get?_overlayDelete (id key : String) :
    (overlayDelete state id).byId.get? key = if key = id then none else state.byId.get? key := by
  unfold overlayDelete
  split
  · exact Dict.get?_erase _ _ _
  rename_i hcontains
  split
  · rename_i hkey
    rw [hkey]
    cases hget : state.byId.get? id with
    | none => rfl
    | some record => exact absurd ((Dict.contains_iff _ _).mpr ⟨record, hget⟩) hcontains
  · rfl

theorem count_overlayDelete (id : String) : rowCount (overlayDelete state id).byId + (overlayDelete state id).removedCount =
    rowCount state.byId + state.removedCount ∧ (overlayDelete state id).addedCount = state.addedCount := by
  unfold overlayDelete
  split
  · rename_i hcontains
    have hcount := rowCount_erase hcontains
    exact ⟨by dsimp only; omega, rfl⟩
  · exact ⟨rfl, rfl⟩

theorem overlayDeletes_spec (ids : List String) (state : OverlayState) :
    (∀ key, (ids.foldl overlayDelete state).byId.get? key = if key ∈ ids then none else state.byId.get? key) ∧
      rowCount (ids.foldl overlayDelete state).byId + (ids.foldl overlayDelete state).removedCount =
        rowCount state.byId + state.removedCount ∧
      (ids.foldl overlayDelete state).addedCount = state.addedCount := by
  induction ids generalizing state with
  | nil => exact ⟨fun key => by simp, rfl, rfl⟩
  | cons id ids ih =>
    obtain ⟨hget, hcount, hadded⟩ := ih (overlayDelete state id)
    obtain ⟨hcount', hadded'⟩ := count_overlayDelete state id
    rw [foldl_cons]
    refine ⟨fun key => ?_, by omega, hadded.trans hadded'⟩
    rw [hget, get?_overlayDelete]
    by_cases hkey : key = id <;> simp [hkey]

theorem get?_overlayPatch (patch : Record) (key : String) : (overlayPatch normalize matchesQuery state patch).byId.get? key =
    (state.byId.get? key).bind fun row => patchRow normalize matchesQuery key row patch := by
  unfold overlayPatch patchRow
  dsimp only
  cases hexisting : state.byId.get? (fieldText (normalize patch) "id") with
  | none =>
    dsimp only
    by_cases hkey : fieldText (normalize patch) "id" = key
    · rw [← hkey, hexisting]
      rfl
    · simp [hkey]
  | some existing =>
    dsimp only
    by_cases hblank : fieldText (normalize patch) "id" = ""
    · rw [if_pos hblank]
      by_cases hkey : fieldText (normalize patch) "id" = key
      · have hkey' : key = "" := hkey.symm.trans hblank
        simp [hkey']
      · simp [hkey]
    · rw [if_neg hblank]
      by_cases hkey : fieldText (normalize patch) "id" = key
      · subst hkey
        rw [hexisting]
        split
        · rename_i hmatches
          simp [hmatches, hblank, Dict.get?_set_self]
        · rename_i hmatches
          simp [hmatches, hblank]
      · split
        · dsimp only
          rw [Dict.get?_set_of_ne _ _ (Ne.symm hkey)]
          simp [hkey]
        · dsimp only
          rw [Dict.get?_erase_of_ne _ (Ne.symm hkey)]
          simp [hkey]

theorem count_overlayPatch (patch : Record) : rowCount (overlayPatch normalize matchesQuery state patch).byId +
      (overlayPatch normalize matchesQuery state patch).removedCount = rowCount state.byId + state.removedCount ∧
    (overlayPatch normalize matchesQuery state patch).addedCount = state.addedCount := by
  unfold overlayPatch
  dsimp only
  split
  · exact ⟨rfl, rfl⟩
  rename_i existing hexisting
  have hcontains := (Dict.contains_iff _ _).mpr ⟨existing, hexisting⟩
  split
  · exact ⟨rfl, rfl⟩
  split
  · exact ⟨by rw [rowCount_set_of_contains _ hcontains], rfl⟩
  · have hcount := rowCount_erase hcontains
    exact ⟨by dsimp only; omega, rfl⟩

theorem overlayPatches_spec (patches : List Record) (state : OverlayState) :
    (∀ key, (patches.foldl (overlayPatch normalize matchesQuery) state).byId.get? key =
      (state.byId.get? key).bind fun row => patches.foldlM (patchRow normalize matchesQuery key) row) ∧
      rowCount (patches.foldl (overlayPatch normalize matchesQuery) state).byId +
          (patches.foldl (overlayPatch normalize matchesQuery) state).removedCount = rowCount state.byId + state.removedCount ∧
      (patches.foldl (overlayPatch normalize matchesQuery) state).addedCount = state.addedCount := by
  induction patches generalizing state with
  | nil => exact ⟨fun key => by simp, rfl, rfl⟩
  | cons patch patches ih =>
    obtain ⟨hget, hcount, hadded⟩ := ih (overlayPatch normalize matchesQuery state patch)
    obtain ⟨hcount', hadded'⟩ := @count_overlayPatch normalize matchesQuery state patch
    rw [foldl_cons]
    refine ⟨fun key => ?_, by omega, hadded.trans hadded'⟩
    rw [hget, get?_overlayPatch, Option.bind_assoc]
    rfl

end Phases

end Bidding.Tables
