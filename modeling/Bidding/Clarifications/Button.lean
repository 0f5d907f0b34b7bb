import Bidding.Clarifications.Repeated

/-!
# The button adds the planned rows

The invitation update of a form merges the same source rows into the rows of the form. It keeps them by their places,
gives a row without origin the id of the source row that meets it, and adds the others. It adds what an append plans.
-/

namespace Bidding.Clarifications

open Foundations

/-! ## The merge of the form -/

structure FormRow where
  id : List Char
  time : List Char
  content : List Char
  sourceKey : Option (List Char × List Char)

/-- A source row with the id and the version that `assignLocalInvitationRowIds` gives it. -/
structure UpdateRow where
  source : SourceRow
  localRowId : Option (List Char)
  sourceNoticeVersion : List Char

variable (input : MergeInput)

/-- `assignLocalInvitationRowIds(revision, target)` for a row. -/
def assignLocalRowId (kind : Kind) (item : SourceItem) : UpdateRow where
  source := item.2
  localRowId := rowIdOf input kind item
  sourceNoticeVersion := item.1

/-- `sourceKey(row, kind)` of a source row. -/
def sourceKey (row : UpdateRow) : Option (List Char × List Char) :=
  match row.localRowId with
  | some id => some (row.sourceNoticeVersion, id)
  | none => if sourceIdentity row.source = [] then none else some (row.sourceNoticeVersion, sourceIdentity row.source)

/-- The bookkeeping of the form: its rows, and where rows are by id, by source key and by content. -/
structure ButtonState where
  rows : List FormRow
  currentById : Dict (List Char) ℕ
  currentBySourceKey : Dict (List Char × List Char) ℕ
  unkeyedContentRows : Dict (List Char × List Char) (List ℕ)
  sourceKeys : List (List Char × List Char)
  added : ℕ
  skipped : ℕ
  matched : ℕ
  linked : ℕ
  generated : ℕ

variable (state : ButtonState)

/-- A row of the form before the merge. -/
def noteRow (entry : FormRow × ℕ) : ButtonState :=
  let state := if entry.1.id = [] then state else { state with currentById := state.currentById.set entry.1.id entry.2 }
  match entry.1.sourceKey with
  | some key =>
    { state with
      sourceKeys := state.sourceKeys ++ [key]
      currentBySourceKey := state.currentBySourceKey.set key entry.2 }
  | none =>
    if !importedRowId entry.1.id && entry.1.time != [] && normalizedContent entry.1.content != [] then
      { state with
        unkeyedContentRows := state.unkeyedContentRows.set (contentIdentity input entry.1.time entry.1.content)
          ((state.unkeyedContentRows.get? (contentIdentity input entry.1.time entry.1.content)).getD [] ++ [entry.2]) }
    else state

def buttonStart (current : List FormRow) (generated : ℕ) : ButtonState :=
  current.zipIdx.foldl (noteRow input) ⟨current, Dict.empty, Dict.empty, Dict.empty, [], 0, 0, 0, 0, generated⟩

/-- An existing row takes the id of the source row that it meets. -/
def linkId (i : ℕ) (localId : Option (List Char)) : ButtonState :=
  match localId, state.rows[i]? with
  | some id, some row =>
    if row.id = id then state
    else
      { state with
        currentById := (state.currentById.erase row.id).set id i
        rows := state.rows.set i { row with id := id }
        linked := state.linked + 1 }
  | _, _ => state

/-- An existing row takes the key of the source row that it meets. -/
def linkKey (i : ℕ) (key : Option (List Char × List Char)) : ButtonState :=
  match key, state.rows[i]? with
  | some key, some row =>
    let state := if row.sourceKey.isSome then state
      else
        { state with
          rows := state.rows.set i { row with sourceKey := some key }
          matched := state.matched + 1 }
    { state with
      sourceKeys := state.sourceKeys ++ [key]
      currentBySourceKey := state.currentBySourceKey.set key i }
  | _, _ => state

def linkExisting (i : ℕ) (source : UpdateRow) : ButtonState :=
  let state := linkKey (linkId state i source.localRowId) i (sourceKey source)
  { state with skipped := state.skipped + 1 }

def placeKey (places : Dict (List Char × List Char) ℕ) (key : Option (List Char × List Char)) (i : ℕ) :
    Dict (List Char × List Char) ℕ :=
  match key with
  | some key => places.set key i
  | none => places

/-- A source row that no row meets. -/
def addRow (source : UpdateRow) : ButtonState :=
  let row : FormRow := ⟨source.localRowId.getD (rowIdStart ++ (input.uuid state.generated).1),
    formatForDatetimeLocal input.parseOther source.source.time, source.source.content, sourceKey source⟩
  { state with
    rows := state.rows ++ [row]
    currentById := state.currentById.set row.id state.rows.length
    sourceKeys := state.sourceKeys ++ (sourceKey source).toList
    currentBySourceKey := placeKey state.currentBySourceKey (sourceKey source) state.rows.length
    added := state.added + 1
    generated := if source.localRowId.isSome then state.generated else state.generated + 1 }

/-- A source row in the loop of `mergeInvitationUpdateRows`. -/
def mergeUpdateRow (source : UpdateRow) : ButtonState :=
  let time := formatForDatetimeLocal input.parseOther source.source.time
  let identity := contentIdentity input time source.source.content
  if time = [] ∨ normalizedContent source.source.content = [] then { state with skipped := state.skipped + 1 }
  else
    match ((sourceKey source).bind state.currentBySourceKey.get?).or (source.localRowId.bind state.currentById.get?) with
    | some i => linkExisting state i source
    | none =>
      match state.unkeyedContentRows.get? identity with
      | some (i :: rest) =>
        linkExisting { state with unkeyedContentRows := state.unkeyedContentRows.set identity rest } i source
      | _ =>
        if (sourceKey source).any fun key => state.sourceKeys.contains key then
          { state with skipped := state.skipped + 1 }
        else addRow input state source

/-- `mergeInvitationUpdateRows(currentRows, sourceRows, { kind })`, for requests and responses. -/
def mergeInvitationUpdateRows (current : List FormRow) (sourceRows : List UpdateRow) (generated : ℕ) : ButtonState :=
  sourceRows.foldl (mergeUpdateRow input) (buttonStart input current generated)

def StoredRow.form (row : StoredRow) : FormRow := ⟨row.id, row.thoiGian, row.noiDung, none⟩

end Bidding.Clarifications
