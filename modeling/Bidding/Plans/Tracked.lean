import Bidding.Plans.Restored

/-!
# What the snapshot of a draft keeps track of

As long as no merge meets a row that the user changed or deleted with a change of its own, the rebased snapshot holds what
the same merges alone lead to, and the rows of the form differ from it only in fields that are not the server's.
-/

namespace Bidding.Plans.Breakdown

open Foundations List
open Option hiding merge

/-! ## Rows by their keys -/

def rowAt (rows : List DraftRow) (id : String) : Option DraftRow := (rowsById rows).get? id

def HaveIds (rows : List DraftRow) : Prop := ∀ row ∈ rows, rowKey row ≠ ""

theorem rowAt_nil (id : String) : rowAt [] id = none := rfl

theorem rowAt_concat (rows : List DraftRow) (row : DraftRow) (id : String) :
    rowAt (rows ++ [row]) id = if id = rowKey row then some row else rowAt rows id := by
  unfold rowAt
  rw [rowsById_append, Dict.get?_set]

variable {id : String} {item incoming : DraftRow} {table : DraftTable} {names revokedIds : List String}
  {base localRow reference : Option DraftRow} {snapshot : List DraftRow} {pull : ServerMerge} {tables : DraftTables}
  {localBefore : List DraftRow}

theorem rowKey_of_rowAt {rows : List DraftRow} {row : DraftRow} (h : rowAt rows id = some row) : rowKey row = id :=
  rowsById_keyed rows id row h

theorem rowAt_append (rows others : List DraftRow) (id : String) :
    rowAt (rows ++ others) id = (rowAt others id).or (rowAt rows id) := by
  induction others using List.reverseRecOn with
  | nil => rw [append_nil, rowAt_nil, none_or]
  | append_singleton others row ih =>
    rw [← append_assoc, rowAt_concat, rowAt_concat, ih]
    split
    · rfl
    · rfl

theorem rowAt_ne_none {rows : List DraftRow} {row : DraftRow} (h : row ∈ rows) : rowAt rows (rowKey row) ≠ none := by
  induction rows using List.reverseRecOn with
  | nil => cases h
  | append_singleton rows other ih =>
    rw [rowAt_concat]
    split
    · exact some_ne_none _
    rename_i hne
    apply ih
    rcases mem_append.mp h with h | h
    · exact h
    · rw [mem_singleton] at h
      exact absurd (congrArg rowKey h) hne

theorem rowAt_map (f : DraftRow → DraftRow) (hf : ∀ row, rowKey (f row) = rowKey row) (rows : List DraftRow) (id : String) :
    rowAt (rows.map f) id = (rowAt rows id).map f := by
  induction rows using List.reverseRecOn with
  | nil => rfl
  | append_singleton rows row ih =>
    rw [map_append, map_singleton, rowAt_concat, rowAt_concat, hf, ih]
    split
    · rfl
    · rfl

theorem rowAt_filter (p : String → Bool) (rows : List DraftRow) (id : String) :
    rowAt (rows.filter fun row => p (rowKey row)) id = if p id then rowAt rows id else none := by
  induction rows using List.reverseRecOn with
  | nil => simp [rowAt_nil]
  | append_singleton rows row ih =>
    rw [filter_append, rowAt_append, ih, rowAt_concat]
    by_cases hid : id = rowKey row
    · subst hid
      by_cases hp : p (rowKey row) = true
      · have hkept : List.filter (fun row => p (rowKey row)) [row] = [] ++ [row] := by simp [hp]
        rw [hkept, rowAt_concat, if_pos rfl, if_pos hp, some_or, if_pos rfl, if_pos hp]
      · have hdropped : List.filter (fun row => p (rowKey row)) [row] = [] := by simp [hp]
        rw [hdropped, rowAt_nil, if_neg hp, if_neg hp, none_or]
    · have hother : rowAt (List.filter (fun row => p (rowKey row)) [row]) id = none := by
        by_cases hp : p (rowKey row) = true
        · have hkept : List.filter (fun row => p (rowKey row)) [row] = [] ++ [row] := by simp [hp]
          rw [hkept, rowAt_concat, if_neg hid, rowAt_nil]
        · have hdropped : List.filter (fun row => p (rowKey row)) [row] = [] := by simp [hp]
          rw [hdropped, rowAt_nil]
      rw [hother, if_neg hid, none_or]

theorem rowAt_eq_lastIndex (rows : List DraftRow) (id : String) :
    rowAt rows id = (lastIndex id (rows.map rowKey)).bind fun i => rows[i]? := by
  induction rows with
  | nil => rfl
  | cons row rows ih =>
    have hsplit : rowAt (row :: rows) id = (rowAt rows id).or (if id = rowKey row then some row else none) := by
      rw [← singleton_append, rowAt_append, ← nil_append [row], rowAt_concat, rowAt_nil]
    rw [hsplit, ih, map_cons, lastIndex]
    cases hlast : lastIndex id (rows.map rowKey) with
    | some i =>
      have hget : rows[i]? ≠ none := by
        intro hnone
        have hkey := getElem?_of_lastIndex hlast
        rw [getElem?_map, hnone] at hkey
        cases hkey
      obtain ⟨found, hfound⟩ := ne_none_iff_exists'.mp hget
      simp [hfound]
    | none =>
      by_cases hid : id = rowKey row
      · simp [hid]
      · simp [hid, Ne.symm hid]

theorem rowAt_replaceLast {rows : List DraftRow} (h : rowKey item ∈ rows.map rowKey) (id : String) :
    rowAt (replaceLast rowKey rows item) id = if id = rowKey item then some item else rowAt rows id := by
  rw [rowAt_eq_lastIndex, rowAt_eq_lastIndex rows, map_replaceLast]
  by_cases hid : id = rowKey item
  · subst hid
    rw [if_pos rfl]
    cases hlast : lastIndex (rowKey item) (rows.map rowKey) with
    | none => exact absurd h ((lastIndex_eq_none_iff _ _).mp hlast)
    | some i => rw [bind_some, getElem?_replaceLast, if_pos hlast]
  · rw [if_neg hid]
    cases hlast : lastIndex id (rows.map rowKey) with
    | none => rfl
    | some i =>
      rw [bind_some, bind_some, getElem?_replaceLast, if_neg]
      intro hitem
      have h1 := getElem?_of_lastIndex hlast
      have h2 := getElem?_of_lastIndex hitem
      rw [h1] at h2
      exact hid (some.inj h2)

theorem map_idText {rows : List DraftRow} (h : HaveIds rows) : rows.map idText = rows.map rowKey :=
  map_congr_left fun row hrow => idText_of_rowKey (h row hrow)

theorem haveIds_replaceLast {rows : List DraftRow} (hrows : HaveIds rows) (hitem : rowKey item ≠ "") :
    HaveIds (replaceLast idText rows item) := by
  intro row hrow
  unfold replaceLast at hrow
  cases hlast : lastIndex (idText item) (rows.map idText) with
  | none =>
    rw [hlast] at hrow
    exact hrows row hrow
  | some i =>
    rw [hlast] at hrow
    rcases mem_or_eq_of_mem_set hrow with hmem | rfl
    · exact hrows row hmem
    · exact hitem

theorem replaceLast_idText {rows : List DraftRow} (hrows : HaveIds rows) (hitem : rowKey item ≠ "") :
    replaceLast idText rows item = replaceLast rowKey rows item := by
  unfold replaceLast
  rw [map_idText hrows, idText_of_rowKey hitem]

/-- A merged record replaces the row of its id and no other. -/
theorem mergeIncomingRecord_spec {rows : List DraftRow} (hrows : HaveIds rows) (hitem : rowKey item ≠ "") :
    HaveIds (mergeIncomingRecord rows item) ∧
      ∀ id, rowAt (mergeIncomingRecord rows item) id = if id = rowKey item then some item else rowAt rows id := by
  unfold mergeIncomingRecord
  rw [map_idText hrows, idText_of_rowKey hitem]
  split
  · rename_i hmem
    refine ⟨haveIds_replaceLast hrows hitem, ?_⟩
    intro id
    rw [replaceLast_idText hrows hitem, rowAt_replaceLast hmem]
  · refine ⟨?_, fun id => rowAt_concat rows item id⟩
    intro row hrow
    rcases mem_append.mp hrow with hmem | hmem
    · exact hrows row hmem
    · rw [mem_singleton.mp hmem]
      exact hitem

theorem foldl_mergeIncomingRecord {rows incoming : List DraftRow} (hrows : HaveIds rows) (hincoming : HaveIds incoming) :
    HaveIds (incoming.foldl mergeIncomingRecord rows) ∧
      ∀ id, rowAt (incoming.foldl mergeIncomingRecord rows) id = (rowAt incoming id).or (rowAt rows id) := by
  induction incoming using List.reverseRecOn with
  | nil => exact ⟨hrows, fun id => by rw [rowAt_nil, none_or]; rfl⟩
  | append_singleton incoming item ih =>
    obtain ⟨hids, hat⟩ := ih fun row hrow => hincoming row (mem_append_left _ hrow)
    obtain ⟨hids', hat'⟩ := mergeIncomingRecord_spec hids (hincoming item (by simp))
    rw [foldl_append, foldl_cons, foldl_nil]
    refine ⟨hids', ?_⟩
    intro id
    rw [hat', hat, rowAt_concat]
    split
    · rfl
    · rfl

def TableMerge.rows : TableMerge → List DraftRow
  | .delta incoming _ => incoming
  | .replace rows => rows

def TableMerge.word (merge : TableMerge) (id : String) : Option (Option DraftRow) :=
  match merge with
  | .delta incoming deletedIds => if id ∈ deletedIds then some none else (rowAt incoming id).map some
  | .replace rows => some (rowAt rows id)

def said (word : Option (Option DraftRow)) (old : Option DraftRow) : Option DraftRow := word.getD old

theorem TableMerge.apply_spec {merge : TableMerge} {rows : List DraftRow} (hrows : HaveIds rows) (hmerge : HaveIds merge.rows) :
    HaveIds (merge.apply rows) ∧ ∀ id, rowAt (merge.apply rows) id = said (merge.word id) (rowAt rows id) := by
  cases merge with
  | replace incoming => exact ⟨hmerge, fun id => rfl⟩
  | delta incoming deletedIds =>
    have hincomingIds : HaveIds incoming := hmerge
    obtain ⟨hids, hat⟩ := foldl_mergeIncomingRecord hrows hincomingIds
    have hfilter : (incoming.foldl mergeIncomingRecord rows).filter (fun row => idText row ∉ deletedIds) =
        (incoming.foldl mergeIncomingRecord rows).filter fun row => decide (rowKey row ∉ deletedIds) := by
      apply filter_congr
      intro row hrow
      rw [idText_of_rowKey (hids row hrow)]
    show HaveIds (List.filter _ _) ∧ ∀ id, rowAt (List.filter _ _) id = _
    rw [hfilter]
    refine ⟨fun row hrow => hids row (mem_filter.mp hrow).1, ?_⟩
    intro id
    rw [rowAt_filter (fun id => decide (id ∉ deletedIds)), hat]
    unfold said TableMerge.word
    by_cases hid : id ∈ deletedIds
    · simp [hid]
    · cases hincoming : rowAt incoming id with
      | none => simp [hid, hincoming]
      | some row => simp [hid, hincoming]

def SameFields (row other : DraftRow) : Prop := ∀ name, field row name = field other name

def ownedFields (table : DraftTable) : List String :=
  serverOwnedDraftFields ++ serverOwnedRecordFields.filter fun name => ¬(hasVersions table = true ∧ name = "isLatest")

/-- The snapshot holds what the merges alone lead to; the rows of the form differ from it in fields that are not the server's,
and a row that is not in it was never committed. -/
structure Tracks (session : FormSession) : Prop where
  ids : ∀ table, HaveIds (session.draft.tables table) ∧ HaveIds (session.draft.snapshot table) ∧ HaveIds (session.reference table)
  snapshot : ∀ table id, Option.Rel SameFields (rowAt (session.draft.snapshot table) id) (rowAt (session.reference table) id)
  owned : ∀ table id row old, rowAt (session.draft.tables table) id = some row → rowAt (session.draft.snapshot table) id = some old →
    ∀ name ∈ ownedFields table, field row name = field old name
  added : ∀ table, ∀ row ∈ session.draft.tables table, rowAt (session.draft.snapshot table) (rowKey row) = none →
    isCommitted row = false

/-- Edits of the user: rows have ids, the fields of the server stay, and new rows are not committed. -/
structure AllowedEdit (draft : DraftState) (tables : DraftTables) : Prop where
  ids : ∀ table, HaveIds (tables table)
  owned : ∀ table id row old, rowAt (tables table) id = some row → rowAt (draft.snapshot table) id = some old →
    ∀ name ∈ ownedFields table, field row name = field old name
  added : ∀ table, ∀ row ∈ tables table, rowAt (draft.snapshot table) (rowKey row) = none → isCommitted row = false

/-- A pull that meets no edit of the user with a change of its own: what is revoked is removed; nothing comes in under the id of
an added row; a deleted row is unchanged or removed; and a changed one comes in unchanged or not at all, gives way as a
reference, or is revoked. -/
structure CalmPull (draft : DraftState) (pull : ServerMerge) : Prop where
  ids : ∀ table ∈ pull.changedTables, HaveIds (pull.merge table).rows
  revoked : ∀ table ∈ pull.changedTables, ∀ id ∈ pull.revokedIds table, (pull.merge table).word id = some none
  added : ∀ table ∈ pull.changedTables, ∀ id row, rowAt (draft.tables table) id = some row →
    rowAt (draft.snapshot table) id = none → ∀ incoming, (pull.merge table).word id ≠ some (some incoming)
  deleted : ∀ table ∈ pull.changedTables, ∀ id old, rowAt (draft.tables table) id = none →
    rowAt (draft.snapshot table) id = some old → (pull.merge table).word id = some none ∨
      ∃ incoming, (pull.merge table).word id = some (some incoming) ∧ changedFieldNames incoming old = []
  changed : ∀ table ∈ pull.changedTables, ∀ id row old, rowAt (draft.tables table) id = some row →
    rowAt (draft.snapshot table) id = some old → changedFieldNames row old ≠ [] → (pull.merge table).word id = none ∨
      (∃ incoming, (pull.merge table).word id = some (some incoming) ∧
        (changedFieldNames incoming old = [] ∨ hydrates row incoming = true)) ∨
      ((pull.merge table).word id = some none ∧ id ∈ pull.revokedIds table ∧ isCommitted old = true)

def Clear (draft : DraftState) : FormStep → Prop
  | .edit tables => AllowedEdit draft tables
  | .pull merge => CalmPull draft merge

def AllClear (session : FormSession) : List FormStep → Prop
  | [] => True
  | step :: steps => Clear session.draft step ∧ AllClear (step.run session) steps

/-! ## One row of a pull -/

theorem sameFields_of_unchanged {row old : DraftRow} (hchanged : changedFieldNames row old = [])
    (howned : ∀ name ∈ ownedFields table, field row name = field old name) : SameFields row old := by
  intro name
  by_cases hname : name ∈ serverOwnedDraftFields
  · exact howned name (mem_append_left _ hname)
  · exact (changedFieldNames_eq_nil_iff row old).mp hchanged name hname

theorem owned_withFields {row old : DraftRow}
    (howned : ∀ name ∈ ownedFields table, field row name = field old name) (hnames : ∀ name ∈ names, name ∈ changedFieldNames row old) :
    ∀ name ∈ ownedFields table, field (withFields incoming row names) name = field incoming name := by
  intro name hname
  rw [field_withFields, if_neg]
  intro hmem
  exact ((mem_changedFieldNames row old name).mp (hnames name hmem)).2 (howned name hname)

/-- What a pull needs to know of one row: its versions in the form, the snapshot and the tables of the merges alone, what the
merge says of it, and whether it is preserved. -/
structure RowOnTrack (table : DraftTable) (base localRow reference : Option DraftRow) : Prop where
  same : Option.Rel SameFields base reference
  owned : ∀ row old, localRow = some row → base = some old → ∀ name ∈ ownedFields table, field row name = field old name
  added : ∀ row, localRow = some row → base = none → isCommitted row = false

theorem RowOnTrack.nothing (table : DraftTable) : RowOnTrack table none none none where
  same := .none
  owned _ _ h _ := by cases h
  added _ h _ := by cases h

theorem RowOnTrack.refl (table : DraftTable) (row : Option DraftRow) : RowOnTrack table row row row where
  same := by
    cases row with
    | none => exact .none
    | some row => exact .some fun _ => rfl
  owned row' old hrow hold := by
    rw [hrow] at hold
    cases hold
    exact fun _ _ => rfl
  added row' hrow hnone := by
    rw [hrow] at hnone
    cases hnone

theorem RowOnTrack.userRow {row : DraftRow} (h : isCommitted row = false) : RowOnTrack table none (some row) none where
  same := .none
  owned _ _ _ hold := by cases hold
  added row' hrow _ := by
    cases hrow
    exact h

theorem RowOnTrack.deletedRow (table : DraftTable) (incoming : DraftRow) :
    RowOnTrack table (some incoming) none (some incoming) where
  same := .some fun _ => rfl
  owned _ _ hrow _ := by cases hrow
  added _ hrow _ := by cases hrow

theorem RowOnTrack.merged {row old : DraftRow}
    (howned : ∀ name ∈ ownedFields table, field row name = field old name) (hnames : ∀ name ∈ names, name ∈ changedFieldNames row old) :
    RowOnTrack table (some incoming) (some (withFields incoming row names)) (some incoming) where
  same := .some fun _ => rfl
  owned row' old' hrow hold := by
    cases hrow
    cases hold
    exact owned_withFields howned hnames
  added _ _ hnone := by cases hnone

section

variable (h : RowOnTrack table base localRow reference)
include h

theorem RowOnTrack.untouched (hdeleted : localRow = none → base = none) :
    RowOnTrack table (choice base localRow localRow).2 (choice base localRow localRow).1 reference := by
  cases localRow with
  | none =>
    have hbase := hdeleted rfl
    subst hbase
    have href : reference = none := by
      have hsame := h.same
      cases hsame
      rfl
    rw [href]
    exact RowOnTrack.nothing table
  | some row =>
    have hhydrates : hydrates row row = false := by
      unfold hydrates
      cases hfield : field row "referenceOnly" with
      | none => rfl
      | some value =>
        by_cases htrue : value = .bool true
        · rw [htrue]
          rfl
        · simp [htrue]
    cases base with
    | none =>
      have hchoice : choice none (some row) (some row) = (some row, none) := by
        show (if hydrates row row = true then _ else _ : Option DraftRow × Option DraftRow) = _
        rw [hhydrates]
        rfl
      rw [hchoice]
      exact h
    | some old =>
      by_cases hchanged : changedFieldNames row old = []
      · have hchoice : choice (some old) (some row) (some row) = (some row, some row) := by
          show (if hydrates row row = true then _ else _ : Option DraftRow × Option DraftRow) = _
          rw [hhydrates, if_neg Bool.false_ne_true, if_pos hchanged]
        rw [hchoice]
        have hfields := sameFields_of_unchanged hchanged (h.owned row old rfl rfl)
        exact
          { same := by
              have hsame := h.same
              cases hsame with
              | some hreference => exact .some fun name => (hfields name).trans (hreference name)
            owned := (RowOnTrack.refl table (some row)).owned
            added := (RowOnTrack.refl table (some row)).added }
      · have hchoice : choice (some old) (some row) (some row) = (some row, some old) := by
          show (if hydrates row row = true then _ else _ : Option DraftRow × Option DraftRow) = _
          rw [hhydrates, if_neg Bool.false_ne_true, if_neg hchanged, if_pos hchanged]
        rw [hchoice]
        exact h

theorem RowOnTrack.removed (hchanged : ∀ row old, localRow = some row → base = some old → changedFieldNames row old = []) :
    RowOnTrack table (choice base localRow none).2 (choice base localRow none).1 none := by
  cases base with
  | none =>
    cases localRow with
    | none => exact RowOnTrack.nothing table
    | some row => exact RowOnTrack.userRow (h.added row rfl rfl)
  | some old =>
    cases localRow with
    | none => exact RowOnTrack.nothing table
    | some row =>
      have hchoice : choice (some old) (some row) none = (none, none) := if_pos (hchanged row old rfl rfl)
      rw [hchoice]
      exact RowOnTrack.nothing table

theorem RowOnTrack.arrived (hadded : localRow = none ∨ base ≠ none)
    (hdeleted : ∀ old, localRow = none → base = some old → changedFieldNames incoming old = [])
    (hchanged : ∀ row old, localRow = some row → base = some old → changedFieldNames row old ≠ [] →
      changedFieldNames incoming old = [] ∨ hydrates row incoming = true) :
    RowOnTrack table (choice base localRow (some incoming)).2 (choice base localRow (some incoming)).1 (some incoming) := by
  cases base with
  | none =>
    cases localRow with
    | none => exact RowOnTrack.refl table (some incoming)
    | some row =>
      rcases hadded with hadded | hadded
      · cases hadded
      · exact absurd rfl hadded
  | some old =>
    cases localRow with
    | none =>
      have hchoice : choice (some old) none (some incoming) = (none, some incoming) := by
        show ((none : Option DraftRow), some (if changedFieldNames incoming old = [] then incoming else old)) = _
        rw [if_pos (hdeleted old rfl rfl)]
      rw [hchoice]
      exact RowOnTrack.deletedRow table incoming
    | some row =>
      have howned := h.owned row old rfl rfl
      by_cases hhydrates : hydrates row incoming = true
      · have hchoice : choice (some old) (some row) (some incoming) =
            (some (hydrated (some old) row incoming), some incoming) := if_pos hhydrates
        rw [hchoice]
        exact RowOnTrack.merged howned fun name hname => (mem_filter.mp hname).1
      · by_cases hrow : changedFieldNames row old = []
        · have hchoice : choice (some old) (some row) (some incoming) = (some incoming, some incoming) := by
            show (if hydrates row incoming = true then _ else _ : Option DraftRow × Option DraftRow) = _
            rw [if_neg hhydrates, if_pos hrow]
          rw [hchoice]
          exact RowOnTrack.refl table (some incoming)
        · have hincoming : changedFieldNames incoming old = [] :=
            (hchanged row old rfl rfl hrow).resolve_right hhydrates
          have hchoice : choice (some old) (some row) (some incoming) =
              (some (withFields incoming row (changedFieldNames row old)), some incoming) := by
            show (if hydrates row incoming = true then _ else _ : Option DraftRow × Option DraftRow) = _
            rw [if_neg hhydrates, if_neg hrow, if_neg (not_not.mpr hincoming)]
          rw [hchoice]
          exact RowOnTrack.merged howned fun name hname => hname

end

/-! ## A whole pull -/

theorem rowAt_empty_key {rows : List DraftRow} (h : HaveIds rows) : rowAt rows "" = none := by
  rw [eq_none_iff_forall_ne_some]
  intro row hrow
  exact h row (mem_of_rowsById hrow) (rowKey_of_rowAt hrow)

theorem haveIds_of_rowAt {rows : List DraftRow} (h : rowAt rows "" = none) : HaveIds rows := by
  intro row hrow hkey
  have hne := rowAt_ne_none hrow
  rw [hkey] at hne
  exact hne h

def preservesId (revokedIds : List String) (snapshot localBefore : List DraftRow) (id : String) : Bool :=
  id ∉ revokedIds || id ∉ ((snapshot ++ localBefore).filter isCommitted).map idText

theorem rowAt_preserved {rows : List DraftRow} (revokedIds : List String) (snapshot localBefore : List DraftRow)
    (hrows : HaveIds rows) (id : String) : rowAt (rows.filter (preserveDraftRow revokedIds snapshot localBefore)) id =
      if preservesId revokedIds snapshot localBefore id then rowAt rows id else none := by
  have hfilter : rows.filter (preserveDraftRow revokedIds snapshot localBefore) =
      rows.filter fun row => preservesId revokedIds snapshot localBefore (rowKey row) := by
    apply filter_congr
    intro row hrow
    unfold preserveDraftRow preservesId
    rw [idText_of_rowKey (hrows row hrow)]
  rw [hfilter, rowAt_filter]

theorem preservesId_of_not_mem (h : id ∉ revokedIds) : preservesId revokedIds snapshot localBefore id = true := by
  unfold preservesId
  rw [Bool.or_eq_true, decide_eq_true_eq]
  exact Or.inl h

theorem preservesId_of_committed {row : DraftRow}
    (hrow : row ∈ snapshot) (hid : rowKey row ≠ "") (hrevoked : rowKey row ∈ revokedIds) (hcommitted : isCommitted row = true) :
    preservesId revokedIds snapshot localBefore (rowKey row) = false := by
  have hmem : rowKey row ∈ ((snapshot ++ localBefore).filter isCommitted).map idText := by
    rw [← idText_of_rowKey hid]
    exact mem_map_of_mem (mem_filter.mpr ⟨mem_append_left _ hrow, hcommitted⟩)
  unfold preservesId
  rw [Bool.or_eq_false_iff, decide_eq_false_iff_not, decide_eq_false_iff_not, not_not, not_not]
  exact ⟨hrevoked, hmem⟩

variable {session : FormSession}

theorem Tracks.row (h : Tracks session) (table : DraftTable) (id : String) :
    RowOnTrack table (rowAt (session.draft.snapshot table) id) (rowAt (session.draft.tables table) id)
      (rowAt (session.reference table) id) where
  same := h.snapshot table id
  owned := h.owned table id
  added row hrow hnone := by
    apply h.added table row (mem_of_rowsById hrow)
    rw [rowKey_of_rowAt hrow]
    exact hnone

theorem CalmPull.row (hcalm : CalmPull session.draft pull) (h : Tracks session)
    (htable : table ∈ pull.changedTables) (id : String) :
    let snapshot := session.draft.snapshot table
    let tables := session.draft.tables table
    let versions := threeVersions (pull.revokedIds table) snapshot tables ((pull.merge table).apply tables)
    let pair := choice (versions.baseline.get? id) (versions.localRows.get? id) (versions.serverRows.get? id)
    RowOnTrack table pair.2 pair.1 (said ((pull.merge table).word id) (rowAt (session.reference table) id)) := by
  intro snapshot tables versions pair
  obtain ⟨htables, hsnapshot, hreference⟩ := h.ids table
  have hrow := h.row table id
  have hserver : versions.serverRows.get? id = said ((pull.merge table).word id) (rowAt tables id) :=
    (TableMerge.apply_spec htables (hcalm.ids table htable)).2 id
  have hbase : versions.baseline.get? id = _ := rowAt_preserved (pull.revokedIds table) snapshot tables hsnapshot id
  have hlocal : versions.localRows.get? id = _ := rowAt_preserved (pull.revokedIds table) snapshot tables htables id
  show RowOnTrack table (choice _ _ _).2 (choice _ _ _).1 _
  rw [hbase, hlocal, hserver]
  by_cases hpreserved : preservesId (pull.revokedIds table) snapshot tables id = true
  · rw [if_pos hpreserved, if_pos hpreserved]
    cases hword : (pull.merge table).word id with
    | none =>
      -- a delta without the row
      apply hrow.untouched
      intro hnone
      by_contra hbaseNe
      obtain ⟨old, hold⟩ := ne_none_iff_exists'.mp hbaseNe
      rcases hcalm.deleted table htable id old hnone hold with hgone | ⟨incoming, hincoming, -⟩
      · rw [hword] at hgone
        cases hgone
      · rw [hword] at hincoming
        cases hincoming
    | some settled =>
      cases settled with
      | none =>
        apply hrow.removed
        intro row old hlocalRow hold
        by_contra hchanged
        rcases hcalm.changed table htable id row old hlocalRow hold hchanged with hnone | ⟨incoming, hincoming, -⟩ |
          ⟨-, hrevoked, hcommitted⟩
        · rw [hword] at hnone
          cases hnone
        · rw [hword] at hincoming
          cases hincoming
        · have hkey := rowKey_of_rowAt hold
          have hmem := mem_of_rowsById hold
          have hdropped := @preservesId_of_committed _ _ tables _ hmem (hsnapshot old hmem) (hkey ▸ hrevoked) hcommitted
          rw [hkey, hpreserved] at hdropped
          cases hdropped
      | some incoming =>
        apply hrow.arrived
        · by_contra hno
          rw [not_or, not_not] at hno
          obtain ⟨row, hlocalRow⟩ := ne_none_iff_exists'.mp hno.1
          exact hcalm.added table htable id row hlocalRow hno.2 incoming hword
        · intro old hlocalRow hold
          rcases hcalm.deleted table htable id old hlocalRow hold with hgone | ⟨incoming', hincoming, hunchanged⟩
          · rw [hword] at hgone
            cases hgone
          · rw [hword] at hincoming
            cases hincoming
            exact hunchanged
        · intro row old hlocalRow hold hchanged
          rcases hcalm.changed table htable id row old hlocalRow hold hchanged with hnone | ⟨incoming', hincoming, hunchanged⟩ |
            ⟨hgone, -, -⟩
          · rw [hword] at hnone
            cases hnone
          · rw [hword] at hincoming
            cases hincoming
            exact hunchanged
          · rw [hword] at hgone
            cases hgone
  · -- what is revoked is removed everywhere
    have hrevoked : id ∈ pull.revokedIds table := by
      by_contra hno
      exact hpreserved (preservesId_of_not_mem hno)
    rw [if_neg hpreserved, if_neg hpreserved, hcalm.revoked table htable id hrevoked]
    exact RowOnTrack.nothing table

theorem pull_rowAt (session : FormSession) (pull : ServerMerge) (htable : table ∈ pull.changedTables) (id : String) :
    let snapshot := session.draft.snapshot table
    let tables := session.draft.tables table
    let versions := threeVersions (pull.revokedIds table) snapshot tables ((pull.merge table).apply tables)
    let next := FormStep.run session (.pull pull)
    (rowAt (next.draft.tables table) id, rowAt (next.draft.snapshot table) id) =
      choice (versions.baseline.get? id) (versions.localRows.get? id) (versions.serverRows.get? id) := by
  intro snapshot tables versions next
  have hmerged : pull.apply session.draft.tables table = (pull.merge table).apply tables := if_pos htable
  have hat := rebaseDraft_at session.draft.tables pull.changedTables pull.revokedIds
    ⟨pull.apply session.draft.tables, session.draft.snapshot⟩ htable id
  dsimp only at hat
  rw [hmerged] at hat
  exact hat

theorem pull_haveIds (hcalm : CalmPull session.draft pull) (h : Tracks session)
    (htable : table ∈ pull.changedTables) : HaveIds ((FormStep.run session (.pull pull)).draft.tables table) ∧
      HaveIds ((FormStep.run session (.pull pull)).draft.snapshot table) := by
  obtain ⟨htables, hsnapshot, -⟩ := h.ids table
  have hserver := rowAt_empty_key (TableMerge.apply_spec htables (hcalm.ids table htable)).1
  have hfiltered : ∀ rows, HaveIds rows → rowAt (rows.filter (preserveDraftRow (pull.revokedIds table)
      (session.draft.snapshot table) (session.draft.tables table))) "" = none :=
    fun rows hrows => rowAt_empty_key fun row hrow => hrows row (mem_filter.mp hrow).1
  have hchoice : ∀ base localRow serverRow : Option DraftRow, base = none → localRow = none → serverRow = none →
      choice base localRow serverRow = (none, none) := by
    rintro _ _ _ rfl rfl rfl
    rfl
  have hboth := (pull_rowAt session pull htable "").trans (hchoice _ _ _ (hfiltered _ hsnapshot) (hfiltered _ htables) hserver)
  exact ⟨haveIds_of_rowAt (congrArg Prod.fst hboth), haveIds_of_rowAt (congrArg Prod.snd hboth)⟩

theorem rowAt_of_mem {rows : List DraftRow} (hnodup : (rows.map rowKey).Nodup) {row : DraftRow} (h : row ∈ rows) :
    rowAt rows (rowKey row) = some row :=
  (mem_rowsById_iff hnodup _ _).mpr ⟨h, rfl⟩

/-- A merge of the server leaves the tables it does not name as they are. -/
theorem pull_unchanged (session : FormSession) (pull : ServerMerge) (htable : table ∉ pull.changedTables) :
    let next := FormStep.run session (.pull pull)
    next.draft.tables table = session.draft.tables table ∧ next.draft.snapshot table = session.draft.snapshot table ∧
      next.reference table = session.reference table :=
  ⟨(if_neg htable).trans (if_neg htable), if_neg htable, if_neg htable⟩

theorem CalmPull.tracks (hcalm : CalmPull session.draft pull) (h : Tracks session) :
    Tracks (FormStep.run session (.pull pull)) := by
  have hrow : ∀ table id, RowOnTrack table (rowAt ((FormStep.run session (.pull pull)).draft.snapshot table) id)
      (rowAt ((FormStep.run session (.pull pull)).draft.tables table) id)
      (rowAt ((FormStep.run session (.pull pull)).reference table) id) := by
    intro table id
    by_cases htable : table ∈ pull.changedTables
    · have hpair := pull_rowAt session pull htable id
      have hreference : (FormStep.run session (.pull pull)).reference table =
          (pull.merge table).apply (session.reference table) := if_pos htable
      have hsettled := hcalm.row h htable id
      dsimp only at hpair hsettled
      rw [← hpair] at hsettled
      rw [hreference, (TableMerge.apply_spec (h.ids table).2.2 (hcalm.ids table htable)).2 id]
      exact hsettled
    · obtain ⟨htables, hsnapshot, hreference⟩ := pull_unchanged session pull htable
      rw [htables, hsnapshot, hreference]
      exact h.row table id
  exact
    { ids := by
        intro table
        by_cases htable : table ∈ pull.changedTables
        · obtain ⟨htables, hsnapshot⟩ := pull_haveIds hcalm h htable
          have hreference : (FormStep.run session (.pull pull)).reference table =
              (pull.merge table).apply (session.reference table) := if_pos htable
          rw [hreference]
          exact ⟨htables, hsnapshot, (TableMerge.apply_spec (h.ids table).2.2 (hcalm.ids table htable)).1⟩
        · obtain ⟨htables, hsnapshot, hreference⟩ := pull_unchanged session pull htable
          rw [htables, hsnapshot, hreference]
          exact h.ids table
      snapshot := fun table id => (hrow table id).same
      owned := fun table id => (hrow table id).owned
      added := by
        intro table row hmem hnone
        by_cases htable : table ∈ pull.changedTables
        · have hnodup := (rebaseDraft_nodup session.draft.tables pull.changedTables pull.revokedIds
            ⟨pull.apply session.draft.tables, session.draft.snapshot⟩ htable).1
          exact (hrow table (rowKey row)).added row (rowAt_of_mem hnodup hmem) hnone
        · obtain ⟨htables, hsnapshot, -⟩ := pull_unchanged session pull htable
          rw [htables] at hmem
          rw [hsnapshot] at hnone
          exact h.added table row hmem hnone }

theorem AllowedEdit.tracks (hedit : AllowedEdit session.draft tables) (h : Tracks session) :
    Tracks (FormStep.run session (.edit tables)) where
  ids table := ⟨hedit.ids table, (h.ids table).2⟩
  snapshot := h.snapshot
  owned := hedit.owned
  added := hedit.added

theorem capture_tracks (h : ∀ table, HaveIds (tables table)) : Tracks (capture tables) where
  ids table := ⟨h table, h table, h table⟩
  snapshot table id := (RowOnTrack.refl table (rowAt (tables table) id)).same
  owned table id := (RowOnTrack.refl table (rowAt (tables table) id)).owned
  added _ _ hmem hnone := absurd hnone (rowAt_ne_none hmem)

theorem runSteps_tracks (steps : List FormStep) (h : Tracks session) (hclear : AllClear session steps) :
    Tracks (runSteps session steps) := by
  induction steps generalizing session with
  | nil => exact h
  | cons step steps ih =>
    obtain ⟨hstep, hsteps⟩ := hclear
    apply ih _ hsteps
    cases step with
    | edit tables => exact AllowedEdit.tracks hstep h
    | pull merge => exact CalmPull.tracks hstep h

end Bidding.Plans.Breakdown
