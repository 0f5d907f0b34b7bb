import Bidding.Plans.Breakdown

/-!
# What a rebase does to each row

The three loops over a table come to a choice made for each id on its own, from the three versions of its row. So what the form
shows and what the snapshot holds differ in a row exactly where the user added, changed or deleted it.
-/

namespace Bidding.Plans.Breakdown

open Foundations List Dict
open Option hiding map_map

/-! ## The choice for one row -/

variable (base localRow serverRow : Option DraftRow) {id : String} {row row' : DraftRow} {rows : List DraftRow} {old mine : DraftRow} {table : DraftTable}

/-- What the form shows of a row, and what the snapshot holds of it, by the versions of the snapshot, the form and the server. -/
def choice : Option DraftRow × Option DraftRow :=
  match base, localRow, serverRow with
  | none, none, serverRow => (serverRow, serverRow)
  | none, some localRow, none => (some localRow, none)
  | none, some localRow, some serverRow =>
    if hydrates localRow serverRow then (some serverRow, some serverRow) else (some localRow, none)
  | some _, none, none => (none, none)
  | some base, none, some serverRow => (none, some (if changedFieldNames serverRow base = [] then serverRow else base))
  | some base, some localRow, none =>
    if changedFieldNames localRow base = [] then (none, none) else (some localRow, some base)
  | some base, some localRow, some serverRow =>
    if hydrates localRow serverRow then (some (hydrated (some base) localRow serverRow), some serverRow)
    else if changedFieldNames localRow base = [] then (some serverRow, some serverRow)
    else if changedFieldNames serverRow base ≠ [] then (some localRow, some base)
    else (some (withFields serverRow localRow (changedFieldNames localRow base)), some serverRow)

def Rebasing.at (state : Rebasing) (id : String) : Option DraftRow × Option DraftRow := (state.rows.get? id, state.snapshot.get? id)

/-- The first loop at the row of the server. -/
def serverChoice (base localRow : Option DraftRow) (serverRow : DraftRow) (pair : Option DraftRow × Option DraftRow) :
    Option DraftRow × Option DraftRow :=
  match base, localRow with
  | none, none => (pair.1, some serverRow)
  | none, some localRow =>
    if hydrates localRow serverRow then (some (hydrated none localRow serverRow), some serverRow) else (some localRow, pair.2)
  | some base, none => (none, if changedFieldNames serverRow base = [] then some serverRow else pair.2)
  | some base, some localRow =>
    if hydrates localRow serverRow then (some (hydrated (some base) localRow serverRow), some serverRow)
    else if changedFieldNames localRow base = [] then (pair.1, some serverRow)
    else if changedFieldNames serverRow base ≠ [] then (some localRow, pair.2)
    else (some (withFields serverRow localRow (changedFieldNames localRow base)), some serverRow)

def localChoice (base : Option DraftRow) (localRow : DraftRow) (pair : Option DraftRow × Option DraftRow) :
    Option DraftRow × Option DraftRow :=
  match base, pair.1 with
  | none, none => (some localRow, pair.2)
  | some base, none => if changedFieldNames localRow base ≠ [] then (some localRow, pair.2) else (none, none)
  | _, some _ => pair

variable (baseline localRows : Dict String DraftRow)

/-- A row of the server changes only what is held under its own id. -/
theorem rebaseServerRow_at (id : String) (state : Rebasing) (entry : String × DraftRow) :
    (rebaseServerRow baseline localRows state entry).at id = if entry.1 = id then
      serverChoice (baseline.get? id) (localRows.get? id) entry.2 (state.at id) else state.at id := by
  obtain ⟨key, serverRow⟩ := entry
  dsimp only
  split_ifs with h
  · subst h
    unfold rebaseServerRow serverChoice Rebasing.at
    dsimp only
    cases baseline.get? key <;> cases localRows.get? key <;> dsimp only
    · simp
    · split_ifs <;> simp
    · split_ifs <;> simp
    · split_ifs <;> simp
  · unfold rebaseServerRow Rebasing.at
    dsimp only
    split
    · simp [Dict.get?_set, Ne.symm h]
    · split_ifs <;> simp [Dict.get?_set, Ne.symm h]
    · split_ifs <;> simp [Dict.get?_set, Dict.get?_erase, Ne.symm h]
    · split_ifs <;> simp [Dict.get?_set, Ne.symm h]

variable (baseline : Dict String DraftRow)

theorem rebaseLocalRow_at (id : String) (state : Rebasing) (entry : String × DraftRow) :
    (rebaseLocalRow baseline state entry).at id =
      if entry.1 = id then localChoice (baseline.get? id) entry.2 (state.at id) else state.at id := by
  obtain ⟨key, localRow⟩ := entry
  dsimp only
  split_ifs with h
  · subst h
    unfold rebaseLocalRow localChoice Rebasing.at
    dsimp only
    cases baseline.get? key <;> cases hrow : state.rows.get? key <;> dsimp only
    · simp
    · simp [hrow]
    · split_ifs <;> simp [hrow]
    · simp [hrow]
  · unfold rebaseLocalRow Rebasing.at
    dsimp only
    split
    · simp [Dict.get?_set, Ne.symm h]
    · split_ifs <;> simp [Dict.get?_set, Dict.get?_erase, Ne.symm h]
    · rfl

def droppedChoice (localRow serverRow : Option DraftRow) (pair : Option DraftRow × Option DraftRow) :
    Option DraftRow × Option DraftRow :=
  if localRow = none ∧ serverRow = none then (pair.1, none) else pair

variable (localRows serverRows : Dict String DraftRow)

theorem dropDeletedRow_at (id : String) (state : Rebasing) (entry : String × DraftRow) :
    (dropDeletedRow localRows serverRows state entry).at id =
      if entry.1 = id then droppedChoice (localRows.get? id) (serverRows.get? id) (state.at id) else state.at id := by
  obtain ⟨key, base⟩ := entry
  unfold dropDeletedRow droppedChoice Rebasing.at Dict.contains
  by_cases h : key = id
  · subst h
    cases localRows.get? key <;> cases serverRows.get? key <;> simp
  · split_ifs <;> simp [Dict.get?_erase, Ne.symm h]

theorem rebaseVersions_at (versions : ThreeVersions) (id : String) : (rebaseVersions versions).at id =
    choice (versions.baseline.get? id) (versions.localRows.get? id) (versions.serverRows.get? id) := by
  obtain ⟨baseline, localRows, serverRows⟩ := versions
  unfold rebaseVersions
  dsimp only
  rw [foldl_entries (dropDeletedRow localRows serverRows) (fun state => state.at id)
      (fun _ pair => droppedChoice (localRows.get? id) (serverRows.get? id) pair) id _
      (fun state entry _ => dropDeletedRow_at localRows serverRows id state entry),
    foldl_entries (rebaseLocalRow baseline) (fun state => state.at id)
      (fun localRow pair => localChoice (baseline.get? id) localRow pair) id _
      (fun state entry _ => rebaseLocalRow_at baseline id state entry),
    foldl_entries (rebaseServerRow baseline localRows) (fun state => state.at id)
      (fun serverRow pair => serverChoice (baseline.get? id) (localRows.get? id) serverRow pair) id _
      (fun state entry _ => rebaseServerRow_at baseline localRows id state entry)]
  have hstart : (Rebasing.mk serverRows baseline false).at id = (serverRows.get? id, baseline.get? id) := rfl
  rw [hstart]
  cases baseline.get? id with
  | none =>
    cases localRows.get? id with
    | none =>
      cases serverRows.get? id with
      | none => rfl
      | some serverRow => rfl
    | some localRow =>
      cases serverRows.get? id with
      | none => rfl
      | some serverRow =>
        by_cases hhydrates : hydrates localRow serverRow = true
        · simp [choice, serverChoice, localChoice, hydrated, hhydrates]
        · simp [choice, serverChoice, localChoice, hhydrates]
  | some base =>
    cases localRows.get? id with
    | none =>
      cases serverRows.get? id with
      | none => rfl
      | some serverRow =>
        by_cases hserver : changedFieldNames serverRow base = []
        · simp [choice, serverChoice, droppedChoice, hserver]
        · simp [choice, serverChoice, droppedChoice, hserver]
    | some localRow =>
      cases serverRows.get? id with
      | none =>
        by_cases hlocal : changedFieldNames localRow base = []
        · simp [choice, localChoice, droppedChoice, hlocal]
        · simp [choice, localChoice, droppedChoice, hlocal]
      | some serverRow =>
        by_cases hhydrates : hydrates localRow serverRow = true
        · simp [choice, serverChoice, localChoice, droppedChoice, hhydrates]
        by_cases hlocal : changedFieldNames localRow base = []
        · simp [choice, serverChoice, localChoice, droppedChoice, hhydrates, hlocal]
        · by_cases hserver : changedFieldNames serverRow base = []
          · simp [choice, serverChoice, localChoice, droppedChoice, hhydrates, hlocal, hserver]
          · simp [choice, serverChoice, localChoice, droppedChoice, hhydrates, hlocal, hserver]

/-! ## Fields and texts -/

theorem lookup_jsonText (row : DraftRow) (name : String) : Dict.lookup name (jsonText row) = field row name := by
  unfold jsonText field
  have h := Dict.lookup_filterMap (fun _ value => value) row name
  rw [h]
  cases row.get? name with
  | none => rfl
  | some value => rfl

theorem field_eq_of_jsonText_eq (h : jsonText row = jsonText row') (name : String) : field row name = field row' name := by
  rw [← lookup_jsonText, h, lookup_jsonText]

theorem textOf_eq_of_jsonText_eq (h : jsonText row = jsonText row') (name : String) : textOf row name = textOf row' name := by
  unfold textOf
  rw [field_eq_of_jsonText_eq h name]

theorem mem_changedFieldNames (row base : DraftRow) (name : String) :
    name ∈ changedFieldNames row base ↔ name ∉ serverOwnedDraftFields ∧ field row name ≠ field base name := by
  unfold changedFieldNames
  rw [mem_filter, decide_eq_true_eq, and_iff_right_iff_imp]
  rintro ⟨-, hne⟩
  rw [mem_append, mem_filter, decide_eq_true_eq]
  by_cases hrow : name ∈ row.keys
  · exact Or.inl hrow
  right
  refine ⟨?_, hrow⟩
  rw [mem_keys_iff] at hrow ⊢
  by_contra hbase
  apply hne
  have hget : row.get? name = none := eq_none_iff_forall_ne_some.mpr fun v hv => hrow ⟨v, hv⟩
  have hget' : base.get? name = none := eq_none_iff_forall_ne_some.mpr fun v hv => hbase ⟨v, hv⟩
  unfold field
  rw [hget, hget']

theorem changedFieldNames_eq_nil_iff (row base : DraftRow) :
    changedFieldNames row base = [] ↔ ∀ name ∉ serverOwnedDraftFields, field row name = field base name := by
  rw [eq_nil_iff_forall_not_mem]
  constructor
  · intro h name hname
    by_contra hne
    exact h name ((mem_changedFieldNames row base name).mpr ⟨hname, hne⟩)
  · intro h name hmem
    obtain ⟨hname, hne⟩ := (mem_changedFieldNames row base name).mp hmem
    exact hne (h name hname)

theorem field_set (row : DraftRow) (name other : String) (value : Option Value) :
    field (row.set name value) other = if other = name then value else field row other := by
  unfold field
  rw [Dict.get?_set]
  split
  · rfl
  · rfl

theorem field_withFields (base row : DraftRow) (names : List String) (name : String) :
    field (withFields base row names) name = if name ∈ names then field row name else field base name := by
  unfold withFields
  induction names generalizing base with
  | nil => simp
  | cons first names ih =>
    rw [foldl_cons, ih, field_set]
    by_cases hname : name ∈ names
    · simp [hname]
    · by_cases hfirst : name = first
      · simp [hfirst]
      · simp [hname, hfirst]

theorem jsonText_set_field (row : DraftRow) (name : String) : jsonText (row.set name (field row name)) = jsonText row := by
  cases hget : row.get? name with
  | none =>
    unfold jsonText
    rw [entries_set_of_fresh row _ hget, filterMap_append]
    unfold field
    rw [hget]
    simp
  | some value =>
    have hfield : field row name = value := by
      unfold field
      rw [hget]
      rfl
    rw [hfield, set_of_get? row hget]

theorem jsonText_withFields (base row : DraftRow) (names : List String) (h : ∀ name ∈ names, field row name = field base name) :
    jsonText (withFields base row names) = jsonText base := by
  unfold withFields
  induction names generalizing base with
  | nil => rfl
  | cons first names ih =>
    rw [foldl_cons, ih, h first mem_cons_self, jsonText_set_field]
    intro name hname
    rw [field_set]
    split
    · rename_i hfirst
      rw [hfirst]
    · exact h name (mem_cons_of_mem first hname)

/-! ## Keys -/

theorem idText_of_rowKey (h : rowKey row ≠ "") : idText row = rowKey row := by
  unfold rowKey textOf at h ⊢
  unfold idText
  cases hfield : field row "id" with
  | none =>
    rw [hfield] at h
    exact absurd rfl h
  | some value =>
    rw [hfield] at h
    dsimp only at h ⊢
    by_cases htruthy : value.jsTruthy = true
    · rw [if_pos htruthy]
    · exact absurd (if_neg htruthy) h

def Keyed (rows : Dict String DraftRow) : Prop := ∀ id row, rows.get? id = some row → rowKey row = id

theorem rowsById_append (rows : List DraftRow) (row : DraftRow) :
    rowsById (rows ++ [row]) = (rowsById rows).set (rowKey row) row := by
  unfold rowsById ofList
  rw [map_append, foldl_append]
  rfl

theorem rowsById_keyed (rows : List DraftRow) : Keyed (rowsById rows) := by
  induction rows using List.reverseRecOn with
  | nil =>
    intro id row h
    exact absurd h (by simp [rowsById, ofList])
  | append_singleton rows row ih =>
    intro id row' h
    rw [rowsById_append, Dict.get?_set] at h
    split at h
    · rename_i hid
      cases h
      exact hid.symm
    · exact ih id row' h

theorem mem_of_rowsById (h : (rowsById rows).get? id = some row) : row ∈ rows := by
  induction rows using List.reverseRecOn with
  | nil => exact absurd h (by simp [rowsById, ofList])
  | append_singleton rows row' ih =>
    rw [rowsById_append, Dict.get?_set] at h
    split at h
    · cases h
      simp
    · exact mem_append_left _ (ih h)

theorem Keyed.map_rowKey_values {rows : Dict String DraftRow} (h : Keyed rows) : rows.values.map rowKey = rows.keys := by
  unfold values Dict.keys
  rw [map_map]
  apply map_congr_left
  rintro ⟨id, row⟩ hmem
  exact h id row ((mem_entries_iff rows id row).mp hmem)

theorem mem_rowsById_iff (hnodup : (rows.map rowKey).Nodup) (id : String) (row : DraftRow) :
    (rowsById rows).get? id = some row ↔ row ∈ rows ∧ rowKey row = id := by
  constructor
  · intro h
    exact ⟨mem_of_rowsById h, rowsById_keyed rows id row h⟩
  · rintro ⟨hmem, rfl⟩
    induction rows using List.reverseRecOn with
    | nil => cases hmem
    | append_singleton rows row' ih =>
      rw [map_append, nodup_append] at hnodup
      rw [rowsById_append, Dict.get?_set]
      rw [mem_append, mem_singleton] at hmem
      rcases hmem with hmem | rfl
      · have hne : rowKey row ≠ rowKey row' :=
          hnodup.2.2 _ (mem_map_of_mem hmem) _ (mem_singleton.mpr rfl)
        rw [if_neg hne]
        exact ih hnodup.1 hmem
      · rw [if_pos rfl]

theorem Keyed.rowsById_values {rows : Dict String DraftRow} (h : Keyed rows) (id : String) :
    (rowsById rows.values).get? id = rows.get? id := by
  have hnodup : (rows.values.map rowKey).Nodup := by
    rw [h.map_rowKey_values]
    exact rows.nodupKeys
  apply Option.ext
  intro row
  rw [mem_rowsById_iff hnodup, mem_values_iff]
  constructor
  · rintro ⟨⟨key, hkey⟩, hrow⟩
    rw [h key row hkey] at hrow
    rw [← hrow]
    exact hkey
  · intro hget
    exact ⟨⟨id, hget⟩, h id row hget⟩

/-! ## The choice, stated -/

/-- The user added the row, or changed it; of a reference that the server's row takes the place of, a change counts that the
server has not made. -/
def Edited : Prop :=
  ∃ row, localRow = some row ∧
    ((base = none ∧ ∀ incoming, serverRow = some incoming → hydrates row incoming = false) ∨
      ∃ old, base = some old ∧ changedFieldNames row old ≠ [] ∧
        ∀ incoming, serverRow = some incoming → hydrates row incoming = true →
          ∃ name ∈ changedFieldNames row old, row.contains name = true ∧ field row name ≠ field incoming name)

theorem jsonText_ne (name : String) (h : field row name ≠ field old name) : jsonText row ≠ jsonText old :=
  fun htext => h (field_eq_of_jsonText_eq htext name)

theorem jsonText_ne_of_changed (h : changedFieldNames row old ≠ []) : jsonText row ≠ jsonText old := by
  obtain ⟨name, hname⟩ := exists_mem_of_ne_nil _ h
  exact jsonText_ne name ((mem_changedFieldNames row old name).mp hname).2

theorem jsonText_merged_ne {incoming : DraftRow} (hrow : changedFieldNames row old ≠ [])
    (hincoming : changedFieldNames incoming old = []) :
    jsonText (withFields incoming row (changedFieldNames row old)) ≠ jsonText incoming := by
  obtain ⟨name, hname⟩ := exists_mem_of_ne_nil _ hrow
  obtain ⟨howned, hne⟩ := (mem_changedFieldNames row old name).mp hname
  have hsame : field incoming name = field old name := (changedFieldNames_eq_nil_iff incoming old).mp hincoming name howned
  apply jsonText_ne name
  rw [field_withFields, if_pos hname, hsame]
  exact hne

theorem jsonText_hydrated_ne_iff (row old incoming : DraftRow) :
    jsonText (hydrated (some old) row incoming) ≠ jsonText incoming ↔
      ∃ name ∈ changedFieldNames row old, row.contains name = true ∧ field row name ≠ field incoming name := by
  unfold hydrated
  dsimp only
  constructor
  · intro hne
    by_contra hnone
    apply hne
    apply jsonText_withFields
    intro name hname
    obtain ⟨hchanged, hown⟩ := mem_filter.mp hname
    by_contra hfield
    exact hnone ⟨name, hchanged, hown, hfield⟩
  · rintro ⟨name, hchanged, hown, hfield⟩
    apply jsonText_ne name
    rw [field_withFields, if_pos (mem_filter.mpr ⟨hchanged, hown⟩)]
    exact hfield

theorem edited_of_changed {serverRow : Option DraftRow} (hchanged : changedFieldNames mine old ≠ [])
    (hno : ∀ incoming, serverRow = some incoming → hydrates mine incoming = false) : Edited (some old) (some mine) serverRow := by
  refine ⟨mine, rfl, Or.inr ⟨old, rfl, hchanged, ?_⟩⟩
  intro incoming hincoming hhydrates
  rw [hno incoming hincoming] at hhydrates
  cases hhydrates

theorem not_edited_of_unchanged {serverRow : Option DraftRow} (hchanged : changedFieldNames mine old = []) :
    ¬Edited (some old) (some mine) serverRow := by
  rintro ⟨row, hrow, ⟨hnone, -⟩ | ⟨old', hold, hne, -⟩⟩
  · cases hnone
  · cases hrow
    cases hold
    exact hne hchanged

theorem edited_hydrates_iff {incoming : DraftRow} (hhydrates : hydrates mine incoming = true) :
    Edited (some old) (some mine) (some incoming) ↔
      ∃ name ∈ changedFieldNames mine old, mine.contains name = true ∧ field mine name ≠ field incoming name := by
  constructor
  · rintro ⟨row, hrow, ⟨hnone, -⟩ | ⟨old', hold, -, hname⟩⟩
    · cases hnone
    · cases hrow
      cases hold
      exact hname incoming rfl hhydrates
  · rintro ⟨name, hname, hown⟩
    refine ⟨mine, rfl, Or.inr ⟨old, rfl, ne_nil_of_mem hname, ?_⟩⟩
    intro incoming' hincoming _
    cases hincoming
    exact ⟨name, hname, hown⟩

theorem choice_edited {base localRow serverRow : Option DraftRow} (h : (choice base localRow serverRow).1 = some row) :
    (∀ old, (choice base localRow serverRow).2 = some old → jsonText row ≠ jsonText old) ↔ Edited base localRow serverRow := by
  cases localRow with
  | none =>
    have hnot : ¬Edited base none serverRow := by
      rintro ⟨row', hrow', -⟩
      cases hrow'
    refine iff_of_false ?_ hnot
    intro hall
    cases base with
    | none =>
      have h2 : (choice none none serverRow).2 = some row := by
        rw [← h]
        cases serverRow <;> rfl
      exact hall row h2 rfl
    | some old =>
      cases serverRow with
      | none => cases h
      | some incoming => cases h
  | some mine =>
    cases base with
    | none =>
      cases serverRow with
      | none =>
        refine iff_of_true ?_ ⟨mine, rfl, Or.inl ⟨rfl, by simp⟩⟩
        intro old hold
        cases hold
      | some incoming =>
        by_cases hhydrates : hydrates mine incoming = true
        · have hchoice : choice none (some mine) (some incoming) = (some incoming, some incoming) := if_pos hhydrates
          rw [hchoice] at h ⊢
          have hshown := some.inj h
          subst hshown
          refine iff_of_false (fun hall => hall incoming rfl rfl) ?_
          rintro ⟨row', hrow', ⟨-, hno⟩ | ⟨old, hold, -⟩⟩
          · cases hrow'
            rw [hno incoming rfl] at hhydrates
            cases hhydrates
          · cases hold
        · have hchoice : choice none (some mine) (some incoming) = (some mine, none) := if_neg hhydrates
          rw [hchoice] at h ⊢
          refine iff_of_true ?_ ⟨mine, rfl, Or.inl ⟨rfl, ?_⟩⟩
          · intro old hold
            cases hold
          · intro incoming' hincoming
            cases hincoming
            exact Bool.eq_false_iff.mpr hhydrates
    | some old =>
      cases serverRow with
      | none =>
        by_cases hchanged : changedFieldNames mine old = []
        · have hchoice : choice (some old) (some mine) none = (none, none) := if_pos hchanged
          rw [hchoice] at h
          cases h
        · have hchoice : choice (some old) (some mine) none = (some mine, some old) := if_neg hchanged
          rw [hchoice] at h ⊢
          have hshown := some.inj h
          subst hshown
          refine iff_of_true ?_ (edited_of_changed hchanged (by simp))
          intro old' hold
          cases hold
          exact jsonText_ne_of_changed hchanged
      | some incoming =>
        by_cases hhydrates : hydrates mine incoming = true
        · have hchoice : choice (some old) (some mine) (some incoming) =
              (some (hydrated (some old) mine incoming), some incoming) := if_pos hhydrates
          rw [hchoice] at h ⊢
          have hshown := some.inj h
          subst hshown
          rw [edited_hydrates_iff hhydrates, ← jsonText_hydrated_ne_iff]
          simp
        · by_cases hchanged : changedFieldNames mine old = []
          · have hchoice : choice (some old) (some mine) (some incoming) = (some incoming, some incoming) := by
              unfold choice
              dsimp only
              rw [if_neg hhydrates, if_pos hchanged]
            rw [hchoice] at h ⊢
            have hshown := some.inj h
            subst hshown
            exact iff_of_false (fun hall => hall incoming rfl rfl) (not_edited_of_unchanged hchanged)
          · have hedited : Edited (some old) (some mine) (some incoming) := by
              apply edited_of_changed hchanged
              rintro incoming' hincoming
              cases hincoming
              exact Bool.eq_false_iff.mpr hhydrates
            refine iff_of_true ?_ hedited
            by_cases hserver : changedFieldNames incoming old = []
            · have hchoice : choice (some old) (some mine) (some incoming) =
                  (some (withFields incoming mine (changedFieldNames mine old)), some incoming) := by
                unfold choice
                dsimp only
                rw [if_neg hhydrates, if_neg hchanged, if_neg (not_not.mpr hserver)]
              rw [hchoice] at h ⊢
              have hshown := some.inj h
              subst hshown
              intro old' hold
              cases hold
              exact jsonText_merged_ne hchanged hserver
            · have hchoice : choice (some old) (some mine) (some incoming) = (some mine, some old) := by
                unfold choice
                dsimp only
                rw [if_neg hhydrates, if_neg hchanged, if_pos hserver]
              rw [hchoice] at h ⊢
              have hshown := some.inj h
              subst hshown
              intro old' hold
              cases hold
              exact jsonText_ne_of_changed hchanged

theorem choice_deleted {base localRow serverRow : Option DraftRow} :
    ((choice base localRow serverRow).1 = none ∧ (choice base localRow serverRow).2 ≠ none) ↔
      base ≠ none ∧ localRow = none ∧ serverRow ≠ none := by
  cases base with
  | none =>
    cases localRow with
    | none => cases serverRow <;> simp [choice]
    | some row =>
      cases serverRow with
      | none => simp [choice]
      | some incoming =>
        unfold choice
        dsimp only
        split <;> simp
  | some old =>
    cases localRow with
    | none => cases serverRow <;> simp [choice]
    | some row =>
      cases serverRow with
      | none =>
        unfold choice
        dsimp only
        split <;> simp
      | some incoming =>
        unfold choice
        dsimp only
        split
        · simp
        · split
          · simp
          · split <;> simp

theorem rowKey_withFields {base : DraftRow} (hbase : rowKey base = id) (hrow : rowKey row = id)
    (names : List String) : rowKey (withFields base row names) = id := by
  unfold rowKey textOf at hbase hrow ⊢
  rw [field_withFields]
  by_cases hid : "id" ∈ names
  · rw [if_pos hid]
    exact hrow
  · rw [if_neg hid]
    exact hbase

theorem choice_keyed {base localRow serverRow : Option DraftRow} (hbase : ∀ row, base = some row → rowKey row = id)
    (hlocal : ∀ row, localRow = some row → rowKey row = id) (hserver : ∀ row, serverRow = some row → rowKey row = id) :
    (∀ row, (choice base localRow serverRow).1 = some row → rowKey row = id) ∧
      ∀ row, (choice base localRow serverRow).2 = some row → rowKey row = id := by
  cases base with
  | none =>
    cases localRow with
    | none => exact ⟨hserver, hserver⟩
    | some row =>
      cases serverRow with
      | none => exact ⟨hlocal, hbase⟩
      | some incoming =>
        unfold choice
        dsimp only
        split
        · exact ⟨hserver, hserver⟩
        · exact ⟨hlocal, hbase⟩
  | some old =>
    cases localRow with
    | none =>
      cases serverRow with
      | none => exact ⟨hserver, hserver⟩
      | some incoming =>
        refine ⟨hlocal, ?_⟩
        unfold choice
        dsimp only
        split
        · exact hserver
        · exact hbase
    | some row =>
      cases serverRow with
      | none =>
        unfold choice
        dsimp only
        split
        · exact ⟨hserver, hserver⟩
        · exact ⟨hlocal, hbase⟩
      | some incoming =>
        have hmerged : ∀ names, rowKey (withFields incoming row names) = id :=
          rowKey_withFields (hserver incoming rfl) (hlocal row rfl)
        unfold choice
        dsimp only
        split
        · refine ⟨?_, hserver⟩
          intro shown hshown
          rw [← some.inj hshown]
          exact hmerged _
        · split
          · exact ⟨hserver, hserver⟩
          split
          · exact ⟨hlocal, hbase⟩
          refine ⟨?_, hserver⟩
          intro shown hshown
          rw [← some.inj hshown]
          exact hmerged _

def ownChanges (base : Option DraftRow) (row : DraftRow) : List String :=
  match base with
  | some old => (changedFieldNames row old).filter fun name => row.contains name
  | none => []

/-- A merge of the three versions of a row into what the form shows. -/
structure ExactMerge (base localRow serverRow shown : Option DraftRow) : Prop where
  /-- A row that the user did not change shows the server's row, or none if the server has none. -/
  server : ∀ row old, localRow = some row → base = some old → changedFieldNames row old = [] → shown = serverRow
  /-- The user's changes to a row that the server did not change are put on the server's row. -/
  user : ∀ row old incoming, localRow = some row → base = some old → serverRow = some incoming →
    changedFieldNames row old ≠ [] → changedFieldNames incoming old = [] → hydrates row incoming = false →
      ∃ merged, shown = some merged ∧ ∀ name, field merged name =
        if name ∈ changedFieldNames row old then field row name else field incoming name
  /-- A row changed by both is kept as the user has it, its version with it. -/
  both : ∀ row old incoming, localRow = some row → base = some old → serverRow = some incoming →
    changedFieldNames row old ≠ [] → changedFieldNames incoming old ≠ [] → hydrates row incoming = false → shown = some row
  /-- A row that the user changed and the server deleted is kept. -/
  kept : ∀ row old, localRow = some row → base = some old → serverRow = none → changedFieldNames row old ≠ [] → shown = some row
  /-- A row that the user added stays. -/
  added : ∀ row, localRow = some row → base = none → (∀ incoming, serverRow = some incoming → hydrates row incoming = false) →
    shown = some row
  /-- A row that the user deleted stays deleted. -/
  deleted : ∀ old, localRow = none → base = some old → shown = none
  /-- A new row of the server appears. -/
  new : localRow = none → base = none → shown = serverRow
  /-- A reference gives way to the server's row, with the fields the user changed. -/
  hydrated : ∀ row incoming, localRow = some row → serverRow = some incoming → hydrates row incoming = true →
    ∃ merged, shown = some merged ∧ ∀ name, field merged name =
      if name ∈ ownChanges base row then field row name else field incoming name

theorem choice_exact : ExactMerge base localRow serverRow (choice base localRow serverRow).1 where
  server := by
    rintro row old rfl rfl hrow
    cases serverRow with
    | none => exact congrArg Prod.fst (if_pos hrow)
    | some incoming =>
      by_cases hhydrates : hydrates row incoming = true
      · show (if hydrates row incoming = true then _ else _ : Option DraftRow × Option DraftRow).1 = some incoming
        rw [if_pos hhydrates]
        unfold Breakdown.hydrated
        dsimp only
        rw [hrow]
        rfl
      · show (if hydrates row incoming = true then _ else _ : Option DraftRow × Option DraftRow).1 = some incoming
        rw [if_neg hhydrates, if_pos hrow]
  user := by
    rintro row old incoming rfl rfl rfl hrow hincoming hhydrates
    refine ⟨withFields incoming row (changedFieldNames row old), ?_, field_withFields incoming row _⟩
    show (if hydrates row incoming = true then _ else _ : Option DraftRow × Option DraftRow).1 = _
    rw [hhydrates, if_neg Bool.false_ne_true, if_neg hrow, if_neg (not_not.mpr hincoming)]
  both := by
    rintro row old incoming rfl rfl rfl hrow hincoming hhydrates
    show (if hydrates row incoming = true then _ else _ : Option DraftRow × Option DraftRow).1 = _
    rw [hhydrates, if_neg Bool.false_ne_true, if_neg hrow, if_pos hincoming]
  kept := by
    rintro row old rfl rfl rfl hrow
    exact congrArg Prod.fst (if_neg hrow)
  added := by
    rintro row rfl rfl hno
    cases serverRow with
    | none => rfl
    | some incoming =>
      show (if hydrates row incoming = true then _ else _ : Option DraftRow × Option DraftRow).1 = _
      rw [hno incoming rfl, if_neg Bool.false_ne_true]
  deleted := by
    rintro old rfl rfl
    cases serverRow with
    | none => rfl
    | some incoming => rfl
  new := by
    rintro rfl rfl
    cases serverRow with
    | none => rfl
    | some incoming => rfl
  hydrated := by
    rintro row incoming rfl rfl hhydrates
    cases base with
    | none =>
      refine ⟨incoming, congrArg Prod.fst (if_pos hhydrates), ?_⟩
      intro name
      exact (if_neg (not_mem_nil)).symm
    | some old => exact ⟨_, congrArg Prod.fst (if_pos hhydrates), field_withFields incoming row _⟩

theorem threeVersions_keyed (revokedIds : List String) (snapshot localBefore serverRows : List DraftRow) :
    let versions := threeVersions revokedIds snapshot localBefore serverRows
    Keyed versions.baseline ∧ Keyed versions.localRows ∧ Keyed versions.serverRows :=
  ⟨rowsById_keyed _, rowsById_keyed _, rowsById_keyed _⟩

theorem rebaseVersions_keyed {versions : ThreeVersions} (hbase : Keyed versions.baseline) (hlocal : Keyed versions.localRows)
    (hserver : Keyed versions.serverRows) : Keyed (rebaseVersions versions).rows ∧ Keyed (rebaseVersions versions).snapshot := by
  have hchoice : ∀ id, _ := fun id => choice_keyed (hbase id) (hlocal id) (hserver id)
  constructor
  · intro id row hrow
    have hat := congrArg Prod.fst (rebaseVersions_at versions id)
    exact (hchoice id).1 row (hat ▸ hrow)
  · intro id row hrow
    have hat := congrArg Prod.snd (rebaseVersions_at versions id)
    exact (hchoice id).2 row (hat ▸ hrow)

theorem rebaseDraft_at (localBefore : DraftTables) (changedTables : List DraftTable) (revoked : DraftTable → List String)
    (state : DraftState) (htable : table ∈ changedTables) (id : String) :
    let versions := threeVersions (revoked table) (state.snapshot table) (localBefore table) (state.tables table)
    let rebased := rebaseDraft localBefore changedTables revoked state
    ((rowsById (rebased.tables table)).get? id, (rowsById (rebased.snapshot table)).get? id) =
      choice (versions.baseline.get? id) (versions.localRows.get? id) (versions.serverRows.get? id) := by
  intro versions rebased
  obtain ⟨hbase, hlocal, hserver⟩ := threeVersions_keyed (revoked table) (state.snapshot table) (localBefore table)
    (state.tables table)
  obtain ⟨hrows, hsnapshot⟩ := rebaseVersions_keyed hbase hlocal hserver
  have htables : rebased.tables table = (rebaseVersions versions).rows.values := if_pos htable
  have hsnap : rebased.snapshot table = (rebaseVersions versions).snapshot.values := if_pos htable
  rw [htables, hsnap, hrows.rowsById_values, hsnapshot.rowsById_values]
  exact rebaseVersions_at versions id

theorem rebaseDraft_nodup (localBefore : DraftTables) (changedTables : List DraftTable) (revoked : DraftTable → List String)
    (state : DraftState) (htable : table ∈ changedTables) :
    let rebased := rebaseDraft localBefore changedTables revoked state
    ((rebased.tables table).map rowKey).Nodup ∧ ((rebased.snapshot table).map rowKey).Nodup := by
  intro rebased
  obtain ⟨hbase, hlocal, hserver⟩ := threeVersions_keyed (revoked table) (state.snapshot table) (localBefore table)
    (state.tables table)
  obtain ⟨hrows, hsnapshot⟩ := rebaseVersions_keyed hbase hlocal hserver
  have htables : rebased.tables table = (rebaseVersions (threeVersions (revoked table) (state.snapshot table)
    (localBefore table) (state.tables table))).rows.values := if_pos htable
  have hsnap : rebased.snapshot table = (rebaseVersions (threeVersions (revoked table) (state.snapshot table)
    (localBefore table) (state.tables table))).snapshot.values := if_pos htable
  rw [htables, hsnap, hrows.map_rowKey_values, hsnapshot.map_rowKey_values]
  exact ⟨nodupKeys _, nodupKeys _⟩

end Bidding.Plans.Breakdown
