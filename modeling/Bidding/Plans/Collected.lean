import Bidding.Plans.Rebased

/-!
# What is collected after a rebase

The changes of a draft are found by comparing the texts of the rebased rows with those of the rebased snapshot. As the two
differ exactly in what the user did, no change of the server is collected as one of the user.
-/

namespace Bidding.Plans.Breakdown

open Foundations List Option

/-! ## The collected changes -/

def isPlanTable : DraftTable → Bool
  | .chudautu | .chuyengia => false
  | _ => true

variable (planId : String)

variable (state : DraftState)

theorem ofPlan_eq_of_jsonText_eq (table : DraftTable) {row row' : DraftRow}
    (h : jsonText row = jsonText row') : ofPlan planId state table row = ofPlan planId state table row' := by
  have hfield := field_eq_of_jsonText_eq h
  have htext := textOf_eq_of_jsonText_eq h
  cases table with
  | assignments =>
    show isPlanAssignment planId state row = isPlanAssignment planId state row'
    unfold isPlanAssignment
    rw [hfield "type", htext "targetId"]
  | chuyengia => rfl
  | kehoach =>
    show decide (textOf row "id" = planId) = decide (textOf row' "id" = planId)
    rw [htext "id"]
  | chudautu =>
    show decide (textOf row "id" ∈ investorIds planId state) = decide (textOf row' "id" ∈ investorIds planId state)
    rw [htext "id"]
  | goithau =>
    show decide (textOf row "keHoachId" = planId) = decide (textOf row' "keHoachId" = planId)
    rw [htext "keHoachId"]
  | _ =>
    show decide (textOf row "goiThauId" ∈ packageIds planId state) = decide (textOf row' "goiThauId" ∈ packageIds planId state)
    rw [htext "goiThauId"]

theorem mem_find_rowKey {rows : List DraftRow} (hnodup : (rows.map rowKey).Nodup) (id : String) (row : DraftRow) :
    row ∈ (rows.find? fun row => rowKey row = id).toList ↔ row ∈ rows ∧ rowKey row = id := by
  rw [mem_toList]
  constructor
  · intro h
    have hkey := find?_some h
    rw [decide_eq_true_eq] at hkey
    exact ⟨mem_of_find?_eq_some h, hkey⟩
  · rintro ⟨hmem, hkey⟩
    induction rows with
    | nil => cases hmem
    | cons first rows ih =>
      rw [map_cons, nodup_cons] at hnodup
      by_cases hfirst : rowKey first = id
      · rw [find?_cons_of_pos (by exact decide_eq_true hfirst)]
        rcases mem_cons.mp hmem with rfl | hmem
        · rfl
        · exact absurd (mem_map.mpr ⟨row, hmem, hkey.trans hfirst.symm⟩) hnodup.1
      · rw [find?_cons_of_neg (by simpa using hfirst)]
        rcases mem_cons.mp hmem with rfl | hmem
        · exact absurd hkey hfirst
        · exact ih hnodup.2 hmem

variable {table : DraftTable}

theorem mem_currentRows (hnodup : ((state.tables table).map rowKey).Nodup) (row : DraftRow) :
    row ∈ currentRows planId state table ↔ row ∈ state.tables table ∧ ofPlan planId state table row = true := by
  cases table with
  | kehoach =>
    show row ∈ ((state.tables .kehoach).find? fun row => rowKey row = planId).toList ↔ _
    rw [mem_find_rowKey hnodup]
    show _ ↔ row ∈ state.tables .kehoach ∧ decide (rowKey row = planId) = true
    rw [decide_eq_true_eq]
  | _ => exact mem_filter

theorem upserts_of_planTable (htable : isPlanTable table = true) :
    upserts planId state table = changedRows (currentRows planId state table) (previousRows planId state table) := by
  cases table with
  | chudautu => cases htable
  | chuyengia => cases htable
  | _ => rfl

theorem deletions_of_planTable (htable : isPlanTable table = true) :
    deletions planId state table = removedIds (previousRows planId state table) (currentRows planId state table) := by
  cases table with
  | chudautu => cases htable
  | _ => rfl

theorem mem_changedRows (rows old : List DraftRow) (row : DraftRow) : row ∈ changedRows rows old ↔
    row ∈ rows ∧ ∀ previous, (rowsById old).get? (rowKey row) = some previous → jsonText row ≠ jsonText previous := by
  unfold changedRows
  rw [mem_filter]
  cases (rowsById old).get? (rowKey row) with
  | none => simp
  | some previous => simp

theorem mem_upserts (htable : isPlanTable table = true)
    (hrows : ((state.tables table).map rowKey).Nodup) (hsnapshot : ((state.snapshot table).map rowKey).Nodup) (row : DraftRow) :
    row ∈ upserts planId state table ↔ row ∈ state.tables table ∧ ofPlan planId state table row = true ∧
      ∀ old, (rowsById (state.snapshot table)).get? (rowKey row) = some old → jsonText row ≠ jsonText old := by
  have hprevious : ((previousRows planId state table).map rowKey).Nodup := hsnapshot.sublist (filter_sublist.map _)
  rw [upserts_of_planTable planId state htable, mem_changedRows, mem_currentRows planId state hrows, and_assoc]
  refine and_congr_right fun _ => and_congr_right fun hplan => ?_
  constructor
  · intro h old hold
    obtain ⟨hmem, hkey⟩ := (mem_rowsById_iff hsnapshot _ _).mp hold
    by_cases holdPlan : ofPlan planId state table old = true
    · exact h old ((mem_rowsById_iff hprevious _ _).mpr ⟨mem_filter.mpr ⟨hmem, holdPlan⟩, hkey⟩)
    · intro htext
      rw [ofPlan_eq_of_jsonText_eq planId state table htext] at hplan
      exact holdPlan hplan
  · intro h old hold
    obtain ⟨hmem, hkey⟩ := (mem_rowsById_iff hprevious _ _).mp hold
    exact h old ((mem_rowsById_iff hsnapshot _ _).mpr ⟨(mem_filter.mp hmem).1, hkey⟩)

theorem mem_deletions (htable : isPlanTable table = true)
    (hrows : ((state.tables table).map rowKey).Nodup) (hsnapshot : ((state.snapshot table).map rowKey).Nodup) {id : String}
    (hid : id ≠ "") : id ∈ deletions planId state table ↔
      ∃ old, (rowsById (state.snapshot table)).get? id = some old ∧ ofPlan planId state table old = true ∧
        ∀ row, (rowsById (state.tables table)).get? id = some row → ofPlan planId state table row = false := by
  rw [deletions_of_planTable planId state htable]
  unfold removedIds
  simp only [List.mem_map, mem_filter, decide_eq_true_eq]
  constructor
  · rintro ⟨old, ⟨hprevious, -, hgone⟩, rfl⟩
    obtain ⟨hmem, hplan⟩ := mem_filter.mp hprevious
    refine ⟨old, (mem_rowsById_iff hsnapshot _ _).mpr ⟨hmem, rfl⟩, hplan, ?_⟩
    intro row hrow
    obtain ⟨hmem', hkey⟩ := (mem_rowsById_iff hrows _ _).mp hrow
    apply Bool.eq_false_iff.mpr
    intro hrowPlan
    exact hgone ⟨row, (mem_currentRows planId state hrows row).mpr ⟨hmem', hrowPlan⟩, hkey⟩
  · rintro ⟨old, hold, hplan, hgone⟩
    obtain ⟨hmem, rfl⟩ := (mem_rowsById_iff hsnapshot _ _).mp hold
    refine ⟨old, ⟨mem_filter.mpr ⟨hmem, hplan⟩, ?_, ?_⟩, rfl⟩
    · unfold rowKey textOf at hid
      cases hfield : field old "id" with
      | none =>
        rw [hfield] at hid
        exact absurd rfl hid
      | some value =>
        rw [hfield] at hid
        by_contra htruthy
        exact hid (if_neg htruthy)
    · rintro ⟨row, hrow, hkey⟩
      obtain ⟨hmem', hrowPlan⟩ := (mem_currentRows planId state hrows row).mp hrow
      have hfalse := hgone row ((mem_rowsById_iff hrows _ _).mpr ⟨hmem', hkey⟩)
      rw [hrowPlan] at hfalse
      cases hfalse

/-! ## An exact merge, collected -/

theorem revoked_gone (revokedIds : List String) (snapshot localBefore serverRows : List DraftRow) {row : DraftRow}
    (hrow : row ∈ snapshot ++ localBefore) (hcommitted : isCommitted row = true) (hrevoked : idText row ∈ revokedIds)
    (hid : rowKey row ≠ "") :
    let versions := threeVersions revokedIds snapshot localBefore serverRows
    versions.baseline.get? (rowKey row) = none ∧ versions.localRows.get? (rowKey row) = none := by
  have hgone : ∀ rows : List DraftRow,
      (rowsById (rows.filter (preserveDraftRow revokedIds snapshot localBefore))).get? (rowKey row) = none := by
    intro rows
    rw [eq_none_iff_forall_ne_some]
    intro other hother
    have hkey := rowsById_keyed _ _ other hother
    have hpreserved := (mem_filter.mp (mem_of_rowsById hother)).2
    have hsame : idText other = idText row := by rw [idText_of_rowKey hid, idText_of_rowKey (by rw [hkey]; exact hid), hkey]
    have hmem : idText row ∈ ((snapshot ++ localBefore).filter isCommitted).map idText :=
      mem_map_of_mem (mem_filter.mpr ⟨hrow, hcommitted⟩)
    unfold preserveDraftRow at hpreserved
    rw [hsame, Bool.or_eq_true, decide_eq_true_eq, decide_eq_true_eq] at hpreserved
    rcases hpreserved with hno | hno
    · exact hno hrevoked
    · exact hno hmem
  exact ⟨hgone snapshot, hgone localBefore⟩

/-- A rebase is an exact merge of each row; a revoked row that was committed counts as neither in the snapshot nor in the form.
What is collected of the plan is what the user added, changed, moved out, or deleted, as far as the server has it. -/
theorem rebaseDraft_exact (localBefore : DraftTables) (changedTables : List DraftTable) (revoked : DraftTable → List String)
    (state : DraftState) (planId : String) (table : DraftTable) (htable : table ∈ changedTables) :
    let versions := threeVersions (revoked table) (state.snapshot table) (localBefore table) (state.tables table)
    let rebased := rebaseDraft localBefore changedTables revoked state
    let edited := fun id => Edited (versions.baseline.get? id) (versions.localRows.get? id) (versions.serverRows.get? id)
    let deleted := fun id => versions.baseline.get? id ≠ none ∧ versions.localRows.get? id = none
    (∀ id, ExactMerge (versions.baseline.get? id) (versions.localRows.get? id) (versions.serverRows.get? id)
        ((rowsById (rebased.tables table)).get? id)) ∧
      (∀ row ∈ state.snapshot table ++ localBefore table, isCommitted row = true → idText row ∈ revoked table → rowKey row ≠ "" →
        versions.baseline.get? (rowKey row) = none ∧ versions.localRows.get? (rowKey row) = none) ∧
      (isPlanTable table = true → (∀ row, row ∈ upserts planId rebased table ↔
          row ∈ rebased.tables table ∧ ofPlan planId rebased table row = true ∧ edited (rowKey row)) ∧
        (∀ id ≠ "", (deleted id → versions.serverRows.get? id ≠ none) →
          (id ∈ deletions planId rebased table ↔ ∃ old, (rowsById (rebased.snapshot table)).get? id = some old ∧
            ofPlan planId rebased table old = true ∧
              (deleted id ∨ ∃ row, (rowsById (rebased.tables table)).get? id = some row ∧
                ofPlan planId rebased table row = false))) ∧
        ∀ id ≠ "", ¬edited id → ¬deleted id →
          id ∉ (upserts planId rebased table).map rowKey ∧ id ∉ deletions planId rebased table) := by
  intro versions rebased edited deleted
  have hat := fun id => rebaseDraft_at localBefore changedTables revoked state htable id
  have hshown : ∀ id, (rowsById (rebased.tables table)).get? id =
      (choice (versions.baseline.get? id) (versions.localRows.get? id) (versions.serverRows.get? id)).1 :=
    fun id => congrArg Prod.fst (hat id)
  have hheld : ∀ id, (rowsById (rebased.snapshot table)).get? id =
      (choice (versions.baseline.get? id) (versions.localRows.get? id) (versions.serverRows.get? id)).2 :=
    fun id => congrArg Prod.snd (hat id)
  obtain ⟨hrows, hsnapshot⟩ := rebaseDraft_nodup localBefore changedTables revoked state htable
  -- the texts in the form and in the snapshot tell what the user did
  have hedited : ∀ id row, (rowsById (rebased.tables table)).get? id = some row →
      ((∀ old, (rowsById (rebased.snapshot table)).get? id = some old → jsonText row ≠ jsonText old) ↔ edited id) := by
    intro id row hrow
    rw [hshown] at hrow
    rw [hheld]
    exact choice_edited hrow
  have hupserts : isPlanTable table = true → ∀ row, row ∈ upserts planId rebased table ↔
      row ∈ rebased.tables table ∧ ofPlan planId rebased table row = true ∧ edited (rowKey row) := by
    intro hplan row
    rw [mem_upserts planId rebased hplan hrows hsnapshot]
    refine and_congr_right fun hmem => and_congr_right fun _ => ?_
    exact hedited (rowKey row) row ((mem_rowsById_iff hrows _ _).mpr ⟨hmem, rfl⟩)
  -- a row of the snapshot that the form does not show was deleted by the user
  have hdeleted : ∀ id old, (rowsById (rebased.snapshot table)).get? id = some old →
      ((rowsById (rebased.tables table)).get? id = none ↔ deleted id) := by
    intro id old hold
    rw [hheld] at hold
    rw [hshown]
    constructor
    · intro hnone
      have h := choice_deleted.mp ⟨hnone, by rw [hold]; exact some_ne_none old⟩
      exact ⟨h.1, h.2.1⟩
    · rintro ⟨hbase, hlocal⟩
      obtain ⟨old', hold'⟩ := ne_none_iff_exists'.mp hbase
      exact (choice_exact _ _ _).deleted old' hlocal hold'
  refine ⟨?_, ?_, ?_⟩
  · intro id
    rw [hshown]
    exact choice_exact _ _ _
  · intro row hrow hcommitted hrevoked hid
    exact revoked_gone _ _ _ _ hrow hcommitted hrevoked hid
  · intro hplan
    have hmoved : ∀ id old row, (rowsById (rebased.snapshot table)).get? id = some old →
        ofPlan planId rebased table old = true → (rowsById (rebased.tables table)).get? id = some row →
        ofPlan planId rebased table row = false → edited id := by
      intro id old row hold holdPlan hrow hrowPlan
      apply (hedited id row hrow).mp
      intro old' hold' htext
      rw [hold] at hold'
      cases hold'
      rw [ofPlan_eq_of_jsonText_eq planId rebased table htext, holdPlan] at hrowPlan
      cases hrowPlan
    have hdeletions : ∀ id ≠ "", (id ∈ deletions planId rebased table ↔
        ∃ old, (rowsById (rebased.snapshot table)).get? id = some old ∧ ofPlan planId rebased table old = true ∧
          (deleted id ∨ ∃ row, (rowsById (rebased.tables table)).get? id = some row ∧ ofPlan planId rebased table row = false)) := by
      intro id hid
      rw [mem_deletions planId rebased hplan hrows hsnapshot hid]
      refine exists_congr fun old => and_congr_right fun hold => and_congr_right fun _ => ?_
      rw [← hdeleted id old hold]
      cases hrow : (rowsById (rebased.tables table)).get? id with
      | none => simp
      | some row => simp
    -- of a deletion of a row the server tables lack nothing is promised
    refine ⟨hupserts hplan, fun id hid _ => hdeletions id hid, ?_⟩
    intro id hid hnotEdited hnotDeleted
    constructor
    · intro hmem
      obtain ⟨row, hrow, rfl⟩ := mem_map.mp hmem
      exact hnotEdited ((hupserts hplan row).mp hrow).2.2
    · intro hmem
      obtain ⟨old, hold, holdPlan, hdel | ⟨row, hrow, hrowPlan⟩⟩ := (hdeletions id hid).mp hmem
      · exact hnotDeleted hdel
      · exact hnotEdited (hmoved id old row hold holdPlan hrow hrowPlan)

def packageRow (rowVersion : Int) (referenceOnly : Bool) (name : String) : DraftRow :=
  Dict.ofList [("id", some (.str "pkg-01")), ("keHoachId", some (.str "plan-01")), ("rowVersion", some (.num rowVersion)),
    ("referenceOnly", some (.bool referenceOnly)), ("tenGoiThau", some (.str name))]

def onePackage (row : DraftRow) : DraftTables
  | .goithau => [row]
  | _ => []

/-- A package known by reference that both changed is shown as the server has it, under the server's row version, with the
name of the user. -/
theorem hydrated_both_changed : ¬ ∀ (localBefore : DraftTables) (changedTables : List DraftTable) (revoked : DraftTable → List String)
    (state : DraftState) (table : DraftTable), table ∈ changedTables → ∀ (id : String) (old row incoming : DraftRow),
        (threeVersions (revoked table) (state.snapshot table) (localBefore table) (state.tables table)).baseline.get? id = some old →
        (threeVersions (revoked table) (state.snapshot table) (localBefore table) (state.tables table)).localRows.get? id = some row →
        (threeVersions (revoked table) (state.snapshot table) (localBefore table) (state.tables table)).serverRows.get? id =
          some incoming → changedFieldNames row old ≠ [] → changedFieldNames incoming old ≠ [] →
          (rowsById ((rebaseDraft localBefore changedTables revoked state).tables table)).get? id = some row := by
  intro h
  have hkept := h (onePackage (packageRow 2 true "Local")) [.goithau] (fun _ => [])
    ⟨onePackage (packageRow 3 false "Server"), onePackage (packageRow 2 true "Before")⟩ .goithau (by decide) "pkg-01"
    (packageRow 2 true "Before") (packageRow 2 true "Local") (packageRow 3 false "Server") (by decide +kernel) (by decide +kernel)
    (by decide +kernel) (by decide +kernel) (by decide +kernel)
  exact absurd hkept (by decide +kernel)

theorem rebaseDraft_exact_sample :
    ∃ merged, (rowsById ((rebaseDraft (onePackage (packageRow 2 false "Local")) [.goithau] (fun _ => [])
      ⟨onePackage (packageRow 3 false "Before"), onePackage (packageRow 2 false "Before")⟩).tables .goithau)).get? "pkg-01" =
        some merged ∧ ∀ name, field merged name =
          if name ∈ changedFieldNames (packageRow 2 false "Local") (packageRow 2 false "Before") then
            field (packageRow 2 false "Local") name
          else field (packageRow 3 false "Before") name :=
  ((rebaseDraft_exact (onePackage (packageRow 2 false "Local")) [.goithau] (fun _ => [])
    ⟨onePackage (packageRow 3 false "Before"), onePackage (packageRow 2 false "Before")⟩ "plan-01" .goithau (by decide)).1
    "pkg-01").user _ _ _ (by decide +kernel) (by decide +kernel) (by decide +kernel) (by decide +kernel) (by decide +kernel)
      (by decide +kernel)

end Bidding.Plans.Breakdown
