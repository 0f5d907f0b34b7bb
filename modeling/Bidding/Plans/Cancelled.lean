import Bidding.Plans.Collected
import Bidding.Plans.Tracked

/-!
# A cancelled draft leaves no trace

A snapshot that holds what the server's merges alone lead to is restored as it is: the fields that a restored row takes from the
form are those of the server, and no row of the form was committed outside of the snapshot.
-/

namespace Bidding.Plans.Breakdown

open Foundations List

variable {session : FormSession} {row : DraftRow} {liveRecords : List DraftRow} {table : DraftTable} {id : String}
  {snapshot : DraftRow}

/-! ## Restoring -/

theorem hasId_of_rowKey (h : rowKey row ≠ "") : hasId row = true := by
  unfold rowKey textOf at h
  unfold hasId
  cases hfield : field row "id" with
  | none =>
    rw [hfield] at h
    exact absurd rfl h
  | some value =>
    cases value with
    | null =>
      rw [hfield] at h
      exact absurd rfl h
    | _ => rfl

theorem indexById_eq {rows : List DraftRow} (h : HaveIds rows) : indexById rows = rowsById rows := by
  have hfilter : rows.filter hasId = rows := filter_eq_self.mpr fun row hrow => hasId_of_rowKey (h row hrow)
  have hmap : rows.map (fun row => (idText row, row)) = rows.map fun row => (rowKey row, row) :=
    map_congr_left fun row hrow => by rw [idText_of_rowKey (h row hrow)]
  unfold indexById rowsById
  rw [hfilter, hmap]

theorem field_restoreField (live restored : DraftRow) (name other : String) :
    field (restoreField live restored name) other = if other = name then field live name else field restored other := by
  unfold restoreField
  cases hfield : field live name with
  | some value => exact field_set restored name other (some value)
  | none =>
    show field (restored.erase name) other = _
    unfold field
    rw [Dict.get?_erase]
    split
    · rfl
    · rfl

theorem field_foldl_restoreField (live snapshot : DraftRow) (names : List String) (other : String) :
    field (names.foldl (restoreField live) snapshot) other = if other ∈ names then field live other else field snapshot other := by
  induction names generalizing snapshot with
  | nil => simp
  | cons name names ih =>
    rw [foldl_cons, ih, field_restoreField]
    by_cases hmem : other ∈ names
    · simp [hmem]
    · by_cases hname : other = name
      · simp [hname]
      · simp [hmem, hname]

theorem rowKey_eq_of_field {other : DraftRow} (h : field row "id" = field other "id") : rowKey row = rowKey other := by
  unfold rowKey textOf
  rw [h]

theorem field_restoreRow (hlive : HaveIds liveRecords)
    (hsnapshot : rowKey snapshot ≠ "") (hrow : rowAt liveRecords (rowKey snapshot) = some row) (name : String) :
    field (restoreRow (indexById liveRecords) snapshot) name =
      if name ∈ serverOwnedRecordFields then field row name else field snapshot name := by
  have hget : (rowsById liveRecords).get? (rowKey snapshot) = some row := hrow
  unfold restoreRow
  rw [indexById_eq hlive, idText_of_rowKey hsnapshot, hget]
  exact field_foldl_restoreField row snapshot _ name

theorem restoreRow_of_none (hlive : HaveIds liveRecords)
    (hsnapshot : rowKey snapshot ≠ "") (hrow : rowAt liveRecords (rowKey snapshot) = none) :
    restoreRow (indexById liveRecords) snapshot = snapshot := by
  have hget : (rowsById liveRecords).get? (rowKey snapshot) = none := hrow
  unfold restoreRow
  rw [indexById_eq hlive, idText_of_rowKey hsnapshot, hget]

theorem rowKey_restoreRow (live : Dict String DraftRow) (snapshot : DraftRow) : rowKey (restoreRow live snapshot) = rowKey snapshot := by
  unfold restoreRow
  cases live.get? (idText snapshot) with
  | none => rfl
  | some row =>
    apply rowKey_eq_of_field
    rw [field_foldl_restoreField, if_neg (by decide)]

theorem rowKey_restoreLatest (liveRecords snapshotRecords : List DraftRow) (row : DraftRow) :
    rowKey (restoreLatest liveRecords snapshotRecords row) = rowKey row := by
  unfold restoreLatest
  cases (rowsById snapshotRecords).get? (rowKey row) with
  | none => rfl
  | some snapshotRow =>
    dsimp only
    split
    · rfl
    · apply rowKey_eq_of_field
      rw [field_set, if_neg (by decide)]

section

variable (h : Tracks session)
include h

theorem Tracks.none_committed (table : DraftTable) :
    ∀ row ∈ session.draft.tables table, rowKey row ∉ (session.draft.snapshot table).map rowKey → isCommitted row = false := by
  intro row hrow hkey
  apply h.added table row hrow
  rw [Option.eq_none_iff_forall_ne_some]
  intro old hold
  exact hkey (mem_map.mpr ⟨old, mem_of_rowsById hold, rowKey_of_rowAt hold⟩)

theorem Tracks.restoreRecordSnapshot_eq (table : DraftTable) :
    restoreRecordSnapshot (session.draft.tables table) (session.draft.snapshot table) =
      (session.draft.snapshot table).map (restoreRow (indexById (session.draft.tables table))) := by
  obtain ⟨htables, hsnapshot, -⟩ := h.ids table
  have hnone : (session.draft.tables table).filter (fun row =>
      idText row ∉ (session.draft.snapshot table).map idText ∧ isCommitted row) = [] := by
    rw [filter_eq_nil_iff]
    intro row hrow hkept
    rw [decide_eq_true_eq, map_idText hsnapshot, idText_of_rowKey (htables row hrow)] at hkept
    have hfalse := h.none_committed table row hrow hkept.1
    rw [hkept.2] at hfalse
    cases hfalse
  unfold restoreRecordSnapshot
  rw [hnone, append_nil]

theorem Tracks.committedNewerFamilies_eq (table : DraftTable) :
    committedNewerFamilies (session.draft.tables table) (session.draft.snapshot table) = [] := by
  unfold committedNewerFamilies
  rw [map_eq_nil_iff, filter_eq_nil_iff]
  intro row hrow hkept
  rw [decide_eq_true_eq] at hkept
  have hfalse := h.none_committed table row hrow hkept.1
  rw [hkept.2] at hfalse
  cases hfalse

theorem Tracks.restoreRow_same {old : DraftRow} (hold : rowAt (session.draft.snapshot table) id = some old) {name : String}
    (hname : ¬(hasVersions table = true ∧ name = "isLatest")) :
    field (restoreRow (indexById (session.draft.tables table)) old) name = field old name := by
  obtain ⟨htables, hsnapshot, -⟩ := h.ids table
  have hkey := rowKey_of_rowAt hold
  have hid := hsnapshot old (mem_of_rowsById hold)
  cases hrow : rowAt (session.draft.tables table) (rowKey old) with
  | none => rw [restoreRow_of_none htables hid hrow]
  | some row =>
    rw [field_restoreRow htables hid hrow]
    split
    · rename_i howned
      rw [hkey] at hrow
      apply h.owned table id row old hrow hold
      exact mem_append_right _ (mem_filter.mpr ⟨howned, decide_eq_true hname⟩)
    · rfl

theorem Tracks.restored_same (table : DraftTable) (id : String) :
    Option.Rel SameFields (rowAt (restorePlanBreakdownDraft session.draft table) id) (rowAt (session.draft.snapshot table) id) := by
  unfold restorePlanBreakdownDraft restoreTable
  rw [h.restoreRecordSnapshot_eq]
  by_cases hversions : hasVersions table = true
  · rw [if_pos hversions, rowAt_map _ (rowKey_restoreLatest _ _), rowAt_map _ (rowKey_restoreRow _)]
    cases hold : rowAt (session.draft.snapshot table) id with
    | none => exact .none
    | some old =>
      apply Option.Rel.some
      intro name
      have hget : (rowsById (session.draft.snapshot table)).get?
          (rowKey (restoreRow (indexById (session.draft.tables table)) old)) = some old := by
        rw [rowKey_restoreRow, rowKey_of_rowAt hold]
        exact hold
      unfold restoreLatest
      rw [hget, h.committedNewerFamilies_eq]
      dsimp only
      rw [if_neg not_mem_nil, field_set]
      split
      · rename_i hname
        rw [hname]
      · rename_i hname
        exact h.restoreRow_same hold fun hboth => hname hboth.2
  · rw [if_neg hversions, rowAt_map _ (rowKey_restoreRow _)]
    cases hold : rowAt (session.draft.snapshot table) id with
    | none => exact .none
    | some old =>
      apply Option.Rel.some
      intro name
      exact h.restoreRow_same hold fun hboth => hversions hboth.1

end

theorem sameFields_rel_trans {a b c : Option DraftRow} (h : Option.Rel SameFields a b) (h' : Option.Rel SameFields b c) :
    Option.Rel SameFields a c := by
  cases h with
  | none => exact h'
  | some hab =>
    cases h' with
    | some hbc => exact .some fun name => (hab name).trans (hbc name)

def IsLatestOf (rows : List DraftRow) (family id : String) : Prop :=
  ∃ row, rowAt rows id = some row ∧ familyOf row = family ∧ (field row "isLatest").any Value.jsTruthy = true

/-- Cancelling leaves each row as the merges alone would have left it, and one latest version of each family that has one. -/
def LeavesNoTrace (session : FormSession) : Prop :=
  ∀ table, (∀ id, Option.Rel SameFields (rowAt (restorePlanBreakdownDraft session.draft table) id)
      (rowAt (session.reference table) id)) ∧
    (hasVersions table = true → ∀ family, (∃! id, IsLatestOf (session.reference table) family id) →
      ∃! id, IsLatestOf (restorePlanBreakdownDraft session.draft table) family id)

theorem familyOf_eq {other : DraftRow} (h : SameFields row other) : familyOf row = familyOf other := by
  unfold familyOf
  rw [h "rootId", rowKey_eq_of_field (h "id")]

theorem isLatestOf_iff {rows others : List DraftRow} (h : ∀ id, Option.Rel SameFields (rowAt rows id) (rowAt others id))
    (family id : String) : IsLatestOf rows family id ↔ IsLatestOf others family id := by
  have hid := h id
  unfold IsLatestOf
  cases hrow : rowAt rows id with
  | none =>
    rw [hrow] at hid
    cases hother : rowAt others id with
    | none => simp
    | some other =>
      rw [hother] at hid
      cases hid
  | some row =>
    rw [hrow] at hid
    cases hother : rowAt others id with
    | none =>
      rw [hother] at hid
      cases hid
    | some other =>
      rw [hother] at hid
      cases hid with
      | some hsame => simp only [Option.some.injEq, exists_eq_left', familyOf_eq hsame, hsame "isLatest"]

/-- If each step of a session is clear in the state it meets, cancelling leaves no trace. -/
theorem cancel_leavesNoTrace (tables : DraftTables) (steps : List FormStep) (hids : ∀ table, HaveIds (tables table))
    (hclear : AllClear (capture tables) steps) : LeavesNoTrace (runSteps (capture tables) steps) := by
  have htracks := runSteps_tracks steps (capture_tracks hids) hclear
  intro table
  have hsame : ∀ id, Option.Rel SameFields (rowAt (restorePlanBreakdownDraft (runSteps (capture tables) steps).draft table) id)
      (rowAt ((runSteps (capture tables) steps).reference table) id) :=
    fun id => sameFields_rel_trans (htracks.restored_same table id) (htracks.snapshot table id)
  refine ⟨hsame, ?_⟩
  intro _ family hunique
  obtain ⟨id, hlatest, honly⟩ := hunique
  refine ⟨id, (isLatestOf_iff hsame family id).mpr hlatest, ?_⟩
  intro other hother
  exact honly other ((isLatestOf_iff hsame family other).mp hother)

/-! ## Two sessions -/

def Ordinary (draft : DraftState) : FormStep → Prop
  | .edit tables => AllowedEdit draft tables
  | .pull merge => ∀ table, HaveIds (merge.merge table).rows

def AllOrdinary (session : FormSession) : List FormStep → Prop
  | [] => True
  | step :: steps => Ordinary session.draft step ∧ AllOrdinary (step.run session) steps

def otherPackage : DraftRow := (packageRow 1 false "Other").set "id" (some (.str "pkg-02"))

def packagePull (row : DraftRow) : ServerMerge := ⟨[.goithau], fun _ => .delta [row] [], fun _ => []⟩

/-- A package that the user deleted in the form is gone after cancelling, once another package has come in. -/
theorem deleted_package_lost : ¬ ∀ (tables : DraftTables) (steps : List FormStep), (∀ table, HaveIds (tables table)) →
    AllOrdinary (capture tables) steps → LeavesNoTrace (runSteps (capture tables) steps) := by
  intro h
  have hids : ∀ table, HaveIds (onePackage (packageRow 2 false "Before") table) := by
    intro table row hrow
    cases table with
    | goithau =>
      rw [mem_singleton.mp hrow]
      decide +kernel
    | _ => cases hrow
  have hedit : AllowedEdit (capture (onePackage (packageRow 2 false "Before"))).draft fun _ => [] :=
    { ids := fun _ row hrow => by cases hrow
      owned := fun _ _ row _ hrow => by cases hrow
      added := fun _ row hrow => by cases hrow }
  have hpull : ∀ table, HaveIds ((packagePull otherPackage).merge table).rows := by
    intro table row hrow
    rw [mem_singleton.mp hrow]
    decide +kernel
  have htrace := (h (onePackage (packageRow 2 false "Before")) [.edit fun _ => [], .pull (packagePull otherPackage)] hids
    ⟨hedit, hpull, trivial⟩ .goithau).1 "pkg-01"
  have hrestored : rowAt (restorePlanBreakdownDraft (runSteps (capture (onePackage (packageRow 2 false "Before")))
      [.edit fun _ => [], .pull (packagePull otherPackage)]).draft .goithau) "pkg-01" = none := by decide +kernel
  have hreference : rowAt ((runSteps (capture (onePackage (packageRow 2 false "Before")))
      [.edit fun _ => [], .pull (packagePull otherPackage)]).reference .goithau) "pkg-01" =
        some (packageRow 2 false "Before") := by decide +kernel
  rw [hrestored, hreference] at htrace
  cases htrace

theorem rowAt_onePackage {found : DraftRow}
    (h : rowAt (onePackage row table) id = some found) : table = .goithau ∧ id = rowKey row ∧ found = row := by
  have hkey := rowKey_of_rowAt h
  have hmem := mem_of_rowsById h
  cases table with
  | goithau =>
    have hfound := mem_singleton.mp hmem
    rw [hfound] at hkey
    exact ⟨rfl, hkey.symm, hfound⟩
  | _ => cases hmem

theorem haveIds_onePackage (h : rowKey row ≠ "") (table : DraftTable) : HaveIds (onePackage row table) := by
  intro found hfound
  cases table with
  | goithau =>
    rw [mem_singleton.mp hfound]
    exact h
  | _ => cases hfound

theorem cancel_leavesNoTrace_sample : LeavesNoTrace (runSteps (capture (onePackage (packageRow 2 false "Before")))
    [.edit (onePackage (packageRow 2 false "Local")), .pull (packagePull otherPackage)]) := by
  apply cancel_leavesNoTrace
  · exact haveIds_onePackage (by decide +kernel)
  · refine ⟨?_, ?_, trivial⟩
    · exact
        { ids := haveIds_onePackage (by decide +kernel)
          owned := by
            intro table id row old hrow hold
            obtain ⟨rfl, -, rfl⟩ := rowAt_onePackage hrow
            have hbefore : rowAt (onePackage (packageRow 2 false "Before") .goithau) id = some old := hold
            obtain ⟨-, -, rfl⟩ := rowAt_onePackage hbefore
            decide +kernel
          added := by
            intro table row hrow hnone
            cases table with
            | goithau =>
              rw [mem_singleton.mp hrow] at hnone
              exact absurd hnone (by decide +kernel)
            | _ => cases hrow }
    · have hlocal : rowAt (onePackage (packageRow 2 false "Local") .goithau) "pkg-01" = some (packageRow 2 false "Local") := by
        decide +kernel
      have hbase : rowAt (onePackage (packageRow 2 false "Before") .goithau) "pkg-01" = some (packageRow 2 false "Before") := by
        decide +kernel
      exact
        { ids := by
            intro table _ row hrow
            rw [mem_singleton.mp hrow]
            decide +kernel
          revoked := fun _ _ id hid => by cases hid
          added := by
            intro table _ id row hrow hnone
            obtain ⟨rfl, rfl, rfl⟩ := rowAt_onePackage hrow
            exact absurd (hnone.symm.trans hbase) (by simp)
          deleted := by
            intro table _ id old hnone hold
            have hbefore : rowAt (onePackage (packageRow 2 false "Before") table) id = some old := hold
            obtain ⟨rfl, rfl, rfl⟩ := rowAt_onePackage hbefore
            exact absurd (hnone.symm.trans hlocal) (by simp)
          changed := by
            intro table _ id row old hrow _ _
            obtain ⟨rfl, rfl, rfl⟩ := rowAt_onePackage hrow
            exact Or.inl (by decide +kernel) }

end Bidding.Plans.Breakdown
