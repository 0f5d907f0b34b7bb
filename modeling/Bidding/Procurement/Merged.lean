import Bidding.Foundations.Fallible
import Bidding.Procurement.Decisions

/-!
# What becomes of a field

The fields of a package that is matched to a candidate end as the merge of the three values says, except where a conflict
decision names a value, and where a value is given for a required field that is missing.
-/

namespace Bidding.ImportDecisions

open Foundations List

/-! ## The stages of a decided revision -/

section

variable (revision : Revision) (previewRows : List PreviewRow) (decisions : Decisions) (enforceRequired : Bool)

def decidedPackages (overrides : Dict String Record) : List Observation :=
  revision.packages.map (resolvedObservation (observationsOf revision) (previewById previewRows) overrides)

def resolvedOf (packageDecisions : Dict String Choice) (surfaces : Dict String Surface) (written : Written) : Resolved where
  revision := { revision with packages := decidedPackages revision previewRows written.overrides }
  packageDecisions := packageDecisions
  localTargets := .ofList (revision.packages.filterMap fun package =>
    (localTargetOf (previewById previewRows) packageDecisions surfaces package.planDetailRevisionId).map fun target =>
      (package.planDetailRevisionId, target))

def scopedTo {ρ : Type} (rowRevisionId : ρ → String) (rows : List ρ) : List ρ :=
  rows.filter fun row => isScoped revision.revisionId (rowRevisionId row)

/-- The stages that lead to a result. -/
structure Stages (packageDecisions : Dict String Choice) (surfaces : Dict String Surface)
    (overrides : Dict String Record) (written : Written) : Prop where
  sizes : decisions.packageMatches.length ≤ 500 ∧ decisions.fieldConflicts.length ≤ 500 ∧
    decisions.fieldValues.length ≤ 500
  matched : writeRows (checkMatch (observationsOf revision) (previewById previewRows)) Dict.set
    (scopedTo revision PackageMatch.revisionId decisions.packageMatches) Dict.empty = .ok packageDecisions
  decided : (previewRows.all fun row => !row.isAmbiguous || packageDecisions.contains row.planDetailRevisionId) = true
  surfaced : writeRows (checkSurface (previewById previewRows) packageDecisions) Dict.set
    (observationsOf revision).entries Dict.empty = .ok surfaces
  valued : writeRows (checkFieldValue (observationsOf revision) (previewById previewRows) packageDecisions surfaces)
    putOverride (scopedTo revision FieldRow.revisionId decisions.fieldValues) (initialOverrides surfaces) = .ok overrides
  resolved : writeRows (checkFieldConflict (observationsOf revision) (previewById previewRows) packageDecisions surfaces)
    Written.put (scopedTo revision FieldRow.revisionId decisions.fieldConflicts) ⟨Dict.empty, overrides⟩ = .ok written
  allResolved : allResolved surfaces written.conflictResolutions = true
  complete : (!enforceRequired || (decidedPackages revision previewRows written.overrides).all isComplete) = true

end

variable {revision : Revision} {previewRows : List PreviewRow} {decisions : Decisions}
  {enforceRequired : Bool} {ρ : Type} {condition : Bool} {package : Record} {error : DecisionError}

theorem decisionRows_ok {rows rows' : List ρ} (h : decisionRows rows = .ok rows') : rows.length ≤ 500 ∧ rows' = rows := by
  unfold decisionRows at h
  split at h
  · cases h
  · cases h
    exact ⟨by omega, rfl⟩

theorem decisionRows_of_le {rows : List ρ} (h : rows.length ≤ 500) : decisionRows rows = .ok rows := by
  unfold decisionRows
  exact if_neg (by omega)

theorem ensure_ok {u : Unit} (h : ensure condition error = .ok u) : condition = true := by
  unfold ensure at h
  split at h
  · assumption
  · cases h

theorem ensure_of_true (h : condition = true) : ensure condition error = .ok () := if_pos h

theorem resolveRevisionDecisions_ok_iff {result : Resolved} :
    resolveRevisionDecisions revision previewRows decisions enforceRequired = .ok result ↔
      ∃ packageDecisions surfaces overrides written,
        Stages revision previewRows decisions enforceRequired packageDecisions surfaces overrides written ∧
          result = resolvedOf revision previewRows packageDecisions surfaces written := by
  constructor
  · intro h
    unfold resolveRevisionDecisions at h
    obtain ⟨matches', hmatches, h⟩ := bind_ok h
    obtain ⟨conflicts, hconflicts, h⟩ := bind_ok h
    obtain ⟨values, hvalues, h⟩ := bind_ok h
    obtain ⟨hsize, rfl⟩ := decisionRows_ok hmatches
    obtain ⟨hsize', rfl⟩ := decisionRows_ok hconflicts
    obtain ⟨hsize'', rfl⟩ := decisionRows_ok hvalues
    obtain ⟨packageDecisions, hmatched, h⟩ := bind_ok h
    obtain ⟨_, hdecided, h⟩ := bind_ok h
    obtain ⟨surfaces, hsurfaced, h⟩ := bind_ok h
    obtain ⟨overrides, hvalued, h⟩ := bind_ok h
    obtain ⟨written, hresolved, h⟩ := bind_ok h
    obtain ⟨_, hall, h⟩ := bind_ok h
    obtain ⟨_, hcomplete, h⟩ := bind_ok h
    cases h
    exact ⟨packageDecisions, surfaces, overrides, written, ⟨⟨hsize, hsize', hsize''⟩, hmatched, ensure_ok hdecided,
      hsurfaced, hvalued, hresolved, ensure_ok hall, ensure_ok hcomplete⟩, rfl⟩
  · rintro ⟨packageDecisions, surfaces, overrides, written, stages, rfl⟩
    have hdecided := @ensure_of_true _ ambiguousMatch stages.decided
    have hall := @ensure_of_true _ openConflict stages.allResolved
    have hcomplete := @ensure_of_true _ missingFields stages.complete
    unfold resolveRevisionDecisions
    refine bind_eq_ok.mpr ⟨_, decisionRows_of_le stages.sizes.1, ?_⟩
    refine bind_eq_ok.mpr ⟨_, decisionRows_of_le stages.sizes.2.1, ?_⟩
    refine bind_eq_ok.mpr ⟨_, decisionRows_of_le stages.sizes.2.2, ?_⟩
    refine bind_eq_ok.mpr ⟨_, stages.matched, ?_⟩
    refine bind_eq_ok.mpr ⟨_, hdecided, ?_⟩
    refine bind_eq_ok.mpr ⟨_, stages.surfaced, ?_⟩
    refine bind_eq_ok.mpr ⟨_, stages.valued, ?_⟩
    refine bind_eq_ok.mpr ⟨_, stages.resolved, ?_⟩
    refine bind_eq_ok.mpr ⟨_, hall, ?_⟩
    exact bind_eq_ok.mpr ⟨_, hcomplete, rfl⟩

theorem readsLast_set {κ α : Type} [DecidableEq κ] : ReadsLast (κ := κ) (α := α) Dict.set Dict.get? id :=
  fun d k v k' => d.get?_set k k' v

def overrideOf (overrides : Dict String Record) (key : String × String) : Option Value := overrides.get₂ key.1 key.2

theorem overrideOf_set₂ (overrides : Dict String Record) (key key' : String × String) (value : Value) :
    overrideOf (overrides.set₂ key.1 key.2 value) key' = if key' = key then some value else overrideOf overrides key' := by
  unfold overrideOf
  rw [Dict.get₂_set₂]
  simp only [Prod.ext_iff]

theorem readsLast_putOverride : ReadsLast putOverride overrideOf id :=
  fun overrides key value key' => overrideOf_set₂ overrides key key' value

theorem readsLast_overrides : ReadsLast Written.put (fun written => overrideOf written.overrides) Prod.snd :=
  fun written key entry key' => overrideOf_set₂ written.overrides key key' entry.2

theorem readsLast_resolutions : ReadsLast Written.put (fun written => written.conflictResolutions.get?) Prod.fst :=
  fun written key entry key' => written.conflictResolutions.get?_set key key' entry.1

/-! ## The merged fields -/

theorem get?_packageSourceFields {field : String} (h : field ∈ sourceOwnedPackageFields) :
    (packageSourceFields package).get? field = package.get? field := by
  have hget : (packageSourceFields package).get? field =
      if field ∈ sourceOwnedPackageFields then (package.get? field).map id else none :=
    Dict.get?_ofList_filterMap (fun key => package.get? key) id sourceOwnedPackageFields field
  rw [hget, if_pos h, Option.map_id_fun, id_eq]

theorem valueOf_packageSourceFields {field : String} (h : field ∈ sourceOwnedPackageFields) :
    valueOf (packageSourceFields package) field = valueOf package field := by
  unfold valueOf
  rw [get?_packageSourceFields h]

variable {base localMap source : Record}

theorem mergeOf_of_missing {field : String} (hbase : base.get? field = none)
    (hlocal : localMap.get? field = none) (hsource : source.get? field = none) :
    mergeOf base localMap source field = (.null, .keepLocal) := by
  unfold mergeOf valueOf
  rw [hbase, hlocal, hsource]
  rfl

theorem mem_keys_of_get? {fields : Record} {field : String} (h : fields.get? field ≠ none) : field ∈ fields.keys := by
  obtain ⟨value, hvalue⟩ := Option.ne_none_iff_exists'.mp h
  exact (fields.mem_keys_iff field).mpr ⟨value, hvalue⟩

theorem mem_mergedFields {field : String} : field ∈ mergedFields base localMap source ↔
    field ∈ sourceOwnedPackageFields ∧ (field ∈ base.keys ∨ field ∈ localMap.keys ∨ field ∈ source.keys) := by
  unfold mergedFields
  rw [mem_filter, mem_eraseDups, mem_append, mem_append, decide_eq_true_eq, or_assoc, and_comm]

theorem mergeOf_of_not_mem {field : String} (h : field ∈ sourceOwnedPackageFields)
    (hmem : field ∉ mergedFields base localMap source) : mergeOf base localMap source field = (.null, .keepLocal) := by
  have hnone : ∀ fields : Record, field ∉ fields.keys → fields.get? field = none := by
    intro fields hkeys
    by_contra hsome
    exact hkeys (mem_keys_of_get? hsome)
  rw [mem_mergedFields] at hmem
  exact mergeOf_of_missing (hnone _ fun hin => hmem ⟨h, Or.inl hin⟩) (hnone _ fun hin => hmem ⟨h, Or.inr (Or.inl hin)⟩)
    (hnone _ fun hin => hmem ⟨h, Or.inr (Or.inr hin)⟩)

variable {observation : Observation} {candidate : Candidate} {field : String}

def fieldMerge (observation : Observation) (candidate : Candidate) (field : String) : Value × Disposition :=
  threeWayMergeField (valueOf candidate.base field) (valueOf candidate.localMap field) (valueOf observation.fields field) true

theorem mergeOf_eq (h : field ∈ sourceOwnedPackageFields) :
    mergeOf candidate.base candidate.localMap (packageSourceFields observation.fields) field =
      fieldMerge observation candidate field := by
  unfold mergeOf fieldMerge
  rw [valueOf_packageSourceFields h]

theorem effectiveFields_getD (h : field ∈ sourceOwnedPackageFields) :
    ((resolvePackageAgainstLocalTarget observation (some candidate)).effectiveFields.get? field).getD
        (valueOf observation.fields field) = (fieldMerge observation candidate field).1 := by
  have hfields : (resolvePackageAgainstLocalTarget observation (some candidate)).effectiveFields =
      .ofList ((mergedFields candidate.base candidate.localMap (packageSourceFields observation.fields)).filterMap
        fun field => (some (mergeOf candidate.base candidate.localMap (packageSourceFields observation.fields) field).1).map
          fun value => (field, id value)) := by
    show Dict.ofList (List.map _ _) = _
    rw [← filterMap_eq_map]
    rfl
  rw [hfields, Dict.get?_ofList_filterMap]
  split_ifs with hmem
  · rw [mergeOf_eq h]
    rfl
  have hmissing : observation.fields.get? field = none := by
    rw [← get?_packageSourceFields h]
    by_contra hsome
    exact hmem (mem_mergedFields.mpr ⟨h, Or.inr (Or.inr (mem_keys_of_get? hsome))⟩)
  rw [← mergeOf_eq h, mergeOf_of_not_mem h hmem, Option.getD_none, valueOf, hmissing]
  rfl

theorem find?_map_filter {α : Type} {g : String → α} {name : α → String} (hname : ∀ x, name (g x) = x)
    (p : String → Bool) (l : List String) (x : String) :
    ((l.filter p).map g).find? (fun a => name a = x) = if x ∈ l ∧ p x = true then some (g x) else none := by
  induction l with
  | nil => simp
  | cons y l ih =>
    by_cases hp : p y = true
    · rw [filter_cons_of_pos hp, map_cons, find?_cons]
      by_cases hy : y = x
      · subst hy
        simp [hname, hp]
      · have hne : x ≠ y := fun heq => hy heq.symm
        simp [hname, hy, ih, hne]
    · rw [filter_cons_of_neg hp, ih]
      by_cases hy : x = y
      · subst hy
        simp [hp]
      · simp [hy]

theorem find?_fieldConflicts (h : field ∈ sourceOwnedPackageFields) :
    ((resolvePackageAgainstLocalTarget observation (some candidate)).fieldConflicts.find? fun conflict =>
        conflict.field = field) =
      if (fieldMerge observation candidate field).2 = .conflict then
        some ⟨field, valueOf candidate.base field, valueOf candidate.localMap field, valueOf observation.fields field⟩
      else none := by
  show (List.map (fun other : String => FieldConflict.mk other (valueOf candidate.base other)
    (valueOf candidate.localMap other) (valueOf (packageSourceFields observation.fields) other)) (List.filter _ _)).find? _ = _
  rw [find?_map_filter (fun _ => rfl), mergeOf_eq h, valueOf_packageSourceFields h]
  by_cases hconflict : (fieldMerge observation candidate field).2 = .conflict
  · have hmem : field ∈ mergedFields candidate.base candidate.localMap (packageSourceFields observation.fields) := by
      by_contra hmissing
      rw [← mergeOf_eq h, mergeOf_of_not_mem h hmissing] at hconflict
      cases hconflict
    rw [if_pos ⟨hmem, decide_eq_true hconflict⟩, if_pos hconflict]
  · rw [if_neg fun hboth => hconflict (of_decide_eq_true hboth.2), if_neg hconflict]

section

variable {observations : Dict String Observation} {preview : Dict String PreviewRow}
  {packageDecisions : Dict String Choice} {surfaces : Dict String Surface} {key : String × String} {value : Value}

theorem checkMatch_ok {row : PackageMatch} {id : String} {choice : Choice}
    (h : checkMatch observations preview row = .ok (id, choice)) :
    id = row.packageObservationId ∧ observations.contains id = true ∧
      ∃ previewRow, preview.get? id = some previewRow ∧ previewRow.isAmbiguous = true ∧
        matchChoice previewRow row = .ok choice := by
  unfold checkMatch at h
  dsimp only at h
  split at h
  · cases h
  rename_i hcontains
  split at h
  · cases h
  rename_i previewRow hpreview
  split at h
  · cases h
  rename_i hambiguous
  obtain ⟨choice', hchoice, heq⟩ := map_eq_ok.mp h
  cases heq
  refine ⟨rfl, ?_, previewRow, hpreview, ?_, hchoice⟩
  · simpa using hcontains
  · simpa using hambiguous

theorem checkFieldValue_ok {row : FieldRow Value}
    (h : checkFieldValue observations preview packageDecisions surfaces row = .ok (key, value)) :
    key = (row.packageObservationId, row.field) ∧ coerceRequiredValue row.field row.choice = .ok value ∧
      row.field ∈ ((surfaces.get? row.packageObservationId).map fun surface => surface.requiredIssues).getD [] := by
  unfold checkFieldValue at h
  split at h
  · cases h
  split at h
  · cases h
  split at h
  · cases h
  rename_i hfield
  obtain ⟨value', hvalue, heq⟩ := map_eq_ok.mp h
  cases heq
  exact ⟨rfl, hvalue, by simpa using hfield⟩

theorem checkFieldConflict_ok {row : FieldRow String} {resolution : Resolution}
    (h : checkFieldConflict observations preview packageDecisions surfaces row = .ok (key, resolution, value)) :
    key = (row.packageObservationId, row.field) ∧ resolutionOf row.choice = some resolution ∧
      ∃ conflict, conflictOf surfaces row.packageObservationId row.field = some conflict ∧
        value = conflict.named resolution := by
  unfold checkFieldConflict at h
  split at h
  · cases h
  split at h
  · cases h
  split at h
  · rename_i conflict resolution' hconflict hresolution
    cases h
    exact ⟨rfl, hresolution, conflict, hconflict, rfl⟩
  · cases h

end

/-! ## The decided fields -/

section

variable {packageDecisions : Dict String Choice} {surfaces : Dict String Surface} {overrides : Dict String Record}
  {written : Written} {id : String}

theorem Stages.surface
    (stages : Stages revision previewRows decisions enforceRequired packageDecisions surfaces overrides written)
    (h : (observationsOf revision).get? id = some observation) : ∃ surface, surfaces.get? id = some surface ∧
      surfaceOf (previewById previewRows) packageDecisions id observation = .ok surface := by
  have hentry : (id, observation) ∈ (observationsOf revision).entries := ((observationsOf revision).mem_entries_iff _ _).mpr h
  rcases view_writeRows readsLast_set stages.surfaced id with ⟨entry, hmem, surface, hcheck, hget⟩ | ⟨hnone, -⟩
  · obtain ⟨surface', hsurface, heq⟩ := map_eq_ok.mp hcheck
    obtain ⟨rfl, rfl⟩ := Prod.mk.inj heq
    have hsame := ((observationsOf revision).mem_entries_iff entry.1 entry.2).mp hmem
    rw [h] at hsame
    rw [← Option.some.inj hsame] at hsurface
    exact ⟨surface', hget, hsurface⟩
  · obtain ⟨write, hwrite⟩ := writeRows_checked stages.surfaced hentry
    obtain ⟨surface, hsurface, heq⟩ := map_eq_ok.mp hwrite
    exact absurd hwrite (by rw [← heq]; exact hnone _ hentry surface)

theorem overrideOf_initialOverrides (surfaces : Dict String Surface) (id field : String) :
    overrideOf (initialOverrides surfaces) (id, field) =
      (surfaces.get? id).bind fun surface => surface.effectiveFields.get? field := by
  unfold overrideOf initialOverrides Dict.get₂
  rw [Dict.get?_map, Dict.get?_filterEntries]
  cases surfaces.get? id with
  | none => rfl
  | some surface =>
    by_cases hempty : surface.effectiveFields.isEmpty = true
    · have hnone := (surface.effectiveFields.isEmpty_iff).mp hempty field
      simp [Option.filter, hempty, hnone]
    · simp [Option.filter, hempty]

theorem valueOf_resolvedObservation (observations : Dict String Observation) (preview : Dict String PreviewRow)
    (overrides : Dict String Record) (observation : Observation) (field : String) :
    valueOf (resolvedObservation observations preview overrides observation).fields field =
      (overrideOf overrides (observation.planDetailRevisionId, field)).getD (valueOf observation.fields field) := by
  unfold valueOf overrideOf Dict.get₂
  show ((Dict.spread _ _).get? _).getD _ = _
  rw [Dict.get?_spread]
  cases overrides.get? observation.planDetailRevisionId with
  | none => rfl
  | some fields =>
    rw [Option.getD_some, Option.bind_some]
    cases fields.get? field with
    | none => rfl
    | some value => rfl

theorem conflictOf_eq {surface : Surface} (h : surfaces.get? id = some surface) (field : String) :
    conflictOf surfaces id field = surface.fieldConflicts.find? fun conflict => conflict.field = field := by
  unfold conflictOf
  rw [h]
  rfl

section

variable (stages : Stages revision previewRows decisions enforceRequired packageDecisions surfaces overrides written)
include stages

theorem Stages.conflict_decided
    {surface : Surface} (hsurface : surfaces.get? id = some surface) {conflict : FieldConflict}
    (hconflict : conflict ∈ surface.fieldConflicts) :
    ∃ row ∈ decisions.fieldConflicts, isScoped revision.revisionId row.revisionId = true ∧
      row.packageObservationId = id ∧ row.field = conflict.field ∧
      ∃ resolution decided, resolutionOf row.choice = some resolution ∧
        conflictOf surfaces id conflict.field = some decided ∧
        overrideOf written.overrides (id, conflict.field) = some (decided.named resolution) := by
  have hresolved : written.conflictResolutions.get? (id, conflict.field) ≠ none := by
    have hall := all_eq_true.mp stages.allResolved (id, surface) ((surfaces.mem_entries_iff _ _).mpr hsurface)
    have hone := all_eq_true.mp hall conflict hconflict
    obtain ⟨resolution, hresolution⟩ := (written.conflictResolutions.contains_iff _).mp hone
    rw [hresolution]
    exact Option.some_ne_none _
  rcases view_writeRows readsLast_resolutions stages.resolved (id, conflict.field) with
    ⟨row, hrow, entry, hcheck, -⟩ | ⟨-, hget⟩
  · rcases view_writeRows readsLast_overrides stages.resolved (id, conflict.field) with
      ⟨row', hrow', ⟨resolution, value⟩, hcheck', hget'⟩ | ⟨hnone, -⟩
    · obtain ⟨hkey, hresolution, decided, hdecided, rfl⟩ := checkFieldConflict_ok hcheck'
      obtain ⟨hid, hfield⟩ := Prod.mk.inj hkey
      obtain ⟨hmem, hscoped⟩ := mem_filter.mp hrow'
      rw [← hid, ← hfield] at hdecided
      exact ⟨row', hmem, hscoped, hid.symm, hfield.symm, resolution, decided, hresolution, hdecided, hget'⟩
    · exact absurd hcheck (hnone row hrow entry)
  · exact absurd hget hresolved

theorem Stages.overrideOf_of_no_conflict (h : conflictOf surfaces id field = none) :
    overrideOf written.overrides (id, field) = overrideOf overrides (id, field) := by
  rcases view_writeRows readsLast_overrides stages.resolved (id, field) with
    ⟨row, -, ⟨resolution, value⟩, hcheck, -⟩ | ⟨-, hget⟩
  · obtain ⟨hkey, -, conflict, hconflict, -⟩ := checkFieldConflict_ok hcheck
    obtain ⟨hid, hfield⟩ := Prod.mk.inj hkey
    rw [← hid, ← hfield, h] at hconflict
    cases hconflict
  · exact hget

theorem Stages.overrideOf_of_no_value (h : ∀ row ∈ decisions.fieldValues, isScoped revision.revisionId row.revisionId = true →
      ¬(row.packageObservationId = id ∧ row.field = field)) :
    overrideOf overrides (id, field) = (surfaces.get? id).bind fun surface => surface.effectiveFields.get? field := by
  rcases view_writeRows readsLast_putOverride stages.valued (id, field) with ⟨row, hrow, value, hcheck, -⟩ | ⟨-, hget⟩
  · obtain ⟨hkey, -, -⟩ := checkFieldValue_ok hcheck
    obtain ⟨hid, hfield⟩ := Prod.mk.inj hkey
    obtain ⟨hmem, hscoped⟩ := mem_filter.mp hrow
    exact absurd ⟨hid.symm, hfield.symm⟩ (h row hmem hscoped)
  · rw [hget, overrideOf_initialOverrides]

theorem Stages.overrideOf_of_value
    {given : FieldRow Value} (hgiven : given ∈ decisions.fieldValues)
    (hscoped : isScoped revision.revisionId given.revisionId = true) :
    ∃ row ∈ decisions.fieldValues, isScoped revision.revisionId row.revisionId = true ∧
      row.packageObservationId = given.packageObservationId ∧ row.field = given.field ∧
      (∃ value, coerceRequiredValue row.field row.choice = .ok value ∧
        overrideOf overrides (given.packageObservationId, given.field) = some value) ∧
      given.field ∈ ((surfaces.get? given.packageObservationId).map fun surface => surface.requiredIssues).getD [] := by
  have hrow : given ∈ scopedTo revision FieldRow.revisionId decisions.fieldValues := mem_filter.mpr ⟨hgiven, hscoped⟩
  obtain ⟨⟨key, value⟩, hcheck⟩ := writeRows_checked stages.valued hrow
  obtain ⟨rfl, -, hissue⟩ := checkFieldValue_ok hcheck
  rcases view_writeRows readsLast_putOverride stages.valued (given.packageObservationId, given.field) with
    ⟨row, hmem, value', hcheck', hget⟩ | ⟨hnone, -⟩
  · obtain ⟨hkey, hcoerce, -⟩ := checkFieldValue_ok hcheck'
    obtain ⟨hid, hfield⟩ := Prod.mk.inj hkey
    obtain ⟨hmem, hscoped'⟩ := mem_filter.mp hmem
    exact ⟨row, hmem, hscoped', hid.symm, hfield.symm, ⟨value', hcoerce, hget⟩, hissue⟩
  · exact absurd hcheck (hnone given hrow value)

end

end

end Bidding.ImportDecisions
