import Bidding.Procurement.Authority

/-!
# The order of the decisions

No two rows of an accepted bundle decide the same; so the rows may stand in any order, and the resolved revisions and the
digest are the same.
-/

namespace Bidding.ImportDecisions

open Foundations List Option

/-- The same decisions with their rows in another order. -/
structure Reordered (decisions decisions' : Decisions) : Prop where
  investorId : decisions'.investorId = decisions.investorId
  otherKeys : decisions'.otherKeys = decisions.otherKeys
  packageMatches : decisions'.packageMatches.Perm decisions.packageMatches
  fieldConflicts : decisions'.fieldConflicts.Perm decisions.fieldConflicts
  fieldValues : decisions'.fieldValues.Perm decisions.fieldValues

/-- Two observations with the same keys and values. -/
structure Observation.Agrees (observation other : Observation) : Prop where
  planDetailRevisionId : observation.planDetailRevisionId = other.planDetailRevisionId
  fields : ∀ key, observation.fields.get? key = other.fields.get? key
  merged : observation.effectiveFields.isSome = other.effectiveFields.isSome
  effectiveFields : ∀ key, (observation.effectiveFields.bind fun fields => fields.get? key) =
    other.effectiveFields.bind fun fields => fields.get? key
  canonicalSourceFields : observation.canonicalSourceFields = other.canonicalSourceFields
  sourceAction : observation.sourceAction = other.sourceAction

/-- Two revisions whose packages have the same keys and values. -/
structure Revision.Agrees (revision other : Revision) : Prop where
  revisionId : revision.revisionId = other.revisionId
  packages : List.Forall₂ Observation.Agrees revision.packages other.packages

/-- No two rows are about one package, or about one field of one. -/
structure Distinct (decisions : Decisions) : Prop where
  packageMatches : ∀ row ∈ decisions.packageMatches, ∀ other ∈ decisions.packageMatches,
    row.packageObservationId = other.packageObservationId → row = other
  fieldConflicts : ∀ row ∈ decisions.fieldConflicts, ∀ other ∈ decisions.fieldConflicts,
    row.packageObservationId = other.packageObservationId → row.field = other.field → row = other
  fieldValues : ∀ row ∈ decisions.fieldValues, ∀ other ∈ decisions.fieldValues,
    row.packageObservationId = other.packageObservationId → row.field = other.field → row = other

/-! ## What the stages read -/

section

variable {observations : Dict String Observation} {preview : Dict String PreviewRow}
  {packageDecisions packageDecisions' : Dict String Choice} {surfaces : Dict String Surface}

section

variable (h : ∀ k, packageDecisions'.get? k = packageDecisions.get? k)
include h

theorem checkSurface_congr : checkSurface preview packageDecisions' = checkSurface preview packageDecisions := by
  funext entry
  unfold checkSurface surfaceOf
  rw [h]

theorem namesChosen_congr : namesChosen preview packageDecisions' = namesChosen preview packageDecisions := by
  funext observationId localRootId
  unfold namesChosen expectedRoot
  rw [h]

theorem checkFieldValue_congr : checkFieldValue observations preview packageDecisions' surfaces =
    checkFieldValue observations preview packageDecisions surfaces := by
  funext row
  unfold checkFieldValue
  rw [namesChosen_congr h]

theorem checkFieldConflict_congr : checkFieldConflict observations preview packageDecisions' surfaces =
    checkFieldConflict observations preview packageDecisions surfaces := by
  funext row
  unfold checkFieldConflict
  rw [namesChosen_congr h]

end

theorem allResolved_congr {resolutions resolutions' : Dict (String × String) Resolution}
    (h : ∀ k, resolutions'.get? k = resolutions.get? k) : allResolved surfaces resolutions' = allResolved surfaces resolutions := by
  unfold allResolved Dict.contains
  simp only [h]

end

theorem requiredPackageIssues_congr {package other : Record} (h : ∀ key, package.get? key = other.get? key) :
    requiredPackageIssues package = requiredPackageIssues other := by
  unfold requiredPackageIssues requiredChecks valueOf
  simp only [h]

theorem isComplete_congr {observation other : Observation} (h : observation.Agrees other) :
    isComplete observation = isComplete other := by
  have hsame : ∀ key, (observation.effectiveFields.getD observation.fields).get? key =
      (other.effectiveFields.getD other.fields).get? key := by
    intro key
    have hmerged := h.merged
    have heffective := h.effectiveFields key
    cases hleft : observation.effectiveFields with
    | none =>
      cases hright : other.effectiveFields with
      | none => exact h.fields key
      | some fields =>
        rw [hleft, hright] at hmerged
        cases hmerged
    | some fields =>
      cases hright : other.effectiveFields with
      | none =>
        rw [hleft, hright] at hmerged
        cases hmerged
      | some fields' =>
        rw [hleft, hright] at heffective
        exact heffective
  unfold isComplete
  rw [requiredPackageIssues_congr hsame]

theorem get?_override (overrides : Dict String Record) (id key : String) :
    ((overrides.get? id).getD .empty).get? key = overrideOf overrides (id, key) := by
  unfold overrideOf Dict.get₂
  cases overrides.get? id with
  | none => rfl
  | some fields => rfl

theorem resolvedObservation_agrees (observations : Dict String Observation) (preview : Dict String PreviewRow)
    {overrides overrides' : Dict String Record} (h : ∀ key, overrideOf overrides' key = overrideOf overrides key)
    (observation : Observation) :
    (resolvedObservation observations preview overrides' observation).Agrees
      (resolvedObservation observations preview overrides observation) where
  planDetailRevisionId := rfl
  fields := by
    intro key
    show (Dict.spread _ _).get? key = (Dict.spread _ _).get? key
    rw [Dict.get?_spread, Dict.get?_spread, get?_override, get?_override, h]
  merged := by
    show (Option.map _ _).isSome = (Option.map _ _).isSome
    rw [isSome_map, isSome_map]
  effectiveFields := by
    intro key
    show (Option.map _ _).bind _ = (Option.map _ _).bind _
    cases observation.effectiveFields with
    | none => rfl
    | some fields =>
      rw [map_some, map_some, bind_some, bind_some, Dict.get?_spread, Dict.get?_spread,
        get?_override, get?_override, h]
  canonicalSourceFields := rfl
  sourceAction := rfl

/-! ## A revision with its rows in another order -/

section

variable {revision : Revision} {previewRows : List PreviewRow} {decisions decisions' : Decisions} {enforceRequired : Bool}

theorem mem_scopedTo_of_perm {ρ : Type} {rowRevisionId : ρ → String} {rows rows' : List ρ} (h : rows'.Perm rows) (row : ρ) :
    row ∈ scopedTo revision rowRevisionId rows' ↔ row ∈ scopedTo revision rowRevisionId rows :=
  (h.filter _).mem_iff

theorem mem_of_mem_scopedTo {ρ : Type} {rowRevisionId : ρ → String} {rows : List ρ} {row : ρ}
    (h : row ∈ scopedTo revision rowRevisionId rows) : row ∈ rows := mem_of_mem_filter h

theorem writeRows_reordered {ρ κ α β γ σ : Type} [DecidableEq κ] {check : ρ → Except DecisionError (κ × α)}
    {put : σ → κ → α → σ} {rows rows' : List ρ} {s s₁ : σ} (h : writeRows check put rows s = .ok s₁)
    (hmem : ∀ row, row ∈ rows' ↔ row ∈ rows)
    (hunique : ∀ row ∈ rows, ∀ other ∈ rows, ∀ k v w, check row = .ok (k, v) → check other = .ok (k, w) → v = w)
    {view : σ → κ → Option β} {read : α → β} {view₂ : σ → κ → Option γ} {read₂ : α → γ}
    (hview : ReadsLast put view read) (hview₂ : ReadsLast put view₂ read₂) (s' : σ) (hstart : ∀ k, view s' k = view s k)
    (hstart₂ : ∀ k, view₂ s' k = view₂ s k) :
    ∃ s₂, writeRows check put rows' s' = .ok s₂ ∧ (∀ k, view s₂ k = view s₁ k) ∧ ∀ k, view₂ s₂ k = view₂ s₁ k := by
  have hchecked : ∀ row ∈ rows', ∃ write, check row = .ok write :=
    fun row hrow => writeRows_checked h ((hmem row).mp hrow)
  obtain ⟨s₂, hs₂⟩ := @writeRows_total _ _ _ _ _ _ put rows' hchecked s'
  refine ⟨s₂, hs₂, ?_, ?_⟩
  · intro k
    exact (view_writeRows_congr hview (fun row => (hmem row).symm) hunique (fun k => (hstart k).symm) h hs₂ k).symm
  · intro k
    exact (view_writeRows_congr hview₂ (fun row => (hmem row).symm) hunique (fun k => (hstart₂ k).symm) h hs₂ k).symm

theorem decidedPackages_agree {overrides overrides' : Dict String Record}
    (h : ∀ key, overrideOf overrides' key = overrideOf overrides key) :
    List.Forall₂ Observation.Agrees (decidedPackages revision previewRows overrides')
      (decidedPackages revision previewRows overrides) := by
  unfold decidedPackages
  apply forall₂_map_left_iff.mpr
  apply forall₂_map_right_iff.mpr
  exact forall₂_same.mpr fun observation _ =>
    resolvedObservation_agrees (observationsOf revision) (previewById previewRows) h observation

theorem all_isComplete_congr {packages packages' : List Observation} (h : List.Forall₂ Observation.Agrees packages' packages) :
    packages'.all isComplete = packages.all isComplete := by
  induction h with
  | nil => rfl
  | cons hone _ ih => rw [all_cons, all_cons, isComplete_congr hone, ih]

theorem resolveRevisionDecisions_reordered (hdistinct : Distinct decisions) (horder : Reordered decisions decisions')
    {result : Resolved} (h : resolveRevisionDecisions revision previewRows decisions enforceRequired = .ok result) :
    ∃ result', resolveRevisionDecisions revision previewRows decisions' enforceRequired = .ok result' ∧
      result'.revision.Agrees result.revision := by
  obtain ⟨packageDecisions, surfaces, overrides, written, stages, rfl⟩ := resolveRevisionDecisions_ok_iff.mp h
  -- the matches
  obtain ⟨packageDecisions', hmatched, hsame, -⟩ := writeRows_reordered stages.matched
    (mem_scopedTo_of_perm horder.packageMatches) (by
      intro row hrow other hother k v w hv hw
      have hid := (checkMatch_ok hv).1.symm.trans (checkMatch_ok hw).1
      have heq := hdistinct.packageMatches row (mem_of_mem_scopedTo hrow) other (mem_of_mem_scopedTo hother) hid
      rw [heq, hw] at hv
      exact (Prod.mk.inj (Except.ok.inj hv)).2.symm)
    readsLast_set readsLast_set Dict.empty (fun _ => rfl) (fun _ => rfl)
  have hsurfaced := stages.surfaced
  rw [← checkSurface_congr hsame] at hsurfaced
  -- the values
  have hvalued := stages.valued
  rw [← checkFieldValue_congr hsame] at hvalued
  obtain ⟨overrides', hvalued', hoverrides, -⟩ := writeRows_reordered hvalued (mem_scopedTo_of_perm horder.fieldValues) (by
      intro row hrow other hother k v w hv hw
      obtain ⟨hid, hfield⟩ := Prod.mk.inj ((checkFieldValue_ok hv).1.symm.trans (checkFieldValue_ok hw).1)
      have heq := hdistinct.fieldValues row (mem_of_mem_scopedTo hrow) other (mem_of_mem_scopedTo hother) hid hfield
      rw [heq, hw] at hv
      exact (Prod.mk.inj (Except.ok.inj hv)).2.symm)
    readsLast_putOverride readsLast_putOverride (initialOverrides surfaces) (fun _ => rfl) (fun _ => rfl)
  -- the conflicts
  have hresolved := stages.resolved
  rw [← checkFieldConflict_congr hsame] at hresolved
  obtain ⟨written', hresolved', hwritten, hresolutions⟩ := writeRows_reordered hresolved
    (mem_scopedTo_of_perm horder.fieldConflicts) (by
      intro row hrow other hother k v w hv hw
      obtain ⟨hid, hfield⟩ := Prod.mk.inj ((checkFieldConflict_ok hv).1.symm.trans (checkFieldConflict_ok hw).1)
      have heq := hdistinct.fieldConflicts row (mem_of_mem_scopedTo hrow) other (mem_of_mem_scopedTo hother) hid hfield
      rw [heq, hw] at hv
      exact (Prod.mk.inj (Except.ok.inj hv)).2.symm)
    readsLast_overrides readsLast_resolutions ⟨Dict.empty, overrides'⟩ hoverrides (fun _ => rfl)
  have hagree := @decidedPackages_agree revision previewRows _ _ hwritten
  refine ⟨_, resolveRevisionDecisions_ok_iff.mpr
    ⟨packageDecisions', surfaces, overrides', written', ⟨?_, hmatched, ?_, hsurfaced, hvalued', hresolved', ?_, ?_⟩, rfl⟩,
    rfl, hagree⟩
  · rw [horder.packageMatches.length_eq, horder.fieldConflicts.length_eq, horder.fieldValues.length_eq]
    exact stages.sizes
  · have hcontains : ∀ k, packageDecisions'.contains k = packageDecisions.contains k := by
      intro k
      unfold Dict.contains
      rw [hsame]
    simp only [hcontains]
    exact stages.decided
  · rw [allResolved_congr hresolutions]
    exact stages.allResolved
  · rw [all_isComplete_congr hagree]
    exact stages.complete

end

/-! ## A bundle with its rows in another order -/

section

variable {revisions : List Revision} {reconciliation : Dict String (List PreviewRow)} {decisions decisions' : Decisions}

/-- The decisions of a bundle that are accepted as a whole. -/
structure Valid (revisions : List Revision) (reconciliation : Dict String (List PreviewRow)) (decisions : Decisions) :
    Prop where
  sizes : decisions.packageMatches.length ≤ 500 ∧ decisions.fieldValues.length ≤ 500 ∧
    decisions.fieldConflicts.length ≤ 500
  matchKeys : (decisions.packageMatches.map (matchKey revisions)).Nodup
  valueKeys : (decisions.fieldValues.map (fieldKey revisions)).Nodup
  conflictKeys : (decisions.fieldConflicts.map (fieldKey revisions)).Nodup
  packageMatches : ∀ row ∈ decisions.packageMatches, checkBundleMatch revisions reconciliation row = .ok ()
  fieldValues : ∀ row ∈ decisions.fieldValues, checkBundleValue revisions row = .ok ()
  fieldConflicts : ∀ row ∈ decisions.fieldConflicts, checkBundleConflict revisions row = .ok ()

theorem validateBundleDecisions_ok_iff :
    validateBundleDecisions revisions reconciliation decisions = .ok () ↔ Valid revisions reconciliation decisions := by
  constructor
  · intro h
    unfold validateBundleDecisions at h
    obtain ⟨matches', hmatches, h⟩ := bind_ok h
    obtain ⟨values, hvalues, h⟩ := bind_ok h
    obtain ⟨conflicts, hconflicts, h⟩ := bind_ok h
    obtain ⟨hsize, rfl⟩ := decisionRows_ok hmatches
    obtain ⟨hsize', rfl⟩ := decisionRows_ok hvalues
    obtain ⟨hsize'', rfl⟩ := decisionRows_ok hconflicts
    obtain ⟨_, hmatchKeys, h⟩ := bind_ok h
    obtain ⟨_, hvalueKeys, h⟩ := bind_ok h
    obtain ⟨_, hconflictKeys, h⟩ := bind_ok h
    obtain ⟨_, hcheck, h⟩ := bind_ok h
    obtain ⟨_, hcheck', h⟩ := bind_ok h
    exact ⟨⟨hsize, hsize', hsize''⟩, of_decide_eq_true (ensure_ok hmatchKeys), of_decide_eq_true (ensure_ok hvalueKeys),
      of_decide_eq_true (ensure_ok hconflictKeys), forM_ok_iff.mp hcheck, forM_ok_iff.mp hcheck', forM_ok_iff.mp h⟩
  · intro valid
    unfold validateBundleDecisions
    refine bind_eq_ok.mpr ⟨_, decisionRows_of_le valid.sizes.1, ?_⟩
    refine bind_eq_ok.mpr ⟨_, decisionRows_of_le valid.sizes.2.1, ?_⟩
    refine bind_eq_ok.mpr ⟨_, decisionRows_of_le valid.sizes.2.2, ?_⟩
    refine bind_eq_ok.mpr ⟨(), ensure_of_true (decide_eq_true valid.matchKeys), ?_⟩
    refine bind_eq_ok.mpr ⟨(), ensure_of_true (decide_eq_true valid.valueKeys), ?_⟩
    refine bind_eq_ok.mpr ⟨(), ensure_of_true (decide_eq_true valid.conflictKeys), ?_⟩
    refine bind_eq_ok.mpr ⟨_, forM_ok_iff.mpr valid.packageMatches, ?_⟩
    refine bind_eq_ok.mpr ⟨_, forM_ok_iff.mpr valid.fieldValues, ?_⟩
    exact forM_ok_iff.mpr valid.fieldConflicts

theorem Valid.reordered (valid : Valid revisions reconciliation decisions) (horder : Reordered decisions decisions') :
    Valid revisions reconciliation decisions' where
  sizes := by
    rw [horder.packageMatches.length_eq, horder.fieldConflicts.length_eq, horder.fieldValues.length_eq]
    exact valid.sizes
  matchKeys := (horder.packageMatches.map _).nodup_iff.mpr valid.matchKeys
  valueKeys := (horder.fieldValues.map _).nodup_iff.mpr valid.valueKeys
  conflictKeys := (horder.fieldConflicts.map _).nodup_iff.mpr valid.conflictKeys
  packageMatches := fun row hrow => valid.packageMatches row (horder.packageMatches.mem_iff.mp hrow)
  fieldValues := fun row hrow => valid.fieldValues row (horder.fieldValues.mem_iff.mp hrow)
  fieldConflicts := fun row hrow => valid.fieldConflicts row (horder.fieldConflicts.mem_iff.mp hrow)

theorem normalizedKey_of_applies {rowRevisionId observationId field revisionId : String}
    (h : rowAppliesToRevision revisions rowRevisionId observationId revisionId = true) :
    normalizedKey revisions rowRevisionId observationId field = (revisionId, observationId, field) := by
  unfold rowAppliesToRevision at h
  unfold normalizedKey
  by_cases hempty : rowRevisionId = ""
  · rw [if_neg (not_not.mpr hempty), decide_eq_true_eq] at h
    rw [if_pos hempty, h]
  · rw [if_pos hempty, decide_eq_true_eq] at h
    rw [if_neg hempty, h]

theorem Valid.distinct (valid : Valid revisions reconciliation decisions) (revisionId : String) :
    Distinct (scopedDecisions revisions decisions revisionId) where
  packageMatches := by
    intro row hrow other hother hid
    obtain ⟨hrow, happlies⟩ := mem_filter.mp hrow
    obtain ⟨hother, happlies'⟩ := mem_filter.mp hother
    apply inj_on_of_nodup_map valid.matchKeys hrow hother
    unfold matchKey
    rw [normalizedKey_of_applies happlies, normalizedKey_of_applies happlies', hid]
  fieldConflicts := by
    intro row hrow other hother hid hfield
    obtain ⟨hrow, happlies⟩ := mem_filter.mp hrow
    obtain ⟨hother, happlies'⟩ := mem_filter.mp hother
    apply inj_on_of_nodup_map valid.conflictKeys hrow hother
    unfold fieldKey
    rw [normalizedKey_of_applies happlies, normalizedKey_of_applies happlies', hid, hfield]
  fieldValues := by
    intro row hrow other hother hid hfield
    obtain ⟨hrow, happlies⟩ := mem_filter.mp hrow
    obtain ⟨hother, happlies'⟩ := mem_filter.mp hother
    apply inj_on_of_nodup_map valid.valueKeys hrow hother
    unfold fieldKey
    rw [normalizedKey_of_applies happlies, normalizedKey_of_applies happlies', hid, hfield]

theorem Reordered.scoped (horder : Reordered decisions decisions') (revisionId : String) :
    Reordered (scopedDecisions revisions decisions revisionId) (scopedDecisions revisions decisions' revisionId) where
  investorId := horder.investorId
  otherKeys := horder.otherKeys
  packageMatches := horder.packageMatches.filter _
  fieldConflicts := horder.fieldConflicts.filter _
  fieldValues := horder.fieldValues.filter _

theorem sortKey_inj {a b c a' b' c' : String} (h : sortKey a b c ≤ sortKey a' b' c') (h' : sortKey a' b' c' ≤ sortKey a b c) :
    a = a' ∧ b = b' ∧ c = c' := by
  have heq := toLex_inj.mp (le_antisymm h h')
  obtain ⟨ha, hrest⟩ := Prod.mk.inj heq
  obtain ⟨hb, hc⟩ := Prod.mk.inj (toLex_inj.mp hrest)
  exact ⟨ha, hb, hc⟩

theorem totalPreorder_matchBefore : TotalPreorder matchBefore where
  trans a b c hab hbc := decide_eq_true (le_trans (of_decide_eq_true hab) (of_decide_eq_true hbc))
  total a b := by
    unfold matchBefore
    rw [Bool.or_eq_true, decide_eq_true_eq, decide_eq_true_eq]
    exact le_total _ _

theorem totalPreorder_fieldBefore {α : Type} : TotalPreorder (@fieldBefore α) where
  trans a b c hab hbc := decide_eq_true (le_trans (of_decide_eq_true hab) (of_decide_eq_true hbc))
  total a b := by
    unfold fieldBefore
    rw [Bool.or_eq_true, decide_eq_true_eq, decide_eq_true_eq]
    exact le_total _ _

theorem mergeSort_fields_eq {α : Type} {rows rows' : List (FieldRow α)} (hnodup : (rows.map (fieldKey revisions)).Nodup)
    (hperm : rows'.Perm rows) : rows'.mergeSort fieldBefore = rows.mergeSort fieldBefore := by
  apply mergeSort_eq_of_perm totalPreorder_fieldBefore hperm
  intro row hrow other hother hbefore hafter
  obtain ⟨hrevision, hid, hfield⟩ := sortKey_inj (of_decide_eq_true hbefore) (of_decide_eq_true hafter)
  apply inj_on_of_nodup_map hnodup hrow hother
  unfold fieldKey
  rw [hrevision, hid, hfield]

theorem Valid.digest (valid : Valid revisions reconciliation decisions) (horder : Reordered decisions decisions')
    (canonicalDigest : DecisionsDigest) :
    digestOfDecisions canonicalDigest decisions' = digestOfDecisions canonicalDigest decisions := by
  have hmatches : decisions'.packageMatches.mergeSort matchBefore = decisions.packageMatches.mergeSort matchBefore := by
    apply mergeSort_eq_of_perm totalPreorder_matchBefore horder.packageMatches
    intro row hrow other hother hbefore hafter
    obtain ⟨hrevision, hid, -⟩ := sortKey_inj (of_decide_eq_true hbefore) (of_decide_eq_true hafter)
    apply inj_on_of_nodup_map valid.matchKeys hrow hother
    unfold matchKey
    rw [hrevision, hid]
  unfold digestOfDecisions
  rw [hmatches, mergeSort_fields_eq valid.conflictKeys horder.fieldConflicts,
    mergeSort_fields_eq valid.valueKeys horder.fieldValues, horder.investorId]

theorem resolvePlanDecisionAuthority_reordered {canonicalDigest : DecisionsDigest} {bundle : Bundle}
    {selectedRevisionIds : Option (List String)} {authority : Authority} (horder : Reordered decisions decisions')
    (h : resolvePlanDecisionAuthority canonicalDigest bundle decisions selectedRevisionIds = .ok authority) :
    ∃ authority', resolvePlanDecisionAuthority canonicalDigest bundle decisions' selectedRevisionIds = .ok authority' ∧
      authority'.decisionsDigest = authority.decisionsDigest ∧
      List.Forall₂ Revision.Agrees authority'.resolvedRevisions authority.resolvedRevisions := by
  unfold resolvePlanDecisionAuthority at h
  obtain ⟨_, hkeys, h⟩ := bind_ok h
  obtain ⟨_, hvalid, h⟩ := bind_ok h
  obtain ⟨resolved, hresolved, h⟩ := bind_ok h
  cases h
  have valid := validateBundleDecisions_ok_iff.mp hvalid
  have hone : ∀ revision ∈ selectedRevisions bundle selectedRevisionIds, ∀ entry,
      resolveOne (selectedRevisions bundle selectedRevisionIds) bundle.reconciliationByRevision decisions revision = .ok entry →
      ∃ entry', resolveOne (selectedRevisions bundle selectedRevisionIds) bundle.reconciliationByRevision decisions'
        revision = .ok entry' ∧ entry'.2.revision.Agrees entry.2.revision := by
    intro revision _ entry hentry
    obtain ⟨result, hresult, rfl⟩ := map_eq_ok.mp hentry
    obtain ⟨result', hresult', hagree⟩ := resolveRevisionDecisions_reordered (valid.distinct revision.revisionId)
      (horder.scoped revision.revisionId) hresult
    exact ⟨(revision.revisionId, result'), map_eq_ok.mpr ⟨result', hresult', rfl⟩, hagree⟩
  obtain ⟨resolved', hresolved', hagree⟩ := mapM_forall₂ hone hresolved
  rw [← horder.otherKeys] at hkeys
  refine ⟨_, bind_eq_ok.mpr ⟨(), hkeys, bind_eq_ok.mpr ⟨(), validateBundleDecisions_ok_iff.mpr (valid.reordered horder),
    bind_eq_ok.mpr ⟨resolved', hresolved', rfl⟩⟩⟩, ?_, ?_⟩
  · exact valid.digest horder canonicalDigest
  · apply forall₂_map_left_iff.mpr
    apply forall₂_map_right_iff.mpr
    exact hagree

end

end Bidding.ImportDecisions
