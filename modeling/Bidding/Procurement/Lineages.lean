import Mathlib
import Bidding.Foundations.Fallible
import Bidding.Procurement.Reconcile

/-!
# One row for each version

No reconciliation ever archives a plan: the plan that would replace one stands under the same root and version. So a family
that has a plan has a latest one, and the next plan joins its root.
-/

namespace Bidding.Procurement

open Foundations List Store

theorem upperCode_upperCode (text : String) : upperCode (upperCode text) = upperCode text := by
  simp [upperCode, Function.comp_def]

theorem PlanRequest.upperCode_familyNo (q : PlanRequest) : upperCode q.familyNo = q.familyNo :=
  upperCode_upperCode _

theorem CreatedPackage.linkedNotice_kind {w : Setting} {now : ℕ} {evidence : Provenance}
    {package : CreatedPackage} {row : EvidenceRow} (h : package.linkedNotice w now evidence = some row) :
    row.kind = .notice := by
  unfold CreatedPackage.linkedNotice at h
  simp only at h
  split at h
  · cases h
  split at h
  · cases h
  · cases h
    rfl

def PlanRow.family (row : PlanRow) : String := upperCode row.maKeHoach

def PlanRow.SameVersion (a b : PlanRow) : Prop := a.root = b.root ∧ a.localVersion = b.localVersion

def PackageRow.SameVersion (a b : PackageRow) : Prop :=
  a.root = b.root ∧ a.localVersion = b.localVersion ∧ a.keHoachId = b.keHoachId

namespace Store

/-- What every reconciliation keeps. -/
structure Sound (s : Store) : Prop where
  planVersions : s.plans.Pairwise fun a b => ¬ a.SameVersion b
  packageVersions : s.packages.Pairwise fun a b => ¬ a.SameVersion b
  active : ∀ plan ∈ s.plans, plan.archived = false
  oneRoot : ∀ a ∈ s.plans, ∀ b ∈ s.plans, a.family = b.family → a.root = b.root
  hasLatest : ∀ a ∈ s.plans, ∃ b ∈ s.plans, b.family = a.family ∧ b.isLatest
  applied : ∀ row ∈ s.evidence, row.kind = .plan → row.disposition = .applied →
    ∃ plan ∈ s.plans, plan.family = upperCode row.familyKey

theorem sound_empty : empty.Sound := by constructor <;> simp [empty]

variable {w : Setting} {m : Moment} {s s' : Store}

/-! ## Inserting a plan -/

variable (row : CreatedPlan)

variable (plan : PlanRow)

@[simp] theorem retired_root : (retired row plan).root = plan.root := by
  unfold retired
  split <;> rfl

@[simp] theorem retired_localVersion : (retired row plan).localVersion = plan.localVersion := by
  unfold retired
  split <;> rfl

@[simp] theorem retired_family : (retired row plan).family = plan.family := by
  unfold retired
  split <;> rfl

@[simp] theorem retired_archived : (retired row plan).archived = plan.archived := by
  unfold retired
  split <;> rfl

theorem retired_of_family_ne {row : CreatedPlan} {plan : PlanRow} (h : plan.family ≠ row.familyNo) :
    retired row plan = plan := by
  unfold retired
  exact if_neg fun hretire => h (of_decide_eq_true hretire.2.1)

theorem archiveReplaced_of_none {row : CreatedPlan} (h : ∀ plan ∈ s.plans, replaces row plan = false) :
    s.archiveReplaced row = s := by
  have hplans : (s.plans.map fun plan =>
      if replaces row plan then
        { plan with archived := true, isLatest := false, rowVersion := plan.rowVersion + 1 }
      else plan) = s.plans := by
    rw [map_congr_left fun plan hplan => if_neg (by simp [h plan hplan])]
    exact map_id _
  have hnone : ∀ package : PackageRow, (s.plans.any fun plan => replaces row plan ∧ plan.id = package.keHoachId) = false := by
    intro package
    simp only [any_eq_false]
    intro plan hplan
    simp [h plan hplan]
  unfold archiveReplaced
  simp only [hplans, hnone, Bool.false_eq_true, and_false, if_false, map_id']

theorem insertPlan_ok {row : CreatedPlan} (h : s.insertPlan w row = .ok s') :
    (∀ plan ∈ s.plans, ¬ plan.SameVersion (planRow row))
      ∧ s' = { s with plans := s.plans.map (retired row) ++ [planRow row] } := by
  unfold insertPlan at h
  simp only at h
  split at h
  · cases h
  rename_i hclash
  have hfree : ∀ plan ∈ s.plans, ¬ plan.SameVersion (planRow row) := by
    intro plan hplan hsame
    refine hclash (any_eq_true.mpr ⟨retired row (if replaces row plan then
        { plan with archived := true, isLatest := false, rowVersion := plan.rowVersion + 1 }
      else plan), ?_, ?_⟩)
    · exact mem_map_of_mem (mem_map_of_mem hplan)
    · have hkeys : (retired row (if replaces row plan then
          { plan with archived := true, isLatest := false, rowVersion := plan.rowVersion + 1 }
        else plan)).SameVersion (planRow row) := by
        unfold PlanRow.SameVersion
        rw [retired_root, retired_localVersion]
        split <;> exact hsame
      simp only [planClashes, decide_eq_true_eq]
      exact Or.inr (Or.inl hkeys)
  have hnone : ∀ plan ∈ s.plans, replaces row plan = false := by
    intro plan hplan
    by_contra hreplaced
    have hfacts := of_decide_eq_true (Bool.not_eq_false _ ▸ hreplaced)
    exact hfree plan hplan ⟨hfacts.2.2.1, hfacts.2.2.2.1⟩
  rw [archiveReplaced_of_none hnone] at h
  cases h
  exact ⟨hfree, rfl⟩

/-- A plan that joins the root of its family, and is latest where it is the first, keeps the
invariant. -/
theorem Sound.insertPlan {row : CreatedPlan} (hs : s.Sound) (h : s.insertPlan w row = .ok s')
    (hcode : upperCode row.familyNo = row.familyNo)
    (hroot : ∀ plan ∈ s.plans, plan.family = row.familyNo → plan.root = row.rootId)
    (hlatest : (∀ plan ∈ s.plans, plan.family ≠ row.familyNo) → row.isLatest = true) : s'.Sound := by
  obtain ⟨hfree, rfl⟩ := insertPlan_ok h
  have hnew : (planRow row).family = row.familyNo := hcode
  refine ⟨?_, hs.packageVersions, ?_, ?_, ?_, ?_⟩
  · refine pairwise_append.mpr ⟨?_, pairwise_singleton _ _, ?_⟩
    · refine pairwise_map.mpr (hs.planVersions.imp fun {a b} hne hsame => hne ?_)
      simpa [PlanRow.SameVersion] using hsame
    · intro plan hplan new hmem hsame
      obtain ⟨old, hold, rfl⟩ := mem_map.mp hplan
      rw [mem_singleton.mp hmem] at hsame
      exact hfree old hold (by simpa [PlanRow.SameVersion] using hsame)
  · intro plan hplan
    rcases mem_append.mp hplan with hplan | hplan
    · obtain ⟨old, hold, rfl⟩ := mem_map.mp hplan
      rw [retired_archived, hs.active old hold]
    · rw [mem_singleton.mp hplan]
      rfl
  · have hjoin : ∀ a ∈ s.plans.map (retired row), a.family = row.familyNo → a.root = row.rootId := by
      intro a ha hfamily
      obtain ⟨old, hold, rfl⟩ := mem_map.mp ha
      rw [retired_family] at hfamily
      rw [retired_root, hroot old hold hfamily]
    intro a ha b hb hfamily
    rcases mem_append.mp ha with ha | ha <;> rcases mem_append.mp hb with hb | hb
    · obtain ⟨old, hold, rfl⟩ := mem_map.mp ha
      obtain ⟨other, hother, rfl⟩ := mem_map.mp hb
      simp only [retired_family] at hfamily
      simpa using hs.oneRoot old hold other hother hfamily
    · rw [mem_singleton.mp hb] at hfamily ⊢
      exact hjoin a ha (hfamily.trans hnew)
    · rw [mem_singleton.mp ha] at hfamily ⊢
      exact (hjoin b hb (hfamily.symm.trans hnew)).symm
    · rw [mem_singleton.mp ha, mem_singleton.mp hb]
  · have hmem : planRow row ∈ s.plans.map (retired row) ++ [planRow row] := by simp
    intro a ha
    by_cases hfamily : a.family = row.familyNo
    · by_cases hfirst : row.isLatest = true
      · exact ⟨planRow row, hmem, hnew.trans hfamily.symm, hfirst⟩
      -- the family has a latest plan already, and no latest plan is retired
      have hexists : ∃ plan ∈ s.plans, plan.family = row.familyNo := by
        by_contra hnone
        exact hfirst (hlatest fun plan hplan h => hnone ⟨plan, hplan, h⟩)
      obtain ⟨plan, hplan, hin⟩ := hexists
      obtain ⟨b, hb, hbfamily, hblatest⟩ := hs.hasLatest plan hplan
      refine ⟨retired row b, mem_append_left _ (mem_map_of_mem hb), ?_, ?_⟩
      · rw [retired_family, hbfamily, hin, hfamily]
      · simp [retired, hfirst, hblatest]
    · rcases mem_append.mp ha with ha | ha
      · obtain ⟨old, hold, rfl⟩ := mem_map.mp ha
        rw [retired_family] at hfamily
        obtain ⟨b, hb, hbfamily, hblatest⟩ := hs.hasLatest old hold
        refine ⟨retired row b, mem_append_left _ (mem_map_of_mem hb), ?_, ?_⟩
        · rw [retired_family, retired_family, hbfamily]
        · rw [retired_of_family_ne (hbfamily ▸ hfamily), hblatest]
      · rw [mem_singleton.mp ha] at hfamily
        exact absurd hnew hfamily
  · intro e he hkind happlied
    obtain ⟨plan, hplan, hfamily⟩ := hs.applied e he hkind happlied
    exact ⟨retired row plan, mem_append_left _ (mem_map_of_mem hplan), by simpa using hfamily⟩

/-! ## Packages, evidence and bindings -/

theorem Sound.of_same {t : Store} (hs : s.Sound) (hplans : t.plans = s.plans)
    (hpackages : t.packages.Pairwise fun a b => ¬ a.SameVersion b) (hevidence : t.evidence = s.evidence) : t.Sound where
  planVersions := hplans ▸ hs.planVersions
  packageVersions := hpackages
  active := hplans ▸ hs.active
  oneRoot := hplans ▸ hs.oneRoot
  hasLatest := hplans ▸ hs.hasLatest
  applied := by
    rw [hplans, hevidence]
    exact hs.applied

variable {package : CreatedPackage} {result : Result} {provider : Provider} {familyNo : String} {q : PlanRequest} {observed : Option EvidenceRow} {r : Reconciliation}

theorem superseded_sameVersion {a b : PackageRow}
    (h : (superseded package a).SameVersion (superseded package b)) : a.SameVersion b := by
  have hroot : ∀ row, (superseded package row).root = row.root := by
    intro row
    unfold superseded
    split <;> rfl
  have hversion : ∀ row, (superseded package row).localVersion = row.localVersion := by
    intro row
    unfold superseded
    split <;> rfl
  have hplan : ∀ row, (superseded package row).keHoachId = row.keHoachId := by
    intro row
    unfold superseded
    split <;> rfl
  simpa only [PackageRow.SameVersion, hroot, hversion, hplan] using h

theorem Sound.supersede (hs : s.Sound) (h : s.supersede package = .ok s') : s'.Sound := by
  unfold Store.supersede at h
  split at h
  · cases h
    exact hs
  split at h
  · cases h
    refine hs.of_same rfl ?_ rfl
    refine pairwise_map.mpr (hs.packageVersions.imp fun {a b} hne hsame => hne ?_)
    exact superseded_sameVersion hsame
  · cases h

theorem Sound.insertPackage (hs : s.Sound) (h : s.insertPackage w package = .ok s') : s'.Sound := by
  unfold Store.insertPackage at h
  split at h
  · cases h
  rename_i hclash
  split at h
  · cases h
    refine hs.of_same rfl ?_ rfl
    refine pairwise_append.mpr ⟨hs.packageVersions, pairwise_singleton _ _, ?_⟩
    intro old hold new hnew hsame
    rw [mem_singleton.mp hnew] at hsame
    refine hclash (any_eq_true.mpr ⟨old, hold, ?_⟩)
    simp only [packageClashes, decide_eq_true_eq]
    exact Or.inr (Or.inl hsame)
  · cases h

theorem Sound.writePackage (hs : s.Sound) (h : s.writePackage w package = .ok s') : s'.Sound := by
  obtain ⟨t, hsupersede, h⟩ := bind_ok h
  exact (hs.supersede hsupersede).insertPackage h

theorem writePackage_plans (h : s.writePackage w package = .ok s') : s'.plans = s.plans := by
  obtain ⟨t, hsupersede, h⟩ := bind_ok h
  have ht : t.plans = s.plans := by
    unfold supersede at hsupersede
    split at hsupersede
    · cases hsupersede
      rfl
    · split at hsupersede
      · cases hsupersede
        rfl
      · cases hsupersede
  unfold insertPackage at h
  split at h
  · cases h
  split at h
  · cases h
    exact ht
  · cases h

theorem Sound.insertEvidence {row : EvidenceRow} (hs : s.Sound) (h : row.kind = .plan → row.disposition = .applied →
    ∃ plan ∈ s.plans, plan.family = upperCode row.familyKey) : (s.insertEvidence row).Sound := by
  unfold Store.insertEvidence
  split
  · exact hs
  refine ⟨hs.planVersions, hs.packageVersions, hs.active, hs.oneRoot, hs.hasLatest, ?_⟩
  intro e he
  rcases mem_append.mp he with he | he
  · exact hs.applied e he
  · rw [mem_singleton.mp he]
    exact h

theorem Sound.recordEvidence (hs : s.Sound) (h : result.provenance.kind = .plan → result.provenance.disposition = .applied →
    ∃ plan ∈ s.plans, plan.family = upperCode result.provenance.familyNo) : (s.recordEvidence w m result).Sound := by
  have hfirst : (s.insertEvidence (result.provenance.row w m.now)).Sound := hs.insertEvidence h
  unfold Store.recordEvidence
  simp only
  split
  · exact hfirst
  refine List.foldlRecOn (motive := Store.Sound) _ _ hfirst fun t ht row hrow => ?_
  apply ht.insertEvidence
  intro hkind
  obtain ⟨package, -, hlinked⟩ := mem_filterMap.mp hrow
  rw [CreatedPackage.linkedNotice_kind hlinked] at hkind
  cases hkind

theorem Sound.insertBinding {binding : CreatedBinding} (hs : s.Sound)
    (h : s.insertBinding w provider binding = .ok s') : s'.Sound := by
  unfold Store.insertBinding at h
  simp only at h
  split at h
  · cases h
  cases h
  split
  · exact hs
  · exact hs.of_same rfl hs.packageVersions rfl

/-- A result creates at most one plan, which joins the root of its family and is latest where it is
the first; the applied evidence of a plan comes with the plan. -/
structure Admissible (s : Store) (result : Result) : Prop where
  plans : result.createdPlans = [] ∨ ∃ row, result.createdPlans = [row] ∧ upperCode row.familyNo = row.familyNo
    ∧ (∀ plan ∈ s.plans, plan.family = row.familyNo → plan.root = row.rootId)
    ∧ ((∀ plan ∈ s.plans, plan.family ≠ row.familyNo) → row.isLatest = true)
  evidence : result.provenance.kind = .plan → result.provenance.disposition = .applied →
    ∃ row, result.createdPlans = [row] ∧ row.familyNo = result.provenance.familyNo

theorem Sound.persistRevision (hs : s.Sound) (hresult : s.Admissible result)
    (h : s.persistRevision w m result = .ok s') : s'.Sound := by
  unfold Store.persistRevision at h
  split at h
  · cases h
  obtain ⟨s₁, hplans, h⟩ := bind_ok h
  obtain ⟨s₂, hpackages, h⟩ := bind_ok h
  have h₁ : s₁.Sound ∧ (result.provenance.kind = .plan → result.provenance.disposition = .applied →
      ∃ plan ∈ s₁.plans, plan.family = upperCode result.provenance.familyNo) := by
    rcases hresult.plans with hnone | ⟨row, hrow, hcode, hroot, hlatest⟩
    · rw [hnone] at hplans
      cases hplans
      refine ⟨hs, fun hkind happlied => ?_⟩
      obtain ⟨row, hrow, -⟩ := hresult.evidence hkind happlied
      rw [hnone] at hrow
      cases hrow
    · rw [hrow, foldlM_cons] at hplans
      obtain ⟨t, hinsert, hplans⟩ := bind_ok hplans
      cases hplans
      refine ⟨hs.insertPlan hinsert hcode hroot hlatest, fun hkind happlied => ?_⟩
      obtain ⟨row', hrow', hfamily⟩ := hresult.evidence hkind happlied
      have hsame : row' = row := by simpa using hrow'.symm.trans hrow
      obtain ⟨-, rfl⟩ := insertPlan_ok hinsert
      refine ⟨planRow row, by simp, ?_⟩
      rw [← hfamily, hsame]
      rfl
  have h₂ : s₂.Sound ∧ s₂.plans = s₁.plans :=
    foldlM_ok (P := fun t : Store => t.Sound ∧ t.plans = s₁.plans) (fun t row t' _ hstep ht =>
        ⟨ht.1.writePackage hstep, (writePackage_plans hstep).trans ht.2⟩) hpackages ⟨h₁.1, rfl⟩
  have h₃ : (s₂.recordEvidence w m result).Sound := by
    apply h₂.1.recordEvidence
    rw [h₂.2]
    exact h₁.2
  exact foldlM_ok (P := Store.Sound) (fun t row t' _ hstep ht => ht.insertBinding hstep) h h₃

/-! ## The results of the reconcilers -/

theorem loadFamily_mem {id : Option String} {plan : PlanRow}
    (h : (s.loadFamily w.collation familyNo id).latestPlan = some plan) :
    plan ∈ s.plans ∧ plan.family = upperCode familyNo := by
  have hload : s.loadPlan w.collation familyNo id = some plan := by
    unfold loadFamily at h
    split at h
    · cases h
    · rename_i found hfound
      rw [hfound, ← h]
  have hmem : plan ∈ s.plans.filter fun row =>
      inFamily (upperCode familyNo) row ∧ row.archived = false := by
    unfold loadPlan at hload
    simp only at hload
    split at hload
    · exact mem_of_mem_filter (argmax_mem hload)
    · exact mem_of_find?_eq_some hload
  obtain ⟨hplan, hin⟩ := mem_filter.mp hmem
  exact ⟨hplan, of_decide_eq_true (of_decide_eq_true hin).1⟩

theorem Sound.loadFamily_none (hs : s.Sound) (h : (s.loadFamily w.collation familyNo none).latestPlan = none) :
    ∀ plan ∈ s.plans, plan.family ≠ upperCode familyNo := by
  intro plan hplan hfamily
  obtain ⟨latest, hlatest, hsame, hflag⟩ := hs.hasLatest plan hplan
  have hload : s.loadPlan w.collation familyNo none = none := by
    unfold loadFamily at h
    split at h
    · assumption
    · cases h
  unfold loadPlan latestPlanOf at hload
  rw [argmax_eq_none, filter_eq_nil_iff] at hload
  refine hload latest (mem_filter.mpr ⟨hlatest, ?_⟩) hflag
  have hin : inFamily (upperCode familyNo) latest = true := decide_eq_true (hsame.trans hfamily)
  simp [hin, hs.active latest hlatest]

theorem Sound.latestAppliedRevision_none (hs : s.Sound) (h : ∀ plan ∈ s.plans, plan.family ≠ upperCode familyNo) :
    s.latestAppliedRevision w.collation provider familyNo = none := by
  unfold latestAppliedRevision latestNumbered
  rw [Option.map_eq_none_iff, argmax_eq_none, filter_eq_nil_iff]
  intro row hrow hmatch
  obtain ⟨-, hkind, hfamily, happlied⟩ := of_decide_eq_true hmatch
  obtain ⟨plan, hplan, hin⟩ := hs.applied row hrow hkind happlied
  exact h plan hplan (hfamily ▸ hin)

theorem Sound.createdPlan (hs : s.Sound)
    {family : Family} {row : CreatedPlan} (hfamily : q.baseFamily w s observed = .ok family)
    (h : q.createdPlan w s observed family = .ok row) :
    row.familyNo = q.familyNo ∧ (∀ plan ∈ s.plans, plan.family = q.familyNo → plan.root = row.rootId)
      ∧ ((∀ plan ∈ s.plans, plan.family ≠ q.familyNo) → row.isLatest = true) := by
  obtain ⟨sourceVersion, -, h⟩ := bind_ok h
  split at h
  · cases h
  unfold PlanRequest.plannedRow at h
  simp only at h
  split at h
  · -- the family has no plan yet
    rename_i hnone
    split at h
    · cases h
    cases h
    have hload : (s.loadFamily w.collation q.familyNo none).latestPlan = none := by
      unfold PlanRequest.baseFamily at hfamily
      split at hfamily
      · cases hfamily
        exact hnone
      simp only at hfamily
      split at hfamily
      · cases hfamily
      · rename_i hsome
        cases hfamily
        simp [hnone] at hsome
    have habsent := hs.loadFamily_none hload
    rw [q.upperCode_familyNo] at habsent
    refine ⟨rfl, fun plan hplan hin => absurd hin (habsent plan hplan), fun _ => ?_⟩
    unfold PlanRequest.isLatestSource
    rw [hs.latestAppliedRevision_none (by rwa [q.upperCode_familyNo])]
    rfl
  · rename_i plan hsome
    cases h
    have hplan : plan ∈ s.plans ∧ plan.family = q.familyNo := by
      rw [← q.upperCode_familyNo]
      unfold PlanRequest.baseFamily at hfamily
      split at hfamily
      · cases hfamily
        exact loadFamily_mem hsome
      · simp only at hfamily
        split at hfamily
        · cases hfamily
        · cases hfamily
          exact loadFamily_mem hsome
    refine ⟨rfl, fun other hother hin => ?_, fun habsent => absurd hplan.2 (habsent plan hplan.1)⟩
    exact hs.oneRoot other hother plan hplan.1 (hin.trans hplan.2.symm)

theorem Sound.admissible_plan (hs : s.Sound) (h : q.result w s observed = .ok result) : s.Admissible result := by
  unfold PlanRequest.result at h
  simp only at h
  split at h
  · cases h
  obtain ⟨_, -, h⟩ := bind_ok h
  obtain ⟨family, hfamily, h⟩ := bind_ok h
  split at h
  · cases h
    refine ⟨Or.inl rfl, fun _ happlied => ?_⟩
    cases happlied
  · unfold PlanRequest.applied at h
    obtain ⟨row, hrow, h⟩ := bind_ok h
    obtain ⟨created, -, h⟩ := bind_ok h
    cases h
    obtain ⟨hin, hroot, hlatest⟩ := hs.createdPlan hfamily hrow
    refine ⟨Or.inr ⟨row, rfl, ?_, ?_, ?_⟩, fun _ _ => ⟨row, rfl, hin⟩⟩
    · rw [hin, q.upperCode_familyNo]
    · rwa [hin]
    · rwa [hin]

theorem admissible_notice {q : NoticeRequest} (h : q.result w s observed = .ok result) : s.Admissible result := by
  unfold NoticeRequest.result at h
  split at h
  · cases h
  split at h
  · cases h
  obtain ⟨_, -, h⟩ := bind_ok h
  obtain ⟨sourceVersion, -, h⟩ := bind_ok h
  obtain ⟨target, -, h⟩ := bind_ok h
  cases h
  unfold NoticeRequest.outcome
  split
  · exact ⟨Or.inl rfl, fun hkind => nomatch hkind⟩
  · exact ⟨Or.inl rfl, fun hkind => nomatch hkind⟩

theorem Sound.write (hs : s.Sound) (h : r.write w m s observed = .ok (result, s')) : s'.Sound := by
  obtain ⟨result', hresult, h⟩ := bind_ok h
  obtain ⟨t, hpersist, h⟩ := bind_ok h
  cases h
  apply hs.persistRevision _ hpersist
  cases r with
  | plan q =>
    simp only [Reconciliation.result] at hresult
    exact hs.admissible_plan hresult
  | notice q =>
    simp only [Reconciliation.result] at hresult
    exact admissible_notice hresult

theorem Sound.reconcile (hs : s.Sound) (h : r.reconcile w m s = .ok (result, s')) : s'.Sound := by
  unfold Reconciliation.reconcile at h
  split at h
  · cases h
  split at h
  · exact hs.write h
  split at h
  · cases h
    exact hs
  · split at h
    · cases h
    · exact hs.write h

/-- After any reconciliations a family has one root and a latest plan, and no version twice. -/
theorem sound_after (w : Setting) (history : List (Moment × Reconciliation)) : (after w history).Sound := by
  refine List.foldlRecOn (motive := Sound) _ _ sound_empty fun s hs event _ => ?_
  unfold step
  split
  · rename_i result s' h
    exact hs.reconcile h
  · exact hs

end Store

end Bidding.Procurement
