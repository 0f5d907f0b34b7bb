import Bidding.Procurement.Lineages

/-!
# When a repeated reconciliation is recognised

The no-op test reads the newest evidence of a revision, which a reconciliation only leaves where its row is really inserted
behind all the others (`Recognised`). A repetition is a no-op exactly there.
-/

namespace Bidding.Procurement

open Foundations List

namespace Reconciliation

variable (w : Setting) (m : Moment) (s : Store) (r : Reconciliation)

def evidenceId : String :=
  Store.stableId w [w.organizationId, r.provider.name, r.kind.name, r.revisionId, r.digest w]

/-- A row of evidence the evidence of the reconciliation would conflict with. -/
def Conflicting (old : EvidenceRow) : Prop :=
  old.id = r.evidenceId w ∨ (old.provider = r.provider ∧ old.kind = r.kind ∧ old.revisionUuid = r.revisionId
      ∧ old.digest = r.digest w) ∨ (old.provider = r.provider ∧ old.idempotencyKey = r.idempotencyKey
      ∧ old.revisionUuid = r.revisionId ∧ old.digest = r.digest w)

/-- The evidence of the revision is up to date, or the new evidence conflicts with none and is newer
than all there is. -/
def Recognised : Prop :=
  match s.findRevision w.collation r.provider r.kind r.revisionId with
  | none => ∀ old ∈ s.evidence, ¬ r.Conflicting w old
  | some observed =>
    observed.digest = r.digest w ∨ ((∀ old ∈ s.evidence, ¬ r.Conflicting w old)
      ∧ observed.rank w.collation < toLex (m.now, r.evidenceId w))

def SameContent : Reconciliation → Reconciliation → Prop
  | plan q, plan q' => q.provider = q'.provider ∧ q.revision = q'.revision
  | notice q, notice q' => q.provider = q'.provider ∧ q.notice = q'.notice
  | _, _ => False

end Reconciliation

section Written

variable {w : Setting} {m : Moment} {s s' : Store} {row : CreatedPackage} {t : Store}

theorem Store.supersede_evidence (h : s.supersede row = .ok s') : s'.evidence = s.evidence := by
  unfold Store.supersede at h
  split at h
  · cases h
    rfl
  · split at h
    · cases h
      rfl
    · cases h

theorem Store.writePackage_evidence (h : s.writePackage w row = .ok s') : s'.evidence = s.evidence := by
  obtain ⟨s₁, hsupersede, h⟩ := bind_ok h
  have hsame := Store.supersede_evidence hsupersede
  unfold Store.insertPackage at h
  split at h
  · cases h
  split at h
  · cases h
    exact hsame
  · cases h

theorem Store.insertPlan_evidence {row : CreatedPlan} (h : s.insertPlan w row = .ok s') : s'.evidence = s.evidence := by
  unfold Store.insertPlan at h
  simp only at h
  split at h
  · cases h
  · cases h
    rfl

theorem Store.insertBinding_evidence {provider : Provider} {binding : CreatedBinding}
    (h : s.insertBinding w provider binding = .ok s') : s'.evidence = s.evidence := by
  unfold Store.insertBinding at h
  simp only at h
  split at h
  · cases h
  · cases h
    split <;> rfl

theorem Store.foldl_insertEvidence_congr (rows : List EvidenceRow) (h : t.evidence = s.evidence) :
    (rows.foldl Store.insertEvidence t).evidence = (rows.foldl Store.insertEvidence s).evidence := by
  induction rows generalizing s t with
  | nil => exact h
  | cons row rows ih =>
    apply ih
    unfold Store.insertEvidence
    rw [h]
    split
    · exact h
    · rfl

theorem Store.recordEvidence_congr {result : Result} (h : t.evidence = s.evidence) :
    (t.recordEvidence w m result).evidence = (s.recordEvidence w m result).evidence := by
  have hfirst := Store.foldl_insertEvidence_congr [result.provenance.row w m.now] h
  unfold Store.recordEvidence
  simp only
  split
  · exact hfirst
  · exact Store.foldl_insertEvidence_congr _ hfirst

theorem Store.persistRevision_evidence {result : Result} (h : s.persistRevision w m result = .ok s') :
    s'.evidence = (s.recordEvidence w m result).evidence := by
  unfold Store.persistRevision at h
  split at h
  · cases h
  obtain ⟨s₁, hplans, h⟩ := bind_ok h
  obtain ⟨s₂, hpackages, h⟩ := bind_ok h
  have h₁ : s₁.evidence = s.evidence :=
    foldlM_ok (P := fun t : Store => t.evidence = s.evidence)
      (fun t row t' _ hstep ht => (Store.insertPlan_evidence hstep).trans ht) hplans rfl
  have h₂ : s₂.evidence = s.evidence :=
    foldlM_ok (P := fun t : Store => t.evidence = s.evidence)
      (fun t row t' _ hstep ht => (Store.writePackage_evidence hstep).trans ht) hpackages h₁
  have h₃ : s'.evidence = (s₂.recordEvidence w m result).evidence :=
    foldlM_ok (P := fun t : Store => t.evidence = (s₂.recordEvidence w m result).evidence)
      (fun t row t' _ hstep ht => (Store.insertBinding_evidence hstep).trans ht) h rfl
  rw [h₃]
  exact Store.recordEvidence_congr h₂

theorem Store.filter_foldl_insertEvidence {about : EvidenceRow → Bool} (rows : List EvidenceRow)
    (h : ∀ row ∈ rows, about row = false) :
    (rows.foldl Store.insertEvidence s).evidence.filter about = s.evidence.filter about := by
  induction rows generalizing s with
  | nil => rfl
  | cons row rows ih =>
    rw [foldl_cons, ih fun row' hrow' => h row' (mem_cons_of_mem _ hrow')]
    unfold Store.insertEvidence
    split
    · rfl
    · simp [filter_append, h row mem_cons_self]

theorem Store.findRevision_recordEvidence (result : Result) :
    (s.recordEvidence w m result).findRevision w.collation result.provenance.provider
        result.provenance.kind result.provenance.revisionId =
      (s.insertEvidence (result.provenance.row w m.now)).findRevision w.collation
        result.provenance.provider result.provenance.kind result.provenance.revisionId := by
  unfold Store.recordEvidence Store.findRevision
  simp only
  cases hkind : result.provenance.kind with
  | notice => rfl
  | plan =>
    congr 1
    apply Store.filter_foldl_insertEvidence
    intro row hrow
    obtain ⟨package, -, hlinked⟩ := mem_filterMap.mp hrow
    simp [EvidenceRow.isAbout, CreatedPackage.linkedNotice_kind hlinked]

theorem Store.findRevision_insertEvidence (row : EvidenceRow) :
    (s.insertEvidence row).findRevision w.collation row.provider row.kind row.revisionUuid =
      if s.evidence.any (Store.evidenceClashes row) then
        s.findRevision w.collation row.provider row.kind row.revisionUuid
      else
        match s.findRevision w.collation row.provider row.kind row.revisionUuid with
        | none => some row
        | some old => if old.rank w.collation < row.rank w.collation then some row else some old := by
  unfold Store.insertEvidence
  split
  · rfl
  have habout : EvidenceRow.isAbout row.provider row.kind row.revisionUuid row = true := by
    simp [EvidenceRow.isAbout]
  unfold Store.findRevision newest
  simp only [filter_append, filter_cons, habout, if_true, filter_nil, argmax_concat]
  cases List.argmax (EvidenceRow.rank w.collation)
    (s.evidence.filter (EvidenceRow.isAbout row.provider row.kind row.revisionUuid)) <;> rfl

end Written

/-! ## Repeating a reconciliation -/

namespace Reconciliation

variable {w : Setting} {m m' : Moment} {s s' : Store} {r again : Reconciliation} {result : Result}
  {observed : Option EvidenceRow}

/-- The evidence of a result is about the revision, under the key and the digest of the request. -/
structure Evidences (w : Setting) (r : Reconciliation) (result : Result) : Prop where
  operation : result.operation ≠ .noop
  provider : result.provenance.provider = r.provider
  kind : result.provenance.kind = r.kind
  revisionId : result.provenance.revisionId = r.revisionId
  digest : result.provenance.digest = r.digest w
  idempotencyKey : result.provenance.idempotencyKey = r.idempotencyKey

theorem evidences_plan {q : PlanRequest} (h : q.result w s observed = .ok result) :
    (Reconciliation.plan q).Evidences w result := by
  unfold PlanRequest.result at h
  simp only at h
  split at h
  · cases h
  obtain ⟨_, -, h⟩ := bind_ok h
  obtain ⟨family, -, h⟩ := bind_ok h
  split at h
  · cases h
    exact ⟨by simp, rfl, rfl, rfl, rfl, rfl⟩
  · unfold PlanRequest.applied at h
    obtain ⟨plan, -, h⟩ := bind_ok h
    obtain ⟨created, -, h⟩ := bind_ok h
    cases h
    exact ⟨by simp, rfl, rfl, rfl, rfl, rfl⟩

theorem evidences_notice {q : NoticeRequest} (h : q.result w s observed = .ok result) :
    (Reconciliation.notice q).Evidences w result := by
  unfold NoticeRequest.result at h
  split at h
  · cases h
  split at h
  · cases h
  obtain ⟨_, -, h⟩ := bind_ok h
  obtain ⟨sourceVersion, -, h⟩ := bind_ok h
  obtain ⟨target, -, h⟩ := bind_ok h
  cases h
  unfold NoticeRequest.outcome
  split
  · exact ⟨by simp, rfl, rfl, rfl, rfl, rfl⟩
  · exact ⟨by simp, rfl, rfl, rfl, rfl, rfl⟩

theorem evidences (h : r.result w s observed = .ok result) : r.Evidences w result := by
  cases r with
  | plan q =>
    simp only [Reconciliation.result] at h
    exact evidences_plan h
  | notice q =>
    simp only [Reconciliation.result] at h
    exact evidences_notice h

theorem findRevision_write (h : r.write w m s observed = .ok (result, s')) :
    ∃ row : EvidenceRow, row.digest = r.digest w ∧ row.rank w.collation = toLex (m.now, r.evidenceId w)
      ∧ (∀ old, Store.evidenceClashes row old = true ↔ r.Conflicting w old)
      ∧ s'.findRevision w.collation r.provider r.kind r.revisionId = if s.evidence.any (Store.evidenceClashes row) then
          s.findRevision w.collation r.provider r.kind r.revisionId
        else
          match s.findRevision w.collation r.provider r.kind r.revisionId with
          | none => some row
          | some old =>
            if old.rank w.collation < row.rank w.collation then some row else some old := by
  obtain ⟨result', hresult, h⟩ := bind_ok h
  obtain ⟨t, hpersist, h⟩ := bind_ok h
  cases h
  have hev := evidences hresult
  have hid : (result.provenance.row w m.now).id = r.evidenceId w := by
    simp only [Provenance.row, evidenceId, hev.provider, hev.kind, hev.revisionId, hev.digest]
  refine ⟨result.provenance.row w m.now, hev.digest, ?_, ?_, ?_⟩
  · rw [← hid]
    rfl
  · intro old
    simp only [Store.evidenceClashes, Conflicting, ← hid, ← hev.provider, ← hev.kind,
      ← hev.revisionId, ← hev.digest, ← hev.idempotencyKey, decide_eq_true_eq]
    rfl
  · have hsame : s'.findRevision w.collation r.provider r.kind r.revisionId =
        (s.recordEvidence w m result).findRevision w.collation r.provider r.kind r.revisionId := by
      unfold Store.findRevision
      rw [Store.persistRevision_evidence hpersist]
    rw [hsame, ← hev.provider, ← hev.kind, ← hev.revisionId, Store.findRevision_recordEvidence]
    exact Store.findRevision_insertEvidence _

theorem SameContent.named (h : r.SameContent again) (hr : r.named = true)
    (hkey : again.idempotencyKey ≠ "") : again.named = true := by
  cases r with
  | plan q =>
    cases again with
    | plan q' =>
      obtain ⟨-, hrevision⟩ := h
      simp only [Reconciliation.named, PlanRequest.familyNo, PlanRequest.revisionId, hrevision,
        decide_eq_true_eq] at hr ⊢
      exact decide_eq_true ⟨hr.1, hr.2.1, hkey⟩
    | notice q' => exact h.elim
  | notice q =>
    cases again with
    | plan q' => exact h.elim
    | notice q' =>
      obtain ⟨-, hnotice⟩ := h
      simp only [Reconciliation.named, NoticeRequest.noticeNo, NoticeRequest.revisionId,
        NoticeRequest.revisionNumber, hnotice, decide_eq_true_eq] at hr ⊢
      exact decide_eq_true ⟨hr.1, hr.2.1, hr.2.2.1, hkey⟩

theorem SameContent.same (h : r.SameContent again) :
    again.provider = r.provider ∧ again.kind = r.kind ∧ again.revisionId = r.revisionId ∧ again.digest w = r.digest w := by
  cases r with
  | plan q =>
    cases again with
    | plan q' =>
      obtain ⟨hprovider, hrevision⟩ := h
      simp [provider, kind, revisionId, digest, PlanRequest.revisionId, PlanRequest.digest, hprovider, hrevision]
    | notice q' => exact h.elim
  | notice q =>
    cases again with
    | plan q' => exact h.elim
    | notice q' =>
      obtain ⟨hprovider, hnotice⟩ := h
      simp [provider, kind, revisionId, digest, NoticeRequest.revisionId, NoticeRequest.digest, hprovider, hnotice]

theorem write_ne_noop {o : EvidenceRow} : r.write w m s observed ≠ .ok (noop o, s') := by
  intro h
  obtain ⟨result', hresult, h⟩ := bind_ok h
  obtain ⟨t, -, h⟩ := bind_ok h
  cases h
  exact (evidences hresult).operation rfl

theorem reconcile_noop_iff (hnamed : r.named = true) : (∃ o, r.reconcile w m s = .ok (noop o, s)) ↔
    ∃ o, s.findRevision w.collation r.provider r.kind r.revisionId = some o ∧ o.digest = r.digest w := by
  unfold reconcile
  rw [if_neg (by simp [hnamed])]
  cases hfound : s.findRevision w.collation r.provider r.kind r.revisionId with
  | none =>
    constructor
    · rintro ⟨o, h⟩
      exact absurd h write_ne_noop
    · rintro ⟨o, h, -⟩
      cases h
  | some observed =>
    simp only
    by_cases hdigest : observed.digest = r.digest w
    · rw [if_pos hdigest]
      exact ⟨fun _ => ⟨observed, rfl, hdigest⟩, fun _ => ⟨observed, rfl⟩⟩
    rw [if_neg hdigest]
    constructor
    · rintro ⟨o, h⟩
      split at h
      · cases h
      · exact absurd h write_ne_noop
    · rintro ⟨o, h, hsame⟩
      cases h
      exact absurd hsame hdigest

/-- After a reconciliation the newest evidence of the revision has its digest exactly where the
reconciliation is recognised. -/
theorem findRevision_reconcile (h : r.reconcile w m s = .ok (result, s')) :
    (∃ o, s'.findRevision w.collation r.provider r.kind r.revisionId = some o
      ∧ o.digest = r.digest w) ↔ r.Recognised w m s := by
  unfold reconcile at h
  split at h
  · cases h
  unfold Recognised
  have hfree : ∀ {row : EvidenceRow}, (∀ old, Store.evidenceClashes row old = true ↔ r.Conflicting w old) →
      (s.evidence.any (Store.evidenceClashes row) = true ↔
        ¬ ∀ old ∈ s.evidence, ¬ r.Conflicting w old) := by
    intro row hclash
    simp [any_eq_true, hclash]
  cases hfound : s.findRevision w.collation r.provider r.kind r.revisionId with
  | none =>
    rw [hfound] at h
    obtain ⟨row, hdigest, -, hclash, hafter⟩ := findRevision_write h
    rw [hafter, hfound]
    by_cases hany : s.evidence.any (Store.evidenceClashes row) = true
    · rw [if_pos hany]
      constructor
      · rintro ⟨o, ho, -⟩
        cases ho
      · intro hnone
        exact absurd hnone ((hfree hclash).mp hany)
    · rw [if_neg hany]
      have hnone := not_not.mp (mt (hfree hclash).mpr hany)
      exact ⟨fun _ => hnone, fun _ => ⟨row, rfl, hdigest⟩⟩
  | some observed =>
    rw [hfound] at h
    simp only at h ⊢
    by_cases hsame : observed.digest = r.digest w
    · rw [if_pos hsame] at h
      cases h
      exact ⟨fun _ => Or.inl hsame, fun _ => ⟨observed, hfound, hsame⟩⟩
    · rw [if_neg hsame] at h
      split at h
      · cases h
      obtain ⟨row, hdigest, hrank, hclash, hafter⟩ := findRevision_write h
      rw [hafter, hfound, ← hrank]
      by_cases hany : s.evidence.any (Store.evidenceClashes row) = true
      · rw [if_pos hany]
        have hconflict := (hfree hclash).mp hany
        constructor
        · rintro ⟨o, ho, hd⟩
          cases ho
          exact absurd hd hsame
        · rintro (hd | ⟨hnone, -⟩)
          · exact absurd hd hsame
          · exact absurd hnone hconflict
      · rw [if_neg hany]
        have hnone := not_not.mp (mt (hfree hclash).mpr hany)
        simp only
        by_cases hnewer : observed.rank w.collation < row.rank w.collation
        · rw [if_pos hnewer]
          exact ⟨fun _ => Or.inr ⟨hnone, hnewer⟩, fun _ => ⟨row, rfl, hdigest⟩⟩
        rw [if_neg hnewer]
        constructor
        · rintro ⟨o, ho, hd⟩
          cases ho
          exact absurd hd hsame
        · rintro (hd | ⟨-, hn⟩)
          · exact absurd hd hsame
          · exact absurd hn hnewer

theorem again_noop_iff (h : r.reconcile w m s = .ok (result, s')) (hsame : r.SameContent again)
    (hkey : again.idempotencyKey ≠ "") : (∃ o, again.reconcile w m' s' = .ok (noop o, s')) ↔ r.Recognised w m s := by
  have hnamed : r.named = true := by
    by_contra hn
    unfold reconcile at h
    rw [if_pos (by simpa using hn)] at h
    cases h
  obtain ⟨hprovider, hkind, hid, hdigest⟩ := hsame.same (w := w)
  rw [reconcile_noop_iff (hsame.named hnamed hkey), hprovider, hkind, hid, hdigest]
  exact findRevision_reconcile h

end Reconciliation

/-- No two active plans of a family, and no two active packages of a root in a plan, have the same
version. -/
def Store.OneRowPerVersion (s : Store) : Prop :=
  (s.plans.Pairwise fun a b => a.archived = false → b.archived = false →
      upperCode a.maKeHoach = upperCode b.maKeHoach → a.localVersion ≠ b.localVersion)
    ∧ (s.packages.Pairwise fun a b => a.archived = false → b.archived = false →
      a.root = b.root → a.keHoachId = b.keHoachId → a.localVersion ≠ b.localVersion)

theorem Store.Sound.oneRowPerVersion {s : Store} (hs : s.Sound) : s.OneRowPerVersion := by
  constructor
  · refine hs.planVersions.imp_of_mem fun {a b} ha hb hne _ _ hfamily hversion => hne ⟨?_, hversion⟩
    exact hs.oneRoot a ha b hb hfamily
  · exact hs.packageVersions.imp fun hne _ _ hroot hplan hversion => hne ⟨hroot, hversion, hplan⟩

/-- After every history of reconciliations, content that is reconciled successfully is a no-op when
it is reconciled again, under any key and with any row versions, exactly where the first time was
recognised; and no two active rows are the same version. -/
theorem reimport_noop_iff (w : Setting) (history : List (Moment × Reconciliation)) :
    (∀ (m m' : Moment) (r again : Reconciliation) (result : Result) (s' : Store),
      r.reconcile w m (Store.after w history) = .ok (result, s') → r.SameContent again → again.idempotencyKey ≠ "" →
        ((∃ observed, again.reconcile w m' s' = .ok (Reconciliation.noop observed, s')) ↔
          r.Recognised w m (Store.after w history)))
      ∧ (Store.after w history).OneRowPerVersion :=
  ⟨fun _ _ _ _ _ _ h hsame hkey => Reconciliation.again_noop_iff h hsame hkey, (Store.sound_after w history).oneRowPerVersion⟩

/-- A setting in which `uuid5` keeps its text. -/
def sampleSetting : Setting :=
  { organizationId := "o", collation := .codePoints, text := .plain, uuid5 := id
    canonicalDigest := fun _ => "" }

def samplePlan (idempotencyKey : String) : Reconciliation :=
  .plan
    { provider := .muasamcong, idempotencyKey := idempotencyKey, expectedPlanRowVersion := 0
      packageDecisions := []
      revision :=
        { familyNo := "P", revisionId := "p", revisionNumber := "00", revisionDigest := some "d"
          others := .empty, packages := [⟨some "b", none, .none, none, ""⟩] } }

def sampleNotice (revisionId number digest idempotencyKey : String) : Reconciliation :=
  .notice
    { provider := .muasamcong, idempotencyKey := idempotencyKey, expectedPackageRowVersion := 1
      targetPackageRootId := none
      notice :=
        { noticeNo := "N", revisionId := revisionId, revisionNumber := number
          revisionDigest := some digest, relationship := ⟨"P", "b", "", ""⟩, fields := .empty } }

def sampleHistory : List (Moment × Reconciliation) :=
  [(⟨1, true⟩, samplePlan "k"), (⟨2, true⟩, sampleNotice "n" "01" "d" "k"),
    (⟨3, true⟩, sampleNotice "m" "02" "e" "k"), (⟨4, true⟩, sampleNotice "m" "03" "f" "k")]

def repeats (w : Setting) (s : Store) (m m' : Moment) (r again : Reconciliation) : Option (Option OperationName) :=
  match r.reconcile w m s with
  | .error _ => none
  | .ok (_, s') =>
    match again.reconcile w m' s' with
    | .error _ => some none
    | .ok (result, _) => some (some result.operation)

theorem of_repeats {w : Setting} {s : Store} {m m' : Moment} {r again : Reconciliation}
    {second : Option OperationName} (h : repeats w s m m' r again = some second) :
    ∃ result s', r.reconcile w m s = .ok (result, s') ∧ (second ≠ some .noop →
        ¬ ∃ o, again.reconcile w m' s' = .ok (Reconciliation.noop o, s')) := by
  unfold repeats at h
  cases hfirst : r.reconcile w m s with
  | error e =>
    rw [hfirst] at h
    cases h
  | ok pair =>
    rw [hfirst] at h
    refine ⟨pair.1, pair.2, rfl, ?_⟩
    rintro hne ⟨o, hagain⟩
    simp only [hagain, Option.some.injEq] at h
    exact hne h.symm

theorem reimport_noop_iff_sample :
    ∃ result s', (samplePlan "k").reconcile sampleSetting ⟨1, true⟩ Store.empty = .ok (result, s')
      ∧ ∃ o, (samplePlan "l").reconcile sampleSetting ⟨2, true⟩ s' = .ok (Reconciliation.noop o, s') := by
  have hfirst : repeats sampleSetting Store.empty ⟨1, true⟩ ⟨2, true⟩ (samplePlan "k")
      (samplePlan "l") = some (some .noop) := by decide
  obtain ⟨result, s', h, -⟩ := of_repeats hfirst
  have hrecognised : (samplePlan "k").Recognised sampleSetting ⟨1, true⟩ Store.empty := by
    simp [Reconciliation.Recognised, Store.findRevision, newest, Store.empty]
  exact ⟨result, s', h, ((reimport_noop_iff sampleSetting []).1 ⟨1, true⟩ ⟨2, true⟩ (samplePlan "k")
    (samplePlan "l") result s' h ⟨rfl, rfl⟩ (by decide)).mpr hrecognised⟩

/-- The source changes the second revision of the notice, under another number, and changes it back. The third reconciliation of
it succeeds, but the evidence of the change stays the newest: right after it, the same content is no no-op. -/
theorem changed_back_not_noop : ∃ result s', (sampleNotice "m" "02" "e" "l").reconcile sampleSetting ⟨5, true⟩
      (Store.after sampleSetting sampleHistory) = .ok (result, s')
    ∧ ¬ ∃ o, (sampleNotice "m" "02" "e" "l").reconcile sampleSetting ⟨6, true⟩ s' = .ok (Reconciliation.noop o, s') := by
  have hthird : repeats sampleSetting (Store.after sampleSetting sampleHistory) ⟨5, true⟩ ⟨6, true⟩
      (sampleNotice "m" "02" "e" "l") (sampleNotice "m" "02" "e" "l") = some none := by
    decide +kernel
  obtain ⟨result, s', h, hnot⟩ := of_repeats hthird
  exact ⟨result, s', h, hnot (by decide)⟩

end Bidding.Procurement
