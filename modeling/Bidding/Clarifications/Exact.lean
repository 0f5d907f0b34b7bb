import Bidding.Clarifications.Parity

/-!
# The append is exact and repeatable

What is planned is new, comes from versions the record has reached, is what the button would add, and is not planned
again once it is stored.
-/

namespace Bidding.Clarifications

open Foundations List Option

variable {input : MergeInput} {kind : Kind} {id : List Char} {version : List Char × SourceRows} {rowsByVersion : Dict (List Char) SourceRows} {target : List Char} {scope : List (List Char × SourceRows) × Bool}

def AppendPlan.of (plan : AppendPlan) : Kind → List PlannedRow
  | .request => plan.requests
  | .response => plan.responses

def appendRows (current : List StoredRow) (plan : AppendPlan) : List StoredRow := current ++ insertedRows current plan

def payloads (input : MergeInput) (versions : List (List Char × SourceRows)) : List (List (List Char)) :=
  [Kind.request, Kind.response].flatMap fun kind =>
    ((sourceItems versions kind).filter fun item => sourceIdentity item.2 ≠ []).map fun item =>
      input.payload kind item.1 (sourceIdentity item.2)

def DistinctDigests (input : MergeInput) (versions : List (List Char × SourceRows)) : Prop :=
  ∀ p ∈ payloads input versions, ∀ p' ∈ payloads input versions, input.sha256 p = input.sha256 p' → p = p'

/-- A plan leaves the stored rows as they are, gives the named rows ids of their own, has a source row of a version that the
record has reached for each of its rows, plans nothing when it is stored, and has the rows that the button adds. -/
structure AppendExact (input : MergeInput) (target : List Char) (current : List StoredRow)
    (rowsByVersion : Dict (List Char) SourceRows) (versions : List (List Char × SourceRows)) (plan : AppendPlan) : Prop where
  untouched : current <+: appendRows current plan
  distinct : ((plan.rows.map PlannedRow.id).filter importedRowId).Nodup
  fresh : ∀ kind, ∀ row ∈ plan.of kind, importedRowId row.id = true →
    ∀ stored ∈ current, stored.loai = kind → stored.id ≠ row.id
  reached : ∀ kind, ∀ row ∈ plan.of kind, ∃ entry ∈ rowsByVersion.entries, ∃ version,
    revisionNumber entry.1 = .ok version ∧ versionValue version ≤ versionValue target ∧
      ∃ source ∈ entry.2.of kind, row.noiDung = source.content ∧
        row.displayTime = formatForDatetimeLocal input.parseOther source.time
  repeatable : ∀ reread : List StoredRow, reread.Perm (appendRows current plan) → ∀ generated,
    ∃ plan', planAppend input generated target reread rowsByVersion = .ok plan' ∧ plan'.rows = []
  button : ∀ kind generated, ((mergeInvitationUpdateRows input ((current.filter fun row => row.loai = kind).map StoredRow.form)
      ((sourceItems versions kind).map (assignLocalRowId input kind)) generated).cores.drop
        (current.filter fun row => row.loai = kind).length).map coreView = (plan.of kind).map PlannedRow.view

theorem Digest.hex_injective {digest digest' : Digest} (h : digest.hex = digest'.hex) : digest = digest' := by
  have hdigit : ∀ a b : Fin 16, Nat.digitChar a.val = Nat.digitChar b.val → a = b := by decide
  exact Subtype.ext (map_injective_iff.mpr (fun a b => hdigit a b) h)

theorem payload_mem {versions : List (List Char × SourceRows)} {item : SourceItem}
    (hitem : item ∈ sourceItems versions kind) (hid : rowIdOf input kind item = some id) :
    input.payload kind item.1 (sourceIdentity item.2) ∈ payloads input versions := by
  have hidentity : sourceIdentity item.2 ≠ [] := by
    intro hempty
    unfold rowIdOf at hid
    rw [if_pos hempty] at hid
    cases hid
  have hkind : kind ∈ [Kind.request, Kind.response] := by cases kind <;> decide
  exact mem_flatMap.mpr ⟨kind, hkind, mem_map_of_mem (mem_filter.mpr ⟨hitem, decide_eq_true hidentity⟩)⟩

theorem payload_of_rowIdOf {versions : List (List Char × SourceRows)} (hdigests : DistinctDigests input versions)
    {kind' : Kind} {item item' : SourceItem} (hitem : item ∈ sourceItems versions kind)
    (hitem' : item' ∈ sourceItems versions kind') (hid : rowIdOf input kind item = some id)
    (hid' : rowIdOf input kind' item' = some id) :
    input.payload kind item.1 (sourceIdentity item.2) = input.payload kind' item'.1 (sourceIdentity item'.2) := by
  apply hdigests _ (payload_mem hitem hid) _ (payload_mem hitem' hid')
  apply Digest.hex_injective
  unfold rowIdOf at hid hid'
  split at hid
  · cases hid
  split at hid'
  · cases hid'
  · have hsame := (some.inj hid).trans (some.inj hid').symm
    exact append_cancel_left hsame

theorem distinctIds_of_digests {versions : List (List Char × SourceRows)} (hdigests : DistinctDigests input versions)
    (kind : Kind) : DistinctIds input kind (sourceItems versions kind) := by
  intro item hitem item' hitem' id hid hid'
  have hpayload := payload_of_rowIdOf hdigests hitem hitem' hid hid'
  unfold MergeInput.payload at hpayload
  exact (List.cons.inj (List.cons.inj (List.cons.inj hpayload).2).2).1

theorem foldlM_addVersion {entries : List (List Char × SourceRows)} {acc out : List (List Char × SourceRows)}
    (h : entries.foldlM addVersion acc = .ok out) (hmem : version ∈ out) :
    version ∈ acc ∨ ∃ entry ∈ entries, revisionNumber entry.1 = .ok version.1 ∧ entry.2 = version.2 := by
  induction entries generalizing acc with
  | nil =>
    cases h
    exact Or.inl hmem
  | cons entry entries ih =>
    rw [foldlM_cons] at h
    cases hadd : addVersion acc entry with
    | error e =>
      rw [hadd] at h
      cases h
    | ok acc' =>
      rw [hadd] at h
      rcases ih h with hacc | ⟨entry', hentry', hspec⟩
      · unfold addVersion at hadd
        cases hnumber : revisionNumber entry.1 with
        | error e =>
          rw [hnumber] at hadd
          cases hadd
        | ok number =>
          rw [hnumber] at hadd
          simp only [bind, Except.bind, pure, Except.pure] at hadd
          split at hadd
          · cases hadd
          rw [← Except.ok.inj hadd] at hacc
          rcases mem_append.mp hacc with hold | hnew
          · exact Or.inl hold
          · rw [mem_singleton.mp hnew]
            exact Or.inr ⟨entry, mem_cons_self, hnumber, rfl⟩
      · exact Or.inr ⟨entry', mem_cons_of_mem _ hentry', hspec⟩

theorem rowsInScope_reached (h : rowsInScope rowsByVersion target = .ok scope) (hmem : version ∈ scope.1) :
    ∃ entry ∈ rowsByVersion.entries, revisionNumber entry.1 = .ok version.1 ∧ entry.2 = version.2 ∧
      versionValue version.1 ≤ versionValue target := by
  unfold rowsInScope at h
  cases hversions : rowsByVersion.entries.foldlM addVersion [] with
  | error e =>
    rw [hversions] at h
    cases h
  | ok versions =>
    rw [hversions] at h
    simp only [bind, Except.bind, pure, Except.pure] at h
    rw [← Except.ok.inj h] at hmem
    obtain ⟨hsorted, hreached⟩ := mem_filter.mp hmem
    rw [mem_mergeSort] at hsorted
    obtain ⟨entry, hentry, hnumber, hrows⟩ := (foldlM_addVersion hversions hsorted).resolve_left not_mem_nil
    exact ⟨entry, hentry, hnumber, hrows, of_decide_eq_true hreached⟩

/-! ## The plan -/

theorem planAppend_ok (h : rowsInScope rowsByVersion target = .ok scope)
    (input : MergeInput) (generated : ℕ) (current : List StoredRow) :
    ∃ generated', planAppend input generated target current rowsByVersion = .ok
      { requests := (mergeKind input .request current scope.1 generated).planned
        responses := (mergeKind input .response current scope.1 generated').planned
        newerRevisionRows := scope.2 } := by
  unfold planAppend
  rw [h]
  exact ⟨_, rfl⟩

/-- The rows of a plan, by kind, are those of a merge. -/
structure Merged (input : MergeInput) (current : List StoredRow) (versions : List (List Char × SourceRows))
    (plan : AppendPlan) : Prop where
  requests : ∃ generated, plan.requests = (mergeKind input .request current versions generated).planned
  responses : ∃ generated, plan.responses = (mergeKind input .response current versions generated).planned

variable {current : List StoredRow} {versions : List (List Char × SourceRows)} {plan : AppendPlan}

section

variable (h : Merged input current versions plan)
include h

theorem Merged.of (kind : Kind) : ∃ generated, plan.of kind = (mergeKind input kind current versions generated).planned := by
  cases kind with
  | request => exact h.requests
  | response => exact h.responses

theorem Merged.distinct (hdigests : DistinctDigests input versions) :
    ((plan.rows.map PlannedRow.id).filter importedRowId).Nodup := by
  obtain ⟨generated, hrequests⟩ := h.requests
  obtain ⟨generated', hresponses⟩ := h.responses
  have hplan := mergeKind_plan input .request current versions generated
  have hplan' := mergeKind_plan input .response current versions generated'
  unfold AppendPlan.rows
  rw [map_append, filter_append, nodup_append, hrequests, hresponses]
  refine ⟨hplan.keyed, hplan'.keyed, fun id hid id' hid' heq => ?_⟩
  obtain ⟨hmem, himported⟩ := mem_filter.mp hid
  obtain ⟨hmem', -⟩ := mem_filter.mp hid'
  obtain ⟨row, hrow, hrowId⟩ := mem_map.mp hmem
  obtain ⟨row', hrow', hrowId'⟩ := mem_map.mp hmem'
  obtain ⟨before, item, hitem, -, rfl⟩ := hplan.rows row hrow
  obtain ⟨before', item', hitem', -, rfl⟩ := hplan'.rows row' hrow'
  rw [← hrowId, importedRowId_plannedRow] at himported
  obtain ⟨named, hnamed⟩ := isSome_iff_exists.mp himported
  have himported' : importedRowId (plannedRow input .response before' item').id = true := by
    rw [hrowId', ← heq, ← hrowId, importedRowId_plannedRow, hnamed]
    rfl
  rw [importedRowId_plannedRow] at himported'
  obtain ⟨named', hnamed'⟩ := isSome_iff_exists.mp himported'
  have hsame : named' = named := by
    rw [← plannedRow_id before hnamed, ← plannedRow_id before' hnamed', hrowId, hrowId', heq]
  rw [hsame] at hnamed'
  have hpayload := payload_of_rowIdOf hdigests hitem hitem' hnamed hnamed'
  unfold MergeInput.payload at hpayload
  have hname := (List.cons.inj (List.cons.inj (List.cons.inj (List.cons.inj hpayload).2).2).2).1
  revert hname
  decide

theorem Merged.repeatable {reread : List StoredRow}
    (hreread : reread.Perm (appendRows current plan)) (kind : Kind) (generated : ℕ) :
    (mergeKind input kind reread versions generated).planned = [] := by
  obtain ⟨generated₁, hrequests⟩ := h.requests
  obtain ⟨generated₂, hresponses⟩ := h.responses
  have hinserted := @filter_insertedRows current plan
    (fun row hrow => mergeKind_loai (hrequests ▸ hrow)) (fun row hrow => mergeKind_loai (hresponses ▸ hrow))
  have hperm := hreread.filter fun row => decide (row.loai = kind)
  unfold appendRows at hperm
  rw [filter_append] at hperm
  cases kind with
  | request =>
    rw [hinserted.1, hrequests] at hperm
    exact mergeKind_rerun input .request current reread versions generated₁ generated _ hperm
  | response =>
    rw [hinserted.2, hresponses] at hperm
    exact mergeKind_rerun input .response current reread versions generated₂ generated _ hperm

end

/-- An append over a history that can be read is exact and repeatable, and is what the button adds. -/
theorem planAppend_exact (input : MergeInput) (generated : ℕ) (target : List Char) (current : List StoredRow)
    (rowsByVersion : Dict (List Char) SourceRows) (scope : List (List Char × SourceRows) × Bool)
    (hscope : rowsInScope rowsByVersion target = .ok scope) (hdigests : DistinctDigests input scope.1) :
    ∃ plan, planAppend input generated target current rowsByVersion = .ok plan ∧
      AppendExact input target current rowsByVersion scope.1 plan := by
  obtain ⟨generated', hplan⟩ := planAppend_ok hscope input generated current
  refine ⟨_, hplan, ?_⟩
  have hmerged : Merged input current scope.1
      { requests := (mergeKind input .request current scope.1 generated).planned
        responses := (mergeKind input .response current scope.1 generated').planned
        newerRevisionRows := scope.2 } := ⟨⟨generated, rfl⟩, ⟨generated', rfl⟩⟩
  generalize AppendPlan.mk _ _ _ = plan at hmerged ⊢
  refine ⟨prefix_append _ _, hmerged.distinct hdigests, fun kind row hrow himported stored hstored hkind heq => ?_,
    fun kind row hrow => ?_, fun reread hreread generated₁ => ?_, fun kind generated₁ => ?_⟩
  · obtain ⟨generated₁, hof⟩ := hmerged.of kind
    rw [hof] at hrow
    apply (mergeKind_plan input kind current scope.1 generated₁).fresh row.id (mem_map_of_mem hrow) himported
    rw [← heq]
    exact mem_map_of_mem (mem_filter.mpr ⟨hstored, decide_eq_true hkind⟩)
  · obtain ⟨generated₁, hof⟩ := hmerged.of kind
    rw [hof] at hrow
    obtain ⟨before, item, hitem, -, rfl⟩ := (mergeKind_plan input kind current scope.1 generated₁).rows row hrow
    obtain ⟨version, hversion, hsource⟩ := mem_flatMap.mp hitem
    obtain ⟨source, hmem, rfl⟩ := mem_map.mp hsource
    obtain ⟨entry, hentry, hnumber, hrows, hreached⟩ := rowsInScope_reached hscope hversion
    exact ⟨entry, hentry, version.1, hnumber, hreached, source, hrows ▸ hmem, rfl, rfl⟩
  · obtain ⟨generated₂, hagain⟩ := planAppend_ok hscope input generated₁ reread
    refine ⟨_, hagain, ?_⟩
    unfold AppendPlan.rows
    dsimp only
    rw [hmerged.repeatable hreread .request, hmerged.repeatable hreread .response]
    rfl
  · obtain ⟨generated₂, hof⟩ := hmerged.of kind
    rw [hof]
    exact mergeInvitationUpdateRows_added (distinctIds_of_digests hdigests kind) generated₂ generated₁

theorem mod_sixteen_lt (n : ℕ) : n % 16 < 16 := Nat.mod_lt n (by decide)

def sampleDigits : List (Fin 16) := List.map (fun n : ℕ => ⟨n % 16, mod_sixteen_lt n⟩)
  [10, 5, 10, 4, 2, 15, 3, 13, 7, 14, 15, 7, 11, 5, 12, 12, 4, 14, 11, 5, 2, 7, 12, 14, 11, 12, 6, 2, 6, 15, 7, 0,
    7, 13, 6, 1, 8, 11, 3, 1, 6, 5, 1, 4, 14, 8, 5, 2, 14, 4, 8, 15, 14, 0, 12, 0, 6, 4, 7, 13, 4, 13, 11, 4]

theorem length_sampleDigits : sampleDigits.length = 64 := rfl

def sampleUuid : List Char := "0b9f5a4e-3c1d-4e6f-8a7b-2c3d4e5f6a7b".toList

theorem length_sampleUuid : sampleUuid.length = 36 := rfl

def sampleInput : MergeInput where
  packageId := "g".toList
  noticeNo := "IB2600000001".toList
  parseOther := fun _ => none
  sha256 := fun _ => ⟨sampleDigits, length_sampleDigits⟩
  uuid := fun _ => ⟨sampleUuid, length_sampleUuid⟩

def sampleSource : SourceRows where
  requests := [⟨"2026-02-03T10:00:00".toList, "A".toList, "YC-1".toList, []⟩, ⟨"04/02/2026 08:30".toList, "B".toList, [], []⟩]
  responses := []

def sampleHistory : Dict (List Char) SourceRows := Dict.empty.set "0".toList sampleSource

def sampleRows : List StoredRow := [⟨"lr-old".toList, .request, "2026-02-04 08:30:00".toList, "B".toList, 0⟩]

theorem planAppend_exact_sample : ∃ plan, planAppend sampleInput 0 "00".toList sampleRows sampleHistory = .ok plan ∧
    AppendExact sampleInput "00".toList sampleRows sampleHistory [("00".toList, sampleSource)] plan := by
  apply planAppend_exact sampleInput 0 "00".toList sampleRows sampleHistory ([("00".toList, sampleSource)], false)
  · have hversions : sampleHistory.entries.foldlM addVersion [] = .ok [("00".toList, sampleSource)] := rfl
    unfold rowsInScope
    rw [hversions]
    simp only [bind, Except.bind, pure, Except.pure, mergeSort_singleton]
    rfl
  · have hone : payloads sampleInput [("00".toList, sampleSource)] =
        [["g".toList, "IB2600000001".toList, "00".toList, "request".toList, "YC-1".toList]] := by decide
    intro p hp p' hp' _
    rw [hone, mem_singleton] at hp hp'
    rw [hp, hp']

end Bidding.Clarifications
