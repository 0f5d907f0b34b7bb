import Bidding.Outbox.Durable

/-!
# The laws of a cross-tab merge

A save merges the durable queue, the base of the tab and its request, record by record and field by field. The queue as a
whole obeys the laws of the records unless a newly saved deletion has an id with a separator.
-/

namespace Bidding

open Foundations Option

namespace Slot

def field (s : Slot) (name : String) : Option Value := (s.patch.getD .empty).get? name

/-- The record is held under one operation. -/
structure OneKind (s : Slot) : Prop where
  upsert : s.upsert ≠ none → s.patch = none ∧ s.deletion = none
  patch : s.patch ≠ none → s.deletion = none

/-- Two slots hold the same operations. The `id` of a patch names its record, and a patch of the `id`
alone changes nothing. -/
structure SameOperations (c a : Slot) : Prop where
  upsert : c.upsert = a.upsert
  deletion : c.deletion = a.deletion
  fields : ∀ name, name ≠ "id" → c.field name = a.field name

/-- The slot holds a patch and nothing else. -/
structure IsPatch (s : Slot) : Prop where
  patch : s.patch ≠ none
  upsert : s.upsert = none
  deletion : s.deletion = none

structure Bare (s : Slot) : Prop where
  upsert : s.upsert = none
  fields : ∀ name, name ≠ "id" → s.field name = none

theorem field_of_none {s : Slot} (h : s.patch = none) (name : String) : s.field name = none := by
  rw [field, h]
  rfl

def Authors (b a : Slot) : Prop :=
  ∃ name value, name ≠ "id" ∧ a.field name = some value ∧ b.field name ≠ some value

def mergedField (c b a : Slot) (name : String) : Option Value :=
  match a.field name with
  | some value => if b.field name = some value then c.field name else some value
  | none => if b.field name ≠ none ∧ c.field name = b.field name then none else c.field name

/-! ## The merge of the patches -/

variable {c b a : Slot} {id : String} {name : String}

theorem authors_iff_isEmpty : Authors b a ↔ (mergePatchFields (c.patch.getD .empty) (b.patch.getD .empty)
    (a.patch.getD .empty)).2.isEmpty = false := by
  rw [← Bool.not_eq_true, authored_isEmpty_iff]
  unfold Authors field
  push Not
  simp only [exists_and_left]

theorem get?_mergedField (hne : name ≠ "id") :
    (mergePatchFields (c.patch.getD .empty) (b.patch.getD .empty) (a.patch.getD .empty)).1.get? name
      = mergedField c b a name := by
  have hfields := congrArg Prod.fst (get?_mergePatchFields (c.patch.getD .empty) (b.patch.getD .empty)
    (a.patch.getD .empty) hne)
  unfold mergedField field
  dsimp only at hfields
  rw [hfields]
  cases (a.patch.getD .empty).get? name with
  | some value =>
    dsimp only
    split <;> rfl
  | none =>
    dsimp only
    split <;> rfl

variable (id) in
theorem mergePatch_upsert {upsert : Record} (hauthors : Authors b a) (hupsert : c.upsert = some upsert) :
    ∃ merged, c.mergePatch id b.patch a.patch = ⟨some merged, none, none⟩ := by
  have hempty := (authors_iff_isEmpty (c := c)).1 hauthors
  have hpatch : ¬ (b.patch = none ∧ a.patch = none) := by
    rintro ⟨-, ha⟩
    obtain ⟨name, value, -, hvalue, -⟩ := hauthors
    rw [field_of_none ha] at hvalue
    exact (nomatch hvalue)
  unfold Slot.mergePatch
  rw [if_neg hpatch]
  simp only [hempty, hupsert, Bool.false_eq_true, if_false]
  exact ⟨_, rfl⟩

theorem mergePatch_of_missing (hb : b.patch = none) (ha : a.patch = none) : c.mergePatch id b.patch a.patch = c := by
  unfold Slot.mergePatch
  rw [if_pos ⟨hb, ha⟩]

theorem not_authors_of_missing (ha : a.patch = none) : ¬ Authors b a := by
  rintro ⟨name, value, -, hvalue, -⟩
  rw [field_of_none ha] at hvalue
  exact (nomatch hvalue)

variable (id) in
/-- Where no record is stored whole, or the tab changes no field, the patches are merged: a patch is
left when a field is. -/
theorem mergePatch_merged (hpatch : ¬ (b.patch = none ∧ a.patch = none)) (h : ¬ Authors b a ∨ c.upsert = none) :
    (c.mergePatch id b.patch a.patch).upsert = c.upsert ∧
      (Authors b a → (c.mergePatch id b.patch a.patch).deletion = none) ∧
      (¬ Authors b a → (c.mergePatch id b.patch a.patch).deletion = c.deletion) ∧
      ((c.mergePatch id b.patch a.patch).patch = none ↔
        ∀ name, name ≠ "id" → mergedField c b a name = none) ∧
      ∀ name, name ≠ "id" → (c.mergePatch id b.patch a.patch).field name = mergedField c b a name := by
  have hauthors := authors_iff_isEmpty (c := c) (b := b) (a := a)
  have hmerged : ∀ name, name ≠ "id" → (mergePatchFields (c.patch.getD .empty) (b.patch.getD .empty)
      (a.patch.getD .empty)).1.get? name = mergedField c b a name := fun _ => get?_mergedField
  unfold Slot.mergePatch
  rw [if_neg hpatch]
  dsimp only
  revert hauthors hmerged
  generalize mergePatchFields _ _ _ = fields
  intro hauthors hmerged
  have hupsert : (if fields.2.isEmpty = true then none else c.upsert) = none := by
    split
    · rfl
    rename_i hempty
    obtain hnot | hnone := h
    · exact absurd (hauthors.2 (by simpa using hempty)) hnot
    · exact hnone
  have hdeletion : (Authors b a → (if fields.2.isEmpty = true then c.deletion else none) = none) ∧
      (¬ Authors b a → (if fields.2.isEmpty = true then c.deletion else none) = c.deletion) := by
    cases hempty : fields.2.isEmpty with
    | true => exact ⟨fun h => by simp [hempty] at hauthors; exact absurd h hauthors, fun _ => rfl⟩
    | false => exact ⟨fun _ => rfl, fun h => absurd (hauthors.2 hempty) h⟩
  rw [hupsert]
  dsimp only
  by_cases hfields : hasPatchFields fields.1 = true
  · rw [if_pos hfields]
    refine ⟨rfl, hdeletion.1, hdeletion.2, ?_, ?_⟩
    · obtain ⟨name, value, hne, hvalue⟩ := (hasPatchFields_iff _).1 hfields
      simp only [reduceCtorEq, false_iff]
      intro hnone
      have hfield := hnone name hne
      rw [← hmerged name hne, hvalue] at hfield
      exact absurd hfield (by simp)
    · intro name hne
      rw [← hmerged name hne, field, getD_some, Dict.get?_set_of_ne _ _ hne]
  · rw [if_neg hfields]
    have hnone : ∀ name, name ≠ "id" → mergedField c b a name = none := by
      intro name hne
      rw [← hmerged name hne]
      by_contra hvalue
      obtain ⟨value, hvalue⟩ := ne_none_iff_exists'.1 hvalue
      exact hfields ((hasPatchFields_iff _).2 ⟨name, value, hne, hvalue⟩)
    refine ⟨rfl, hdeletion.1, hdeletion.2, by simpa using hnone, ?_⟩
    intro name hne
    rw [hnone name hne]
    rfl

/-! ## One operation for a record -/

theorem OneKind.mergeUpsert (hc : c.OneKind) (before after : Option Record) : (c.mergeUpsert before after).OneKind := by
  unfold Slot.mergeUpsert
  split
  · split
    · exact hc
    · exact ⟨fun _ => ⟨rfl, rfl⟩, fun h => absurd rfl h⟩
  · split
    · exact ⟨fun h => absurd rfl h, hc.patch⟩
    · exact hc

theorem OneKind.mergePatch (hc : c.OneKind) : (c.mergePatch id b.patch a.patch).OneKind := by
  by_cases hmissing : b.patch = none ∧ a.patch = none
  · rw [mergePatch_of_missing hmissing.1 hmissing.2]
    exact hc
  by_cases hauthors : Authors b a
  · cases hupsert : c.upsert with
    | some upsert =>
      obtain ⟨merged, hmerged⟩ := mergePatch_upsert id hauthors hupsert
      rw [hmerged]
      exact ⟨fun _ => ⟨rfl, rfl⟩, fun h => absurd rfl h⟩
    | none =>
      obtain ⟨hup, hdeletion, -⟩ := mergePatch_merged id hmissing (Or.inr hupsert)
      exact ⟨fun h => absurd (hup.trans hupsert) h, fun _ => hdeletion hauthors⟩
  · obtain ⟨hup, -, hdeletion, hpatch, -⟩ := mergePatch_merged id hmissing (Or.inl hauthors)
    -- a field that is left is a field that was stored
    have hstored : c.patch = none → (c.mergePatch id b.patch a.patch).patch = none := by
      intro hnone
      apply hpatch.2
      intro name hne
      unfold mergedField
      cases ha : a.field name with
      | some value =>
        dsimp only
        by_cases hb : b.field name = some value
        · rw [if_pos hb, field_of_none hnone]
        · exact absurd ⟨name, value, hne, ha, hb⟩ hauthors
      | none =>
        dsimp only
        split
        · rfl
        · exact field_of_none hnone name
    refine ⟨fun h => ?_, fun h => ?_⟩
    · obtain ⟨hnone, hdel⟩ := hc.upsert (by rwa [hup] at h)
      exact ⟨hstored hnone, (hdeletion hauthors).trans hdel⟩
    · exact (hdeletion hauthors).trans (hc.patch (mt hstored h))

/-- What is stored for the record is only what the base holds: no record, or the base's, and no field
the base does not hold. -/
structure OnlyBase (c b : Slot) : Prop where
  upsert : c.upsert = none ∨ c.upsert = b.upsert
  patch : c.patch = none ∨ (b.patch ≠ none ∧
    ∀ name, name ≠ "id" → c.field name ≠ none → c.field name = b.field name)

variable (id) in
theorem emptied_iff (hupsert : a.upsert = none) (hpatch : a.patch = none) :
    (((c.mergeUpsert b.upsert a.upsert).mergePatch id b.patch a.patch).upsert = none ∧
        ((c.mergeUpsert b.upsert a.upsert).mergePatch id b.patch a.patch).patch = none) ↔
      OnlyBase c b := by
  have hfirst : (c.mergeUpsert b.upsert a.upsert).patch = c.patch ∧
      ((c.mergeUpsert b.upsert a.upsert).upsert = none ↔ c.upsert = none ∨ c.upsert = b.upsert) := by
    unfold Slot.mergeUpsert
    rw [hupsert]
    dsimp only
    split
    · rename_i hsame
      rw [Bool.and_eq_true, decide_eq_true_iff] at hsame
      exact ⟨rfl, by simp [hsame.2]⟩
    · rename_i hother
      refine ⟨rfl, ⟨Or.inl, ?_⟩⟩
      rintro (hnone | hsame)
      · exact hnone
      · simp only [hsame, decide_true, Bool.and_true, Bool.not_eq_true, isSome_eq_false_iff,
          isNone_iff_eq_none] at hother
        exact hsame.trans hother
  have hfields : ∀ name, (c.mergeUpsert b.upsert a.upsert).field name = c.field name := by
    intro name
    rw [field, field, hfirst.1]
  have hnot : ¬ Authors b a := not_authors_of_missing hpatch
  by_cases hmissing : b.patch = none ∧ a.patch = none
  · rw [mergePatch_of_missing hmissing.1 hmissing.2, hfirst.1, hfirst.2]
    constructor
    · rintro ⟨hup, hnone⟩
      exact ⟨hup, Or.inl hnone⟩
    · rintro ⟨hup, hnone | ⟨hbase, -⟩⟩
      · exact ⟨hup, hnone⟩
      · exact absurd hmissing.1 hbase
  · have hbase : b.patch ≠ none := fun h => hmissing ⟨h, hpatch⟩
    obtain ⟨hup, -, -, hnone, -⟩ := mergePatch_merged id (c := c.mergeUpsert b.upsert a.upsert) hmissing (Or.inl hnot)
    rw [hup, hfirst.2, hnone]
    have hmerged : ∀ name, mergedField (c.mergeUpsert b.upsert a.upsert) b a name = none ↔
        (c.field name ≠ none → c.field name = b.field name) := by
      intro name
      unfold mergedField
      rw [field_of_none hpatch, hfields]
      dsimp only
      by_cases hstored : c.field name = none
      · simp [hstored]
      by_cases hsame : c.field name = b.field name
      · rw [hsame] at hstored
        simp [hsame, hstored]
      · simp [hsame, hstored]
    simp only [hmerged]
    constructor
    · rintro ⟨hrecord, hpatches⟩
      exact ⟨hrecord, Or.inr ⟨hbase, hpatches⟩⟩
    · rintro ⟨hrecord, hstored | ⟨-, hpatches⟩⟩
      · exact ⟨hrecord, fun name _ h => absurd (field_of_none hstored name) h⟩
      · exact ⟨hrecord, hpatches⟩

variable (key : TableKey)

theorem oneKind_merge_iff (hc : c.OneKind) (ha : a.OneKind) : (Slot.merge key c b a).OneKind ↔
    ∀ item, a.deletion = some item → b.deletion ≠ some item → splitId key.2 ≠ key.2 → OnlyBase c b := by
  have hbefore : ((c.mergeUpsert b.upsert a.upsert).mergePatch key.2 b.patch a.patch).OneKind :=
    (hc.mergeUpsert _ _).mergePatch
  unfold Slot.merge Slot.mergeDeletion
  cases hdeletion : a.deletion with
  | none =>
    simp only [reduceCtorEq, false_implies, implies_true, iff_true]
    split
    · exact ⟨fun h => ⟨(hbefore.upsert h).1, rfl⟩, fun _ => rfl⟩
    · exact hbefore
  | some item =>
    have hnone : a.upsert = none ∧ a.patch = none := by
      constructor
      · by_contra hne
        rw [(ha.upsert hne).2] at hdeletion
        exact (nomatch hdeletion)
      · by_contra hne
        rw [ha.patch hne] at hdeletion
        exact (nomatch hdeletion)
    dsimp only
    split
    · rename_i hsame
      refine ⟨fun _ item' hitem hnew => ?_, fun _ => hbefore⟩
      exact absurd (hsame.trans hitem) hnew
    · rename_i hnew
      by_cases hwhole : splitId key.2 = key.2
      · simp only [hwhole, decide_true, if_true]
        refine ⟨fun _ item' _ _ hsplit => absurd rfl hsplit, fun _ => ?_⟩
        exact ⟨fun h => absurd rfl h, fun h => absurd rfl h⟩
      · rw [← emptied_iff key.2 hnone.1 hnone.2]
        simp only [hwhole, decide_false, Bool.false_eq_true, if_false]
        constructor
        · intro hone _ _ _ _
          constructor
          · by_contra hne
            exact absurd (hone.upsert hne).2 (by simp)
          · by_contra hne
            exact absurd (hone.patch hne) (by simp)
        · intro hempty
          have hboth := hempty item rfl hnew hwhole
          exact ⟨fun h => absurd hboth.1 h, fun h => absurd hboth.2 h⟩

/-! ## The base, the request and what is stored -/

theorem not_authors_of_same (h : SameOperations b a) : ¬ Authors b a := by
  rintro ⟨name, value, hne, hvalue, hbase⟩
  exact hbase ((h.fields name hne).trans hvalue)

theorem mergedField_of_same (h : SameOperations b a) (hne : name ≠ "id") : mergedField c b a name = c.field name := by
  unfold mergedField
  rw [h.fields name hne]
  cases ha : a.field name with
  | some value =>
    dsimp only
    rw [if_pos rfl]
  | none =>
    dsimp only
    rw [if_neg (by simp)]

theorem mergedField_of_base (h : SameOperations c b) (hne : name ≠ "id") : mergedField c b a name = a.field name := by
  unfold mergedField
  rw [h.fields name hne]
  cases ha : a.field name with
  | some value =>
    dsimp only
    by_cases hb : b.field name = some value
    · rw [if_pos hb, hb]
    · rw [if_neg hb]
  | none =>
    dsimp only
    by_cases hb : b.field name = none
    · rw [if_neg (by simp [hb]), hb]
    · rw [if_pos ⟨hb, rfl⟩]

theorem mergedField_eq_none_of_missing (hb : b.patch = none) (ha : a.patch = none) (name : String) :
    mergedField c b a name = c.field name := by
  unfold mergedField
  rw [field_of_none ha, field_of_none hb]
  simp

theorem field_mergePatch (h : ¬ Authors b a ∨ c.upsert = none) (hne : name ≠ "id") :
    (c.mergePatch id b.patch a.patch).field name = mergedField c b a name := by
  by_cases hmissing : b.patch = none ∧ a.patch = none
  · rw [mergePatch_of_missing hmissing.1 hmissing.2, mergedField_eq_none_of_missing hmissing.1 hmissing.2]
  · exact (mergePatch_merged _ hmissing h).2.2.2.2 name hne

variable (id) in
theorem mergePatch_kept (h : ¬ Authors b a) : (c.mergePatch id b.patch a.patch).upsert = c.upsert ∧
    (c.mergePatch id b.patch a.patch).deletion = c.deletion := by
  by_cases hmissing : b.patch = none ∧ a.patch = none
  · rw [mergePatch_of_missing hmissing.1 hmissing.2]
    exact ⟨rfl, rfl⟩
  · obtain ⟨hup, -, hdeletion, -⟩ := mergePatch_merged id (c := c) hmissing (Or.inl h)
    exact ⟨hup, hdeletion h⟩

theorem merge_untouched (h : SameOperations b a) : SameOperations (Slot.merge key c b a) c := by
  have hupsert : c.mergeUpsert b.upsert a.upsert = c := by
    unfold Slot.mergeUpsert
    rw [h.upsert]
    cases a.upsert <;> simp
  have hdeletion : ∀ s : Slot, s.mergeDeletion (splitId key.2 = key.2) b.deletion a.deletion = s := by
    intro s
    unfold Slot.mergeDeletion
    rw [h.deletion]
    cases a.deletion <;> simp
  have hnot := not_authors_of_same h
  obtain ⟨hup, hdel⟩ := mergePatch_kept key.2 (c := c) hnot
  unfold Slot.merge
  rw [hupsert, hdeletion]
  refine ⟨hup, hdel, fun name hne => ?_⟩
  rw [field_mergePatch (Or.inl hnot) hne, mergedField_of_same h hne]

theorem merge_patches (hc : c.IsPatch) (ha : a.IsPatch)
    (hne : name ≠ "id") : (Slot.merge key c b a).field name = mergedField c b a name := by
  have hupsert : c.mergeUpsert b.upsert a.upsert = c := by
    unfold Slot.mergeUpsert
    rw [ha.upsert, hc.upsert]
    cases b.upsert <;> simp
  have hdeletion : ∀ s : Slot, (s.mergeDeletion (splitId key.2 = key.2) b.deletion a.deletion).field name = s.field name := by
    intro s
    unfold Slot.mergeDeletion
    rw [ha.deletion]
    dsimp only
    split <;> rfl
  unfold Slot.merge
  rw [hupsert, hdeletion, field_mergePatch (Or.inr hc.upsert) hne]

theorem merge_identity (h : SameOperations c b) (hc : c.OneKind) (ha : a.OneKind) :
    SameOperations (Slot.merge key c b a) a := by
  by_cases hrecord : a.upsert = none
  · -- the record of the base goes, then the patches are merged, then the deletions
    have hfirst : (c.mergeUpsert b.upsert a.upsert).upsert = none ∧
        (c.mergeUpsert b.upsert a.upsert).deletion = c.deletion ∧
        (c.mergeUpsert b.upsert a.upsert).patch = c.patch := by
      unfold Slot.mergeUpsert
      rw [hrecord, h.upsert]
      dsimp only
      split
      · exact ⟨rfl, rfl, rfl⟩
      rename_i hother
      refine ⟨?_, rfl, rfl⟩
      rw [h.upsert]
      simpa using hother
    have hbase : SameOperations { c.mergeUpsert b.upsert a.upsert with upsert := b.upsert } b :=
      ⟨rfl, hfirst.2.1.trans h.deletion, fun name hne => by
        rw [← h.fields name hne, field, field]
        exact congrArg (fun patch : Option Record => (patch.getD .empty).get? name) hfirst.2.2⟩
    have hfields : ∀ name, name ≠ "id" →
        ((c.mergeUpsert b.upsert a.upsert).mergePatch key.2 b.patch a.patch).field name = a.field name := by
      intro name hne
      rw [field_mergePatch (Or.inr hfirst.1) hne, ← mergedField_of_base hbase hne]
      rfl
    have hup : ((c.mergeUpsert b.upsert a.upsert).mergePatch key.2 b.patch a.patch).upsert = none := by
      by_cases hmissing : b.patch = none ∧ a.patch = none
      · rw [mergePatch_of_missing hmissing.1 hmissing.2]
        exact hfirst.1
      · exact (mergePatch_merged _ hmissing (Or.inr hfirst.1)).1.trans hfirst.1
    have hgone : Authors b a → ((c.mergeUpsert b.upsert a.upsert).mergePatch key.2 b.patch a.patch).deletion = none := by
      intro hauthors
      have hmissing : ¬ (b.patch = none ∧ a.patch = none) := fun hm => not_authors_of_missing hm.2 hauthors
      exact (mergePatch_merged _ hmissing (Or.inr hfirst.1)).2.1 hauthors
    have hkept : ¬ Authors b a →
        ((c.mergeUpsert b.upsert a.upsert).mergePatch key.2 b.patch a.patch).deletion = b.deletion := by
      intro hnot
      exact ((mergePatch_kept _ hnot).2.trans hfirst.2.1).trans h.deletion
    unfold Slot.merge
    revert hfields hup hgone hkept
    generalize (c.mergeUpsert b.upsert a.upsert).mergePatch key.2 b.patch a.patch = s
    intro hfields hup hgone hkept
    unfold Slot.mergeDeletion
    cases hdeletion : a.deletion with
    | none =>
      dsimp only
      split
      · exact ⟨hup.trans hrecord.symm, hdeletion.symm, hfields⟩
      rename_i hother
      refine ⟨hup.trans hrecord.symm, ?_, hfields⟩
      rw [hdeletion]
      by_cases hauthors : Authors b a
      · exact hgone hauthors
      · rw [hkept hauthors] at hother ⊢
        simpa using hother
    | some item =>
      have hpatch : a.patch = none := by
        by_contra hne
        rw [ha.patch hne] at hdeletion
        exact (nomatch hdeletion)
      dsimp only
      split
      · rename_i hsame
        refine ⟨hup.trans hrecord.symm, ?_, hfields⟩
        rw [hkept (not_authors_of_missing hpatch), hsame, hdeletion]
      · refine ⟨?_, hdeletion.symm, fun name hne => ?_⟩
        · rw [hup, ite_self, hrecord]
        · rw [field_of_none hpatch]
          split
          · exact field_of_none rfl name
          · exact (hfields name hne).trans (field_of_none hpatch name)
  · -- a record is requested, so nothing else is
    obtain ⟨record, hrecord⟩ := ne_none_iff_exists'.1 hrecord
    obtain ⟨hpatch, hdeletion⟩ := ha.upsert (by simp [hrecord])
    have hfirst : c.mergeUpsert b.upsert a.upsert = ⟨some record, none, none⟩ := by
      unfold Slot.mergeUpsert
      rw [hrecord]
      dsimp only
      split
      · rename_i hsame
        have hstored : c.upsert = some record := h.upsert.trans hsame
        obtain ⟨hnone, hdel⟩ := hc.upsert (by simp [hstored])
        cases c
        subst hstored hnone hdel
        rfl
      · rfl
    unfold Slot.merge
    rw [hfirst, hpatch, mergePatch_of_none rfl]
    unfold Slot.mergeDeletion
    rw [hdeletion]
    have hnone : ∀ name, name ≠ "id" → (⟨some record, none, none⟩ : Slot).field name = a.field name := by
      intro name _
      rw [field_of_none rfl, field_of_none hpatch]
    dsimp only
    split
    · exact ⟨hrecord.symm, hdeletion.symm, hnone⟩
    · exact ⟨hrecord.symm, hdeletion.symm, hnone⟩

end Slot

/-! ## A deletion that clears another record -/

/-- The deletion of `key'` is newly saved and its id splits into the id of the record `key`. -/
def Clears (before after : Dict TableKey Deletion) (key' key : TableKey) : Prop :=
  key' ≠ key ∧ (key'.1, splitId key'.2) = key ∧
    ∃ item, after.get? key' = some item ∧ before.get? key' ≠ some item

theorem splitClear_iff {before after : Dict TableKey Deletion} {key : TableKey} :
    SplitClear before after key ↔ ∀ key', ¬ Clears before after key' key := by
  constructor
  · rintro h key' ⟨hne, hsplit, item, hafter, hbefore⟩
    exact h key' item hafter hbefore hne hsplit
  · intro h key' item hafter hbefore hne hsplit
    exact h key' ⟨hne, hsplit, item, hafter, hbefore⟩

theorem Slot.mergeDeletion_deletion (c : Slot) (whole : Bool) (before after : Option Deletion) :
    (c.mergeDeletion whole before after).deletion
      = ((⟨none, none, c.deletion⟩ : Slot).mergeDeletion whole before after).deletion := by
  unfold Slot.mergeDeletion
  cases after with
  | some item =>
    dsimp only
    split <;> rfl
  | none =>
    dsimp only
    split <;> rfl

theorem deletion_mergeDeletions (previous requested : List Deletion) (acc : MergeState) (key : TableKey) :
    ((mergeDeletions previous requested acc).1.queue.slot key).deletion =
      ((acc.queue.slot key).mergeDeletion (splitId key.2 = key.2) ((deletionMap previous).get? key)
        ((deletionMap requested).get? key)).deletion := by
  let before := deletionMap previous
  let after := deletionMap requested
  have hself : ¬ (before.get? key = none ∧ after.get? key = none) →
      ∀ s : MergeState × Dict TableKey Deletion, (mergeDeletion before after s key).2.get? key =
        ((⟨none, none, s.2.get? key⟩ : Slot).mergeDeletion (splitId key.2 = key.2) (before.get? key)
          (after.get? key)).deletion := by
    intro hin s
    exact (congrArg Slot.deletion (mergingSlot_self hin s)).trans (Slot.mergeDeletion_deletion (mergingSlot key s) _ _ _)
  have hother : ∀ (s : MergeState × Dict TableKey Deletion) (key' : TableKey), key' ≠ key →
      (mergeDeletion before after s key').2.get? key = s.2.get? key := by
    intro s key' hne
    unfold mergeDeletion
    cases after.get? key' with
    | some item =>
      dsimp only
      split
      · split <;> rfl
      · exact Dict.get?_set_of_ne _ _ (Ne.symm hne)
    | none =>
      dsimp only
      split
      · exact Dict.get?_erase_of_ne _ (Ne.symm hne)
      · rfl
  rw [slot_mergeDeletions_eq, Slot.mergeDeletion_deletion (acc.queue.slot key)]
  by_cases hin : key ∈ unionKeys before.keys after.keys
  · have hfold := foldl_once (mergeDeletion before after) (fun s => s.2.get? key)
      (fun stored => ((⟨none, none, stored⟩ : Slot).mergeDeletion (splitId key.2 = key.2)
        (before.get? key) (after.get? key)).deletion) key _ (nodup_unionKeys_keys before after)
      (hself (mem_unionKeys_keys.1 hin)) (fun s key' _ hne => hother s key' hne) (acc, deletionMap acc.queue.deletes)
    rw [if_pos hin] at hfold
    exact hfold
  · have hkept := foldl_inv (mergeDeletion before after) (fun s => s.2.get? key = (deletionMap acc.queue.deletes).get? key) _
      (fun s key' hk hs => (hother s key' (by rintro rfl; exact hin hk)).trans hs)
      (s := (acc, deletionMap acc.queue.deletes)) rfl
    have hmissing := not_not.1 (mt mem_unionKeys_keys.2 hin)
    refine hkept.trans ?_
    rw [show (deletionMap previous).get? key = none from hmissing.1,
      show (deletionMap requested).get? key = none from hmissing.2]
    rfl

theorem slot_mergeDeletions_cleared {previous requested : List Deletion} {key key' : TableKey}
    (h : Clears (deletionMap previous) (deletionMap requested) key' key) (acc : MergeState) :
    ((mergeDeletions previous requested acc).1.queue.slot key).upsert = none ∧
      ((mergeDeletions previous requested acc).1.queue.slot key).patch = none := by
  obtain ⟨-, hsplit, item, hafter, hbefore⟩ := h
  have hmem : key' ∈ unionKeys (deletionMap previous).keys (deletionMap requested).keys := by
    apply mem_unionKeys_keys.2
    rintro ⟨-, hnone⟩
    exact absurd (hnone.symm.trans hafter) (by simp)
  have hcleared := foldl_reaches (mergeDeletion (deletionMap previous) (deletionMap requested))
    (fun s => s.1.queue.upserts.get₂ key.1 key.2 = none ∧ s.1.queue.patches.get₂ key.1 key.2 = none)
    hmem ?_ ?_ (acc, deletionMap acc.queue.deletes)
  · exact hcleared
  · intro s
    unfold mergeDeletion
    rw [hafter]
    dsimp only
    rw [if_neg hbefore, ← hsplit]
    simp [Dict.get₂_erase₂]
  · rintro s other ⟨hupsert, hpatch⟩
    unfold mergeDeletion
    cases (deletionMap requested).get? other with
    | some item =>
      dsimp only
      split
      · split <;> exact ⟨hupsert, hpatch⟩
      · simp [Dict.get₂_erase₂, hupsert, hpatch]
    | none =>
      dsimp only
      split <;> exact ⟨hupsert, hpatch⟩

def queueDirtyTables (queue : Option MutationQueue) : Dict String Bool :=
  (queue.map MutationQueue.dirtyTables).getD .empty

/-- The laws at one record: what is durable, the base, the request and the result. -/
structure RecordLaws (c b a r : Slot) : Prop where
  oneKind : r.OneKind
  untouched : Slot.SameOperations b a → Slot.SameOperations r c
  changed : c.IsPatch → a.IsPatch → ∀ name value, name ≠ "id" → a.field name = some value →
    b.field name ≠ some value → r.field name = some value
  unchanged : c.IsPatch → a.IsPatch → ∀ name, name ≠ "id" → a.field name = b.field name → r.field name = c.field name
  removed : c.IsPatch → a.IsPatch → ∀ name, name ≠ "id" → a.field name = none → b.field name ≠ none →
    r.field name = if c.field name = b.field name then none else c.field name

/-- Two queues hold the same operations for every record, and the same dirty tables. -/
structure SameQueue (queue other : Option MutationQueue) : Prop where
  records : ∀ key, Slot.SameOperations (queueSlot queue key) (queueSlot other key)
  tables : ∀ table, (queueDirtyTables queue).get? table = (queueDirtyTables other).get? table

/-- The laws of a merge: those of every record, and that the merge is the request where the durable
queue is the base. -/
structure MergeLaws (current previous requested merged : Option MutationQueue) : Prop where
  records : ∀ key, RecordLaws (queueSlot current key) (queueSlot previous key) (queueSlot requested key) (queueSlot merged key)
  identity : SameQueue current previous → SameQueue merged requested

/-- A newly saved deletion whose id has a separator finds only the base's operation for its own record,
and nothing the laws promise for the record its id splits into. -/
def NothingSplit (current previous requested : Option MutationQueue) : Prop :=
  ∀ key item, (queueSlot requested key).deletion = some item →
    (queueSlot previous key).deletion ≠ some item → splitId key.2 ≠ key.2 →
    let other : TableKey := (key.1, splitId key.2)
    let c := queueSlot current other
    let b := queueSlot previous other
    let a := queueSlot requested other
    Slot.OnlyBase (queueSlot current key) (queueSlot previous key) ∧
      (Slot.SameOperations b a → c.Bare) ∧
      (c.IsPatch → a.IsPatch → ∀ name, name ≠ "id" → Slot.mergedField c b a name = none) ∧
      (SameQueue current previous → a.Bare)

theorem recordLaws_of_fields {c b a r : Slot} (hone : r.OneKind)
    (huntouched : Slot.SameOperations b a → Slot.SameOperations r c)
    (hfields : c.IsPatch → a.IsPatch → ∀ name, name ≠ "id" → r.field name = Slot.mergedField c b a name) :
    RecordLaws c b a r where
  oneKind := hone
  untouched := huntouched
  changed hc ha name value hne hvalue hbase := by
    rw [hfields hc ha name hne, Slot.mergedField, hvalue]
    dsimp only
    rw [if_neg hbase]
  unchanged hc ha name hne hsame := by
    rw [hfields hc ha name hne, Slot.mergedField, hsame]
    cases b.field name with
    | some value =>
      dsimp only
      rw [if_pos rfl]
    | none =>
      dsimp only
      rw [if_neg (by simp)]
  removed hc ha name hne hnone hbase := by
    rw [hfields hc ha name hne, Slot.mergedField, hnone]
    dsimp only
    by_cases hstored : c.field name = b.field name
    · rw [if_pos ⟨hbase, hstored⟩, if_pos hstored]
    · rw [if_neg (fun h => hstored h.2), if_neg hstored]

theorem RecordLaws.field_eq {c b a r : Slot} (h : RecordLaws c b a r) (hc : c.IsPatch) (ha : a.IsPatch)
    {name : String} (hne : name ≠ "id") : r.field name = Slot.mergedField c b a name := by
  unfold Slot.mergedField
  cases hvalue : a.field name with
  | some value =>
    dsimp only
    by_cases hbase : b.field name = some value
    · rw [if_pos hbase, h.unchanged hc ha name hne (hvalue.trans hbase.symm)]
    · rw [if_neg hbase, h.changed hc ha name value hne hvalue hbase]
  | none =>
    dsimp only
    by_cases hbase : b.field name = none
    · rw [if_neg (fun hand => hand.1 hbase), h.unchanged hc ha name hne (hvalue.trans hbase.symm)]
    rw [h.removed hc ha name hne hvalue hbase]
    by_cases hstored : c.field name = b.field name
    · rw [if_pos hstored, if_pos ⟨hbase, hstored⟩]
    · rw [if_neg hstored, if_neg (fun hand => hstored hand.2)]

theorem beforeSeparator_idem (l : List Char) : beforeSeparator (beforeSeparator l) = beforeSeparator l := by
  have hhead : ∀ l : List Char, ∀ c, (beforeSeparator l).head? = some c → l.head? = some c := by
    intro l c hc
    unfold beforeSeparator at hc
    split at hc
    · exact (nomatch hc)
    · exact hc
    · exact (nomatch hc)
  fun_induction beforeSeparator l with
  | case1 => rfl
  | case2 c rest hsep ih =>
    have hrest : ∀ tail, ¬ (c = ':' ∧ beforeSeparator rest = ':' :: tail) := by
      rintro tail ⟨rfl, htail⟩
      have hfirst := hhead rest ':' (by rw [htail]; rfl)
      cases rest with
      | nil => exact (nomatch hfirst)
      | cons d rest =>
        obtain rfl : d = ':' := by simpa using hfirst
        exact hsep rest rfl rfl
    rw [beforeSeparator.eq_def]
    split
    · rename_i tail heq
      obtain ⟨hc, htail⟩ := List.cons.inj heq
      exact absurd ⟨hc, htail⟩ (hrest tail)
    · rename_i c' rest' _ heq
      obtain ⟨rfl, rfl⟩ := List.cons.inj heq
      rw [ih]
    · rename_i heq
      exact (nomatch heq)
  | case3 => rfl

theorem splitId_splitId (id : String) : splitId (splitId id) = splitId id := by
  unfold splitId
  rw [String.toList_ofList, beforeSeparator_idem]

section Queues

variable {current previous requested : Option MutationQueue} {key : TableKey} {key' : TableKey}

theorem dirtyTables_mergeUpserts (previous requested : TableRecords) (acc : MergeState) :
    (mergeUpserts previous requested acc).queue.dirtyTables = acc.queue.dirtyTables := by
  refine foldl_inv _ (fun s : MergeState => s.queue.dirtyTables = acc.queue.dirtyTables) _ (fun s table _ hs => ?_) rfl
  refine foldl_inv (mergeUpsert table _ _) (fun s : MergeState => s.queue.dirtyTables
    = acc.queue.dirtyTables) _ (fun s id _ hs => ?_) hs
  unfold mergeUpsert
  split
  · split
    · split <;> exact hs
    · exact hs
  · split <;> exact hs

theorem dirtyTables_mergePatch (table : String) (before after : Dict String Record) (acc : MergeState)
    (id : String) : (mergePatch table before after acc id).queue.dirtyTables = acc.queue.dirtyTables := by
  unfold mergePatch
  simp only
  generalize mergePatchFields _ _ _ = fields
  cases fields.2.isEmpty with
  | true => by_cases hf : hasPatchFields fields.1 = true <;> simp [hf]
  | false =>
    simp only [Bool.not_false, if_true]
    cases acc.queue.upserts.get₂ table id with
    | some upsert => rfl
    | none => by_cases hf : hasPatchFields fields.1 = true <;> simp [hf]

theorem dirtyTables_mergePatches (previous requested : TableRecords) (acc : MergeState) :
    (mergePatches previous requested acc).queue.dirtyTables = acc.queue.dirtyTables := by
  refine foldl_inv _ (fun s : MergeState => s.queue.dirtyTables = acc.queue.dirtyTables) _ (fun s table _ hs => ?_) rfl
  refine foldl_inv (mergePatch table _ _) (fun s : MergeState => s.queue.dirtyTables
    = acc.queue.dirtyTables) _ (fun s id _ hs => ?_) hs
  exact (dirtyTables_mergePatch table _ _ s id).trans hs

theorem dirtyTables_mergeDeletions (previous requested : List Deletion) (acc : MergeState) :
    (mergeDeletions previous requested acc).1.queue.dirtyTables = acc.queue.dirtyTables := by
  refine foldl_inv (mergeDeletion (deletionMap previous) (deletionMap requested))
    (fun s => s.1.queue.dirtyTables = acc.queue.dirtyTables) _ (fun s key _ hs => ?_) rfl
  unfold mergeDeletion
  split
  · split
    · split <;> exact hs
    · exact hs
  · split <;> exact hs

theorem dirtyTables_mergeBaseSnapshots (previous requested : TableRecords) (acc : MergeState × Dict TableKey Deletion) :
    (mergeBaseSnapshots previous requested acc).dirtyTables = acc.1.queue.dirtyTables := by
  refine foldl_inv (mergeBaseSnapshot previous requested) (fun s : MergeState => s.queue.dirtyTables = acc.1.queue.dirtyTables)
    (unionKeys (previous.entries₂.map fun entry => (entry.1, entry.2.1))
      (requested.entries₂.map fun entry => (entry.1, entry.2.1))) (fun s key' _ hs => ?_) rfl
  unfold mergeBaseSnapshot
  dsimp only
  split
  · exact hs
  · split
    · exact hs
    · split <;> exact hs

theorem queueDirtyTables_merge (current previous requested : Option MutationQueue) :
    queueDirtyTables (some (mergeMutationQueue current previous requested)) =
      mergeDirtyTables (queueDirtyTables previous) (queueDirtyTables requested) (queueDirtyTables current) := by
  have hempty : ∀ (queue : Option MutationQueue) (base id : String),
      (queue.getD (createEmptyMutationQueue base id)).dirtyTables = queueDirtyTables queue := by
    intro queue base id
    cases queue <;> rfl
  have hmerged : queueDirtyTables (some (mergeMutationQueue current previous requested)) =
      mergeDirtyTables (previous.getD (createEmptyMutationQueue "" "")).dirtyTables
        (requested.getD (createEmptyMutationQueue "" "")).dirtyTables (mergeBaseSnapshots _ _ _).dirtyTables := rfl
  rw [hmerged, hempty, hempty, dirtyTables_mergeBaseSnapshots, dirtyTables_mergeDeletions,
    dirtyTables_mergePatches, dirtyTables_mergeUpserts]
  exact congrArg _ (hempty current _ _)

theorem get?_mergeDirtyTables {durable before after : Dict String Bool} {table : String}
    (h : durable.get? table = before.get? table) : (mergeDirtyTables before after durable).get? table = after.get? table := by
  have hfold := fun step => foldl_once step (fun (current : Dict String Bool) => current.get? table)
    (fun stored => (after.get? table).elim (if stored = before.get? table then none else stored) some) table
    (unionKeys before.keys after.keys) (nodup_unionKeys_keys before after)
  refine Eq.trans (hfold _ ?_ ?_ durable) ?_
  rotate_left 2
  · split
    · cases after.get? table with
      | some dirty => rfl
      | none => simp
    · rename_i hmem
      have hmissing := not_not.1 (mt mem_unionKeys_keys.2 hmem)
      rw [h, hmissing.1, hmissing.2]
  · intro s
    cases after.get? table with
    | some dirty => simp
    | none =>
      dsimp only
      split <;> simp
  · intro s other _ hne
    cases after.get? other with
    | some dirty => exact Dict.get?_set_of_ne _ _ (Ne.symm hne)
    | none =>
      dsimp only
      split
      · exact Dict.get?_erase_of_ne _ (Ne.symm hne)
      · rfl

def clearing (previous requested : Option MutationQueue) (key' key : TableKey) : Prop :=
  Clears (deletionMap ((previous.map MutationQueue.deletes).getD []))
    (deletionMap ((requested.map MutationQueue.deletes).getD [])) key' key

theorem get?_queueDeletions (queue : Option MutationQueue) (key : TableKey) :
    (deletionMap ((queue.map MutationQueue.deletes).getD [])).get? key = (queueSlot queue key).deletion := by
  cases queue <;> rfl

theorem clearing_iff : clearing previous requested key' key ↔ key' ≠ key ∧ (key'.1, splitId key'.2) = key ∧
    ∃ item, (queueSlot requested key').deletion = some item ∧
      (queueSlot previous key').deletion ≠ some item := by
  unfold clearing Clears
  rw [get?_queueDeletions, get?_queueDeletions]

theorem slot_of_not_clearing (h : ∀ key', ¬ clearing previous requested key' key) :
    queueSlot (some (mergeMutationQueue current previous requested)) key =
      Slot.merge key (queueSlot current key) (queueSlot previous key) (queueSlot requested key) :=
  slot_mergeMutationQueue (splitClear_iff.2 h)

theorem slot_of_clearing (h : clearing previous requested key' key) :
    queueSlot (some (mergeMutationQueue current previous requested)) key =
      ⟨none, none, (Slot.merge key (queueSlot current key) (queueSlot previous key) (queueSlot requested key)).deletion⟩ := by
  obtain ⟨acc, hpatched, hmerged⟩ := slot_mergeMutationQueue_patched current previous requested key
  obtain ⟨hupsert, hpatch⟩ := slot_mergeDeletions_cleared h acc
  have hdeletion := deletion_mergeDeletions ((previous.map MutationQueue.deletes).getD [])
    ((requested.map MutationQueue.deletes).getD []) acc key
  rw [hpatched, get?_queueDeletions, get?_queueDeletions, ← hmerged] at hdeletion
  rw [← hmerged] at hupsert hpatch
  cases hslot : queueSlot (some (mergeMutationQueue current previous requested)) key with
  | mk upsert patch deletion =>
    have hparts : (mergeMutationQueue current previous requested).slot key = ⟨upsert, patch, deletion⟩ :=
      hslot
    rw [hparts] at hupsert hpatch hdeletion
    dsimp only at hupsert hpatch hdeletion
    rw [hupsert, hpatch, hdeletion]
    rfl

theorem not_clearing_of_split (h : splitId key.2 ≠ key.2) (key' : TableKey) : ¬ clearing previous requested key' key := by
  intro hclear
  obtain ⟨-, hsplit, -⟩ := clearing_iff.1 hclear
  apply h
  rw [← hsplit]
  exact splitId_splitId key'.2

theorem nothingSplit_of_laws (hcurrent : ∀ key, (queueSlot current key).OneKind)
    (hrequested : ∀ key, (queueSlot requested key).OneKind)
    (h : MergeLaws current previous requested (some (mergeMutationQueue current previous requested))) :
    NothingSplit current previous requested := by
  intro key item hitem hnew hsplit
  have hwhole : queueSlot (some (mergeMutationQueue current previous requested)) key =
      Slot.merge key (queueSlot current key) (queueSlot previous key) (queueSlot requested key) :=
    slot_of_not_clearing (not_clearing_of_split hsplit)
  have hclear : clearing previous requested key (key.1, splitId key.2) := by
    apply clearing_iff.2
    refine ⟨?_, rfl, item, hitem, hnew⟩
    intro hsame
    exact hsplit (congrArg Prod.snd hsame).symm
  have hcleared : queueSlot (some (mergeMutationQueue current previous requested))
      (key.1, splitId key.2) = ⟨none, none, (Slot.merge (key.1, splitId key.2)
        (queueSlot current (key.1, splitId key.2)) (queueSlot previous (key.1, splitId key.2))
        (queueSlot requested (key.1, splitId key.2))).deletion⟩ := slot_of_clearing hclear
  have hlaws := h.records (key.1, splitId key.2)
  refine ⟨?_, ?_, ?_, ?_⟩
  · have hone := (h.records key).oneKind
    rw [hwhole] at hone
    exact (Slot.oneKind_merge_iff key (hcurrent key) (hrequested key)).1 hone item hitem hnew hsplit
  · intro hsame
    have huntouched := hlaws.untouched hsame
    rw [hcleared] at huntouched
    exact ⟨huntouched.upsert.symm, fun name hne => (huntouched.fields name hne).symm.trans (Slot.field_of_none rfl name)⟩
  · intro hc ha name hne
    rw [← hlaws.field_eq hc ha hne, hcleared]
    exact Slot.field_of_none rfl name
  · intro hsame
    have hidentity := (h.identity hsame).records (key.1, splitId key.2)
    rw [hcleared] at hidentity
    exact ⟨hidentity.upsert.symm, fun name hne => (hidentity.fields name hne).symm.trans (Slot.field_of_none rfl name)⟩

theorem laws_of_nothingSplit (hcurrent : ∀ key, (queueSlot current key).OneKind)
    (hrequested : ∀ key, (queueSlot requested key).OneKind) (h : NothingSplit current previous requested) :
    MergeLaws current previous requested (some (mergeMutationQueue current previous requested)) := by
  refine ⟨fun key => ?_, fun hsame => ⟨fun key => ?_, ?_⟩⟩
  · by_cases hclear : ∃ key', clearing previous requested key' key
    · obtain ⟨key', hclear⟩ := hclear
      obtain ⟨hne, hsplit, item, hitem, hnew⟩ := clearing_iff.1 hclear
      have hwhole : splitId key'.2 ≠ key'.2 := by
        intro hid
        exact hne (by rw [← hsplit, hid])
      obtain ⟨-, hbare, hfields, -⟩ := h key' item hitem hnew hwhole
      rw [hsplit] at hbare hfields
      rw [slot_of_clearing hclear]
      apply recordLaws_of_fields ⟨fun hn => absurd rfl hn, fun hn => absurd rfl hn⟩
      · intro hagree
        have hnothing := hbare hagree
        refine ⟨hnothing.upsert.symm, (Slot.merge_untouched key hagree).deletion, fun name hname => ?_⟩
        rw [hnothing.fields name hname]
        exact Slot.field_of_none rfl name
      · intro hc ha name hname
        rw [hfields hc ha name hname]
        exact Slot.field_of_none rfl name
    · rw [slot_of_not_clearing (fun key' hk => hclear ⟨key', hk⟩)]
      apply recordLaws_of_fields
      · apply (Slot.oneKind_merge_iff key (hcurrent key) (hrequested key)).2
        intro item hitem hnew hsplit
        exact (h key item hitem hnew hsplit).1
      · exact Slot.merge_untouched key
      · intro hc ha name hname
        exact Slot.merge_patches key hc ha hname
  · have hidentity := Slot.merge_identity key (hsame.records key) (hcurrent key) (hrequested key)
    by_cases hclear : ∃ key', clearing previous requested key' key
    · obtain ⟨key', hclear⟩ := hclear
      obtain ⟨hne, hsplit, item, hitem, hnew⟩ := clearing_iff.1 hclear
      have hwhole : splitId key'.2 ≠ key'.2 := by
        intro hid
        exact hne (by rw [← hsplit, hid])
      obtain ⟨-, -, -, hbare⟩ := h key' item hitem hnew hwhole
      rw [hsplit] at hbare
      have hnothing := hbare hsame
      rw [slot_of_clearing hclear]
      refine ⟨hnothing.upsert.symm, hidentity.deletion, fun name hname => ?_⟩
      rw [hnothing.fields name hname]
      exact Slot.field_of_none rfl name
    · rw [slot_of_not_clearing (fun key' hk => hclear ⟨key', hk⟩)]
      exact hidentity
  · intro table
    rw [queueDirtyTables_merge]
    exact get?_mergeDirtyTables (hsame.tables table)

end Queues

/-- A cross-tab save keeps the laws of the queue exactly when the deletions it newly saves split into
nothing: for any durable envelope and any request that hold each record under one operation, whatever
the base. -/
theorem merge_laws_iff (current previous requested : Option Envelope) (savedAt : ℕ)
    (hcurrent : ∀ key, (envelopeSlot current key).OneKind) (hrequested : ∀ key, (envelopeSlot requested key).OneKind) :
    MergeLaws (envelopeQueue current) (envelopeQueue previous) (envelopeQueue requested)
        (envelopeQueue (some (mergeEnvelope current previous requested savedAt))) ↔
      NothingSplit (envelopeQueue current) (envelopeQueue previous) (envelopeQueue requested) := by
  rw [SharedStore.envelopeQueue_mergeEnvelope]
  exact ⟨nothingSplit_of_laws hcurrent hrequested, laws_of_nothingSplit hcurrent hrequested⟩

def savedQueue (queue : MutationQueue) : Envelope := ⟨1, 1, 1, some queue, some []⟩

theorem oneKind_queueSlot {queue : MutationQueue}
    (hupserts : ∀ e ∈ queue.upserts.entries₂, (queue.slot (e.1, e.2.1)).patch = none ∧ (queue.slot (e.1, e.2.1)).deletion = none)
    (hpatches : ∀ e ∈ queue.patches.entries₂, (queue.slot (e.1, e.2.1)).deletion = none) (key : TableKey) :
    (queueSlot (some queue) key).OneKind := by
  refine ⟨fun h => ?_, fun h => ?_⟩
  · obtain ⟨record, hrecord⟩ := ne_none_iff_exists'.mp h
    exact hupserts (key.1, key.2, record) ((Dict.mem_entries₂_iff ..).mpr hrecord)
  · obtain ⟨patch, hpatch⟩ := ne_none_iff_exists'.mp h
    exact hpatches (key.1, key.2, patch) ((Dict.mem_entries₂_iff ..).mpr hpatch)

/-- The durable queue has an edit of `a` and one of `c` more than the base, the request a deletion of `b`. -/
theorem merge_laws_saved_package :
    let base := savedQueue SharedStore.packageQueue
    let current := savedQueue { SharedStore.packageQueue with patches := .ofList [("goithau", .ofList [("c", .ofList [("id", .str "c")])])] }
    let requested := savedQueue { SharedStore.packageQueue with deletes := [⟨"goithau", "b", none⟩] }
    MergeLaws (envelopeQueue (some current)) (envelopeQueue (some base)) (envelopeQueue (some requested))
      (envelopeQueue (some (mergeEnvelope (some current) (some base) (some requested) 2))) := by
  intro base current requested
  refine (merge_laws_iff (some current) (some base) (some requested) 2
    (oneKind_queueSlot (by decide) (by decide)) (oneKind_queueSlot (by decide) (by decide))).2 ?_
  intro key item hitem hnew hsplit
  have hwhole : ∀ e ∈ (deletionMap [⟨"goithau", "b", none⟩]).entries, splitId e.1.2 = e.1.2 := by decide
  exact absurd (hwhole (key, item) ((Dict.mem_entries_iff ..).mpr hitem)) hsplit

/-- A tab that never touched the package `a` deletes `a::b`, and the durable edit of `a` is gone. -/
theorem untouched_package_cleared : (∀ key, (envelopeSlot (some (savedQueue SharedStore.packageQueue)) key).OneKind) ∧
    (∀ key, (envelopeSlot none key).OneKind) ∧
    (∀ key, (envelopeSlot (some (savedQueue SharedStore.packageDeletionQueue)) key).OneKind) ∧
    ¬ MergeLaws (envelopeQueue (some (savedQueue SharedStore.packageQueue))) (envelopeQueue none)
      (envelopeQueue (some (savedQueue SharedStore.packageDeletionQueue)))
      (envelopeQueue (some (mergeEnvelope (some (savedQueue SharedStore.packageQueue)) none
        (some (savedQueue SharedStore.packageDeletionQueue)) 2))) := by
  refine ⟨oneKind_queueSlot (by decide) (by decide), fun _ => ⟨fun h => absurd rfl h, fun h => absurd rfl h⟩,
    oneKind_queueSlot (by decide) (by decide), ?_⟩
  intro h
  have hagree : Slot.SameOperations (queueSlot (envelopeQueue none) ("goithau", "a"))
      (queueSlot (envelopeQueue (some (savedQueue SharedStore.packageDeletionQueue))) ("goithau", "a")) :=
    ⟨rfl, by decide, fun _ _ => rfl⟩
  have hkept := ((h.records ("goithau", "a")).untouched hagree).upsert
  exact absurd hkept (by decide)

end Bidding
