import Bidding.Outbox.CrossTab

/-!
# The durable queue follows the tab that edits a record

The merge of one slot satisfies the merge laws of a shared cell, the store of all tabs is
such a cell read at one record, and so the durable queue holds what the only tab that
edits the record saved last, in every order of the saves.
-/

namespace Bidding

open Foundations Option

/-! ## The merge laws -/

/-- Two slots hold the same operations; a stored patch may carry another id field. -/
structure Slot.Same (c a : Slot) : Prop where
  upsert : c.upsert = a.upsert
  deletion : c.deletion = a.deletion
  patch : c.patch = none ↔ a.patch = none
  fields : ∀ p q, c.patch = some p → a.patch = some q → ∀ field, field ≠ "id" → p.get? field = q.get? field

/-- The record is held under one operation, and a patch changes some field. -/
structure Slot.Single (a : Slot) : Prop where
  upsert : a.upsert ≠ none → a.patch = none ∧ a.deletion = none
  patch : a.patch ≠ none → a.deletion = none
  fields : ∀ p, a.patch = some p → hasPatchFields p = true

theorem hasPatchFields_iff (patch : Record) :
    hasPatchFields patch = true ↔ ∃ field value, field ≠ "id" ∧ patch.get? field = some value := by
  simp only [hasPatchFields, List.any_eq_true, decide_eq_true_eq, Dict.mem_keys_iff]
  constructor
  · rintro ⟨field, ⟨value, hv⟩, hne⟩
    exact ⟨field, value, hne, hv⟩
  · rintro ⟨field, value, hne, hv⟩
    exact ⟨field, ⟨value, hv⟩, hne⟩

variable (durable before after : Record) {field : String}

theorem get?_mergePatchFields (h : field ≠ "id") :
    ((mergePatchFields durable before after).1.get? field, (mergePatchFields durable before after).2.get? field) =
      match after.get? field with
      | some value =>
        if before.get? field = some value then (durable.get? field, none)
        else (some value, some value)
      | none =>
        if before.get? field ≠ none ∧ durable.get? field = before.get? field then (none, none)
        else (durable.get? field, none) := by
  let g : Option Value × Option Value → Option Value × Option Value := fun view =>
    match after.get? field with
    | some value => if before.get? field = some value then view else (some value, some value)
    | none => if view.1 ≠ none ∧ before.get? field = view.1 then (none, view.2) else view
  have hself : ∀ acc : Record × Record, ((mergePatchField before after acc field).1.get? field,
        (mergePatchField before after acc field).2.get? field) = g (acc.1.get? field, acc.2.get? field) := by
    intro acc
    unfold mergePatchField
    rw [if_neg h]
    cases ha : after.get? field with
    | some value =>
      simp only [g, ha]
      split <;> simp
    | none =>
      simp only [g, ha]
      cases hd : acc.1.get? field with
      | none => simp [hd]
      | some value =>
        simp only [ne_eq, reduceCtorEq, not_false_eq_true, true_and]
        split
        · simp
        · simp [hd]
  have hother : ∀ (acc : Record × Record) (field' : String), field' ≠ field →
      ((mergePatchField before after acc field').1.get? field,
        (mergePatchField before after acc field').2.get? field) = (acc.1.get? field, acc.2.get? field) := by
    intro acc field' hne
    unfold mergePatchField
    split
    · rfl
    split
    · split
      · rfl
      · simp [Dict.get?_set_of_ne _ _ (Ne.symm hne)]
    · split
      · rfl
      · split
        · simp [Dict.get?_erase_of_ne _ (Ne.symm hne)]
        · rfl
  have hfold := foldl_once (mergePatchField before after) (fun acc => (acc.1.get? field, acc.2.get? field)) g field
    (unionKeys before.keys after.keys) (nodup_unionKeys_keys before after) hself
    (fun acc field' _ hne => hother acc field' hne) (durable, .empty)
  unfold mergePatchFields
  rw [hfold]
  split
  · cases ha : after.get? field with
    | some value => simp [g, ha]
    | none =>
      simp only [g, ha, Dict.get?_empty]
      by_cases hb : before.get? field = durable.get? field
      · by_cases hd : durable.get? field = none
        · simp [hb, hd]
        · simp [hb, hd]
      · have hb' : ¬durable.get? field = before.get? field := fun he => hb he.symm
        simp [hb, hb']
  · rename_i hin
    have hmissing := not_not.mp (mt mem_unionKeys_keys.mpr hin)
    simp [hmissing.1, hmissing.2]

theorem get?_id_authored : (mergePatchFields durable before after).2.get? "id" = none := by
  refine foldl_inv (mergePatchField before after)
    (fun acc : Record × Record => acc.2.get? "id" = none) _ (fun acc field _ hacc => ?_) rfl
  unfold mergePatchField
  split
  · exact hacc
  rename_i hne
  split
  · split
    · exact hacc
    · simpa [Dict.get?_set_of_ne _ _ (Ne.symm hne)] using hacc
  · split
    · exact hacc
    · split <;> exact hacc

theorem authored_isEmpty_iff : (mergePatchFields durable before after).2.isEmpty = true ↔
    ∀ field value, field ≠ "id" → after.get? field = some value → before.get? field = some value := by
  rw [Dict.isEmpty_iff]
  constructor
  · intro h field value hne ha
    have hfield := get?_mergePatchFields durable before after hne
    simp only [h field, ha] at hfield
    by_contra hb
    rw [if_neg hb] at hfield
    exact absurd (congrArg Prod.snd hfield) (by simp)
  · intro h field
    by_cases hne : field = "id"
    · rw [hne]
      exact get?_id_authored ..
    have hfield := get?_mergePatchFields durable before after hne
    cases ha : after.get? field with
    | some value =>
      simp only [ha] at hfield
      rw [if_pos (h field value hne ha)] at hfield
      exact congrArg Prod.snd hfield
    | none =>
      simp only [ha] at hfield
      split at hfield <;> exact congrArg Prod.snd hfield

theorem get?_merged_of_same {durable before after : Record}
    (h : ∀ field, field ≠ "id" → durable.get? field = before.get? field) (hne : field ≠ "id") :
    (mergePatchFields durable before after).1.get? field = after.get? field := by
  have hfield := congrArg Prod.fst (get?_mergePatchFields durable before after hne)
  simp only at hfield
  rw [hfield, h field hne]
  cases ha : after.get? field with
  | some value =>
    by_cases hb : before.get? field = some value
    · simp [hb]
    · simp [hb]
  | none =>
    by_cases hb : before.get? field = none
    · simp [hb]
    · simp [hb]

theorem get?_merged_of_missing {durable before after : Record}
    (hd : durable.get? field = none) (ha : after.get? field = none) (hne : field ≠ "id") :
    (mergePatchFields durable before after).1.get? field = none := by
  have hfield := congrArg Prod.fst (get?_mergePatchFields durable before after hne)
  simp only [ha] at hfield
  rw [hfield]
  split
  · rfl
  · exact hd

theorem get?_merged_of_unchanged (durable before : Record) (hne : field ≠ "id") :
    (mergePatchFields durable before before).1.get? field = durable.get? field := by
  have hfield := congrArg Prod.fst (get?_mergePatchFields durable before before hne)
  simp only at hfield
  rw [hfield]
  cases hb : before.get? field with
  | some value => simp
  | none => simp

namespace Slot

theorem Same.refl (c : Slot) : Same c c :=
  ⟨rfl, rfl, Iff.rfl, fun p q hp hq field _ => by
    rw [hp] at hq
    cases hq
    rfl⟩

variable {c : Slot}

theorem Same.trans {d e : Slot} (h : Same c d) (h' : Same d e) : Same c e where
  upsert := h.upsert.trans h'.upsert
  deletion := h.deletion.trans h'.deletion
  patch := h.patch.trans h'.patch
  fields p q hp hq field hne := by
    cases hd : d.patch with
    | none => rw [h.patch.mpr hd] at hp; cases hp
    | some r => exact (h.fields p r hp hd field hne).trans (h'.fields r q hd hq field hne)

theorem Same.symm {d : Slot} (h : Same c d) : Same d c :=
  ⟨h.upsert.symm, h.deletion.symm, h.patch.symm, fun p q hp hq field hne => (h.fields q p hq hp field hne).symm⟩

theorem Same.single {g : Slot} (h : Same c g) (hg : Single g) : Single c where
  upsert hu := by
    rw [h.upsert] at hu
    exact ⟨h.patch.mpr (hg.upsert hu).1, h.deletion.trans (hg.upsert hu).2⟩
  patch hp := h.deletion.trans (hg.patch fun hn => hp (h.patch.mpr hn))
  fields p hp := by
    cases hq : g.patch with
    | none => rw [h.patch.mpr hq] at hp; cases hp
    | some q =>
      obtain ⟨field, value, hne, hv⟩ := (hasPatchFields_iff q).mp (hg.fields q hq)
      exact (hasPatchFields_iff p).mpr ⟨field, value, hne, (h.fields p q hp hq field hne).trans hv⟩

theorem Same.getD_fields {b : Slot} (h : Same c b) (hne : field ≠ "id") :
    (c.patch.getD .empty).get? field = (b.patch.getD .empty).get? field := by
  cases hc : c.patch with
  | none => rw [h.patch.mp hc]
  | some p =>
    cases hb : b.patch with
    | none => rw [h.patch.mpr hb] at hc; cases hc
    | some q => exact h.fields p q hc hb field hne

theorem Same.mergeUpsert {b a : Slot} (h : Same c b) (hb : Single b) : (c.mergeUpsert b.upsert a.upsert).upsert = a.upsert ∧
    (a.upsert ≠ none → (c.mergeUpsert b.upsert a.upsert).patch = none ∧
      (c.mergeUpsert b.upsert a.upsert).deletion = none) ∧
    (a.upsert = none → (c.mergeUpsert b.upsert a.upsert).patch = c.patch ∧
      (c.mergeUpsert b.upsert a.upsert).deletion = c.deletion) := by
  unfold Slot.mergeUpsert
  cases ha : a.upsert with
  | some record =>
    simp only [ne_eq, reduceCtorEq, not_false_eq_true, true_implies, false_implies, and_true]
    split
    · rename_i hbu
      have hc : Single c := h.single hb
      have hcu : c.upsert = some record := h.upsert.trans hbu
      exact ⟨hcu, hc.upsert (by simp [hcu])⟩
    · exact ⟨rfl, rfl, rfl⟩
  | none =>
    simp only [ne_eq, not_true_eq_false, false_implies, true_implies, true_and]
    split
    · exact ⟨rfl, rfl, rfl⟩
    rename_i hguard
    refine ⟨?_, rfl, rfl⟩
    rw [h.upsert]
    simp only [h.upsert, decide_true, Bool.and_true, Bool.not_eq_true,
      isSome_eq_false_iff, isNone_iff_eq_none] at hguard
    exact hguard

theorem mergePatch_of_none {id : String} {before : Option Record} (hc : c.patch = none) : c.mergePatch id before none = c := by
  obtain ⟨u, p, d⟩ := c
  cases hc
  unfold Slot.mergePatch
  split
  · rfl
  have hempty : (mergePatchFields .empty (before.getD .empty) .empty).2.isEmpty = true :=
    (authored_isEmpty_iff ..).mpr fun _ _ _ h => by simp at h
  have hnone : hasPatchFields (mergePatchFields .empty (before.getD .empty) .empty).1 = false := by
    rw [← Bool.not_eq_true, hasPatchFields_iff]
    rintro ⟨field, value, hne, hv⟩
    rw [get?_merged_of_missing (by simp) (by simp) hne] at hv
    cases hv
  simp [hempty, hnone]

theorem Same.mergePatch {b a c₁ : Slot} (id : String) (h : Same c b) (hb : Single b) (ha : Single a)
    (hu : c₁.upsert = none) (hp : c₁.patch = c.patch) (hd : c₁.deletion = c.deletion) :
    (c₁.mergePatch id b.patch a.patch).upsert = none ∧
      ((c₁.mergePatch id b.patch a.patch).patch = none ↔ a.patch = none) ∧
      (∀ p q, (c₁.mergePatch id b.patch a.patch).patch = some p → a.patch = some q →
        ∀ field, field ≠ "id" → p.get? field = q.get? field) ∧
      (a.patch ≠ none → (c₁.mergePatch id b.patch a.patch).deletion = none) ∧
      (a.patch = none → (c₁.mergePatch id b.patch a.patch).deletion = c.deletion) := by
  obtain ⟨u, p₁, d⟩ := c₁
  simp only at hu hp hd
  subst hu hp hd
  unfold Slot.mergePatch
  split
  · rename_i hnone
    refine ⟨rfl, by simp [h.patch.mpr hnone.1, hnone.2], fun p q _ hq => ?_, fun hne => ?_, fun _ => rfl⟩
    · rw [hnone.2] at hq; cases hq
    · exact absurd hnone.2 hne
  · rename_i hsome
    simp only
    have hmerged : ∀ field, field ≠ "id" →
        (mergePatchFields (c.patch.getD .empty) (b.patch.getD .empty) (a.patch.getD .empty)).1.get?
          field = (a.patch.getD .empty).get? field :=
      fun field hne => get?_merged_of_same (fun field hne => h.getD_fields hne) hne
    have hfields : hasPatchFields (mergePatchFields (c.patch.getD .empty) (b.patch.getD .empty)
        (a.patch.getD .empty)).1 = a.patch.isSome := by
      rw [Bool.eq_iff_iff, hasPatchFields_iff]
      constructor
      · rintro ⟨field, value, hne, hv⟩
        rw [hmerged field hne] at hv
        cases hq : a.patch with
        | none => rw [hq] at hv; simp at hv
        | some q => rfl
      · intro hq
        obtain ⟨q, hq⟩ := isSome_iff_exists.mp hq
        obtain ⟨field, value, hne, hv⟩ := (hasPatchFields_iff q).mp (ha.fields q hq)
        exact ⟨field, value, hne, (hmerged field hne).trans (by simpa [hq] using hv)⟩
    cases hq : a.patch with
    | none =>
      rw [hq] at hmerged hfields hsome
      have hauthored : (mergePatchFields (c.patch.getD .empty) (b.patch.getD .empty) .empty).2.isEmpty = true :=
        (authored_isEmpty_iff ..).mpr fun _ _ _ h => by simp at h
      simp only [isSome_none, getD_none] at hfields
      simp [hauthored, hfields]
    | some q =>
      rw [hq] at hmerged hfields
      simp only [isSome_some] at hfields
      have hdeletion : (if (mergePatchFields (c.patch.getD .empty) (b.patch.getD .empty)
          ((some q).getD .empty)).2.isEmpty = true then c.deletion else none) = none := by
        split
        · rename_i hauthored
          -- nothing authored: the base has a field of the request, so it is a patch
          obtain ⟨field, value, hne, hv⟩ := (hasPatchFields_iff q).mp (ha.fields q hq)
          have hbase := (authored_isEmpty_iff ..).mp hauthored field value hne hv
          have hbp : b.patch ≠ none := by
            rintro hbp
            rw [hbp] at hbase
            simp at hbase
          exact h.deletion.trans (hb.patch hbp)
        · rfl
      have hmatch : (if (mergePatchFields (c.patch.getD .empty) (b.patch.getD .empty)
          ((some q).getD .empty)).2.isEmpty = true then none else (none : Option Record)) = none := by
        split <;> rfl
      simp only [hdeletion, hmatch, hfields, if_true]
      refine ⟨trivial, by simp, fun p q' hp hq' field hne => ?_, fun _ => trivial, fun h => by cases h⟩
      cases hp
      cases hq'
      rw [Dict.get?_set_of_ne _ _ hne, hmerged field hne]
      rfl

variable (key : TableKey)

theorem merge_own {b a : Slot} (h : Same c b) (hb : Single b) (ha : Single a) : Same (Slot.merge key c b a) a := by
  obtain ⟨hu, husome, hunone⟩ := h.mergeUpsert (a := a) hb
  have hwhole : ∀ c₂ : Slot, c₂.upsert = a.upsert → (c₂.patch = none ↔ a.patch = none) →
      (∀ p q, c₂.patch = some p → a.patch = some q → ∀ field, field ≠ "id" → p.get? field = q.get? field) →
      (c₂.deletion = none ∨ (c₂.deletion = b.deletion ∧ a.upsert = none ∧ a.patch = none)) →
      (a.deletion ≠ none → c₂.deletion = b.deletion) →
      Same (c₂.mergeDeletion (splitId key.2 = key.2) b.deletion a.deletion) a := by
    intro c₂ hcu hcp hcf hcd hkept
    unfold Slot.mergeDeletion
    cases had : a.deletion with
    | some item =>
      have hau : a.upsert = none := by
        by_contra hne
        rw [(ha.upsert hne).2] at had
        cases had
      have hap : a.patch = none := by
        by_contra hne
        rw [ha.patch hne] at had
        cases had
      simp only
      split
      · rename_i hbd
        exact ⟨hcu, (hkept (by simp [had])).trans (hbd.trans had.symm), hcp, hcf⟩
      · simp only [hcu, hau, hcp.mpr hap, ite_self]
        exact ⟨hau.symm, had.symm, by simp [hap], fun p q hp _ => by cases hp⟩
    | none =>
      simp only
      split
      · exact ⟨hcu, had.symm, hcp, hcf⟩
      rename_i hguard
      refine ⟨hcu, ?_, hcp, hcf⟩
      rw [had]
      rcases hcd with hcd | ⟨hcd, -, -⟩
      · exact hcd
      · rw [hcd]
        simpa [hcd] using hguard
  unfold Slot.merge
  by_cases hau : a.upsert = none
  · obtain ⟨hp, hd⟩ := hunone hau
    obtain ⟨h1, h2, h3, h4, h5⟩ := h.mergePatch key.2 hb ha (hu.trans hau) hp hd
    refine hwhole _ (h1.trans hau.symm) h2 h3 ?_ fun hne => ?_
    · by_cases hap : a.patch = none
      · exact .inr ⟨(h5 hap).trans h.deletion, hau, hap⟩
      · exact .inl (h4 hap)
    · have hap : a.patch = none := by
        by_contra hp
        exact hne (ha.patch hp)
      exact (h5 hap).trans h.deletion
  · obtain ⟨hp, hd⟩ := husome hau
    have hap : a.patch = none := (ha.upsert hau).1
    rw [hap, mergePatch_of_none hp]
    refine hwhole _ hu ⟨fun _ => hap, fun _ => hp⟩ (fun p q hp' _ => ?_) (.inl hd) fun hne => ?_
    · rw [hp] at hp'; cases hp'
    · exact absurd (ha.upsert hau).2 hne

theorem merge_other (b : Slot) (hc : Single c) : Same (Slot.merge key c b b) c := by
  have hU : c.mergeUpsert b.upsert b.upsert = c := by
    unfold Slot.mergeUpsert
    cases b.upsert <;> simp
  have hD : ∀ c₂ : Slot, c₂.mergeDeletion (splitId key.2 = key.2) b.deletion b.deletion = c₂ := by
    intro c₂
    unfold Slot.mergeDeletion
    cases b.deletion <;> simp
  unfold Slot.merge
  rw [hU, hD]
  unfold Slot.mergePatch
  split
  · exact .refl c
  have hauthored : (mergePatchFields (c.patch.getD .empty) (b.patch.getD .empty) (b.patch.getD .empty)).2.isEmpty = true :=
    (authored_isEmpty_iff ..).mpr fun _ _ _ h => h
  have hmerged : ∀ field, field ≠ "id" → (mergePatchFields (c.patch.getD .empty)
      (b.patch.getD .empty) (b.patch.getD .empty)).1.get? field = (c.patch.getD .empty).get? field :=
    fun field hne => get?_merged_of_unchanged _ _ hne
  have hfields : hasPatchFields (mergePatchFields (c.patch.getD .empty) (b.patch.getD .empty)
      (b.patch.getD .empty)).1 = c.patch.isSome := by
    rw [Bool.eq_iff_iff, hasPatchFields_iff]
    constructor
    · rintro ⟨field, value, hne, hv⟩
      rw [hmerged field hne] at hv
      cases hp : c.patch with
      | none => rw [hp] at hv; simp at hv
      | some p => rfl
    · intro hp
      obtain ⟨p, hp⟩ := isSome_iff_exists.mp hp
      obtain ⟨field, value, hne, hv⟩ := (hasPatchFields_iff p).mp (hc.fields p hp)
      exact ⟨field, value, hne, (hmerged field hne).trans (by simpa [hp] using hv)⟩
  simp only [hauthored, if_true, hfields]
  cases hp : c.patch with
  | none => exact ⟨rfl, rfl, by simp [hp], fun p q hp' _ => by simp at hp'⟩
  | some p =>
    rw [hp] at hmerged
    refine ⟨rfl, rfl, by simp [hp], fun p' q hp' hq field hne => ?_⟩
    simp only [isSome_some, if_true, some.injEq] at hp'
    rw [hp] at hq
    cases hq
    rw [← hp', Dict.get?_set_of_ne _ _ hne]
    exact hmerged field hne

theorem mergeLaws : SharedCell.MergeLaws (Slot.merge key) Same Single where
  refl := Same.refl
  trans _ _ _ := Same.trans
  good _ _ h hg := h.single hg
  own _ _ _ := merge_own key
  other _ b hc := merge_other key b hc

end Slot

end Bidding
