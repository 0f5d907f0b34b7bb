import Bidding.Outbox.View

/-!
# What each method does to the queued operations

For every method of the outbox its effect on the view: the writing methods by the entries and generations of their record, with
every other record as it was; the removing methods as `Sheds`; the acknowledgement as `Settles`.
-/

namespace Bidding

open Foundations

def RecordKey.isOf (key : RecordKey) (table id : String) : Prop := key.table = table ∧ key.id = id

instance (key : RecordKey) (table id : String) : Decidable (key.isOf table id) :=
  inferInstanceAs (Decidable (_ ∧ _))

theorem RecordKey.eq_iff (key : RecordKey) (op : Operation) (table id : String) :
    key = ⟨op, table, id⟩ ↔ key.operation = op ∧ key.isOf table id := by
  obtain ⟨o, t, i⟩ := key
  simp [RecordKey.isOf]

namespace Outbox

variable {opts : OutboxOptions}

def SameAt (o o' : Outbox) (key : RecordKey) : Prop :=
  o'.stamp key = o.stamp key ∧ o'.entry key = o.entry key

variable (o : Outbox) {o₁ o₂ o₃ : Outbox}

theorem SameAt.refl (key : RecordKey) : SameAt o o key := ⟨rfl, rfl⟩

theorem SameAt.trans {key : RecordKey} (h : SameAt o₁ o₂ key) (h' : SameAt o₂ o₃ key) : SameAt o₁ o₃ key :=
  ⟨h'.1.trans h.1, h'.2.trans h.2⟩

def Evolves (o o' : Outbox) : Prop := o.view.Bounded → Stamped.Advances o.view o'.view

theorem Evolves.refl : Evolves o o := Stamped.Advances.refl o.view

theorem Evolves.trans (h : Evolves o₁ o₂) (h' : Evolves o₂ o₃) : Evolves o₁ o₃ :=
  fun hb => (h hb).trans (h' (hb.advances (h hb)))

theorem Evolves.of_sheds {o o' : Outbox} (h : o.view.Sheds o'.view) : Evolves o o' := h.advances

theorem sheds_of_same {o o' : Outbox} (hgen : o'.generation = o.generation)
    (h : ∀ key, SameAt o o' key) : o.view.Sheds o'.view :=
  ⟨hgen, fun key => .inl (h key)⟩

theorem sheds_persist : o.view.Sheds (persist opts o).view where
  clock_eq := generation_persist o
  key key := by
    rcases @stamp_persist opts o key with h | ⟨h, hn⟩
    · exact .inl ⟨h, entry_persist o key⟩
    · exact .inr ⟨(entry_persist o key).trans hn, .inr h⟩

theorem sheds_clear : o.view.Sheds (clear opts o).view :=
  ⟨rfl, fun key => .inr ⟨entry_clear o key, .inr rfl⟩⟩

theorem sheds_touch : o.view.Sheds (touchForNewPayload opts o).view :=
  sheds_of_same rfl fun _ => ⟨rfl, rfl⟩

theorem sheds_touch_persist : o.view.Sheds (persist opts (touchForNewPayload opts o)).view :=
  (sheds_touch o).trans (sheds_persist _)

variable (table : String)

theorem sheds_capture (bases : List Record) (o : Outbox) : o.view.Sheds (captureBaseSnapshots opts table bases o).view :=
  sheds_of_same rfl fun _ => ⟨rfl, rfl⟩

/-! ## The writing methods, record by record -/

variable (o : Outbox)

variable (record : Record)

variable (key : RecordKey)

theorem entry_enqueueUpsert : (enqueueUpsert opts table o record).entry key = if key.isOf table (recordId record) then
      if key.operation = .upsert then some (.record (opts.normalizeRecord record table)) else none
    else o.entry key := by
  simp only [enqueueUpsert, entry_bumpRecord, entry_forget, entry_dropDeletion,
    entry_dropEmptyTable, entry_eraseRecord, entry_setRecord, RecordKey.eq_iff, RecordMap.operation]
  by_cases h : key.isOf table (recordId record)
  · cases hop : key.operation <;> simp [h]
  · simp [h]

theorem stamp_enqueueUpsert : (enqueueUpsert opts table o record).stamp key = if key.isOf table (recordId record) then
      if key.operation = .upsert then some (o.generation + 1) else none
    else o.stamp key := by
  simp only [enqueueUpsert, stamp_bumpRecord, stamp_forget, stamp_dropDeletion,
    stamp_dropEmptyTable, stamp_eraseRecord, stamp_setRecord, RecordKey.eq_iff,
    generation_forget, generation_dropDeletion, generation_dropEmptyTable, generation_eraseRecord, generation_setRecord]
  by_cases h : key.isOf table (recordId record)
  · cases hop : key.operation <;> simp [h]
  · simp [h]

theorem generation_enqueueUpsert : (enqueueUpsert opts table o record).generation = o.generation + 1 := rfl

def patchOperation (table id : String) : Operation :=
  if (o.queue.upserts.get₂ table id).isSome then .upsert else .patch

def patchedRecord (opts : OutboxOptions) (o : Outbox) (table : String) (record : Record) : Record :=
  let patch := opts.normalizeRecord record table
  match o.queue.upserts.get₂ table (recordId record) with
  | some queued => mergeIntoUpsert queued patch
  | none => ((o.queue.patches.get₂ table (recordId record)).getD .empty).spread patch

theorem enqueuePatch_eq : ∃ part : RecordMap, part.operation = patchOperation o table (recordId record) ∧
    enqueuePatch opts table o record = (o |> setRecord part table (recordId record) (patchedRecord opts o table record)
        |> bumpRecord ⟨part.operation, table, recordId record⟩
        |> dropDeletion table (recordId record)
        |> forget ⟨.delete, table, recordId record⟩) := by
  cases h : o.queue.upserts.get₂ table (recordId record) with
  | none => exact ⟨.patches, by simp [patchOperation, h, RecordMap.operation],
      by simp only [enqueuePatch, patchedRecord, h, RecordMap.operation]⟩
  | some queued => exact ⟨.upserts, by simp [patchOperation, h, RecordMap.operation],
      by simp only [enqueuePatch, patchedRecord, h, RecordMap.operation]⟩

theorem patchOperation_ne_delete (table id : String) : patchOperation o table id ≠ .delete := by
  unfold patchOperation
  split <;> simp

theorem ite_ite_patchOperation {α : Type} (key : RecordKey) (id : String) (a b c : α) :
    (if key = ⟨.delete, table, id⟩ then b else if key = ⟨patchOperation o table id, table, id⟩ then a else c) =
      if key = ⟨patchOperation o table id, table, id⟩ then a else if key = ⟨.delete, table, id⟩ then b else c := by
  by_cases hd : key = ⟨.delete, table, id⟩
  · have hne : key ≠ ⟨patchOperation o table id, table, id⟩ := by
      rw [hd, ne_eq, RecordKey.mk.injEq]
      exact fun h => patchOperation_ne_delete o table id h.1.symm
    rw [if_pos hd, if_neg hne, if_pos hd]
  · rw [if_neg hd, if_neg hd]

theorem entry_enqueuePatch : (enqueuePatch opts table o record).entry key =
    if key = ⟨patchOperation o table (recordId record), table, recordId record⟩ then
      some (.record (patchedRecord opts o table record))
    else if key = ⟨.delete, table, recordId record⟩ then none
    else o.entry key := by
  obtain ⟨part, hop, heq⟩ := @enqueuePatch_eq opts table o record
  rw [heq, hop]
  simp only [entry_forget, entry_dropDeletion, entry_bumpRecord, entry_setRecord, hop]
  exact ite_ite_patchOperation ..

theorem stamp_enqueuePatch : (enqueuePatch opts table o record).stamp key =
    if key = ⟨patchOperation o table (recordId record), table, recordId record⟩ then
      some (o.generation + 1)
    else if key = ⟨.delete, table, recordId record⟩ then none
    else o.stamp key := by
  obtain ⟨part, hop, heq⟩ := @enqueuePatch_eq opts table o record
  rw [heq, hop]
  simp only [stamp_forget, stamp_dropDeletion, stamp_bumpRecord, stamp_setRecord, generation_setRecord]
  exact ite_ite_patchOperation ..

theorem generation_enqueuePatch : (enqueuePatch opts table o record).generation = o.generation + 1 := by
  obtain ⟨part, -, heq⟩ := @enqueuePatch_eq opts table o record
  rw [heq]
  rfl

theorem entry_replaceRecord : (replaceRecord opts table o record).entry key = if key = ⟨.upsert, table, recordId record⟩ then
      some (.record (opts.normalizeRecord record table))
    else o.entry key :=
  entry_setRecord .upserts table (recordId record) _ o key

theorem stamp_replaceRecord : (replaceRecord opts table o record).stamp key =
    if key = ⟨.upsert, table, recordId record⟩ then some (o.generation + 1)
    else if key = ⟨.delete, table, recordId record⟩ then none
    else o.stamp key := by
  simp only [replaceRecord, stamp_forget, stamp_bumpRecord, stamp_setRecord, generation_setRecord, RecordKey.eq_iff]
  cases key.operation <;> simp

theorem generation_replaceRecord : (replaceRecord opts table o record).generation = o.generation + 1 := rfl

theorem find?_upsertDeletion (l : List Deletion) (table id t i : String) (expectedVersion : Option Int) :
    ((upsertDeletion l table id expectedVersion).find? (·.names t i)).isSome =
        (decide (t = table ∧ i = id) || (l.find? (·.names t i)).isSome) ∧
      (¬(t = table ∧ i = id) → (upsertDeletion l table id expectedVersion).find? (·.names t i) = l.find? (·.names t i)) := by
  induction l with
  | nil =>
    by_cases h : t = table ∧ i = id
    · obtain ⟨rfl, rfl⟩ := h
      simp [upsertDeletion, Deletion.names]
    · have hn : Deletion.names ⟨table, id, expectedVersion⟩ t i = false := by
        rw [← Bool.not_eq_true, names_iff]
        rintro ⟨rfl, rfl⟩
        exact h ⟨rfl, rfl⟩
      simp [upsertDeletion, hn, h]
  | cons item rest ih =>
    by_cases hi : item.names table id = true
    · simp only [upsertDeletion, hi, if_true, List.find?_cons]
      by_cases h : t = table ∧ i = id
      · obtain ⟨rfl, rfl⟩ := h
        have hn : Deletion.names { item with
            expectedVersion := expectedVersion.or item.expectedVersion } t i = true := hi
        simp [hn]
      · have hn : item.names t i = false := by
          rw [names_iff] at hi
          rw [← Bool.not_eq_true, names_iff, hi.1, hi.2]
          rintro ⟨rfl, rfl⟩
          exact h ⟨rfl, rfl⟩
        have hn' : Deletion.names { item with
            expectedVersion := expectedVersion.or item.expectedVersion } t i = false := hn
        simp [hn, hn', h]
    · simp only [upsertDeletion, hi, List.find?_cons, Bool.false_eq_true, if_false]
      cases item.names t i with
      | true => simp
      | false => exact ih

theorem entry_enqueueDelete_of_ne (h : key ≠ ⟨.delete, table, recordId record⟩) :
    (enqueueDelete table o record).entry key = if key.isOf table (recordId record) then none else o.entry key := by
  obtain ⟨op, t, i⟩ := key
  cases op with
  | delete =>
    have hne : ¬(t = table ∧ i = recordId record) := by
      rintro ⟨rfl, rfl⟩
      exact h rfl
    have hfind := (find?_upsertDeletion o.queue.deletes table (recordId record) t i (expectedVersionOf record)).2 hne
    simp only [RecordKey.isOf, hne, if_false]
    exact congrArg (Option.map Entry.deletion) hfind
  | upsert =>
    have hdrop := entry_eraseRecord .upserts table (recordId record) o ⟨.upsert, t, i⟩
    have : (enqueueDelete table o record).entry ⟨.upsert, t, i⟩ = (o |> eraseRecord .upserts table (recordId record)
          |> dropEmptyTable .upserts table).entry ⟨.upsert, t, i⟩ := rfl
    rw [this, entry_dropEmptyTable, hdrop]
    by_cases hk : t = table ∧ i = recordId record <;> simp [RecordMap.operation, RecordKey.isOf, hk]
  | patch =>
    have hdrop := entry_eraseRecord .patches table (recordId record) o ⟨.patch, t, i⟩
    have : (enqueueDelete table o record).entry ⟨.patch, t, i⟩ = (o |> eraseRecord .patches table (recordId record)
          |> dropEmptyTable .patches table).entry ⟨.patch, t, i⟩ := rfl
    rw [this, entry_dropEmptyTable, hdrop]
    by_cases hk : t = table ∧ i = recordId record <;> simp [RecordMap.operation, RecordKey.isOf, hk]

theorem entry_enqueueDelete_self : (enqueueDelete table o record).entry ⟨.delete, table, recordId record⟩ ≠ none := by
  have hfind := (find?_upsertDeletion o.queue.deletes table (recordId record) table
    (recordId record) (expectedVersionOf record)).1
  simp only [and_self, decide_true, Bool.true_or] at hfind
  obtain ⟨d, hd⟩ := Option.isSome_iff_exists.mp hfind
  have : (enqueueDelete table o record).entry ⟨.delete, table, recordId record⟩ =
      some (.deletion d) := congrArg (Option.map Entry.deletion) hd
  simp [this]

theorem stamp_enqueueDelete : (enqueueDelete table o record).stamp key = if key.isOf table (recordId record) then
      if key.operation = .delete then some (o.generation + 1) else none
    else o.stamp key := by
  have : (enqueueDelete table o record).stamp key =
      (o |> forget ⟨.upsert, table, recordId record⟩ |> forget ⟨.patch, table, recordId record⟩
        |> bumpRecord ⟨.delete, table, recordId record⟩).stamp key := rfl
  rw [this]
  simp only [stamp_bumpRecord, stamp_forget, generation_forget, RecordKey.eq_iff]
  by_cases h : key.isOf table (recordId record)
  · cases hop : key.operation <;> simp [h]
  · simp [h]

theorem generation_enqueueDelete : (enqueueDelete table o record).generation = o.generation + 1 := rfl

theorem sameAt_enqueueUpsert {table : String} {o : Outbox} {record : Record} {key : RecordKey}
    (h : ¬key.isOf table (recordId record)) : SameAt o (enqueueUpsert opts table o record) key := by
  simp [SameAt, entry_enqueueUpsert, stamp_enqueueUpsert, h]

theorem sameAt_enqueuePatch {table : String} {o : Outbox} {record : Record} {key : RecordKey}
    (h : ¬key.isOf table (recordId record)) : SameAt o (enqueuePatch opts table o record) key := by
  simp [SameAt, entry_enqueuePatch, stamp_enqueuePatch, RecordKey.eq_iff, h]

theorem sameAt_replaceRecord {table : String} {o : Outbox} {record : Record} {key : RecordKey}
    (h : ¬key.isOf table (recordId record)) : SameAt o (replaceRecord opts table o record) key := by
  simp [SameAt, entry_replaceRecord, stamp_replaceRecord, RecordKey.eq_iff, h]

theorem sameAt_enqueueDelete {table : String} {o : Outbox} {record : Record} {key : RecordKey}
    (h : ¬key.isOf table (recordId record)) : SameAt o (enqueueDelete table o record) key := by
  have hne : key ≠ ⟨.delete, table, recordId record⟩ := by
    rw [ne_eq, RecordKey.eq_iff]; exact fun hk => h hk.2
  simp [SameAt, entry_enqueueDelete_of_ne _ _ _ _ hne, stamp_enqueueDelete, h]

theorem evolves_enqueueUpsert : Evolves o (enqueueUpsert opts table o record) := by
  intro hb
  refine .of_write (k := ⟨.upsert, table, recordId record⟩) hb rfl ?_ fun key hne => ?_
  · exact (stamp_enqueueUpsert ..).trans (by simp [RecordKey.isOf, view])
  · by_cases h : key.isOf table (recordId record)
    · have hop : key.operation ≠ .upsert := fun hop => hne ((RecordKey.eq_iff ..).mpr ⟨hop, h⟩)
      exact .inl ((stamp_enqueueUpsert ..).trans (by simp [h, hop]))
    · obtain ⟨hs, he⟩ := @sameAt_enqueueUpsert opts table o record key h
      exact .inr ⟨hs, .inl he⟩

theorem evolves_enqueuePatch : Evolves o (enqueuePatch opts table o record) := by
  intro hb
  refine .of_write (k := ⟨patchOperation o table (recordId record), table, recordId record⟩) hb
    (generation_enqueuePatch ..) ?_ fun key hne => ?_
  · exact (stamp_enqueuePatch ..).trans (if_pos rfl)
  · by_cases h : key = ⟨.delete, table, recordId record⟩
    · exact .inl ((stamp_enqueuePatch ..).trans (by rw [if_neg hne, if_pos h]))
    · refine .inr ⟨(stamp_enqueuePatch ..).trans (by rw [if_neg hne, if_neg h]; rfl), .inl ?_⟩
      exact (entry_enqueuePatch ..).trans (by rw [if_neg hne, if_neg h]; rfl)

theorem evolves_replaceRecord : Evolves o (replaceRecord opts table o record) := by
  intro hb
  refine .of_write (k := ⟨.upsert, table, recordId record⟩) hb rfl ?_ fun key hne => ?_
  · exact (stamp_replaceRecord ..).trans (if_pos rfl)
  · by_cases h : key = ⟨.delete, table, recordId record⟩
    · exact .inl ((stamp_replaceRecord ..).trans (by rw [if_neg hne, if_pos h]))
    · refine .inr ⟨(stamp_replaceRecord ..).trans (by rw [if_neg hne, if_neg h]; rfl), .inl ?_⟩
      exact (entry_replaceRecord ..).trans (by rw [if_neg hne]; rfl)

theorem evolves_enqueueDelete : Evolves o (enqueueDelete table o record) := by
  intro hb
  refine .of_write (k := ⟨.delete, table, recordId record⟩) hb rfl ?_ fun key hne => ?_
  · exact (stamp_enqueueDelete ..).trans (by simp [RecordKey.isOf, view])
  · by_cases h : key.isOf table (recordId record)
    · have hop : key.operation ≠ .delete := fun hop => hne ((RecordKey.eq_iff ..).mpr ⟨hop, h⟩)
      exact .inl ((stamp_enqueueDelete ..).trans (by simp [h, hop]))
    · obtain ⟨hs, he⟩ := sameAt_enqueueDelete (o := o) h
      exact .inr ⟨hs, .inl he⟩

end Outbox

end Bidding
