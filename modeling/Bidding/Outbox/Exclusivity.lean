import Bidding.Outbox.Generations

/-!
# One operation for a record

Every enqueue command clears the other two operations of the record it writes. The two
repairs that run before a push do not: they queue a record as an upsert and leave a patch or a
deletion of it where it is.
-/

namespace Bidding

open Foundations List Option

def Entry.idField : Entry → Option Value
  | .record r => r.get? "id"
  | .deletion _ => none

namespace Outbox

variable {opts : OutboxOptions}

def Exclusive (o : Outbox) : Prop :=
  ∀ table id op op', o.entry ⟨op, table, id⟩ ≠ none → o.entry ⟨op', table, id⟩ ≠ none → op = op'

/-- What is queued was queued before, with the same id field. -/
def NoNew (o o' : Outbox) : Prop :=
  ∀ key entry', o'.entry key = some entry' → ∃ entry, o.entry key = some entry ∧ entry'.idField = entry.idField

theorem NoNew.refl (o : Outbox) : NoNew o o := fun _ entry h => ⟨entry, h, rfl⟩

theorem NoNew.trans {o₁ o₂ o₃ : Outbox} (h : NoNew o₁ o₂) (h' : NoNew o₂ o₃) : NoNew o₁ o₃ := by
  intro key entry₃ h₃
  obtain ⟨entry₂, h₂, hid⟩ := h' key entry₃ h₃
  obtain ⟨entry₁, h₁, hid'⟩ := h key entry₂ h₂
  exact ⟨entry₁, h₁, hid.trans hid'⟩

theorem NoNew.of_sheds {o o' : Outbox} (h : o.view.Sheds o'.view) : NoNew o o' := by
  intro key entry' hentry
  rcases h.key key with ⟨-, hkept⟩ | ⟨hgone, -⟩
  · exact ⟨entry', hkept.symm.trans hentry, rfl⟩
  · cases hgone.symm.trans hentry

theorem NoNew.ne_none {o o' : Outbox} (h : NoNew o o') {key : RecordKey} (hk : o'.entry key ≠ none) : o.entry key ≠ none := by
  obtain ⟨entry', hentry⟩ := ne_none_iff_exists'.mp hk
  obtain ⟨entry, hold, -⟩ := h key entry' hentry
  simp [hold]

theorem Exclusive.noNew {o o' : Outbox} (h : Exclusive o) (hn : NoNew o o') : Exclusive o' :=
  fun t i op op' h1 h2 => h t i op op' (hn.ne_none h1) (hn.ne_none h2)

variable {o : Outbox}

theorem Exclusive.of_record {o o' : Outbox} (h : Exclusive o) (table id : String)
    (hother : ∀ key : RecordKey, ¬key.isOf table id → o'.entry key = o.entry key)
    (op : Operation) (honly : ∀ op', op' ≠ op → o'.entry ⟨op', table, id⟩ = none) : Exclusive o' := by
  intro t i op₁ op₂ h1 h2
  by_cases hk : t = table ∧ i = id
  · obtain ⟨rfl, rfl⟩ := hk
    have only : ∀ op', o'.entry ⟨op', t, i⟩ ≠ none → op' = op := fun op' hop =>
      not_not.mp fun hne => hop (honly op' hne)
    rw [only op₁ h1, only op₂ h2]
  · rw [hother ⟨op₁, t, i⟩ hk] at h1
    rw [hother ⟨op₂, t, i⟩ hk] at h2
    exact h t i op₁ op₂ h1 h2

theorem Exclusive.grown {o o' : Outbox} (h : Exclusive o) (added : TableKey → Prop)
    (hgrown : ∀ op table id, o'.entry ⟨op, table, id⟩ ≠ none →
      o.entry ⟨op, table, id⟩ ≠ none ∨ op = .upsert ∧ added (table, id))
    (hclears : ∀ table id, added (table, id) →
      o.entry ⟨.patch, table, id⟩ = none ∧ o.entry ⟨.delete, table, id⟩ = none) : Exclusive o' := by
  intro t i op op' h1 h2
  have only : added (t, i) → ∀ op, o'.entry ⟨op, t, i⟩ ≠ none → op = .upsert := by
    intro hadded op hop
    obtain ⟨hpatch, hdelete⟩ := hclears t i hadded
    rcases hgrown op t i hop with hold | ⟨hop, -⟩
    · cases op with
      | upsert => rfl
      | patch => exact absurd hpatch hold
      | delete => exact absurd hdelete hold
    · exact hop
  rcases hgrown op t i h1 with hold | ⟨rfl, hadded⟩
  · rcases hgrown op' t i h2 with hold' | ⟨rfl, hadded⟩
    · exact h t i op op' hold hold'
    · exact only hadded op h1
  · exact (only hadded op' h2).symm

/-! ## The enqueue commands -/

theorem exclusive_enqueueUpsert (h : Exclusive o) (table : String) (record : Record) :
    Exclusive (enqueueUpsert opts table o record) :=
  h.of_record table (recordId record) (fun _ hk => (sameAt_enqueueUpsert hk).2) .upsert
    fun op' hne => by simp [entry_enqueueUpsert, RecordKey.isOf, hne]

theorem exclusive_enqueuePatch (h : Exclusive o) (table : String) (record : Record) :
    Exclusive (enqueuePatch opts table o record) := by
  refine h.of_record table (recordId record) (fun _ hk => (sameAt_enqueuePatch hk).2)
    (patchOperation o table (recordId record)) fun op' hne => ?_
  rw [entry_enqueuePatch, if_neg (by simp [hne])]
  cases hu : o.queue.upserts.get₂ table (recordId record) with
  | none =>
    -- the patch was written as a patch, and there is no upsert
    cases op' with
    | upsert => simp [entry, MutationQueue.entry, hu]
    | patch => simp [patchOperation, hu] at hne
    | delete => simp
  | some queued =>
    -- the upsert took the patch in, so by exclusivity there was no patch
    cases op' with
    | upsert => simp [patchOperation, hu] at hne
    | patch =>
      have hup : o.entry ⟨.upsert, table, recordId record⟩ ≠ none := by simp [entry, MutationQueue.entry, hu]
      rw [if_neg (by simp)]
      exact not_not.mp fun hp => by cases h _ _ _ _ hup hp
    | delete => simp

theorem exclusive_enqueueDelete (h : Exclusive o) (table : String) (record : Record) :
    Exclusive (enqueueDelete table o record) := by
  refine h.of_record table (recordId record) (fun _ hk => (sameAt_enqueueDelete hk).2) .delete fun op' hne => ?_
  rw [entry_enqueueDelete_of_ne _ _ _ _ (by simp [hne])]
  simp [RecordKey.isOf]

/-- While `_replaceTable` writes its records, the table holds upserts of those records only,
no patch, and the deletions it held before. -/
structure Replacing (o : Outbox) (table : String) (ids : List String) (o' : Outbox) : Prop where
  upsert : ∀ id, o'.entry ⟨.upsert, table, id⟩ ≠ none → id ∈ ids
  patch : ∀ id, o'.entry ⟨.patch, table, id⟩ = none
  other : ∀ key : RecordKey, key.table ≠ table ∨ key.operation = .delete → o'.entry key = o.entry key

theorem exclusive_replaceTable (h : Exclusive o) (table : String)
    (records bases : List Record) : Exclusive (replaceTable opts table records bases o).1 := by
  unfold replaceTable
  simp only
  split
  · exact h
  generalize hids : (records.filter hasRecordId).map recordId = ids
  have hwritten : Replacing o table ids ((records.filter hasRecordId).foldl (replaceRecord opts table)
      (emptyTable table (captureBaseSnapshots opts table bases o))) := by
    refine foldl_inv _ (Replacing o table ids) _ (fun o' record hr ho' => ?_) ?_
    · have hmem : recordId record ∈ ids := hids ▸ mem_map_of_mem hr
      refine ⟨fun id hid => ?_, fun id => ?_, fun key hk => ?_⟩
      · rw [entry_replaceRecord] at hid
        split at hid
        · rename_i hkey
          rw [RecordKey.mk.injEq] at hkey
          exact hkey.2.2 ▸ hmem
        · exact ho'.upsert id hid
      · rw [entry_replaceRecord, if_neg (by simp)]
        exact ho'.patch id
      · rw [entry_replaceRecord, if_neg]
        · exact ho'.other key hk
        · rintro rfl
          rcases hk with hk | hk
          · exact hk rfl
          · cases hk
    · refine ⟨fun id hid => ?_, fun id => ?_, fun key hk => ?_⟩
      · rw [entry_emptyTable, if_pos ⟨rfl, by simp⟩] at hid
        exact absurd rfl hid
      · rw [entry_emptyTable, if_pos ⟨rfl, by simp⟩]
      · rw [entry_emptyTable, if_neg]
        · rfl
        · rintro ⟨ht, hop⟩
          rcases hk with hk | hk
          · exact hk ht
          · exact hop hk
  intro t i op op' h1 h2
  simp only [entry_touchForNewPayload, entry_filterDeletions] at h1 h2
  by_cases ht : t = table
  · subst ht
    have only : ∀ op, (if op = Operation.delete ∧ (decide (t ≠ t) || decide (i ∉ ids)) = false then none
        else ((records.filter hasRecordId).foldl (replaceRecord opts t)
          (emptyTable t (captureBaseSnapshots opts t bases o))).entry ⟨op, t, i⟩) ≠ none →
        op = if i ∈ ids then Operation.upsert else Operation.delete := by
      intro op hop
      cases op with
      | upsert =>
        rw [if_neg (by simp)] at hop
        rw [if_pos (hwritten.upsert i hop)]
      | patch =>
        rw [if_neg (by simp)] at hop
        exact absurd (hwritten.patch i) hop
      | delete =>
        by_cases hi : i ∈ ids
        · simp [hi] at hop
        · rw [if_neg hi]
    rw [only op h1, only op' h2]
  · have hkeep : ∀ op, ¬(op = Operation.delete ∧ (decide (t ≠ table) || decide (i ∉ ids)) = false) := by
      intro op
      simp [ht]
    rw [if_neg (hkeep op), hwritten.other _ (.inl ht)] at h1
    rw [if_neg (hkeep op'), hwritten.other _ (.inl ht)] at h2
    exact h t i op op' h1 h2

theorem noNew_setRecord (part : RecordMap) {table id : String} {record queued : Record} {o : Outbox}
    (h : (o.queue.records part).get₂ table id = some queued) (hid : record.get? "id" = queued.get? "id") :
    NoNew o (setRecord part table id record o) := by
  intro key entry' hentry
  rw [entry_setRecord] at hentry
  split at hentry
  · rename_i hkey
    cases hentry
    exact ⟨.record queued, by rw [hkey, entry_part, h, map_some], hid⟩
  · exact ⟨entry', hentry, rfl⟩

theorem noNew_setRowVersion (part : RecordMap) (table id : String) (rowVersion : Int)
    (acc : Outbox × Bool) : NoNew acc.1 (setRowVersion part table id rowVersion acc).1 := by
  unfold setRowVersion
  cases hq : (acc.1.queue.records part).get₂ table id with
  | none => exact .refl _
  | some queued =>
    simp only
    split
    · exact .refl _
    · exact noNew_setRecord _ hq (Dict.get?_set_of_ne _ _ (by decide))

theorem find?_setExpectedVersion (table id t i : String) (rowVersion : Int) (l : List Deletion) :
    ((setExpectedVersion table id rowVersion l).1.find? (·.names t i)).isSome = (l.find? (·.names t i)).isSome := by
  induction l with
  | nil => rfl
  | cons item rest ih =>
    unfold setExpectedVersion
    split
    · split
      · rfl
      · have hn : Deletion.names { item with expectedVersion := some rowVersion } t i = item.names t i := rfl
        rw [find?_cons, find?_cons, hn]
        cases item.names t i <;> rfl
    · rw [find?_cons, find?_cons]
      cases item.names t i with
      | true => rfl
      | false => exact ih

theorem noNew_applyServerRowVersion (acc : Outbox × Bool) (entry : ServerRowVersion) :
    NoNew acc.1 (applyServerRowVersion acc entry).1 := by
  unfold applyServerRowVersion
  cases entry.rowVersion with
  | none => exact .refl _
  | some rowVersion =>
    simp only
    split
    · exact .refl _
    have hrecords := (noNew_setRowVersion .upserts entry.table entry.id rowVersion acc).trans
      (noNew_setRowVersion .patches entry.table entry.id rowVersion _)
    refine hrecords.trans fun key entry' hentry => ?_
    obtain ⟨op, t, i⟩ := key
    cases op with
    | upsert => exact ⟨entry', hentry, rfl⟩
    | patch => exact ⟨entry', hentry, rfl⟩
    | delete =>
      obtain ⟨item, hitem, rfl⟩ := map_eq_some_iff.mp hentry
      have hfind := find?_setExpectedVersion entry.table entry.id t i rowVersion
        (setRowVersion .patches entry.table entry.id rowVersion (setRowVersion .upserts entry.table entry.id rowVersion acc)).1.queue.deletes
      rw [hitem, isSome_some, eq_comm, isSome_iff_exists] at hfind
      obtain ⟨item', hitem'⟩ := hfind
      exact ⟨.deletion item', congrArg (Option.map Entry.deletion) hitem', rfl⟩

theorem noNew_applyServerRowVersions (entries : List ServerRowVersion) (o : Outbox) :
    NoNew o (applyServerRowVersions opts entries o).1 := by
  have hfold : NoNew o (entries.foldl applyServerRowVersion (o, false)).1 :=
    foldl_rel applyServerRowVersion (fun a b : Outbox × Bool => NoNew a.1 b.1)
      (fun _ => .refl _) (fun _ _ _ => NoNew.trans) entries
      (fun acc entry _ => noNew_applyServerRowVersion acc entry) (o, false)
  unfold applyServerRowVersions
  simp only
  split
  · exact hfold
  · exact hfold

/-! ## The parent repair -/

/-- The records the parent repair queues: an unsynced parent of a queued upsert, and an
unsynced parent of a record it has queued. -/
inductive RepairAdds (opts : OutboxOptions) (state : WorkspaceState) (o : Outbox) : TableKey → Prop where
  | ofQueued {table id : String} {record : Record} {parent : TableKey} {found : Record}
      (queued : o.queue.upserts.get₂ table id = some record) (refers : parent ∈ parentKeysForRecord table record)
      (missing : o.queue.upserts.get₂ parent.1 parent.2 = none)
      (unsynced : unsyncedParent state parent = some found) : RepairAdds opts state o parent
  | ofAdded {child : TableKey} {record : Record} {parent : TableKey} {found : Record}
      (added : RepairAdds opts state o child) (unsyncedChild : unsyncedParent state child = some record)
      (refers : parent ∈ parentKeysForRecord child.1 (opts.normalizeRecord record child.1))
      (missing : o.queue.upserts.get₂ parent.1 parent.2 = none)
      (unsynced : unsyncedParent state parent = some found) : RepairAdds opts state o parent

/-- While the repair runs, the queue has grown by such records only. -/
structure Repairing (opts : OutboxOptions) (state : WorkspaceState) (o o' : Outbox) : Prop where
  kept : ∀ table id record, o.queue.upserts.get₂ table id = some record → o'.queue.upserts.get₂ table id = some record
  upserts : ∀ table id record, o'.queue.upserts.get₂ table id = some record → o.queue.upserts.get₂ table id = some record ∨
      (RepairAdds opts state o (table, id) ∧ id ≠ "" ∧ ∃ found,
        unsyncedParent state (table, id) = some found ∧ record = opts.normalizeRecord found table)
  other : ∀ key : RecordKey, key.operation ≠ .upsert → o'.entry key = o.entry key

variable {state : WorkspaceState}

theorem repairing_repairParent {o : Outbox} {acc : Outbox × Bool} (h : Repairing opts state o acc.1) {parent : TableKey}
    (hadds : ∀ found, unsyncedParent state parent = some found →
      o.queue.upserts.get₂ parent.1 parent.2 = none → RepairAdds opts state o parent) :
    Repairing opts state o (repairParent opts state acc parent).1 := by
  rcases @repairParent_cases opts state acc parent with heq | ⟨found, hid, hf, hn, heq⟩
  · rwa [heq]
  rw [heq]
  have hnone : acc.1.queue.upserts.get₂ parent.1 parent.2 = none := by simpa [entry, MutationQueue.entry] using hn
  have hget : ∀ t i, (bumpRecord ⟨.upsert, parent.1, parent.2⟩ (setRecord .upserts parent.1 parent.2
      (opts.normalizeRecord found parent.1) acc.1)).queue.upserts.get₂ t i =
        if t = parent.1 ∧ i = parent.2 then some (opts.normalizeRecord found parent.1)
        else acc.1.queue.upserts.get₂ t i := fun t i => Dict.get₂_set₂ _ _ _ _ _ _
  refine ⟨fun t i r hr => ?_, fun t i r hr => ?_, fun key hk => ?_⟩
  · rw [hget, if_neg]
    · exact h.kept t i r hr
    · rintro ⟨rfl, rfl⟩
      rw [h.kept _ _ r hr] at hnone
      cases hnone
  · rw [hget] at hr
    split at hr
    · rename_i hk
      obtain ⟨rfl, rfl⟩ := hk
      have hmissing : o.queue.upserts.get₂ parent.1 parent.2 = none := by
        rw [eq_none_iff_forall_ne_some]
        intro r' hr'
        rw [h.kept _ _ r' hr'] at hnone
        cases hnone
      exact .inr ⟨hadds found hf hmissing, hid, found, hf, (some.inj hr).symm⟩
    · exact h.upserts t i r hr
  · have hne : key ≠ ⟨.upsert, parent.1, parent.2⟩ := by
      rintro rfl
      exact hk rfl
    exact ((entry_setRecord ..).trans (if_neg hne)).trans (h.other key hk)

theorem repairing_repairPass {o o' : Outbox}
    (h : Repairing opts state o o') : Repairing opts state o (repairPass opts state o').1 := by
  unfold repairPass
  refine foldl_inv _ (fun acc : Outbox × Bool => Repairing opts state o acc.1) _ (fun acc table _ hacc => ?_) h
  refine foldl_inv _ (fun acc : Outbox × Bool => Repairing opts state o acc.1) _ (fun acc' record hrecord hacc' => ?_) hacc
  -- the record was queued when the turn of its table came
  obtain ⟨id, hid⟩ := (Dict.mem_values_iff _ _).mp hrecord
  rw [Dict.get?_getD_empty] at hid
  refine foldl_inv _ (fun acc : Outbox × Bool => Repairing opts state o acc.1) _ (fun acc'' parent hparent hacc'' => ?_) hacc'
  refine repairing_repairParent hacc'' fun found hf hmissing => ?_
  rcases hacc.upserts table id record hid with horig | ⟨hadded, -, found', hf', rfl⟩
  · exact .ofQueued horig hparent hmissing hf
  · exact .ofAdded hadded hf' hparent hmissing hf

theorem repairing_refl (state : WorkspaceState) (o : Outbox) : Repairing opts state o o :=
  ⟨fun _ _ _ h => h, fun _ _ _ h => .inl h, fun _ _ => rfl⟩

def RepairClears (opts : OutboxOptions) (state : WorkspaceState) (o : Outbox) : Prop :=
  ∀ table id, RepairAdds opts state o (table, id) → o.entry ⟨.patch, table, id⟩ = none ∧ o.entry ⟨.delete, table, id⟩ = none

theorem Exclusive.repairing {o o' : Outbox} (h : Exclusive o)
    (hclears : RepairClears opts state o) (hrep : Repairing opts state o o') : Exclusive o' := by
  refine h.grown (RepairAdds opts state o) (fun op table id hk => ?_) hclears
  by_cases hop : op = .upsert
  · subst hop
    obtain ⟨e, he⟩ := ne_none_iff_exists'.mp hk
    obtain ⟨record, hr, -⟩ := map_eq_some_iff.mp he
    rcases hrep.upserts table id record hr with horig | ⟨hadded, -⟩
    · exact .inl (by simp [Outbox.entry, MutationQueue.entry, horig])
    · exact .inr ⟨rfl, hadded⟩
  · rw [hrep.other _ hop] at hk
    exact .inl hk

variable (opts) in
theorem snapshotForSync_spec (o : Outbox) : ∃ o', Repairing opts state o o' ∧ o'.view.Sheds (snapshotForSync opts state o).1.view := by
  unfold snapshotForSync repairUnsyncedParentDependencies
  split
  · dsimp only
    split
    · exact ⟨_, saturate_inv _ (Repairing opts state o) (fun _ => repairing_repairPass) _ (repairing_refl state o),
        sheds_touch_persist _⟩
    · exact ⟨o, repairing_refl state o, .refl _⟩
  · exact ⟨o, repairing_refl state o, .refl _⟩

/-! ## The repair of duplicate plans -/

/-- The records the duplicate repair queues: the authoritative record of a version of a plan
that is also queued as a new record. -/
def DuplicateAdds (state : WorkspaceState) (o : Outbox) (id : String) : Prop :=
  ∃ pendingKey pending index authoritative, o.queue.upserts.get₂ "kehoach" pendingKey = some pending ∧
    (authoritativeByVersion (stateTable state "kehoach")).get? (planVersionKey pending) = some index ∧
    (stateTable state "kehoach")[index]? = some authoritative ∧
    fieldText pending "id" ≠ "" ∧ recordId authoritative ≠ fieldText pending "id" ∧
    Value.jsPositive (pending.get? "rowVersion") = false ∧ id = recordId authoritative

def DuplicateClears (state : WorkspaceState) (o : Outbox) : Prop :=
  ∀ id, DuplicateAdds state o id → o.entry ⟨.patch, "kehoach", id⟩ = none ∧ o.entry ⟨.delete, "kehoach", id⟩ = none

/-- While the duplicate repair runs, the queue has grown by authoritative plans only, and the
plans of the state keep their ids. -/
structure RepairingDuplicates (opts : OutboxOptions) (state : WorkspaceState) (o : Outbox) (acc : DuplicateRepair) : Prop where
  grown : ∀ key entry', acc.outbox.entry key = some entry' →
    (∃ entry, o.entry key = some entry ∧ entry'.idField = entry.idField) ∨
    ∃ plan ∈ stateTable state "kehoach", ∃ merged : Record, merged.get? "id" = plan.get? "id" ∧
      entry'.idField = (opts.normalizeRecord merged "kehoach").get? "id" ∧
      key = ⟨.upsert, "kehoach", recordId plan⟩ ∧ DuplicateAdds state o (recordId plan)
  ids : ∀ index : ℕ, ((stateTable acc.state "kehoach")[index]?.map fun plan => plan.get? "id") =
    ((stateTable state "kehoach")[index]?.map fun plan => plan.get? "id")

theorem get?_foldl_copyField (source : Record) (field : String) (fields : List String)
    (target : Record) : (fields.foldl (copyField source) target).get? field =
      if field ∈ fields then source.get? field else target.get? field := by
  induction fields generalizing target with
  | nil => rfl
  | cons f fields ih =>
    have hcopy : (copyField source target f).get? field = if field = f then source.get? field else target.get? field := by
      unfold copyField
      cases h : source.get? f with
      | none =>
        rw [Dict.get?_erase]
        split
        · rename_i heq; rw [heq, h]
        · rfl
      | some v =>
        simp only [Dict.get?_set]
        split
        · rename_i heq; rw [heq, h]
        · rfl
    rw [foldl_cons, ih, hcopy]
    by_cases hmem : field ∈ fields <;> by_cases heq : field = f <;> simp [hmem, heq]

theorem get?_id_mergedPlan (authoritative pending : Record) :
    (authoritative.spread (mergePlanIntoAuthoritative authoritative pending)).get? "id" = authoritative.get? "id" := by
  have hmerge : (mergePlanIntoAuthoritative authoritative pending).get? "id" = authoritative.get? "id" := by
    have hfold : (authoritativePlanFields.foldl (copyField authoritative)
        (authoritative.spread pending)).get? "id" = authoritative.get? "id" := by
      rw [get?_foldl_copyField, if_pos (by decide)]
    unfold mergePlanIntoAuthoritative
    simp only
    cases authoritative.get? (if fieldTruthy authoritative "rootId" = true then "rootId" else "id")
    · rw [Dict.get?_erase_of_ne _ (by decide), hfold]
    · rw [Dict.get?_set_of_ne _ _ (by decide), hfold]
  rw [Dict.get?_spread, hmerge]
  cases authoritative.get? "id" <;> rfl

theorem noNew_bumpRecord (key : RecordKey) (o : Outbox) : NoNew o (bumpRecord key o) :=
  fun _ entry h => ⟨entry, h, rfl⟩

theorem repointTable_effect (fromId toId table : String) (acc : DuplicateRepair) (htable : table ≠ "kehoach") :
    NoNew acc.outbox (repointTable fromId toId acc table).outbox ∧
      stateTable (repointTable fromId toId acc table).state "kehoach" = stateTable acc.state "kehoach" := by
  unfold repointTable
  simp only
  refine foldl_inv _ (fun r : DuplicateRepair => (NoNew acc.outbox r.outbox ∧
      stateTable r.state "kehoach" = stateTable acc.state "kehoach") ∧
      ∀ id queued, acc.outbox.queue.upserts.get₂ table id = some queued →
        ∃ record, r.outbox.queue.upserts.get₂ table id = some record ∧ record.get? "id" = queued.get? "id")
    ((acc.outbox.queue.upserts.get? table).getD .empty).entries (fun r entry he hr => ?_)
    (And.intro (And.intro ?_ ?_) ?_) |>.1
  rotate_left
  · exact .refl acc.outbox
  · dsimp only
    split
    · rfl
    · simp only [stateTable, Dict.get?_set_of_ne _ _ (Ne.symm htable)]
  · exact fun _ queued h => ⟨queued, h, rfl⟩
  split
  · exact hr
  rename_i record hrecord
  have hget : acc.outbox.queue.upserts.get₂ table entry.1 = some entry.2 := by
    rw [← Dict.get?_getD_empty]
    exact (Dict.mem_entries_iff _ _ _).mp he
  have hid : record.get? "id" = entry.2.get? "id" := by
    unfold repointPlanReference at hrecord
    split_ifs at hrecord <;> cases hrecord <;> exact Dict.get?_set_of_ne _ _ (by decide)
  obtain ⟨moved, hmoved, hmovedId⟩ := hr.2 _ _ hget
  refine ⟨⟨hr.1.1.trans ((noNew_setRecord .upserts hmoved (hid.trans hmovedId.symm)).trans (noNew_bumpRecord _ _)),
    hr.1.2⟩, fun id queued hqueued => ?_⟩
  obtain ⟨kept, hkept, hkeptId⟩ := hr.2 id queued hqueued
  refine ⟨if table = table ∧ id = entry.1 then record else kept, (Dict.get₂_set₂ ..).trans (by rw [hkept]; split <;> rfl), ?_⟩
  split
  · rename_i hkey
    rw [hkey.2, hget] at hqueued
    cases hqueued
    exact hid
  · exact hkeptId

theorem repairingDuplicates_repairDuplicatePlan {o : Outbox}
    {acc : DuplicateRepair} (h : RepairingDuplicates opts state o acc) {pendingKey : String}
    {pending : Record} (hqueued : o.queue.upserts.get₂ "kehoach" pendingKey = some pending) :
    RepairingDuplicates opts state o (repairDuplicatePlan opts
      (authoritativeByVersion (stateTable state "kehoach")) acc pending) := by
  unfold repairDuplicatePlan
  simp only
  split
  · exact h
  rename_i index authoritative hfound
  obtain ⟨index', hindex, hplan⟩ := bind_eq_some_iff.mp hfound
  obtain ⟨plan, hget, hpair⟩ := map_eq_some_iff.mp hplan
  simp only [Prod.mk.injEq] at hpair
  obtain ⟨rfl, rfl⟩ := hpair
  split
  · exact h
  rename_i hguard
  simp only [Bool.or_eq_true, decide_eq_true_eq, not_or, Bool.not_eq_true] at hguard
  -- the plan in the current state has the id of the plan the loop started with
  have hids := h.ids index'
  rw [hget, map_some] at hids
  obtain ⟨first, hfirst, hfirstId⟩ := map_eq_some_iff.mp hids.symm
  have hid : recordId first = recordId plan := by unfold recordId; rw [hfirstId]
  have hadds : DuplicateAdds state o (recordId plan) :=
    ⟨pendingKey, pending, index', first, hqueued, hindex, hfirst, hguard.1.1,
      by rw [hid]; exact hguard.1.2, hguard.2, hid.symm⟩
  have hstart : ∀ merged : Record, merged.get? "id" = plan.get? "id" → ∀ duplicates plans,
      RepairingDuplicates opts state o ⟨acc.state.set "kehoach" ((stateTable acc.state "kehoach").set index' merged),
          bumpRecord ⟨.upsert, "kehoach", recordId plan⟩ (setRecord .upserts "kehoach"
            (recordId plan) (opts.normalizeRecord merged "kehoach") (forget ⟨.upsert, "kehoach", fieldText pending "id"⟩
              (eraseRecord .upserts "kehoach" (fieldText pending "id") acc.outbox))),
          duplicates, plans, acc.repointedRecords⟩ := by
    intro merged hmerged duplicates plans
    refine ⟨fun key entry' hentry => ?_, fun i => ?_⟩
    · rw [entry_bumpRecord, entry_setRecord, entry_forget, entry_eraseRecord] at hentry
      split at hentry
      · rename_i hkey
        cases hentry
        exact .inr ⟨first, mem_of_getElem? hfirst, merged, hmerged.trans hfirstId.symm, rfl, hid ▸ hkey, hid ▸ hadds⟩
      · split at hentry
        · cases hentry
        · exact h.grown key entry' hentry
    · rw [← h.ids i]
      have hset : stateTable (acc.state.set "kehoach" ((stateTable acc.state "kehoach").set index' merged)) "kehoach" =
          (stateTable acc.state "kehoach").set index' merged := by
        simp [stateTable]
      rw [hset, getElem?_set]
      split
      · rename_i heq
        subst heq
        split
        · rw [hget, map_some, map_some, hmerged]
        · rename_i hlen
          rw [getElem?_eq_none (not_lt.mp hlen)] at hget
          cases hget
      · rfl
  have hmerged := get?_id_mergedPlan plan (((stateTable acc.state "kehoach").find? fun plan =>
      fieldText plan "id" = fieldText pending "id").getD pending)
  refine foldl_inv _ (RepairingDuplicates opts state o) _ (fun r table ht hr => ?_) (hstart _ hmerged _ _)
  have hne : table ≠ "kehoach" := by
    rintro rfl
    revert ht
    decide
  obtain ⟨hnew, hstate⟩ := repointTable_effect (fieldText pending "id") (recordId plan) table r hne
  refine ⟨fun key entry' hentry => ?_, fun i => by rw [hstate]; exact hr.ids i⟩
  obtain ⟨entry, hold, hkept⟩ := hnew key entry' hentry
  rcases hr.grown key entry hold with ⟨first, hfirst, h⟩ | ⟨plan, hplan, merged, hmerged, h, hadds⟩
  · exact .inl ⟨first, hfirst, hkept.trans h⟩
  · exact .inr ⟨plan, hplan, merged, hmerged, hkept.trans h, hadds⟩

theorem repairDuplicatePlanVersions_spec {o : Outbox} {repaired : DuplicateRepair}
    (hsome : repairDuplicatePlanVersions opts state o = some repaired) :
    ∃ acc, RepairingDuplicates opts state o acc ∧ acc.outbox.view.Sheds repaired.outbox.view := by
  have hrep : RepairingDuplicates opts state o (repairDuplicatePlans opts state o) := by
    refine foldl_inv _ (RepairingDuplicates opts state o) _ (fun acc pending hp hacc => ?_)
      ⟨fun key entry hentry => .inl ⟨entry, hentry, rfl⟩, fun _ => rfl⟩
    obtain ⟨pendingKey, hget⟩ := (Dict.mem_values_iff _ _).mp hp
    rw [Dict.get?_getD_empty] at hget
    exact repairingDuplicates_repairDuplicatePlan hacc hget
  have hdrop : ∀ o : Outbox, o.view.Sheds (dropEmptyTable .upserts "kehoach" o).view := fun o =>
    sheds_of_same rfl fun key => ⟨rfl, entry_dropEmptyTable ..⟩
  unfold repairDuplicatePlanVersions at hsome
  generalize repairDuplicatePlans opts state o = acc at hrep hsome
  dsimp only at hsome
  split at hsome
  · cases hsome
  split at hsome
  · cases hsome
  · rw [some.injEq] at hsome
    exact ⟨acc, hrep, hsome ▸ (hdrop acc.outbox).trans (sheds_touch_persist _)⟩

theorem Exclusive.repairingDuplicates {o : Outbox} {acc : DuplicateRepair} (h : Exclusive o) (hclears : DuplicateClears state o)
    (hrep : RepairingDuplicates opts state o acc) : Exclusive acc.outbox := by
  refine h.grown (fun key => key.1 = "kehoach" ∧ DuplicateAdds state o key.2) (fun op table id hk => ?_) ?_
  · obtain ⟨entry', hentry⟩ := ne_none_iff_exists'.mp hk
    rcases hrep.grown _ entry' hentry with ⟨entry, hold, -⟩ | ⟨plan, -, merged, -, -, hkey, hadds⟩
    · exact .inl (by simp [hold])
    · cases hkey
      exact .inr ⟨rfl, rfl, hadds⟩
  · rintro table id ⟨rfl, hadds⟩
    exact hclears id hadds

end Outbox

/-! ## Runs -/

def Command.Edits : Command → Prop
  | .hydrate _ _ => False
  | .restore _ _ => False
  | _ => True

def Command.Clears (opts : OutboxOptions) (o : Outbox) : Command → Prop
  | .snapshotForSync state => Outbox.RepairClears opts state o
  | .repairDuplicatePlanVersions state => Outbox.DuplicateClears state o
  | _ => True

/-- The outboxes reached from an empty one by commands whose repairs meet the condition. -/
inductive ReachedClear (opts : OutboxOptions) : Outbox → Prop where
  | start : ReachedClear opts (newOutbox opts)
  | next {o : Outbox} {c : Command} (reached : ReachedClear opts o) (edits : c.Edits)
      (clears : c.Clears opts o) : ReachedClear opts (step opts o c)

open Outbox in
/-- A command leaves at most one operation for each record. -/
theorem exclusive_step (opts : OutboxOptions) {o : Outbox} (h : Exclusive o) {c : Command}
    (hedits : c.Edits) (hclears : c.Clears opts o) : Exclusive (step opts o c) := by
  refine step_inv opts Exclusive (fun hsheds _ h => h.noNew (.of_sheds hsheds)) h ?_
  cases c with
  | upsert table => exact fun record _ _ _ ho => exclusive_enqueueUpsert ho table record
  | patch table => exact fun record _ _ _ ho => exclusive_enqueuePatch ho table record
  | replaceTable table records bases => exact exclusive_replaceTable h table records bases
  | delete table => exact fun record _ _ _ ho => exclusive_enqueueDelete ho table record
  | serverRowVersion entries => exact h.noNew (noNew_applyServerRowVersions entries o)
  | repairDuplicatePlanVersions =>
    intro repaired hsome
    obtain ⟨acc, hrep, hsheds⟩ := repairDuplicatePlanVersions_spec hsome
    exact (h.repairingDuplicates hclears hrep).noNew (.of_sheds hsheds)
  | snapshotForSync =>
    obtain ⟨o', hrep, hsheds⟩ := snapshotForSync_spec opts o
    exact (h.repairing hclears hrep).noNew (.of_sheds hsheds)
  | hydrate => exact hedits.elim
  | restore => exact hedits.elim
  | _ => trivial

open Outbox in
/-- In every outbox reached by commands whose repairs add no record that is queued as a patch
or a deletion, every record is queued under at most one operation. -/
theorem exclusive_of_reachedClear (opts : OutboxOptions) {o : Outbox} (h : ReachedClear opts o) : Exclusive o := by
  induction h with
  | start =>
    intro t i op op' h1 _
    cases op <;> exact absurd rfl h1
  | next _ hedits hclears ih => exact exclusive_step opts ih hedits hclears

open Outbox in
/-- The parent repair queues the plan of a queued package, beside a patch and a deletion. -/
theorem exclusive_of_reachedClear_package :
    let state : WorkspaceState := .set .empty "kehoach" [.ofList [("id", .str "p1")]]
    let o := step plainOptions (step plainOptions (step plainOptions (newOutbox plainOptions)
      (.upsert "goithau" [.ofList [("id", .str "g1"), ("keHoachId", .str "p1")]] []))
      (.patch "goithau" [.ofList [("id", .str "g2")]] [])) (.delete "goithau" [.ofList [("id", .str "g3")]])
    Exclusive (step plainOptions o (.snapshotForSync state)) ∧
      (step plainOptions o (.snapshotForSync state)).entry ⟨.upsert, "kehoach", "p1"⟩ ≠ none := by
  intro state o
  have hreached : ReachedClear plainOptions o :=
    .next (.next (.next .start trivial trivial) trivial trivial) trivial trivial
  have hunsynced : ∀ parent found, unsyncedParent state parent = some found → parent = ("kehoach", "p1") := by
    rintro ⟨table, id⟩ found h
    by_contra hother
    have hnone : recordById state table id = none := by
      unfold recordById stateTable
      rw [Dict.get?_set]
      split
      · rename_i htable
        refine find?_eq_none.mpr fun record hrecord hid => hother ?_
        rw [htable, ← of_decide_eq_true hid, mem_singleton.mp hrecord]
        decide
      · rfl
    simp [unsyncedParent, hnone] at h
  refine ⟨exclusive_of_reachedClear plainOptions (.next hreached trivial fun table id h => ?_), by decide⟩
  have hparent : (table, id) = ("kehoach", "p1") := by
    cases h with
    | ofQueued _ _ _ unsynced => exact hunsynced _ _ unsynced
    | ofAdded _ _ _ _ unsynced => exact hunsynced _ _ unsynced
  cases hparent
  decide

open Outbox in
/-- The parent repair can queue a record twice: a plan the server does not have yet is
patched, a package under it is queued, and the push queues the plan as an upsert beside its
patch. -/
theorem repair_queues_patched_plan_twice : ¬ ∀ (opts : OutboxOptions) (commands : List Command), (∀ c ∈ commands, c.Edits) →
    Exclusive (run opts (newOutbox opts) commands) := by
  intro h
  let plan : Record := .ofList [("id", .str "p1"), ("tenKeHoach", .str "A")]
  let renamed : Record := .ofList [("id", .str "p1"), ("tenKeHoach", .str "B")]
  let package : Record := .ofList [("id", .str "g1"), ("keHoachId", .str "p1")]
  let commands : List Command := [.patch "kehoach" [renamed] [], .upsert "goithau" [package] [],
    .snapshotForSync (.ofList [("kehoach", [plan]), ("goithau", [package])])]
  have hedits : ∀ c ∈ commands, c.Edits := by simp [commands, Command.Edits]
  have hpatch : (run plainOptions (newOutbox plainOptions) commands).entry ⟨.patch, "kehoach", "p1"⟩ ≠ none := by decide
  have hupsert : (run plainOptions (newOutbox plainOptions) commands).entry ⟨.upsert, "kehoach", "p1"⟩ ≠ none := by decide
  have := h plainOptions commands hedits _ _ _ _ hpatch hupsert
  cases this

end Bidding
