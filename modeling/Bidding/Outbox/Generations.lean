import Bidding.Outbox.Receipts

/-!
# No lost update

A push takes a receipt, the user goes on editing, and the acknowledgement of the receipt
arrives late, or twice. The receipt remembers generations; the acknowledgement removes an
operation exactly when its generation is still the remembered one.
-/

namespace Bidding

open Foundations List Option

namespace Outbox

variable {opts : OutboxOptions} {receipt : Receipt}

theorem settled_persist {o : Outbox} (h : Settled receipt o) : Settled receipt (persist opts o) := by
  unfold persist
  split
  · exact ⟨h.stamps, h.tables, h.upserts, h.patches⟩
  · exact ⟨fun _ _ _ hs => (by cases hs), fun _ _ hs => (by cases hs), fun _ _ _ hr => (by cases hr),
      fun _ _ _ hr => (by cases hr)⟩

theorem settled_settle {acc : Outbox × Bool} (h : Settled receipt acc.1) : Settled receipt (settle opts acc) := by
  unfold settle
  split
  · refine settled_persist ?_
    split
    · exact ⟨h.stamps, h.tables, h.upserts, h.patches⟩
    · exact h
  · exact h

theorem ack_ack (receipt : Receipt) (o : Outbox) :
    ack opts receipt (ack opts receipt o).1 = ((ack opts receipt o).1, false) := by
  cases h : mutationQueueHasChanges o.queue with
  | false => simp [ack, h]
  | true =>
    have hack : (ack opts receipt o).1 = settle opts (ackReceipt receipt o) := by simp [ack, h]
    rw [hack]
    exact ack_of_settled (settled_settle (settled_ackReceipt receipt o))

/-! ## Untouched records -/

theorem SameAt.fades {o o' : Outbox} {key : RecordKey} (h : SameAt o o' key) : o.view.Fades o'.view key := .inl h

variable {table : String}

variable {records bases : List Record} {state : WorkspaceState}

theorem sameAt_enqueueUpserts {o : Outbox}
    {key : RecordKey} (hkey : ¬(key.table = table ∧ key.id ∈ recordIds records)) :
    SameAt o (enqueueUpserts opts table records bases o).1 key := by
  unfold enqueueUpserts
  simp only
  split
  · exact .refl o key
  · exact sameAt_foldl_records (fun _ _ => sameAt_enqueueUpsert) hkey (captureBaseSnapshots opts table bases o)

theorem sameAt_enqueuePatches {o : Outbox}
    {key : RecordKey} (hkey : ¬(key.table = table ∧ key.id ∈ recordIds records)) :
    SameAt o (enqueuePatches opts table records bases o).1 key := by
  unfold enqueuePatches
  simp only
  split
  · exact .refl o key
  · exact sameAt_foldl_records (fun _ _ => sameAt_enqueuePatch) hkey (captureBaseSnapshots opts table bases o)

theorem sameAt_enqueueDeletes {o : Outbox}
    {key : RecordKey} (hkey : ¬(key.table = table ∧ key.id ∈ recordIds records)) :
    SameAt o (enqueueDeletes opts table records o).1 key := by
  unfold enqueueDeletes
  simp only
  split
  · exact .refl o key
  · exact sameAt_foldl_records (fun _ _ => sameAt_enqueueDelete) hkey o

theorem sameAt_replaceTable {o : Outbox}
    {key : RecordKey} (hkey : ¬(key.table = table ∧ key.id ∈ recordIds records)) :
    (replaceTable opts table records bases o).1 = o ∨
      SameAt (emptyTable table (captureBaseSnapshots opts table bases o)) (replaceTable opts table records bases o).1 key := by
  unfold replaceTable
  simp only
  split
  · exact .inl rfl
  refine .inr ((sameAt_foldl_records (fun _ _ => sameAt_replaceRecord) hkey _).trans ⟨rfl, ?_⟩)
  have hkeeps : ¬(key.operation = .delete ∧ (decide (key.table ≠ table) ||
      decide (key.id ∉ (records.filter hasRecordId).map recordId)) = false) := by
    rintro ⟨-, hk⟩
    simp only [Bool.or_eq_false_iff, decide_eq_false_iff_not, not_not] at hk
    exact hkey hk
  exact (entry_touchForNewPayload _ key).trans ((entry_filterDeletions _ _ key).trans (if_neg hkeeps))

theorem sameAt_repair {o : Outbox} {key : RecordKey}
    (hkey : unsyncedParent state (key.table, key.id) = none ∨ o.entry key ≠ none ∨
      key.operation ≠ .upsert) :
    SameAt o (saturate (repairPass opts state) (stateSize state + 1) o) key := by
  refine (@repairLoop_rel opts state (fun a b =>
    (a.entry key ≠ none ∨ unsyncedParent state (key.table, key.id) = none ∨
      key.operation ≠ .upsert) → SameAt a b key) (fun _ _ => .refl _ _) (fun a b c hab hbc h =>
        ?_) (fun a parent record hr hn h => ?_) _ o) (by tauto)
  · have hs := hab h
    exact hs.trans (hbc (by rw [hs.2]; exact h))
  · have hne : key ≠ ⟨.upsert, parent.1, parent.2⟩ := by
      rintro rfl
      rcases h with h | h | h
      · exact h hn
      · rw [hr] at h; cases h
      · exact h rfl
    exact ⟨(stamp_bumpRecord ..).trans (if_neg hne), (entry_setRecord ..).trans (if_neg hne)⟩

theorem fades_snapshotForSync {o : Outbox} {key : RecordKey} (hkey : unsyncedParent state (key.table, key.id) = none) :
    o.view.Fades (snapshotForSync opts state o).1.view key := by
  unfold snapshotForSync repairUnsyncedParentDependencies
  split
  · simp only
    split
    · exact (sameAt_repair (.inl hkey)).fades.trans ((sheds_touch_persist _).fades key)
    · exact .refl _ key
  · exact .refl _ key

end Outbox

/-- Whether a command may write the record again: it names the record, it loads another
queue, or it is a snapshot of a state that lists the record as an unsynced parent. -/
def Command.Touches (table id : String) : Command → Prop
  | .upsert t records _ => t = table ∧ id ∈ Outbox.recordIds records
  | .patch t records _ => t = table ∧ id ∈ Outbox.recordIds records
  | .replaceTable t records _ => t = table ∧ id ∈ Outbox.recordIds records
  | .delete t records => t = table ∧ id ∈ Outbox.recordIds records
  | .serverRowVersion entries => ∃ entry ∈ entries, entry.table = table ∧ entry.id = id
  | .repairDuplicatePlanVersions _ => True
  | .snapshotForSync state => Outbox.unsyncedParent state (table, id) ≠ none
  | .hydrate _ _ => True
  | .restore _ _ => True
  | _ => False

open Outbox in
/-- A command that does not touch a record leaves its operation or drops it. -/
theorem fades_step (opts : OutboxOptions) (o : Outbox) {c : Command} {key : RecordKey}
    (hstamps : c.Stamps) (hc : ¬c.Touches key.table key.id) : o.view.Fades (step opts o c).view key := by
  have hwrite : ∀ {table : String} {records : List Record} {f : Outbox → Record → Outbox},
      (∀ o record, ¬key.isOf table (recordId record) → SameAt o (f o record) key) →
      ¬(table = key.table ∧ key.id ∈ recordIds records) → ∀ record ∈ records, hasRecordId record = true →
        ∀ o', o.view.Fades o'.view key → o.view.Fades (f o' record).view key :=
    fun hf hkey record hrecord hid o' ho => ho.trans (hf o' record fun hk =>
      hkey ⟨hk.1.symm, hk.2 ▸ mem_map_of_mem (mem_filter.mpr ⟨hrecord, hid⟩)⟩).fades
  refine step_inv opts (o.view.Fades ·.view key) (fun hsheds _ h => h.trans (hsheds.fades key)) (.refl _ key) ?_
  cases c with
  | upsert => exact hwrite (fun _ _ => sameAt_enqueueUpsert) hc
  | patch => exact hwrite (fun _ _ => sameAt_enqueuePatch) hc
  | replaceTable table records bases =>
    change o.view.Fades (replaceTable opts table records bases o).1.view key
    rcases @sameAt_replaceTable opts table records bases o key (fun h => hc ⟨h.1.symm, h.2⟩) with h | h
    · rw [h]; exact .refl _ key
    · exact ((sheds_emptyTable table (captureBaseSnapshots opts table bases o)).fades key).trans h.fades
  | delete => exact hwrite (fun _ _ => sameAt_enqueueDelete) hc
  | snapshotForSync => exact fades_snapshotForSync (not_not.mp hc)
  | serverRowVersion => exact hstamps.elim
  | repairDuplicatePlanVersions => exact hstamps.elim
  | hydrate => exact (hc trivial).elim
  | restore => exact (hc trivial).elim
  | _ => trivial

theorem fades_run (opts : OutboxOptions) (o : Outbox) {cs : List Command} {key : RecordKey}
    (hstamps : ∀ c ∈ cs, c.Stamps) (hcs : ∀ c ∈ cs, ¬c.Touches key.table key.id) : o.view.Fades (run opts o cs).view key :=
  foldl_rel (step opts) (fun a b : Outbox => a.view.Fades b.view key) (fun o => .refl o.view key)
    (fun _ _ _ => Stamped.Fades.trans) cs (fun o c hc => fades_step opts o (hstamps c hc) (hcs c hc)) o

/-! ## Written records -/

/-- The record keys an enqueue command writes: an upsert and a replaced table write
upserts, a deletion writes deletions, and a patch writes the queued upsert of the record, or
else its patch. -/
def Command.Writes (opts : OutboxOptions) (o : Outbox) (key : RecordKey) : Command → Prop
  | .upsert table records _ =>
    table ≠ "" ∧ opts.isSyncedType table = true ∧ key.operation = .upsert ∧ key.table = table ∧
      key.id ∈ Outbox.recordIds records
  | .patch table records _ =>
    table ≠ "" ∧ opts.isSyncedType table = true ∧
      key.operation = o.patchOperation key.table key.id ∧ key.table = table ∧
      key.id ∈ Outbox.recordIds records
  | .replaceTable table records _ =>
    table ≠ "" ∧ opts.isSyncedType table = true ∧ key.operation = .upsert ∧ key.table = table ∧
      key.id ∈ Outbox.recordIds records
  | .delete table records =>
    table ≠ "" ∧ opts.isSyncedType table = true ∧ key.operation = .delete ∧ key.table = table ∧
      key.id ∈ Outbox.recordIds records
  | _ => False

namespace Outbox

variable {opts : OutboxOptions} {n : ℕ}

/-- The key was written after the counter stood at `n`, and is queued. -/
structure WrittenSince (n : ℕ) (key : RecordKey) (o : Outbox) : Prop where
  stamp : ∃ g, o.stamp key = some g ∧ n < g
  queued : o.entry key ≠ none

theorem WrittenSince.sameAt {key : RecordKey} {o o' : Outbox} (h : WrittenSince n key o)
    (hs : SameAt o o' key) : WrittenSince n key o' :=
  ⟨by rw [hs.1]; exact h.stamp, by rw [hs.2]; exact h.queued⟩

theorem WrittenSince.persist {key : RecordKey} {o : Outbox} (h : WrittenSince n key o) :
    WrittenSince n key (persist opts o) := by
  obtain ⟨entry, he⟩ := ne_none_iff_exists'.mp h.queued
  exact ⟨by rw [stamp_persist_of_some he]; exact h.stamp, by rw [entry_persist]; exact h.queued⟩

theorem writtenSince_foldl {f : Outbox → Record → Outbox} {key : RecordKey}
    {I : Outbox → Prop} {P : Record → Prop} (hI : ∀ o record, I o → I (f o record))
    (hwrite : ∀ o record, I o → P record → WrittenSince n key (f o record))
    (hkeep : ∀ o record, ¬P record → SameAt o (f o record) key) (l : List Record) (o : Outbox)
    (ho : I o) (h : WrittenSince n key o ∨ ∃ record ∈ l, P record) :
    WrittenSince n key (l.foldl f o) := by
  classical
  induction l generalizing o with
  | nil =>
    rcases h with h | ⟨_, hm, _⟩
    · exact h
    · cases hm
  | cons record l ih =>
    refine ih _ (hI o record ho) ?_
    by_cases hP : P record
    · exact .inl (hwrite o record ho hP)
    rcases h with h | ⟨r, hr, hPr⟩
    · exact .inl (h.sameAt (hkeep o record hP))
    · rcases mem_cons.mp hr with rfl | hr
      · exact absurd hPr hP
      · exact .inr ⟨r, hr, hPr⟩

theorem exists_record_of_mem {records : List Record} {id : String} (h : id ∈ recordIds records) :
    ∃ record ∈ records.filter hasRecordId, id = recordId record := by
  obtain ⟨record, hr, rfl⟩ := mem_map.mp h
  exact ⟨record, hr, rfl⟩

theorem guard_of_mem {table id : String} {records : List Record} (ht : table ≠ "")
    (hs : opts.isSyncedType table = true) (hid : id ∈ recordIds records) : (decide (table = "") || !opts.isSyncedType table ||
      (records.filter hasRecordId).isEmpty) = false := by
  obtain ⟨record, hr, -⟩ := exists_record_of_mem hid
  have : (records.filter hasRecordId).isEmpty = false := by
    rw [← Bool.not_eq_true, List.isEmpty_iff]
    rintro h
    rw [h] at hr
    cases hr
  simp [ht, hs, this]

theorem patchOperation_enqueuePatch (table : String) (o : Outbox) (record : Record) (t i : String) :
    patchOperation (enqueuePatch opts table o record) t i = patchOperation o t i := by
  have hiff : ∀ o : Outbox, (o.queue.upserts.get₂ t i).isSome = (o.entry ⟨.upsert, t, i⟩).isSome :=
    fun o => by simp [entry, MutationQueue.entry]
  unfold patchOperation
  rw [hiff, hiff, entry_enqueuePatch]
  split
  · rename_i hk
    rw [RecordKey.mk.injEq] at hk
    obtain ⟨hop, rfl, rfl⟩ := hk
    have hsome : (o.queue.upserts.get₂ t (recordId record)).isSome = true := by
      unfold patchOperation at hop
      split at hop
      · assumption
      · cases hop
    rw [← hiff, hsome]
    rfl
  · simp

theorem writtenSince_enqueue {key : RecordKey} {command : Outbox → Outbox × Bool}
    {o : Outbox} (h : WrittenSince n key (command o).1) :
    WrittenSince n key (enqueue opts command o) := by
  unfold enqueue
  split
  · exact h.persist
  · exact h

/-- What a command writes has a later generation than all before. -/
theorem writtenSince_step (o : Outbox) {c : Command} {key : RecordKey}
    (hw : c.Writes opts o key) : WrittenSince o.generation key (step opts o c) := by
  obtain ⟨op, t, i⟩ := key
  cases c with
  | upsert table records bases =>
    obtain ⟨ht, hs, rfl, rfl, hid⟩ := hw
    refine writtenSince_enqueue ?_
    simp only [enqueueUpserts, guard_of_mem ht hs hid, Bool.false_eq_true, if_false]
    refine WrittenSince.sameAt (writtenSince_foldl (I := fun o' => o.generation ≤ o'.generation)
      (P := fun record => i = recordId record) (fun o' record h => ?_) (fun o' record h hP => ?_)
      (fun o' record hP => ?_) _ (captureBaseSnapshots opts t bases o) (le_refl _) (.inr (exists_record_of_mem hid))) ⟨rfl, rfl⟩
    · exact h.trans (by rw [generation_enqueueUpsert]; omega)
    · subst hP
      exact ⟨⟨o'.generation + 1, by simp [stamp_enqueueUpsert, RecordKey.isOf], by omega⟩,
        by simp [entry_enqueueUpsert, RecordKey.isOf]⟩
    · exact sameAt_enqueueUpsert fun hk => hP hk.2
  | patch table records bases =>
    obtain ⟨ht, hs, hop, rfl, hid⟩ := hw
    change op = o.patchOperation t i at hop
    subst hop
    refine writtenSince_enqueue ?_
    simp only [enqueuePatches, guard_of_mem ht hs hid, Bool.false_eq_true, if_false]
    refine WrittenSince.sameAt (writtenSince_foldl
      (I := fun o' => o.generation ≤ o'.generation ∧ o'.patchOperation t i = o.patchOperation t i)
      (P := fun record => i = recordId record) (fun o' record h => ?_) (fun o' record h hP => ?_)
      (fun o' record hP => ?_) _ (captureBaseSnapshots opts t bases o) ⟨le_refl _, rfl⟩
      (.inr (exists_record_of_mem hid))) ⟨rfl, rfl⟩
    · refine ⟨h.1.trans ?_, (patchOperation_enqueuePatch ..).trans h.2⟩
      rw [generation_enqueuePatch]
      omega
    · subst hP
      have hop := h.2
      exact ⟨⟨o'.generation + 1, by simp [stamp_enqueuePatch, hop], by omega⟩, by simp [entry_enqueuePatch, hop]⟩
    · exact sameAt_enqueuePatch fun hk => hP hk.2
  | replaceTable table records bases =>
    obtain ⟨ht, hs, rfl, rfl, hid⟩ := hw
    refine writtenSince_enqueue ?_
    simp only [replaceTable, guard_of_mem ht hs hid, Bool.false_eq_true, if_false]
    refine WrittenSince.sameAt (writtenSince_foldl (I := fun o' => o.generation ≤ o'.generation)
      (P := fun record => i = recordId record) (fun o' record h => ?_) (fun o' record h hP => ?_)
      (fun o' record hP => ?_) _ (emptyTable t (captureBaseSnapshots opts t bases o)) (le_refl _)
      (.inr (exists_record_of_mem hid))) ⟨rfl, ?_⟩
    · exact h.trans (by rw [generation_replaceRecord]; omega)
    · subst hP
      exact ⟨⟨o'.generation + 1, by simp [stamp_replaceRecord], by omega⟩, by simp [entry_replaceRecord]⟩
    · exact sameAt_replaceRecord fun hk => hP hk.2
    · exact (entry_touchForNewPayload _ _).trans ((entry_filterDeletions _ _ _).trans (if_neg (by simp)))
  | delete table records =>
    obtain ⟨ht, hs, rfl, rfl, hid⟩ := hw
    refine writtenSince_enqueue ?_
    simp only [enqueueDeletes, guard_of_mem ht hs hid, Bool.false_eq_true, if_false]
    refine WrittenSince.sameAt (writtenSince_foldl (I := fun o' => o.generation ≤ o'.generation)
      (P := fun record => i = recordId record) (fun o' record h => ?_) (fun o' record h hP => ?_)
      (fun o' record hP => ?_) _ o (le_refl _) (.inr (exists_record_of_mem hid))) ⟨rfl, rfl⟩
    · exact h.trans (by rw [generation_enqueueDelete]; omega)
    · subst hP
      exact ⟨⟨o'.generation + 1, by simp [stamp_enqueueDelete, RecordKey.isOf], by omega⟩, entry_enqueueDelete_self t o' record⟩
    · exact sameAt_enqueueDelete fun hk => hP hk.2
  | _ => exact hw.elim

end Outbox

/-- The commands after which a queued operation is still queued as it was: the enqueue
commands that do not name its record, the ones that only renew or send, and the acknowledgement
of the receipt in question. -/
def Command.Spares (receipt : Receipt) (key : RecordKey) : Command → Prop
  | .upsert t records _ => ¬(key.table = t ∧ key.id ∈ Outbox.recordIds records)
  | .patch t records _ => ¬(key.table = t ∧ key.id ∈ Outbox.recordIds records)
  | .replaceTable t _ _ => key.table ≠ t
  | .delete t records => ¬(key.table = t ∧ key.id ∈ Outbox.recordIds records)
  | .rebase _ => True
  | .snapshotForSync _ => True
  | .ack r => r = receipt
  | .renewClientMutationId => True
  | .retryPersistence => True
  | _ => False

variable {c : Command}

theorem Command.Spares.stamps {receipt : Receipt} {key : RecordKey} (h : c.Spares receipt key) : c.Stamps := by
  cases c <;> trivial

variable (opts : OutboxOptions)

open Outbox in
theorem entry_enqueue (command : Outbox → Outbox × Bool) (o : Outbox)
    (key : RecordKey) : (enqueue opts command o).entry key = (command o).1.entry key := by
  unfold enqueue
  split
  · exact entry_persist _ key
  · rfl

open Outbox in
/-- A command that spares a record leaves what is queued for it, also when an old receipt is acknowledged. -/
theorem entry_step_of_spares {o : Outbox} {receipt : Receipt}
    {key : RecordKey} (hc : c.Spares receipt key) (hqueued : o.entry key ≠ none)
    (hstale : ∀ g, receipt.Names key g → o.stamp key ≠ some g) :
    (step opts o c).entry key = o.entry key := by
  cases c with
  | upsert table records bases => exact (entry_enqueue ..).trans (sameAt_enqueueUpserts hc).2
  | patch table records bases => exact (entry_enqueue ..).trans (sameAt_enqueuePatches hc).2
  | replaceTable table records bases =>
    refine (entry_enqueue ..).trans ?_
    rcases @sameAt_replaceTable opts table records bases o key (fun h => hc h.1) with h | h
    · rw [h]
    · exact h.2.trans ((entry_emptyTable ..).trans (if_neg fun hk => hc hk.1))
  | delete table records => exact (entry_enqueue ..).trans (sameAt_enqueueDeletes hc).2
  | rebase syncVersion =>
    refine (entry_enqueue ..).trans ?_
    unfold rebase
    split <;> rfl
  | snapshotForSync state =>
    change (snapshotForSync opts state o).1.entry key = o.entry key
    unfold snapshotForSync repairUnsyncedParentDependencies
    split
    · simp only
      split
      · exact (entry_persist ..).trans (sameAt_repair (.inr (.inl hqueued))).2
      · rfl
    · rfl
  | ack r => cases hc; exact entry_ack_kept hstale
  | renewClientMutationId =>
    change (renewClientMutationId opts o).entry key = o.entry key
    unfold renewClientMutationId
    split
    · exact entry_persist _ key
    · rfl
  | retryPersistence => exact entry_persist o key
  | _ => exact hc.elim

open Outbox in
theorem entry_run_of_spares {cs : List Command} {receipt : Receipt}
    {key : RecordKey} (hcs : ∀ c ∈ cs, c.Spares receipt key) {o : Outbox}
    (hbounded : o.view.Bounded) (hqueued : o.entry key ≠ none)
    (hold : ∀ g, receipt.Names key g → g ≤ o.generation)
    (hstale : ∀ g, receipt.Names key g → o.stamp key ≠ some g) :
    (run opts o cs).entry key = o.entry key := by
  induction cs generalizing o with
  | nil => rfl
  | cons c cs ih =>
    have hc := hcs c mem_cons_self
    have hentry := entry_step_of_spares opts hc hqueued hstale
    have hadv := evolves_step opts o hc.stamps hbounded
    refine (ih (fun c' h => hcs c' (mem_cons_of_mem c h)) (hbounded.advances hadv)
      (by rw [hentry]; exact hqueued) (fun g hg => (hold g hg).trans hadv.clock_le)
      (fun g hg => hadv.stamp_ne (hold g hg) (hstale g hg))).trans hentry

/-! ## The theorem -/

theorem run_append (o : Outbox) (cs cs' : List Command) :
    run opts o (cs ++ cs') = run opts (run opts o cs) cs' := foldl_append

open Outbox in
/-- No lost update, for a receipt acknowledged after any commands.

1. An operation leaves the queue only if its generation is the one in the receipt.
2. What a command wrote after the snapshot stays as it is, also after commands that spare it.
3. What the receipt names and no command touched since is gone.
4. Acknowledging the receipt again changes nothing, at once or after any further commands.
5. A generation never stands for two operations, or two contents, of a record. -/
theorem ack_loses_no_update (opts : OutboxOptions) (before after : List Command)
    (state : WorkspaceState) (payload : Payload) (receipt : Receipt)
    (hbefore : ∀ c ∈ before, c.Stamps) (hafter : ∀ c ∈ after, c.Stamps)
    (hsent : ((run opts (newOutbox opts) before).snapshotForSync opts state).2 = some (payload, receipt)) :
    let sent := ((run opts (newOutbox opts) before).snapshotForSync opts state).1
    let late := run opts sent after
    let acked := (late.ack opts receipt).1
    (∀ key, acked.entry key ≠ late.entry key → acked.entry key = none ∧ ∃ g, receipt.Names key g ∧ late.stamp key = some g) ∧
    (∀ early c rest key, after = early ++ c :: rest → c.Writes opts (run opts sent early) key →
      acked.entry key = late.entry key ∧
      ((∀ c' ∈ rest, c'.Spares receipt key) →
        acked.entry key = (run opts sent (early ++ [c])).entry key ∧ acked.entry key ≠ none)) ∧
    (∀ key g, receipt.Names key g → (∀ c ∈ after, ¬c.Touches key.table key.id) → acked.entry key = none) ∧
    (acked.ack opts receipt = (acked, false) ∧
      ∀ more, (∀ c ∈ more, c.Stamps) → ∀ key,
        ((run opts acked more).ack opts receipt).1.entry key = (run opts acked more).entry key) ∧
    (∀ early rest table id op op' g content content', before = early ++ rest →
      let v := run opts (newOutbox opts) early
      let w := run opts (newOutbox opts) before
      v.stamp ⟨op, table, id⟩ = some g → v.entry ⟨op, table, id⟩ = some content →
      w.stamp ⟨op', table, id⟩ = some g → w.entry ⟨op', table, id⟩ = some content' →
      op = op' ∧ content = content') := by
  intro sent late acked
  have hbstart : (run opts (newOutbox opts) before).view.Bounded := bounded_run opts hbefore
  have hbsent : sent.view.Bounded :=
    hbstart.advances (evolves_snapshotForSync state _ hbstart)
  have hlate : sent.view.Advances late.view := evolves_run opts sent hafter hbsent
  have hnames : ∀ key g, receipt.Names key g → sent.stamp key = some g :=
    fun key g h => stamp_of_snapshot hsent h
  have hold : ∀ key g, receipt.Names key g → g ≤ sent.generation :=
    fun key g h => hbsent.le_clock key g (hnames key g h)
  have hacked : late.view.Sheds acked.view := sheds_ack receipt late
  refine ⟨fun key hne => ?_, fun early c rest key heq hwrites => ?_, fun key g hg huntouched => ?_,
    ⟨ack_ack receipt late, fun more hmore key => ?_⟩, ?_⟩
  · -- an operation that changed was not kept, so its generation is in the receipt
    by_cases hk : ∃ g, receipt.Names key g ∧ late.stamp key = some g
    · obtain ⟨g, hg, hs⟩ := hk
      exact ⟨entry_ack_gone hg hs, g, hg, hs⟩
    · exact absurd (entry_ack_kept fun g hg hs => hk ⟨g, hg, hs⟩) hne
  · have hearly : ∀ c' ∈ early, c'.Stamps := fun c' h => hafter c' (by simp [heq, h])
    have hc : c.Stamps := hafter c (by simp [heq])
    have hrest : ∀ c' ∈ rest, c'.Stamps := fun c' h => hafter c' (by simp [heq, h])
    let mid := run opts sent early
    let written := step opts mid c
    have hmid : sent.view.Advances mid.view := evolves_run opts sent hearly hbsent
    have hbmid := hbsent.advances hmid
    have hwritten : mid.view.Advances written.view := evolves_step opts mid hc hbmid
    have hbwritten := hbmid.advances hwritten
    have hsince : WrittenSince mid.generation key written := writtenSince_step mid hwrites
    have hrun : late = run opts written rest := by
      change run opts sent after = _
      rw [heq, run_append]
      rfl
    have hclock : ∀ g, receipt.Names key g → g ≤ written.generation := fun g hg =>
      (hold key g hg).trans (hmid.clock_le.trans hwritten.clock_le)
    have hstale : ∀ g, receipt.Names key g → written.stamp key ≠ some g := by
      intro g hg hs
      obtain ⟨g', hs', hlt⟩ := hsince.stamp
      have h1 : g ≤ mid.generation := (hold key g hg).trans hmid.clock_le
      rw [hs', some.injEq] at hs
      omega
    have hlaterun : written.view.Advances late.view := hrun ▸ evolves_run opts written hrest hbwritten
    have hkept : acked.entry key = late.entry key :=
      entry_ack_kept fun g hg => hlaterun.stamp_ne (hclock g hg) (hstale g hg)
    refine ⟨hkept, fun hspares => ?_⟩
    have hentry : late.entry key = written.entry key := by
      rw [hrun]
      exact entry_run_of_spares opts hspares hbwritten hsince.queued hclock hstale
    have hwas : written = run opts sent (early ++ [c]) := by rw [run_append]; rfl
    rw [hkept, hentry, hwas]
    exact ⟨rfl, hwas ▸ hsince.queued⟩
  · -- the generation is still the remembered one, or the entry is already gone
    rcases fades_run opts sent hafter huntouched with ⟨hs, -⟩ | hn
    · exact entry_ack_gone hg (hs.trans (hnames key g hg))
    · rcases hacked.key key with ⟨-, he⟩ | ⟨he, -⟩
      · exact he.trans hn
      · exact he
  · have hbacked : acked.view.Bounded :=
      (hbsent.advances hlate).advances (hacked.advances (hbsent.advances hlate))
    have hmore : acked.view.Advances (run opts acked more).view :=
      evolves_run opts acked hmore hbacked
    by_cases hk : ∃ g, receipt.Names key g ∧ (run opts acked more).stamp key = some g
    · obtain ⟨g, hg, hs⟩ := hk
      have hclock : g ≤ acked.generation :=
        (hold key g hg).trans (hlate.clock_le.trans hacked.clock_eq.ge)
      have hackedstamp : acked.stamp key = some g := hmore.stamp_of_le hclock hs
      have hlatestamp : late.stamp key = some g := by
        rcases hacked.key key with ⟨h, -⟩ | ⟨-, h | h⟩
        · exact h.symm.trans hackedstamp
        · exact h.symm.trans hackedstamp
        · rw [show acked.stamp key = none from h] at hackedstamp
          cases hackedstamp
      have hgone : acked.entry key = none := entry_ack_gone hg hlatestamp
      rw [entry_ack_gone hg hs]
      rcases hmore.content_eq hbacked hackedstamp hs with h | h
      · exact (h.trans hgone).symm
      · exact h.symm
    · exact entry_ack_kept fun g hg hs => hk ⟨g, hg, hs⟩
  · intro early rest table id op op' g content content' heq v w hv hvc hw hwc
    have hearly : ∀ c' ∈ early, c'.Stamps := fun c' h => hbefore c' (by simp [heq, h])
    have hrest : ∀ c' ∈ rest, c'.Stamps := fun c' h => hbefore c' (by simp [heq, h])
    have hbv : v.view.Bounded := bounded_run opts hearly
    have hadv : v.view.Advances w.view := by
      have hwv : w = run opts v rest := by
        change run opts (newOutbox opts) before = _
        rw [heq, run_append]
      exact hwv ▸ evolves_run opts v hrest hbv
    have hkey := hadv.key_eq hbv hv hw
    rw [RecordKey.mk.injEq] at hkey
    obtain ⟨rfl, -⟩ := hkey
    refine ⟨rfl, ?_⟩
    rcases hadv.content_eq hbv hv hw with h | h
    · have : some content' = some content := hwc.symm.trans (h.trans hvc)
      exact (some.inj this).symm
    · rw [show w.entry ⟨op, table, id⟩ = none from h] at hwc
      cases hwc

def plainOptions : OutboxOptions where
  getBaseSyncVersion := fun _ => "1"
  createId := fun n => "m" ++ toString n
  isSyncedType := fun _ => true
  normalizeRecord := fun record _ => record
  serializeRecord := fun record _ => record
  resolveServerTable := id

theorem ack_loses_no_update_package :
    let named : Record := .ofList [("id", .str "g1"), ("tenGoiThau", .str "A")]
    let renamed : Record := .ofList [("id", .str "g1"), ("tenGoiThau", .str "B")]
    let start := run plainOptions (newOutbox plainOptions) [.upsert "goithau" [named] []]
    ∃ payload receipt, (start.snapshotForSync plainOptions .empty).2 = some (payload, receipt) ∧
      ((run plainOptions (start.snapshotForSync plainOptions .empty).1
        [.patch "goithau" [renamed] []]).ack plainOptions receipt).1.entry ⟨.upsert, "goithau", "g1"⟩ ≠ none := by
  intro named renamed start
  have hsome : (start.snapshotForSync plainOptions .empty).2.isSome = true := by decide
  obtain ⟨⟨payload, receipt⟩, hsent⟩ := isSome_iff_exists.mp hsome
  have hall := ack_loses_no_update plainOptions [.upsert "goithau" [named] []]
    [.patch "goithau" [renamed] []] .empty payload receipt (by simp [Command.Stamps]) (by simp [Command.Stamps]) hsent
  exact ⟨payload, receipt, hsent, ((hall.2.1 [] (.patch "goithau" [renamed] []) []
    ⟨.upsert, "goithau", "g1"⟩ rfl ⟨by decide, rfl, by decide, rfl, by decide⟩).2 (by simp)).2⟩
end Bidding
