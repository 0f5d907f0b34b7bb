import Bidding.Outbox.Numbering
import Bidding.Outbox.Resumed

/-!
# What a rejection that is taken up again removes

The rebuilt receipt has only generations of operations that are queued as they were sent, so the rejection takes back only
these. What stays keeps its base snapshot, since the base of a record leaves with the last operation of the record.
-/

namespace Bidding

open Foundations Option

def Receipt.sentRecord (receipt : Receipt) (key : RecordKey) : Option Record :=
  match key.operation with
  | .upsert => receipt.recordSnapshotUpserts.get₂ key.table key.id
  | .patch => receipt.recordSnapshotPatches.get₂ key.table key.id
  | .delete => none

namespace Outbox

variable {opts : OutboxOptions} {part : RecordMap} {table : String} {acc : Outbox × Bool} {receipt : Receipt} {state : WorkspaceState}

/-! ## What a rejection leaves -/

/-- Operations were only removed, and what is left of a record keeps its base snapshot. -/
structure Pruned (o o' : Outbox) : Prop where
  entries : ∀ key, o'.entry key = o.entry key ∨ o'.entry key = none
  bases : ∀ table id, o'.queue.baseSnapshots.get₂ table id = o.queue.baseSnapshots.get₂ table id ∨
    ∀ operation, o'.entry ⟨operation, table, id⟩ = none

theorem Pruned.refl (o : Outbox) : Pruned o o := ⟨fun _ => .inl rfl, fun _ _ => .inl rfl⟩

theorem Pruned.trans {o₁ o₂ o₃ : Outbox} (h : Pruned o₁ o₂) (h' : Pruned o₂ o₃) : Pruned o₁ o₃ where
  entries key := by
    rcases h'.entries key with hsame | hnone
    · rw [hsame]
      exact h.entries key
    · exact .inr hnone
  bases table id := by
    rcases h'.bases table id with hsame | hnone
    · rcases h.bases table id with hsame' | hnone
      · exact .inl (hsame.trans hsame')
      refine .inr fun operation => ?_
      rcases h'.entries ⟨operation, table, id⟩ with hentry | hentry
      · exact hentry.trans (hnone operation)
      · exact hentry
    · exact .inr hnone

theorem Pruned.of_bases {o o' : Outbox} (hentries : ∀ key, o'.entry key = o.entry key ∨ o'.entry key = none)
    (hbases : o'.queue.baseSnapshots = o.queue.baseSnapshots) : Pruned o o' :=
  ⟨hentries, fun _ _ => .inl (by rw [hbases])⟩

theorem pruned_release (table id : String) (o : Outbox) : Pruned o (releaseBaseSnapshot table id o) where
  entries key := .inl (entry_releaseBaseSnapshot table id o key)
  bases table' id' := by
    by_cases hkey : table' = table ∧ id' = id
    · obtain ⟨rfl, rfl⟩ := hkey
      unfold releaseBaseSnapshot
      split
      · exact .inl rfl
      rename_i hnone
      simp only [Bool.or_eq_true, not_or, Bool.not_eq_true, isSome_eq_false_iff, isNone_iff_eq_none] at hnone
      obtain ⟨⟨hupsert, hpatch⟩, hdelete⟩ := hnone
      refine .inr fun operation => ?_
      cases operation with
      | upsert => simp [entry, MutationQueue.entry, hupsert]
      | patch => simp [entry, MutationQueue.entry, hpatch]
      | delete =>
        have hfind : o.queue.deletes.find? (·.names table' id') = none := by
          rw [List.find?_eq_none]
          intro item hitem hnames
          exact Bool.false_ne_true (hdelete.symm.trans (List.any_eq_true.mpr ⟨item, hitem, hnames⟩))
        simp [entry, MutationQueue.entry, hfind]
    · unfold releaseBaseSnapshot
      split
      · exact .inl rfl
      · refine .inl ?_
        rw [Dict.get₂_dropIfEmpty, Dict.get₂_erase₂, if_neg hkey]

theorem pruned_persist (o : Outbox) : Pruned o (persist opts o) := by
  unfold persist
  split
  · exact .of_bases (fun _ => .inl rfl) rfl
  · exact ⟨fun key => .inr (entry_clear o key), fun table id => .inr fun operation => entry_clear o _⟩

theorem pruned_rejectRecord {sent : Option ℕ} {key : TableKey} {o taken : Outbox}
    (h : rejectRecord part sent key o = some taken) : Pruned o taken := by
  obtain ⟨table, id⟩ := key
  obtain ⟨-, -, hgone, hother⟩ := rejectRecord_some h
  refine .of_bases (fun key => ?_) ?_
  · by_cases hkey : key = ⟨part.operation, table, id⟩
    · rw [hkey]
      exact .inr hgone
    · exact .inl (hother key hkey).2
  · unfold rejectRecord at h
    dsimp only at h
    split at h
    · cases h
      cases part <;> rfl
    · cases h

theorem pruned_rejectDelete (sent : Option ℕ) (key : TableKey) (o : Outbox) : Pruned o (rejectDelete sent key o).1 := by
  obtain ⟨table, id⟩ := key
  refine .of_bases (fun key => ?_) ?_
  · rcases rejectDelete_cases sent table id o with hsame | ⟨-, -, hgone, hother⟩
    · rw [hsame]
      exact .inl rfl
    · by_cases hkey : key = ⟨.delete, table, id⟩
      · rw [hkey]
        exact .inr hgone
      · exact .inl (hother key hkey).2
  · unfold rejectDelete
    dsimp only
    split <;> rfl

theorem pruned_rejectKey (receipt : Receipt) (key : TableKey) (o : Outbox) : Pruned o (rejectKey receipt key o).1 := by
  unfold rejectKey
  split
  · exact .refl o
  split
  · rename_i taken h
    exact (pruned_rejectRecord h).trans (pruned_release _ _ _)
  split
  · rename_i taken h
    exact (pruned_rejectRecord h).trans (pruned_release _ _ _)
  · have hdelete := pruned_rejectDelete (receipt.deletes.get? key) key o
    dsimp only
    split
    · exact hdelete.trans (pruned_release _ _ _)
    · exact hdelete

theorem pruned_ackTable (acc : Outbox × Bool) (sent : String × ℕ) : Pruned acc.1 (ackTable acc sent).1 := by
  unfold ackTable
  dsimp only
  split
  · exact .refl _
  · exact .of_bases (fun _ => .inl rfl) rfl

theorem pruned_settle (acc : Outbox × Bool) : Pruned acc.1 (settle opts acc) := by
  unfold settle
  split
  · refine Pruned.trans ?_ (pruned_persist _)
    split
    · exact .of_bases (fun _ => .inl rfl) rfl
    · exact .refl _
  · exact .refl _

theorem pruned_foldl {σ α : Type} (view : σ → Outbox) (f : σ → α → σ) (hf : ∀ s a, Pruned (view s) (view (f s a)))
    (l : List α) (s : σ) : Pruned (view s) (view (l.foldl f s)) :=
  foldl_rel f (fun s s' => Pruned (view s) (view s')) (fun s => .refl (view s)) (fun _ _ _ => Pruned.trans) l
    (fun s a _ => hf s a) s

theorem pruned_reject (receipt : Receipt) (errors : List SyncError) (fallbackToBatch : Bool)
    (state : Option WorkspaceState) (o : Outbox) : Pruned o (reject opts receipt errors fallbackToBatch state o).1 := by
  have hkeys : Pruned o (rejectKeys opts receipt errors (rejectedKeys opts receipt errors fallbackToBatch state o).1 o).1 := by
    rw [rejectKeys_fst]
    exact pruned_foldl id _ (fun o key => pruned_rejectKey receipt key o) _ o
  unfold reject
  dsimp only
  refine Pruned.trans ?_ (pruned_settle _)
  split
  · refine hkeys.trans ?_
    exact pruned_foldl Prod.fst ackTable pruned_ackTable receipt.dirtyTables.entries (_, _)
  · exact hkeys

/-! ## Tables that are sent whole -/

def Marked (o : Outbox) (table : String) : Prop := o.queue.dirtyTables.get? table = some true

theorem marked_persist {o : Outbox} (h : Marked o table) : Marked (persist opts o) table := by
  have hchanges : mutationQueueHasChanges o.queue = true := by
    have hmem : true ∈ o.queue.dirtyTables.values := (Dict.mem_values_iff _ true).mpr ⟨table, h⟩
    unfold mutationQueueHasChanges
    simp [hmem]
  unfold persist
  rw [if_pos hchanges]
  exact h

theorem marked_settle (h : Marked acc.1 table) : Marked (settle opts acc) table := by
  unfold settle
  split
  · apply marked_persist
    split
    · exact h
    · exact h
  · exact h

theorem dirtyTables_release (table id : String) (o : Outbox) :
    (releaseBaseSnapshot table id o).queue.dirtyTables = o.queue.dirtyTables := by
  unfold releaseBaseSnapshot
  split <;> rfl

theorem dirtyTables_rejectKey (receipt : Receipt) (key : TableKey) (o : Outbox) :
    (rejectKey receipt key o).1.queue.dirtyTables = o.queue.dirtyTables := by
  have hrecord : ∀ (part : RecordMap) (sent : Option ℕ) (taken : Outbox), rejectRecord part sent key o = some taken →
      taken.queue.dirtyTables = o.queue.dirtyTables := by
    intro part sent taken h
    unfold rejectRecord at h
    dsimp only at h
    split at h
    · cases h
      cases part <;> rfl
    · cases h
  unfold rejectKey
  split
  · rfl
  split
  · rename_i taken h
    exact (dirtyTables_release _ _ _).trans (hrecord _ _ taken h)
  split
  · rename_i taken h
    exact (dirtyTables_release _ _ _).trans (hrecord _ _ taken h)
  have hdelete : (rejectDelete (receipt.deletes.get? key) key o).1.queue.dirtyTables = o.queue.dirtyTables := by
    unfold rejectDelete
    dsimp only
    split <;> rfl
  dsimp only
  split
  · exact (dirtyTables_release _ _ _).trans hdelete
  · exact hdelete

theorem marked_foldl_ackTable {sent : List (String × ℕ)} (h : Marked acc.1 table)
    (hstale : ∀ generation, (table, generation) ∈ sent → acc.1.tableGenerations.get? table ≠ some generation) :
    Marked (sent.foldl ackTable acc).1 table := by
  refine (foldl_inv ackTable (fun acc => Marked acc.1 table ∧
    ∀ generation, (table, generation) ∈ sent → acc.1.tableGenerations.get? table ≠ some generation) sent
    (fun acc entry hentry hacc => ?_) ⟨h, hstale⟩).1
  obtain ⟨hmarked, hother⟩ := hacc
  refine ⟨?_, fun generation hmem hsome => ?_⟩
  · unfold ackTable
    dsimp only
    split
    · exact hmarked
    rename_i hgeneration
    have hne : table ≠ entry.1 := by
      intro heq
      subst heq
      exact hother entry.2 hentry (not_not.mp hgeneration)
    change (if _ then _ else _ : Dict String Bool).get? table = some true
    split
    · rw [Dict.get?_erase_of_ne _ hne]
      exact hmarked
    · exact hmarked
  · rcases tablesKept_ackTable acc entry table with hsame | hnone
    · exact hother generation hmem (hsame.symm.trans hsome)
    · rw [hnone] at hsome
      cases hsome

theorem marked_reject (errors : List SyncError) (fallbackToBatch : Bool)
    (state : Option WorkspaceState) {o : Outbox} (h : Marked o table)
    (hstale : ∀ generation, receipt.dirtyTables.get? table = some generation →
      o.tableGenerations.get? table ≠ some generation) :
    Marked (reject opts receipt errors fallbackToBatch state o).1 table := by
  have hkeys : Marked (rejectKeys opts receipt errors (rejectedKeys opts receipt errors fallbackToBatch state o).1 o).1 table ∧
      TablesKept o (rejectKeys opts receipt errors (rejectedKeys opts receipt errors fallbackToBatch state o).1 o).1 := by
    rw [rejectKeys_fst]
    refine ⟨?_, tablesKept_foldl id _ (fun o key => tablesKept_rejectKey receipt key o) _ o⟩
    refine foldl_inv _ (Marked · table) _ (fun o key _ hmarked => ?_) h
    unfold Marked
    rw [dirtyTables_rejectKey]
    exact hmarked
  unfold reject
  dsimp only
  apply marked_settle
  split
  · refine marked_foldl_ackTable hkeys.1 fun generation hmem hsome => ?_
    rcases hkeys.2 table with hsame | hnone
    · exact hstale generation ((Dict.mem_entries_iff _ table generation).mp hmem) (hsame.symm.trans hsome)
    · rw [hnone] at hsome
      cases hsome
  · exact hkeys.1

/-! ## The rebuilt receipt -/

def AsSent (saved : Receipt) (current : Option Receipt) (key : RecordKey) : Entry → Prop
  | .record record => saved.sentRecord key = some record
  | .deletion _ => current.map Receipt.batchId = some saved.batchId

theorem get₂_matchedGenerations (part : RecordMap) (saved : Receipt) (current : Option Receipt) (table id : String) :
    (matchedGenerations part saved current).get₂ table id =
      ((saved.generations part).get₂ table id).map fun _ => recordGeneration part saved current table id := by
  unfold matchedGenerations Dict.get₂
  rw [Dict.get?_mapEntries]
  cases (saved.generations part).get? table with
  | none => rfl
  | some entries => exact Dict.get?_mapEntries _ entries id

theorem recordGeneration_cases (part : RecordMap) (saved : Receipt) (current : Option Receipt) (table id : String) :
    recordGeneration part saved current table id = noGeneration ∨
      ∃ receipt record, current = some receipt ∧ (saved.recordSnapshots part).get₂ table id = some record ∧
        (receipt.recordSnapshots part).get₂ table id = some record ∧
        (receipt.generations part).get₂ table id = some (recordGeneration part saved current table id) := by
  unfold recordGeneration
  split
  · rename_i hsame
    cases current with
    | none => exact .inl rfl
    | some receipt =>
      simp only [bind_some] at hsame ⊢
      cases hgeneration : (receipt.generations part).get₂ table id with
      | none => exact .inl rfl
      | some generation =>
        cases hbefore : (saved.recordSnapshots part).get₂ table id with
        | none => simp [hbefore, sameText] at hsame
        | some before =>
          cases hnow : (receipt.recordSnapshots part).get₂ table id with
          | none => simp [hbefore, hnow, sameText] at hsame
          | some now =>
            have heq : before = now := by simpa [hbefore, hnow, sameText] using hsame
            exact .inr ⟨receipt, before, rfl, rfl, heq ▸ hnow, hgeneration⟩
  · exact .inl rfl

theorem queued_of_currentReceipt {o : Outbox} (h : currentReceipt opts state o = some receipt) {id : String} {record : Record}
    (hsnapshot : (receipt.recordSnapshots part).get₂ table id = some record) :
    (snapshotForSync opts state o).1.entry ⟨part.operation, table, id⟩ = some (.record record) := by
  obtain ⟨⟨payload, receipt'⟩, hsent, hreceipt⟩ := map_eq_some_iff.mp h
  cases hreceipt
  unfold snapshotForSync at hsent ⊢
  cases hchanges : mutationQueueHasChanges o.queue with
  | false => simp [hchanges] at hsent
  | true =>
    simp only [hchanges, if_true] at hsent ⊢
    unfold buildMutationPayload at hsent
    simp only at hsent
    split at hsent
    · cases hsent
    simp only [some.injEq, Prod.mk.injEq] at hsent
    rw [← hsent.2] at hsnapshot
    rw [entry_part]
    cases part with
    | upserts =>
      simp only [Receipt.recordSnapshots, filterReceiptBySentOperations, Dict.get₂_filter₂] at hsnapshot
      split at hsnapshot
      · exact congrArg (Option.map Entry.record) hsnapshot
      · cases hsnapshot
    | patches =>
      simp only [Receipt.recordSnapshots, filterReceiptBySentOperations, Dict.get₂_filter₂] at hsnapshot
      split at hsnapshot
      · exact congrArg (Option.map Entry.record) hsnapshot
      · cases hsnapshot

theorem asSent_of_prepared {saved : Receipt} {o : Outbox} {key : RecordKey} {generation : ℕ}
    (hnames : (preparedReceiptForCurrentIntent saved (currentReceipt opts state o)).1.Names key generation)
    (hne : generation ≠ noGeneration) {entry : Entry} (hentry : (snapshotForSync opts state o).1.entry key = some entry) :
    (∃ sent, saved.Names key sent) ∧ AsSent saved (currentReceipt opts state o) key entry := by
  have hrecord : ∀ part : RecordMap, key = ⟨part.operation, key.table, key.id⟩ →
      (matchedGenerations part saved (currentReceipt opts state o)).get₂ key.table key.id = some generation →
      (∃ sent, (saved.generations part).get₂ key.table key.id = some sent) ∧
        ∃ record, (saved.recordSnapshots part).get₂ key.table key.id = some record ∧ entry = .record record := by
    intro part hkey hgeneration
    rw [get₂_matchedGenerations, map_eq_some_iff] at hgeneration
    obtain ⟨sent, hsent, rfl⟩ := hgeneration
    rcases recordGeneration_cases part saved (currentReceipt opts state o) key.table key.id with
      hnone | ⟨receipt, record, hcurrent, hbefore, hnow, -⟩
    · exact absurd hnone hne
    · have hqueued := queued_of_currentReceipt hcurrent hnow
      rw [← hkey, hentry, some.injEq] at hqueued
      exact ⟨⟨sent, hsent⟩, record, hbefore, hqueued⟩
  obtain ⟨operation, table, id⟩ := key
  cases operation with
  | upsert =>
    obtain ⟨hsent, record, hbefore, rfl⟩ := hrecord .upserts rfl hnames
    exact ⟨hsent, hbefore⟩
  | patch =>
    obtain ⟨hsent, record, hbefore, rfl⟩ := hrecord .patches rfl hnames
    exact ⟨hsent, hbefore⟩
  | delete =>
    have hdeletes : (saved.deletes.get? (table, id)).map (fun _ =>
        deleteGeneration saved (currentReceipt opts state o) (table, id)) = some generation :=
      (Dict.get?_mapEntries _ saved.deletes (table, id)).symm.trans hnames
    obtain ⟨sent, hsent, hgeneration⟩ := map_eq_some_iff.mp hdeletes
    have hbatch : (currentReceipt opts state o).map Receipt.batchId = some saved.batchId := by
      by_contra hother
      unfold deleteGeneration at hgeneration
      rw [if_neg hother] at hgeneration
      exact hne hgeneration.symm
    have hdeletion : ∃ deletion, entry = .deletion deletion := by
      obtain ⟨deletion, -, hdeletion⟩ := map_eq_some_iff.mp hentry
      exact ⟨deletion, hdeletion.symm⟩
    obtain ⟨deletion, rfl⟩ := hdeletion
    exact ⟨⟨sent, hsent⟩, hbatch⟩

theorem entry_snapshotForSync (state : WorkspaceState) {o : Outbox} {key : RecordKey} {entry : Entry}
    (h : o.entry key = some entry) : (snapshotForSync opts state o).1.entry key = some entry := by
  unfold snapshotForSync repairUnsyncedParentDependencies
  split
  · dsimp only
    split
    · have hqueued : o.entry key ≠ none := by simp [h]
      rw [entry_persist]
      exact (sameAt_repair (.inr (.inl hqueued))).2.trans h
    · exact h
  · exact h

theorem snapshotForSync_keeps (state : WorkspaceState) (o : Outbox) :
    (∀ table, Marked o table → Marked (snapshotForSync opts state o).1 table) ∧
      ((snapshotForSync opts state o).1.queue.baseSnapshots = o.queue.baseSnapshots ∨
        ∀ key, (snapshotForSync opts state o).1.entry key = none) := by
  have hloop := @repairLoop_rel opts state (fun o o' => o'.queue.dirtyTables = o.queue.dirtyTables ∧
    o'.queue.baseSnapshots = o.queue.baseSnapshots) (fun _ => ⟨rfl, rfl⟩)
    (fun _ _ _ h h' => ⟨h'.1.trans h.1, h'.2.trans h.2⟩) (fun _ _ _ _ _ => ⟨rfl, rfl⟩) (stateSize state + 1) o
  unfold snapshotForSync repairUnsyncedParentDependencies
  split
  · dsimp only
    split
    · refine ⟨fun table hmarked => marked_persist ?_, ?_⟩
      · show (saturate (repairPass opts state) (stateSize state + 1) o).queue.dirtyTables.get? table = some true
        rw [hloop.1]
        exact hmarked
      · unfold persist
        split
        · exact .inl hloop.2
        · exact .inr fun key => entry_clear _ key
    · exact ⟨fun _ h => h, .inl rfl⟩
  · exact ⟨fun _ h => h, .inl rfl⟩

end Outbox

/-! ## The theorem -/

open Outbox in
/-- Taking an interrupted rejection up again, for every outbox, archived receipt and list of errors.

1. An operation leaves only if the receipt has sent it and it is queued as it was sent, a deletion with the same batch.
2. What is still queued of a record keeps the base snapshot of the record.
3. A table that is to be sent whole stays so, unless the receipt has sent it and the batch is the same.
4. Looking afterwards what is still queued changes nothing that is queued.
5. The phase of a receipt in merged archives depends on no order and is as far as in each of them.
6. No save takes the database back, and no recovery takes back what is merged of the two archives. -/
theorem resumed_rejection_keeps_newer (opts : OutboxOptions) (commands : List Command) (state : WorkspaceState)
    (saved : Receipt) (errors : List SyncError) :
    let o := run opts (newOutbox opts) commands
    let current := currentReceipt opts state o
    let resumed := (resumeRejection opts state saved errors o).1
    (∀ key entry, o.entry key = some entry → resumed.entry key = some entry ∨
        (resumed.entry key = none ∧ (∃ sent, saved.Names key sent) ∧ AsSent saved current key entry)) ∧
    (∀ table id, (∃ operation, resumed.entry ⟨operation, table, id⟩ ≠ none) →
      resumed.queue.baseSnapshots.get₂ table id = o.queue.baseSnapshots.get₂ table id) ∧
    (∀ table, Marked o table → Marked resumed table ∨
      (saved.dirtyTables.get? table ≠ none ∧ current.map Receipt.batchId = some saved.batchId)) ∧
    (∀ later laterState removed key entry, Outbox.entry later key = some entry →
      (recordsToRestore opts laterState saved errors removed later).1.entry key = some entry) ∧
    (∀ (archives archives' : List (Option RejectedArchive)) key,
      (∀ archive : RejectedArchive, some archive ∈ archives → archivedPhase archive key ≤
        archivedPhase (mergeRejectedArchives archives) key) ∧
      ((∀ archive : RejectedArchive, some archive ∈ archives ↔ some archive ∈ archives') →
        archivedPhase (mergeRejectedArchives archives) key = archivedPhase (mergeRejectedArchives archives') key)) ∧
    (∀ receiptKey payload attempt (s : Archives) key, archivedPhase s.database key ≤
      archivedPhase (saveRejectedRecovery receiptKey payload attempt s).1.database key) ∧
    ∀ outcomes workspaceKey databaseDrafts (s : Archives) key,
      let s' := (recoverRejectedProjections outcomes (pendingRejectedRecoveries workspaceKey databaseDrafts s.localStorage) s).1
      archivedPhase (mergeRejectedArchives [some s.database, some s.localStorage]) key ≤
        archivedPhase (mergeRejectedArchives [some s'.localStorage, some s'.database]) key := by
  intro o current resumed
  have hpositive : ∀ key, (snapshotForSync opts state o).1.stamp key ≠ some noGeneration := by
    intro key
    have h := stamp_ne_zero_run opts (commands ++ [.snapshotForSync state]) key
    rwa [run_append] at h
  have htables : TablesNumbered (snapshotForSync opts state o).1 :=
    (tablesNumbered_run opts commands).kept (tablesKept_snapshotForSync state o)
  -- the rejection, seen from the outbox that was asked for a snapshot
  have hresumed : resumed = (snapshotForSync opts state o).1 ∨ resumed =
      (reject opts (preparedReceiptForCurrentIntent saved current).1 errors true (some state)
        (snapshotForSync opts state o).1).1 := by
    unfold resumed resumeRejection
    dsimp only
    split
    · exact .inl rfl
    · exact .inr rfl
  refine ⟨fun key entry hentry => ?_, fun table id hleft => ?_, fun table hmarked => ?_, ?_,
    fun archives archives' key => ⟨fun archive hmem => archivedPhase_le_merge hmem key,
      fun hsame => archivedPhase_merge_congr hsame key⟩,
    fun receiptKey payload attempt s key => database_saveRejectedRecovery receiptKey payload attempt s key, ?_⟩
  · have hasked := @entry_snapshotForSync opts state o key entry hentry
    rcases hresumed with heq | heq
    · exact .inl (heq ▸ hasked)
    by_cases hchanged : resumed.entry key = (snapshotForSync opts state o).1.entry key
    · exact .inl (hchanged.trans hasked)
    rw [heq] at hchanged
    obtain ⟨hgone, -, generation, hnames, hstamp⟩ := reject_takes _ _ _ _ _ key hchanged
    have hne : generation ≠ noGeneration := by
      rintro rfl
      exact hpositive key hstamp
    obtain ⟨hsent, has⟩ := asSent_of_prepared hnames hne hasked
    exact .inr ⟨heq ▸ hgone, hsent, has⟩
  · have hasked := (@snapshotForSync_keeps opts state o).2
    obtain ⟨operation, hleft⟩ := hleft
    have hbases : (snapshotForSync opts state o).1.entry ⟨operation, table, id⟩ ≠ none →
        (snapshotForSync opts state o).1.queue.baseSnapshots.get₂ table id = o.queue.baseSnapshots.get₂ table id := by
      intro hqueued
      rcases hasked with hsame | hnone
      · rw [hsame]
      · exact absurd (hnone _) hqueued
    rcases hresumed with heq | heq
    · rw [heq] at hleft ⊢
      exact hbases hleft
    have hpruned := @pruned_reject opts (preparedReceiptForCurrentIntent saved current).1 errors true (some state)
      (snapshotForSync opts state o).1
    rw [← heq] at hpruned
    have hqueued : (snapshotForSync opts state o).1.entry ⟨operation, table, id⟩ ≠ none := by
      intro hnone
      rcases hpruned.entries ⟨operation, table, id⟩ with hsame | hgone
      · exact hleft (hsame.trans hnone)
      · exact hleft hgone
    rcases hpruned.bases table id with hsame | hgone
    · exact hsame.trans (hbases hqueued)
    · exact absurd (hgone operation) hleft
  · have hasked := (@snapshotForSync_keeps opts state o).1 table hmarked
    rcases hresumed with heq | heq
    · exact .inl (heq ▸ hasked)
    by_cases hsent : saved.dirtyTables.get? table ≠ none ∧ current.map Receipt.batchId = some saved.batchId
    · exact .inr hsent
    refine .inl ?_
    rw [heq]
    refine marked_reject errors true (some state) hasked fun generation hgeneration hsome => ?_
    -- a table that was not sent in this batch has a generation that no table has
    have hprepared : (saved.dirtyTables.get? table).map (fun _ => tableGeneration saved current table) =
        some generation := (Dict.get?_mapEntries _ saved.dirtyTables table).symm.trans hgeneration
    obtain ⟨sent, hsaved, hvalue⟩ := map_eq_some_iff.mp hprepared
    have hother : current.map Receipt.batchId ≠ some saved.batchId := by
      intro hbatch
      exact hsent ⟨by simp [hsaved], hbatch⟩
    unfold tableGeneration at hvalue
    rw [if_neg hother] at hvalue
    subst hvalue
    exact htables table hsome
  · intro later laterState removed key entry hentry
    have hasked := @entry_snapshotForSync opts laterState later key entry hentry
    unfold recordsToRestore
    dsimp only
    split
    · exact hasked
    · exact hasked
  · intro outcomes workspaceKey databaseDrafts s key
    exact (onward_recover outcomes workspaceKey databaseDrafts s).merged key

theorem resumed_rejection_keeps_newer_package :
    let sentPackage : Record := .ofList [("id", .str "g1"), ("tenGoiThau", .str "A")]
    let newPackage : Record := .ofList [("id", .str "g2"), ("tenGoiThau", .str "B")]
    let commands := [Command.upsert "goithau" [sentPackage] [], .upsert "goithau" [newPackage] []]
    let saved : Receipt :=
      { Outbox.createReceipt (newOutbox plainOptions) with
        upserts := .ofList [("goithau", .ofList [("g1", 7)])]
        recordSnapshotUpserts := .ofList [("goithau", .ofList [("g1", sentPackage)])] }
    let errors : List Outbox.SyncError := [⟨"", "", "INVALID", ""⟩]
    let o := run plainOptions (newOutbox plainOptions) commands
    let resumed := (Outbox.resumeRejection plainOptions .empty saved errors o).1
    resumed.entry ⟨.upsert, "goithau", "g1"⟩ = none ∧
      Outbox.AsSent saved (Outbox.currentReceipt plainOptions .empty o) ⟨.upsert, "goithau", "g1"⟩ (.record sentPackage) ∧
      resumed.entry ⟨.upsert, "goithau", "g2"⟩ = some (.record newPackage) := by
  intro sentPackage newPackage commands saved errors o resumed
  obtain ⟨hentries, -⟩ := resumed_rejection_keeps_newer plainOptions commands .empty saved errors
  have hgone : resumed.entry ⟨.upsert, "goithau", "g1"⟩ = none := by decide +kernel
  have hkept : resumed.entry ⟨.upsert, "goithau", "g2"⟩ = some (.record newPackage) := by decide +kernel
  have hqueued : o.entry ⟨.upsert, "goithau", "g1"⟩ = some (.record sentPackage) := by decide +kernel
  rcases hentries _ _ hqueued with hsame | ⟨-, -, has⟩
  · rw [show (Outbox.resumeRejection plainOptions .empty saved errors o).1.entry ⟨.upsert, "goithau", "g1"⟩ = none from hgone]
      at hsame
    cases hsame
  · exact ⟨hgone, has, hkept⟩

end Bidding
