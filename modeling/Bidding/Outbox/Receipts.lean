import Bidding.Outbox.Evolution

/-!
# Receipts

What a receipt remembers are the generations of the moment it was made, and acknowledging
it a second time does nothing at all: not even an empty table is cleaned up again.
-/

namespace Bidding

open Foundations

namespace Outbox

variable {opts : OutboxOptions} {generation : ℕ} {o : Outbox} {key : RecordKey} {receipt : Receipt} {part : RecordMap}

theorem stamp_of_receiptGenerations (part : RecordMap) (o : Outbox) {table id : String}
    (h : (receiptGenerations part o).get₂ table id = some generation) :
    o.stamp ⟨part.operation, table, id⟩ = some generation := by
  refine foldl_inv _ (fun d : Dict String (Dict String ℕ) => ∀ t i g,
      d.get₂ t i = some g → o.stamp ⟨part.operation, t, i⟩ = some g)
    (o.queue.records part).entries₂ (fun d entry _ hd t i g hg => ?_) (fun t i g hg => by simp at hg) table id generation h
  cases hs : o.recordGenerations.get? ⟨part.operation, entry.1, entry.2.1⟩ with
  | none => simp only [hs] at hg; exact hd t i g hg
  | some g' =>
    simp only [hs, Dict.get₂_set₂] at hg
    split at hg
    · rename_i hk
      rw [hk.1, hk.2]
      exact hs.trans hg
    · exact hd t i g hg

theorem stamp_of_receiptDeletes (o : Outbox) {key : TableKey}
    (h : (createReceipt o).deletes.get? key = some generation) : o.stamp ⟨.delete, key.1, key.2⟩ = some generation := by
  refine foldl_inv _ (fun d : Dict TableKey ℕ => ∀ k g, d.get? k = some g → o.stamp ⟨.delete, k.1, k.2⟩ = some g)
    o.queue.deletes (fun d item _ hd k g hg => ?_) (fun k g hg => by simp at hg) key generation h
  cases hs : o.recordGenerations.get? ⟨.delete, item.table, item.id⟩ with
  | none => simp only [hs] at hg; exact hd k g hg
  | some g' =>
    simp only [hs, Dict.get?_set] at hg
    split at hg
    · rename_i hk
      rw [hk]
      exact hs.trans hg
    · exact hd k g hg

theorem stamp_of_createReceipt (h : (createReceipt o).Names key generation) : o.stamp key = some generation := by
  obtain ⟨op, t, i⟩ := key
  cases op with
  | upsert => exact stamp_of_receiptGenerations .upserts o h
  | patch => exact stamp_of_receiptGenerations .patches o h
  | delete => exact stamp_of_receiptDeletes o h

theorem names_of_filterReceipt {sent : SentOperations} (h : (filterReceiptBySentOperations receipt sent).Names key generation) :
    receipt.Names key generation := by
  obtain ⟨op, t, i⟩ := key
  cases op with
  | upsert =>
    simp only [Receipt.Names, filterReceiptBySentOperations, Dict.get₂_filter₂] at h
    split at h
    · exact h
    · cases h
  | patch =>
    simp only [Receipt.Names, filterReceiptBySentOperations, Dict.get₂_filter₂] at h
    split at h
    · exact h
    · cases h
  | delete =>
    simp only [Receipt.Names, filterReceiptBySentOperations, Dict.get?_filterKeys] at h
    split at h
    · exact h
    · cases h

theorem stamp_of_snapshot {state : WorkspaceState} {payload : Payload}
    (hsent : (snapshotForSync opts state o).2 = some (payload, receipt)) (h : receipt.Names key generation) :
    (snapshotForSync opts state o).1.stamp key = some generation := by
  unfold snapshotForSync at hsent ⊢
  cases hc : mutationQueueHasChanges o.queue with
  | false => simp [hc] at hsent
  | true =>
    simp only [hc, if_true] at hsent ⊢
    unfold buildMutationPayload at hsent
    simp only at hsent
    split at hsent
    · cases hsent
    · simp only [Option.some.injEq, Prod.mk.injEq] at hsent
      rw [← hsent.2] at h
      exact stamp_of_createReceipt (names_of_filterReceipt h)

/-! ## Acknowledging twice -/

/-- No empty inner table is left under `table`. -/
def CleanTable (part : RecordMap) (table : String) (o : Outbox) : Prop :=
  ∀ records, (o.queue.records part).get? table = some records → records.isEmpty = false

/-- Nothing a receipt remembers is current, and the tables it names are cleaned up. -/
structure Settled (receipt : Receipt) (o : Outbox) : Prop where
  stamps : ∀ key generation, receipt.Names key generation → o.stamp key ≠ some generation
  tables : ∀ entry ∈ receipt.dirtyTables.entries, o.tableGenerations.get? entry.1 ≠ some entry.2
  upserts : ∀ entry ∈ receipt.upserts.entries, CleanTable .upserts entry.1 o
  patches : ∀ entry ∈ receipt.patches.entries, CleanTable .patches entry.1 o

theorem dropEmptyTable_eq_self {table : String} (h : CleanTable part table o) : dropEmptyTable part table o = o := by
  unfold dropEmptyTable MutationQueue.mapRecords
  cases part with
  | upserts => simp only [Dict.dropIfEmpty_eq_self o.queue.upserts h]
  | patches => simp only [Dict.dropIfEmpty_eq_self o.queue.patches h]

theorem ackRecords_eq_self (part : RecordMap) {sent : Dict String (Dict String ℕ)}
    (hstamps : ∀ t i g, sent.get₂ t i = some g → o.stamp ⟨part.operation, t, i⟩ ≠ some g)
    (hclean : ∀ entry ∈ sent.entries, CleanTable part entry.1 o) (changed : Bool) :
    ackRecords part sent (o, changed) = (o, changed) := by
  refine foldl_eq_self _ _ _ fun entry he => ?_
  have hinner : entry.2.entries.foldl (ackRecord part entry.1) (o, changed) = (o, changed) := by
    refine foldl_eq_self _ _ _ fun item hi => ?_
    have hg : sent.get₂ entry.1 item.1 = some item.2 := by
      simp only [Dict.get₂, (Dict.mem_entries_iff sent entry.1 entry.2).mp he, Option.bind_some]
      exact (Dict.mem_entries_iff _ _ _).mp hi
    exact if_pos (hstamps entry.1 item.1 item.2 hg)
  simp only [hinner, dropEmptyTable_eq_self (hclean entry he)]

theorem ack_of_settled (h : Settled receipt o) : ack opts receipt o = (o, false) := by
  have hu := ackRecords_eq_self .upserts (fun t i g hg => h.stamps ⟨.upsert, t, i⟩ g hg) h.upserts false
  have hp := ackRecords_eq_self .patches (fun t i g hg => h.stamps ⟨.patch, t, i⟩ g hg) h.patches false
  have ht : receipt.dirtyTables.entries.foldl ackTable (o, false) = (o, false) :=
    foldl_eq_self _ _ _ fun entry he => if_pos (h.tables entry he)
  have hd : receipt.deletes.entries.foldl ackDelete (o, false) = (o, false) :=
    foldl_eq_self _ _ _ fun entry he =>
      if_pos (h.stamps ⟨.delete, entry.1.1, entry.1.2⟩ entry.2 ((Dict.mem_entries_iff ..).mp he))
  have hreceipt : ackReceipt receipt o = (o, false) := by simp only [ackReceipt, hu, hp, ht, hd]
  simp [ack, hreceipt, settle]

theorem records_ackRecord_of_ne {part part' : RecordMap} (h : part ≠ part') (table : String)
    (acc : Outbox × Bool) (sent : String × ℕ) :
    (ackRecord part table acc sent).1.queue.records part' = acc.1.queue.records part' := by
  unfold ackRecord releaseBaseSnapshot
  simp only
  split
  · rfl
  · split <;> cases part <;> cases part' <;> first | rfl | exact absurd rfl h

theorem records_releaseBaseSnapshot (table id : String) (o : Outbox) (part : RecordMap) :
    (releaseBaseSnapshot table id o).queue.records part = o.queue.records part := by
  unfold releaseBaseSnapshot
  split
  · rfl
  · cases part <;> rfl

variable (acc : Outbox × Bool)

variable (sent : String × ℕ)

theorem get?_records_ackRecord {table table' : String}
    (h : table' ≠ table) : ((ackRecord part table acc sent).1.queue.records part).get? table' =
      (acc.1.queue.records part).get? table' := by
  unfold ackRecord
  simp only
  split
  · rfl
  · rw [records_releaseBaseSnapshot]
    cases part <;> exact Dict.get?_erase₂_of_ne _ _ h

theorem cleanTable_ackRecords (part : RecordMap) (sent : Dict String (Dict String ℕ)) (acc : Outbox × Bool) :
    ∀ entry ∈ sent.entries, CleanTable part entry.1 (ackRecords part sent acc).1 := by
  have hdrop : ∀ (o : Outbox) (table table' : String), CleanTable part table' o ∨ table' = table →
      CleanTable part table' (dropEmptyTable part table o) := by
    intro o table table' hor records hrecords
    have hget : ((dropEmptyTable part table o).queue.records part).get? table' =
        if table' = table then ((o.queue.records part).get? table).filter fun r => !r.isEmpty
        else (o.queue.records part).get? table' := by
      cases part <;> exact Dict.get?_dropIfEmpty _ _ _
    rw [hget] at hrecords
    split at hrecords
    · have := (Option.filter_eq_some_iff.mp hrecords).2
      simpa using this
    · rename_i hne
      rcases hor with hclean | heq
      · exact hclean records hrecords
      · exact absurd heq hne
  have hrecord : ∀ (l : List (String × ℕ)) (table table' : String) (acc : Outbox × Bool),
      table' ≠ table → CleanTable part table' acc.1 → CleanTable part table' (l.foldl (ackRecord part table) acc).1 := by
    intro l table table' acc hne hclean
    have hsame := foldl_rel (ackRecord part table) (fun a b : Outbox × Bool =>
      (b.1.queue.records part).get? table' = (a.1.queue.records part).get? table')
      (fun _ => rfl) (fun _ _ _ h h' => h'.trans h) l
      (fun acc sent _ => get?_records_ackRecord acc sent hne) acc
    exact fun records hrecords => hclean records (hsame ▸ hrecords)
  have hlist : ∀ (l : List (String × Dict String ℕ)) (acc : Outbox × Bool) (table : String),
      (CleanTable part table acc.1 ∨ ∃ entry ∈ l, entry.1 = table) → CleanTable part table (l.foldl (fun acc entry =>
        (dropEmptyTable part entry.1 (entry.2.entries.foldl (ackRecord part entry.1) acc).1,
          (entry.2.entries.foldl (ackRecord part entry.1) acc).2)) acc).1 := by
    intro l
    induction l with
    | nil =>
      rintro acc table (h | ⟨_, h, _⟩)
      · exact h
      · cases h
    | cons entry l ih =>
      intro acc table h
      refine ih _ table ?_
      by_cases ht : table = entry.1
      · exact .inl (hdrop _ _ _ (.inr ht))
      rcases h with h | ⟨e, he, rfl⟩
      · exact .inl (hdrop _ _ _ (.inl (hrecord _ _ _ acc ht h)))
      · rcases List.mem_cons.mp he with rfl | he
        · exact absurd rfl ht
        · exact .inr ⟨e, he, rfl⟩
  exact fun entry he => hlist sent.entries acc entry.1 (.inr ⟨entry, he, rfl⟩)

theorem records_ackTable (part : RecordMap) : (ackTable acc sent).1.queue.records part = acc.1.queue.records part := by
  unfold ackTable
  simp only
  split
  · rfl
  · cases part <;> rfl

theorem ackDelete_keeps (sent : TableKey × ℕ) : (∀ part, (ackDelete acc sent).1.queue.records part = acc.1.queue.records part) ∧
    (ackDelete acc sent).1.tableGenerations = acc.1.tableGenerations := by
  unfold ackDelete
  simp only
  split
  · exact ⟨fun _ => rfl, rfl⟩
  refine ⟨fun part => ?_, ?_⟩
  · rw [records_releaseBaseSnapshot]
    cases part <;> rfl
  · unfold releaseBaseSnapshot
    split <;> rfl

theorem tables_ackTable (l : List (String × ℕ)) (acc : Outbox × Bool) :
    ∀ entry ∈ l, (l.foldl ackTable acc).1.tableGenerations.get? entry.1 ≠ some entry.2 := by
  have hmono : ∀ (l : List (String × ℕ)) (acc : Outbox × Bool) (table : String) (g : ℕ),
      acc.1.tableGenerations.get? table ≠ some g → (l.foldl ackTable acc).1.tableGenerations.get? table ≠ some g := by
    intro l
    induction l with
    | nil => exact fun _ _ _ h => h
    | cons sent l ih =>
      intro acc table g h
      refine ih _ table g ?_
      rcases (tableGenerations_ackTable acc sent table).1 with hs | hs
      · rwa [hs]
      · rw [hs]; simp
  induction l generalizing acc with
  | nil => exact fun _ h => by cases h
  | cons sent l ih =>
    intro entry he
    rcases List.mem_cons.mp he with rfl | he
    · exact hmono l _ _ _ (tableGenerations_ackTable acc entry entry.1).2
    · exact ih _ entry he

theorem records_ackReceipt (receipt : Receipt) (o : Outbox) (part : RecordMap) :
    (ackReceipt receipt o).1.queue.records part = (ackRecords .patches receipt.patches
      (ackRecords .upserts receipt.upserts (o, false))).1.queue.records part := by
  have htables := foldl_rel ackTable (fun a b : Outbox × Bool => b.1.queue.records part = a.1.queue.records part) (fun _ => rfl)
    (fun _ _ _ h h' => h'.trans h) receipt.dirtyTables.entries (fun acc sent _ => records_ackTable acc sent part)
  have hdeletes := foldl_rel ackDelete
    (fun a b : Outbox × Bool => b.1.queue.records part = a.1.queue.records part) (fun _ => rfl)
    (fun _ _ _ h h' => h'.trans h) receipt.deletes.entries (fun acc sent _ => (ackDelete_keeps acc sent).1 part)
  exact (hdeletes _).trans (htables _)

theorem settled_ackReceipt (receipt : Receipt) (o : Outbox) : Settled receipt (ackReceipt receipt o).1 where
  stamps key g hR := by
    have h := settles_ackReceipt receipt o
    by_cases hk : ∃ g', receipt.Names key g' ∧ o.stamp key = some g'
    · obtain ⟨g', hR', hs⟩ := hk
      have : (ackReceipt receipt o).1.stamp key = none := (h.gone key g' hR' hs).1
      rw [this]
      simp
    · have hne : ∀ g', receipt.Names key g' → o.stamp key ≠ some g' :=
        fun g' hR' hs => hk ⟨g', hR', hs⟩
      have : (ackReceipt receipt o).1.stamp key = o.stamp key := (h.kept key hne).1
      rw [this]
      exact hne g hR
  tables entry he := by
    have hd := foldl_rel ackDelete (fun a b : Outbox × Bool => b.1.tableGenerations = a.1.tableGenerations) (fun _ => rfl)
      (fun _ _ _ h h' => h'.trans h) receipt.deletes.entries (fun acc sent _ => (ackDelete_keeps acc sent).2)
    rw [ackReceipt, hd]
    exact tables_ackTable _ _ entry he
  upserts entry he := by
    have hp : ∀ acc, (ackRecords .patches receipt.patches acc).1.queue.records .upserts = acc.1.queue.records .upserts := by
      refine fun acc => foldl_rel _ (fun a b : Outbox × Bool => b.1.queue.records .upserts = a.1.queue.records .upserts)
        (fun _ => rfl) (fun _ _ _ h h' => h'.trans h) _ (fun acc entry _ => ?_) acc
      exact foldl_rel (ackRecord .patches entry.1)
        (fun a b : Outbox × Bool => b.1.queue.records .upserts = a.1.queue.records .upserts)
        (fun _ => rfl) (fun _ _ _ h h' => h'.trans h) _
        (fun acc sent _ => records_ackRecord_of_ne (by simp) entry.1 acc sent) acc
    have hclean := cleanTable_ackRecords .upserts receipt.upserts (o, false) entry he
    intro records hrecords
    refine hclean records ?_
    rwa [← hp, ← records_ackReceipt]
  patches entry he := by
    have hclean := cleanTable_ackRecords .patches receipt.patches (ackRecords .upserts receipt.upserts (o, false)) entry he
    intro records hrecords
    refine hclean records ?_
    rwa [← records_ackReceipt]

end Outbox

end Bidding
