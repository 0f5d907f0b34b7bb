import Bidding.Outbox.Effects

/-!
# Every command advances the stamped store

The enqueue commands and the parent repair are stamped writes, the acknowledgement settles the generations a receipt
remembers, and the rejection, the discarding and the persisting only shed (`evolves_step`). `step_inv` is the rule behind it.
-/

namespace Bidding

open Foundations

namespace Outbox

variable {opts : OutboxOptions} {α : Type}

/-- Every table keeps its generation or loses it. -/
def TablesKept (o o' : Outbox) : Prop :=
  ∀ table, o'.tableGenerations.get? table = o.tableGenerations.get? table ∨ o'.tableGenerations.get? table = none

theorem TablesKept.refl (o : Outbox) : TablesKept o o := fun _ => .inl rfl

theorem TablesKept.trans {o₁ o₂ o₃ : Outbox} (h : TablesKept o₁ o₂) (h' : TablesKept o₂ o₃) : TablesKept o₁ o₃ := by
  intro table
  rcases h' table with hsame | hnone
  · rw [hsame]
    exact h table
  · exact .inr hnone

theorem TablesKept.of_same {o o' : Outbox} (h : o'.tableGenerations = o.tableGenerations) : TablesKept o o' :=
  fun _ => .inl (by rw [h])

theorem tablesKept_foldl {σ α : Type} (view : σ → Outbox) (f : σ → α → σ) (hf : ∀ s a, TablesKept (view s) (view (f s a)))
    (l : List α) (s : σ) : TablesKept (view s) (view (l.foldl f s)) :=
  foldl_rel f (fun s s' => TablesKept (view s) (view s')) (fun s => .refl (view s)) (fun _ _ _ => TablesKept.trans) l
    (fun s a _ => hf s a) s

theorem tablesKept_clear (o : Outbox) : TablesKept o (clear opts o) := fun _ => .inr rfl

theorem tablesKept_persist (o : Outbox) : TablesKept o (persist opts o) := by
  unfold persist
  split
  · exact .of_same rfl
  · exact tablesKept_clear o

theorem tablesKept_touch_persist (o : Outbox) : TablesKept o (persist opts (touchForNewPayload opts o)) :=
  TablesKept.trans (.of_same rfl) (tablesKept_persist _)

/-! ## The enqueue commands -/

def recordIds (records : List Record) : List String := (records.filter hasRecordId).map recordId

variable (f : Outbox → α → Outbox)

theorem evolves_foldl (hf : ∀ o a, Evolves o (f o a)) (l : List α) (o : Outbox) : Evolves o (l.foldl f o) :=
  foldl_rel f Evolves .refl (fun _ _ _ => Evolves.trans) l (fun o a _ => hf o a) o

theorem sameAt_foldl (key : RecordKey) (l : List α)
    (hf : ∀ o, ∀ a ∈ l, SameAt o (f o a) key) (o : Outbox) : SameAt o (l.foldl f o) key :=
  foldl_rel f (SameAt · · key) (fun o => .refl o key) (fun _ _ _ => SameAt.trans) l hf o

theorem sameAt_foldl_records {f : Outbox → Record → Outbox} {table : String} {key : RecordKey}
    {records : List Record}
    (hf : ∀ o record, ¬key.isOf table (recordId record) → SameAt o (f o record) key)
    (hkey : ¬(key.table = table ∧ key.id ∈ recordIds records)) (o : Outbox) :
    SameAt o ((records.filter hasRecordId).foldl f o) key :=
  sameAt_foldl f key _ (fun o record hr => hf o record fun hk => hkey ⟨hk.1, List.mem_map.mpr ⟨record, hr, hk.2.symm⟩⟩) o

variable (table : String)

variable (records bases : List Record)

variable (o : Outbox)

theorem sheds_filterDeletions (keeps : String → String → Bool) (o : Outbox) : o.view.Sheds (filterDeletions keeps o).view where
  clock_eq := rfl
  key key := by
    by_cases h : key.operation = .delete ∧ keeps key.table key.id = false
    · exact .inr ⟨(entry_filterDeletions keeps o key).trans (if_pos h), .inl rfl⟩
    · exact .inl ⟨rfl, (entry_filterDeletions keeps o key).trans (if_neg h)⟩

theorem entry_emptyTable (key : RecordKey) : (emptyTable table o).entry key =
    if key.table = table ∧ key.operation ≠ .delete then none else o.entry key := by
  obtain ⟨op, t, i⟩ := key
  cases op with
  | upsert =>
    simp only [entry, MutationQueue.entry, emptyTable, Dict.get₂_set]
    by_cases h : t = table <;> simp [h]
  | patch =>
    simp only [entry, MutationQueue.entry, emptyTable, Dict.get₂_erase]
    by_cases h : t = table <;> simp [h]
  | delete => simp [entry, MutationQueue.entry, emptyTable]

theorem sheds_emptyTable : o.view.Sheds (emptyTable table o).view where
  clock_eq := rfl
  key key := by
    by_cases h : key.table = table ∧ key.operation ≠ .delete
    · exact .inr ⟨(entry_emptyTable table o key).trans (if_pos h), .inl rfl⟩
    · exact .inl ⟨rfl, (entry_emptyTable table o key).trans (if_neg h)⟩

theorem evolves_replaceTable : Evolves o (replaceTable opts table records bases o).1 := by
  unfold replaceTable
  simp only
  split
  · exact .refl o
  · have hempty := (@sheds_capture opts table bases o).trans (sheds_emptyTable table _)
    have hwritten := (Evolves.of_sheds hempty).trans (evolves_foldl _ (@evolves_replaceRecord opts table) (records.filter hasRecordId) _)
    exact (hwritten.trans (.of_sheds (sheds_filterDeletions _ _))).trans (.of_sheds (sheds_touch _))

theorem sheds_acknowledgeServerDeletion (acc : Outbox × Bool) (key : TableKey)
    (hkey : acc.1.entry ⟨.delete, key.1, key.2⟩ = none) : acc.1.view.Sheds (acknowledgeServerDeletion acc key).1.view := by
  have hforget : acc.1.view.Sheds (forget ⟨.delete, key.1, key.2⟩ acc.1).view := by
    refine ⟨rfl, fun k => ?_⟩
    by_cases hk : k = ⟨.delete, key.1, key.2⟩
    · exact .inr ⟨hk ▸ hkey, .inr ((stamp_forget ..).trans (if_pos hk))⟩
    · exact .inl ⟨(stamp_forget ..).trans (if_neg hk), rfl⟩
  unfold acknowledgeServerDeletion
  simp only
  split
  · refine hforget.trans ⟨rfl, fun k => ?_⟩
    have he := entry_eraseRecord .patches key.1 key.2 (forget ⟨.delete, key.1, key.2⟩ acc.1) k
    by_cases hk : k = ⟨.patch, key.1, key.2⟩
    · exact .inr ⟨(entry_dropEmptyTable ..).trans (he.trans (if_pos hk)), .inr ((stamp_forget ..).trans (if_pos hk))⟩
    · exact .inl ⟨(stamp_forget ..).trans (if_neg hk), (entry_dropEmptyTable ..).trans (he.trans (if_neg hk))⟩
  · exact hforget

theorem sheds_acknowledgeServerDeletions (deletions : List TableKey) (o : Outbox) :
    o.view.Sheds (acknowledgeServerDeletions opts deletions o).1.view := by
  unfold acknowledgeServerDeletions
  simp only
  split
  · exact .refl _
  generalize hacked : deletions.filter (fun key => key.1 ≠ "" && key.2 ≠ "") = acked
  have hfilter := sheds_filterDeletions (fun t i => (t, i) ∉ acked) o
  have hnone : ∀ key ∈ acked, (filterDeletions (fun t i => (t, i) ∉ acked) o).entry ⟨.delete, key.1, key.2⟩ = none := by
    intro key hkey
    rw [entry_filterDeletions, if_pos ⟨rfl, by simpa using hkey⟩]
  have hfold : ∀ (l : List TableKey), (∀ key ∈ l, key ∈ acked) → ∀ acc : Outbox × Bool,
      (∀ key ∈ acked, acc.1.entry ⟨.delete, key.1, key.2⟩ = none) →
      acc.1.view.Sheds (l.foldl acknowledgeServerDeletion acc).1.view := by
    intro l
    induction l with
    | nil => exact fun _ acc _ => .refl _
    | cons key l ih =>
      intro hl acc hacc
      have hstep := sheds_acknowledgeServerDeletion acc key (hacc key (hl key List.mem_cons_self))
      refine hstep.trans (ih (fun k hk => hl k (List.mem_cons_of_mem _ hk)) _ fun k hk => ?_)
      rcases hstep.key ⟨.delete, k.1, k.2⟩ with ⟨-, he⟩ | ⟨he, -⟩
      · exact he.trans (hacc k hk)
      · exact he
  have hall := hfilter.trans (hfold acked (fun _ h => h) (filterDeletions (fun t i => (t, i) ∉ acked) o, false) hnone)
  split
  · exact hall.trans (sheds_touch _)
  · exact hall

theorem sheds_rebase (syncVersion : String) (o : Outbox) : o.view.Sheds (rebase opts syncVersion o).1.view := by
  unfold rebase
  split
  · exact .refl _
  · exact sheds_of_same rfl fun _ => ⟨rfl, rfl⟩

theorem evolves_bumpRecord (key : RecordKey) {o o' : Outbox} (hgen : o'.generation = o.generation)
    (hother : ∀ k, k ≠ key → SameAt o o' k) : Evolves o (bumpRecord key o') := by
  intro hb
  refine .of_write (k := key) hb (congrArg (· + 1) hgen) ?_ fun k hne => ?_
  · exact (stamp_bumpRecord ..).trans (by rw [if_pos rfl, hgen]; rfl)
  · exact .inr ⟨(stamp_bumpRecord ..).trans (by rw [if_neg hne]; exact (hother k hne).1), .inl (hother k hne).2⟩

theorem evolves_setRecord_bump (part : RecordMap) (table id : String) (record : Record) (o : Outbox) :
    Evolves o (bumpRecord ⟨part.operation, table, id⟩ (setRecord part table id record o)) :=
  evolves_bumpRecord _ rfl fun _ hne => ⟨rfl, (entry_setRecord ..).trans (if_neg hne)⟩

variable (state : WorkspaceState)

theorem repairParent_cases (acc : Outbox × Bool) (parent : TableKey) : repairParent opts state acc parent = acc ∨
    ∃ record, parent.2 ≠ "" ∧ unsyncedParent state parent = some record ∧
      acc.1.entry ⟨.upsert, parent.1, parent.2⟩ = none ∧
      repairParent opts state acc parent = (bumpRecord ⟨.upsert, parent.1, parent.2⟩
          (setRecord .upserts parent.1 parent.2 (opts.normalizeRecord record parent.1) acc.1), true) := by
  unfold repairParent
  split
  · exact .inl rfl
  rename_i hguard
  cases hparent : unsyncedParent state parent with
  | none => exact .inl rfl
  | some record =>
    simp only [Bool.or_eq_true, decide_eq_true_eq, not_or, Bool.not_eq_true, Option.isSome_eq_false_iff,
      Option.isNone_iff_eq_none] at hguard
    exact .inr ⟨record, hguard.1.2, rfl, by simp [entry, MutationQueue.entry, hguard.2], rfl⟩

theorem repairLoop_rel (R : Outbox → Outbox → Prop) (hrefl : ∀ o, R o o) (htrans : ∀ o₁ o₂ o₃, R o₁ o₂ → R o₂ o₃ → R o₁ o₃)
    (hadd : ∀ o parent record, unsyncedParent state parent = some record →
      o.entry ⟨.upsert, parent.1, parent.2⟩ = none → R o (bumpRecord ⟨.upsert, parent.1, parent.2⟩
        (setRecord .upserts parent.1 parent.2 (opts.normalizeRecord record parent.1) o)))
    (fuel : ℕ) (o : Outbox) : R o (saturate (repairPass opts state) fuel o) := by
  have hparent : ∀ acc parent, R acc.1 (repairParent opts state acc parent).1 := by
    intro acc parent
    rcases @repairParent_cases opts state acc parent with h | ⟨record, -, hr, hn, h⟩
    · rw [h]; exact hrefl _
    · rw [h]; exact hadd acc.1 parent record hr hn
  have hloop : ∀ {α : Type} (f : Outbox × Bool → α → Outbox × Bool) (l : List α),
      (∀ acc, ∀ a ∈ l, R acc.1 (f acc a).1) → ∀ acc, R acc.1 (l.foldl f acc).1 := by
    intro α f l hf acc
    exact foldl_rel f (fun a b => R a.1 b.1) (fun a => hrefl a.1) (fun a b c => htrans a.1 b.1 c.1) l hf acc
  refine saturate_rel _ R hrefl htrans (fun o => ?_) fuel o
  unfold repairPass
  exact hloop _ _ (fun acc table _ => hloop _ _ (fun acc record _ =>
    hloop _ _ (fun acc parent _ => hparent acc parent) acc) acc) (o, false)

theorem evolves_repair (o : Outbox) : Evolves o (repairUnsyncedParentDependencies opts state o) := by
  unfold repairUnsyncedParentDependencies
  split
  · exact (repairLoop_rel state Evolves .refl (fun _ _ _ => Evolves.trans)
      (fun o parent record _ _ => evolves_setRecord_bump .upserts _ _ _ o) _ o).trans (.of_sheds (sheds_touch_persist _))
  · exact .refl o

theorem evolves_snapshotForSync (o : Outbox) : Evolves o (snapshotForSync opts state o).1 := by
  unfold snapshotForSync
  split
  · exact evolves_repair state o
  · exact .refl o

/-! ## Acknowledgement -/

end Outbox

/-- The generation a receipt remembers for a record key. -/
def Receipt.Names (receipt : Receipt) (key : RecordKey) (generation : ℕ) : Prop :=
  match key.operation with
  | .upsert => receipt.upserts.get₂ key.table key.id = some generation
  | .patch => receipt.patches.get₂ key.table key.id = some generation
  | .delete => receipt.deletes.get? (key.table, key.id) = some generation

namespace Outbox

variable {opts : OutboxOptions}

def namesRecords (part : RecordMap) (sent : Dict String (Dict String ℕ)) (key : RecordKey) (generation : ℕ) : Prop :=
  key.operation = part.operation ∧ sent.get₂ key.table key.id = some generation

theorem settles_ackRecord (part : RecordMap) (table : String) (acc : Outbox × Bool) (sent : String × ℕ) :
    acc.1.view.Settles (fun key g => key = ⟨part.operation, table, sent.1⟩ ∧ g = sent.2)
      (ackRecord part table acc sent).1.view := by
  unfold ackRecord
  simp only
  split
  · rename_i h
    exact ⟨rfl, fun key g hk hs => absurd (hk.1 ▸ hk.2 ▸ hs) h, fun _ _ => ⟨rfl, rfl⟩⟩
  · rename_i h
    exact .single (generation_releaseBaseSnapshot ..)
      (fun _ => (stamp_releaseBaseSnapshot ..).trans (stamp_forget ..))
      (fun _ => (entry_releaseBaseSnapshot ..).trans (entry_eraseRecord ..)) (not_not.mp h)

theorem settles_ackRecords (part : RecordMap) (sent : Dict String (Dict String ℕ)) (acc : Outbox × Bool) :
    acc.1.view.Settles (namesRecords part sent) (ackRecords part sent acc).1.view := by
  have htable : ∀ (acc : Outbox × Bool) (entry : String × Dict String ℕ), acc.1.view.Settles
        (fun key g => ∃ item ∈ entry.2.entries, key = ⟨part.operation, entry.1, item.1⟩ ∧ g = item.2)
        (dropEmptyTable part entry.1 (entry.2.entries.foldl (ackRecord part entry.1) acc).1).view := by
    intro acc entry
    have h := Stamped.Settles.foldl (fun acc : Outbox × Bool => acc.1.view) (ackRecord part entry.1)
      _ (fun acc item => settles_ackRecord part entry.1 acc item) entry.2.entries acc
    exact ⟨h.clock_eq, fun key g hR hs => ⟨(h.gone key g hR hs).1, (entry_dropEmptyTable ..).trans (h.gone key g hR hs).2⟩,
      fun key hR => ⟨(h.kept key hR).1, (entry_dropEmptyTable ..).trans (h.kept key hR).2⟩⟩
  have h := Stamped.Settles.foldl (fun acc : Outbox × Bool => acc.1.view)
    (fun acc entry => (dropEmptyTable part entry.1 (entry.2.entries.foldl (ackRecord part entry.1) acc).1,
      (entry.2.entries.foldl (ackRecord part entry.1) acc).2))
    _ htable sent.entries acc
  refine h.congr fun key g => ?_
  unfold namesRecords
  constructor
  · rintro ⟨⟨t, recs⟩, ht, ⟨i, g'⟩, hi, rfl, rfl⟩
    refine ⟨rfl, ?_⟩
    simp only [Dict.get₂, (Dict.mem_entries_iff sent t recs).mp ht, Option.bind_some]
    exact (Dict.mem_entries_iff recs i g).mp hi
  · rintro ⟨hop, hg⟩
    obtain ⟨recs, hr, hi⟩ := Option.bind_eq_some_iff.mp hg
    exact ⟨(key.table, recs), (Dict.mem_entries_iff ..).mpr hr, (key.id, g),
      (Dict.mem_entries_iff ..).mpr hi, by rw [← hop], rfl⟩

variable (acc : Outbox × Bool)

theorem settles_ackTable (sent : String × ℕ) : acc.1.view.Settles (fun _ _ => False) (ackTable acc sent).1.view := by
  unfold ackTable
  simp only
  split
  · exact .none _
  · exact ⟨rfl, fun _ _ h => h.elim, fun _ _ => ⟨rfl, rfl⟩⟩

theorem settles_ackDelete (sent : TableKey × ℕ) :
    acc.1.view.Settles (fun key g => key = ⟨.delete, sent.1.1, sent.1.2⟩ ∧ g = sent.2) (ackDelete acc sent).1.view := by
  unfold ackDelete
  simp only
  split
  · rename_i h
    exact ⟨rfl, fun key g hk hs => absurd (hk.1 ▸ hk.2 ▸ hs) h, fun _ _ => ⟨rfl, rfl⟩⟩
  · rename_i h
    exact .single (generation_releaseBaseSnapshot ..)
      (fun _ => (stamp_releaseBaseSnapshot ..).trans (stamp_forget ..))
      (fun _ => (entry_releaseBaseSnapshot ..).trans (entry_dropDeletion ..)) (not_not.mp h)

variable (receipt : Receipt) {key : RecordKey}

theorem settles_ackReceipt (o : Outbox) : o.view.Settles receipt.Names (ackReceipt receipt o).1.view := by
  have hu := settles_ackRecords .upserts receipt.upserts (o, false)
  have hp := settles_ackRecords .patches receipt.patches (ackRecords .upserts receipt.upserts (o, false))
  have ht := Stamped.Settles.foldl (fun acc : Outbox × Bool => acc.1.view) ackTable _ settles_ackTable
    receipt.dirtyTables.entries (ackRecords .patches receipt.patches (ackRecords .upserts receipt.upserts (o, false)))
  have hd := Stamped.Settles.foldl (fun acc : Outbox × Bool => acc.1.view) ackDelete _
    settles_ackDelete receipt.deletes.entries (receipt.dirtyTables.entries.foldl ackTable
      (ackRecords .patches receipt.patches (ackRecords .upserts receipt.upserts (o, false))))
  refine (((hu.trans hp).trans ht).trans hd).congr fun key g => ?_
  obtain ⟨op, t, i⟩ := key
  simp only [namesRecords, and_false, exists_false, or_false, Receipt.Names, Prod.exists, RecordKey.mk.injEq]
  cases op with
  | upsert => simp [RecordMap.operation]
  | patch => simp [RecordMap.operation]
  | delete =>
    simp only [RecordMap.operation, reduceCtorEq, false_and, or_self, true_and, false_or]
    constructor
    · rintro ⟨t', i', g', hmem, ⟨rfl, rfl⟩, rfl⟩
      exact (Dict.mem_entries_iff receipt.deletes (t, i) g).mp hmem
    · exact fun h => ⟨t, i, g, (Dict.mem_entries_iff ..).mpr h, ⟨rfl, rfl⟩, rfl⟩

@[simp] theorem entry_settle (key : RecordKey) : (settle opts acc).entry key = acc.1.entry key := by
  unfold settle
  cases acc.2 with
  | false => rfl
  | true =>
    simp only [if_true, entry_persist]
    split <;> rfl

theorem sheds_settle : acc.1.view.Sheds (settle opts acc).view := by
  unfold settle
  cases acc.2 with
  | false => exact .refl _
  | true =>
    simp only [if_true]
    refine Stamped.Sheds.trans ?_ (sheds_persist _)
    split
    · exact sheds_touch _
    · exact .refl _

theorem entry_ack_gone {receipt : Receipt} {o : Outbox} {generation : ℕ}
    (hn : receipt.Names key generation) (hs : o.stamp key = some generation) : (ack opts receipt o).1.entry key = none := by
  unfold ack
  cases h : mutationQueueHasChanges o.queue with
  | false => exact entry_of_not_hasChanges h key
  | true =>
    simp only [if_true, entry_settle]
    exact ((settles_ackReceipt receipt o).gone key generation hn hs).2

theorem entry_ack_kept {receipt : Receipt} {o : Outbox}
    (hne : ∀ generation, receipt.Names key generation → o.stamp key ≠ some generation) :
    (ack opts receipt o).1.entry key = o.entry key := by
  unfold ack
  cases h : mutationQueueHasChanges o.queue with
  | false => rfl
  | true =>
    simp only [if_true, entry_settle]
    exact ((settles_ackReceipt receipt o).kept key hne).2

theorem sheds_ack (o : Outbox) : o.view.Sheds (ack opts receipt o).1.view := by
  unfold ack
  split
  · exact (settles_ackReceipt receipt o).sheds.trans (sheds_settle _)
  · exact .refl _

theorem sheds_rejectRecord {part : RecordMap} {sent : Option ℕ} {key : TableKey} {o taken : Outbox}
    (h : rejectRecord part sent key o = some taken) : o.view.Sheds taken.view := by
  unfold rejectRecord at h
  simp only at h
  split at h
  · cases h
    refine ⟨rfl, fun k => ?_⟩
    have he := entry_eraseRecord part key.1 key.2 o k
    by_cases hk : k = ⟨part.operation, key.1, key.2⟩
    · exact .inr ⟨(entry_dropEmptyTable ..).trans (he.trans (if_pos hk)), .inr ((stamp_forget ..).trans (if_pos hk))⟩
    · exact .inl ⟨(stamp_forget ..).trans (if_neg hk), (entry_dropEmptyTable ..).trans (he.trans (if_neg hk))⟩
  · cases h

theorem sheds_rejectDelete (sent : Option ℕ) (key : TableKey) (o : Outbox) : o.view.Sheds (rejectDelete sent key o).1.view := by
  unfold rejectDelete
  simp only
  split
  · refine ⟨rfl, fun k => ?_⟩
    have he := entry_dropDeletion key.1 key.2 o k
    by_cases hk : k = ⟨.delete, key.1, key.2⟩
    · exact .inr ⟨he.trans (if_pos hk), .inr ((stamp_forget ..).trans (if_pos hk))⟩
    · exact .inl ⟨(stamp_forget ..).trans (if_neg hk), he.trans (if_neg hk)⟩
  · exact .refl _

theorem sheds_release (table id : String) (o : Outbox) : o.view.Sheds (releaseBaseSnapshot table id o).view :=
  sheds_of_same (generation_releaseBaseSnapshot ..) fun key =>
    ⟨stamp_releaseBaseSnapshot table id o key, entry_releaseBaseSnapshot table id o key⟩

theorem sheds_rejectKey (key : TableKey) (o : Outbox) : o.view.Sheds (rejectKey receipt key o).1.view := by
  unfold rejectKey
  split
  · exact .refl _
  split
  · rename_i taken h
    exact (sheds_rejectRecord h).trans (sheds_release ..)
  split
  · rename_i taken h
    exact (sheds_rejectRecord h).trans (sheds_release ..)
  · simp only
    split
    · exact (sheds_rejectDelete _ key o).trans (sheds_release ..)
    · exact sheds_rejectDelete _ key o

theorem sheds_rejectKeys (errors : List SyncError) (keys : List TableKey)
    (o : Outbox) : o.view.Sheds (rejectKeys opts receipt errors keys o).1.view := by
  unfold rejectKeys
  refine foldl_rel _ (fun a b : Outbox × List RejectedRecord => a.1.view.Sheds b.1.view)
    (fun _ => .refl _) (fun _ _ _ => Stamped.Sheds.trans) keys (fun acc key _ => ?_) (o, [])
  have h := sheds_rejectKey receipt key acc.1
  split
  · rename_i heq; rw [heq] at h; exact h
  · rename_i heq; rw [heq] at h; exact h

theorem sheds_reject (errors : List SyncError) (fallbackToBatch : Bool) (state : Option WorkspaceState) (o : Outbox) :
    o.view.Sheds (reject opts receipt errors fallbackToBatch state o).1.view := by
  unfold reject
  simp only
  refine Stamped.Sheds.trans ?_ (sheds_settle _)
  have hkeys := @sheds_rejectKeys opts receipt errors (rejectedKeys opts receipt errors fallbackToBatch state o).1 o
  split
  · refine hkeys.trans ?_
    exact (Stamped.Settles.foldl (fun acc : Outbox × Bool => acc.1.view) ackTable _
      settles_ackTable receipt.dirtyTables.entries (_, _)).sheds
  · exact hkeys

/-! ## The generations of the tables -/

theorem tableGenerations_ackTable (acc : Outbox × Bool) (sent : String × ℕ) (table : String) :
    ((ackTable acc sent).1.tableGenerations.get? table = acc.1.tableGenerations.get? table ∨
        (ackTable acc sent).1.tableGenerations.get? table = none) ∧
      (ackTable acc sent).1.tableGenerations.get? sent.1 ≠ some sent.2 := by
  unfold ackTable
  simp only
  split
  · rename_i h
    exact ⟨.inl rfl, h⟩
  · refine ⟨?_, by simp⟩
    simp only [Dict.get?_erase]
    split
    · exact .inr rfl
    · exact .inl rfl

theorem tablesKept_acknowledgeServerDeletion (acc : Outbox × Bool) (key : TableKey) : TablesKept acc.1 (acknowledgeServerDeletion acc key).1 := by
  unfold acknowledgeServerDeletion
  dsimp only
  split <;> exact .of_same rfl

theorem tablesKept_acknowledgeServerDeletions (deletions : List TableKey) (o : Outbox) :
    TablesKept o (acknowledgeServerDeletions opts deletions o).1 := by
  unfold acknowledgeServerDeletions
  dsimp only
  split
  · exact .refl o
  have hfold := @TablesKept.trans o _ _ (TablesKept.of_same rfl)
    (tablesKept_foldl Prod.fst acknowledgeServerDeletion tablesKept_acknowledgeServerDeletion
      (deletions.filter fun key => key.1 ≠ "" && key.2 ≠ "")
      (filterDeletions (fun t i => (t, i) ∉ deletions.filter fun key => key.1 ≠ "" && key.2 ≠ "") o, false))
  split
  · exact hfold.trans (.of_same rfl)
  · exact hfold

theorem tablesKept_rebase (syncVersion : String) (o : Outbox) : TablesKept o (rebase opts syncVersion o).1 := by
  unfold rebase
  split
  · exact .refl o
  · exact .of_same rfl

theorem tablesKept_release (table id : String) (o : Outbox) : TablesKept o (releaseBaseSnapshot table id o) := by
  unfold releaseBaseSnapshot
  split
  · exact .refl o
  · exact .of_same rfl

theorem tablesKept_ackRecords (part : RecordMap) (sent : Dict String (Dict String ℕ)) (acc : Outbox × Bool) :
    TablesKept acc.1 (ackRecords part sent acc).1 := by
  unfold ackRecords
  refine tablesKept_foldl Prod.fst _ (fun acc entry => ?_) _ _
  refine TablesKept.trans (tablesKept_foldl Prod.fst _ (fun acc sent => ?_) entry.2.entries acc) (.of_same rfl)
  unfold ackRecord
  dsimp only
  split
  · exact .refl _
  · exact TablesKept.trans (.of_same rfl) (tablesKept_release _ _ _)

theorem tablesKept_ackTable (sent : String × ℕ) : TablesKept acc.1 (ackTable acc sent).1 := by
  intro table
  exact (tableGenerations_ackTable acc sent table).1

theorem tablesKept_ackDelete (sent : TableKey × ℕ) : TablesKept acc.1 (ackDelete acc sent).1 := by
  unfold ackDelete
  dsimp only
  split
  · exact .refl _
  · exact TablesKept.trans (.of_same rfl) (tablesKept_release _ _ _)

theorem tablesKept_settle : TablesKept acc.1 (settle opts acc) := by
  unfold settle
  split
  · refine TablesKept.trans ?_ (tablesKept_persist _)
    split
    · exact .of_same rfl
    · exact .refl _
  · exact .refl _

theorem tablesKept_ack (o : Outbox) : TablesKept o (ack opts receipt o).1 := by
  unfold ack
  split
  · refine TablesKept.trans ?_ (tablesKept_settle _)
    have hupserts := tablesKept_ackRecords .upserts receipt.upserts (o, false)
    have hpatches := tablesKept_ackRecords .patches receipt.patches (ackRecords .upserts receipt.upserts (o, false))
    have htables := tablesKept_foldl Prod.fst ackTable tablesKept_ackTable receipt.dirtyTables.entries
      (ackRecords .patches receipt.patches (ackRecords .upserts receipt.upserts (o, false)))
    exact ((hupserts.trans hpatches).trans htables).trans
      (tablesKept_foldl Prod.fst ackDelete tablesKept_ackDelete receipt.deletes.entries _)
  · exact .refl o

theorem tablesKept_rejectRecord {part : RecordMap} {sent : Option ℕ} {key : TableKey} {o taken : Outbox}
    (h : rejectRecord part sent key o = some taken) : TablesKept o taken := by
  unfold rejectRecord at h
  dsimp only at h
  split at h
  · cases h
    exact .of_same rfl
  · cases h

theorem tablesKept_rejectKey (key : TableKey) (o : Outbox) : TablesKept o (rejectKey receipt key o).1 := by
  unfold rejectKey
  split
  · exact .refl o
  split
  · rename_i taken h
    exact (tablesKept_rejectRecord h).trans (tablesKept_release _ _ _)
  split
  · rename_i taken h
    exact (tablesKept_rejectRecord h).trans (tablesKept_release _ _ _)
  have hdelete : TablesKept o (rejectDelete (receipt.deletes.get? key) key o).1 := by
    unfold rejectDelete
    dsimp only
    split
    · exact .of_same rfl
    · exact .refl o
  dsimp only
  split
  · exact hdelete.trans (tablesKept_release _ _ _)
  · exact hdelete

theorem rejectKeys_fst (keys : List TableKey) (o : Outbox) : (rejectKeys opts receipt errors keys o).1 =
    keys.foldl (fun o key => (rejectKey receipt key o).1) o := by
  unfold rejectKeys
  refine (List.foldl_hom Prod.fst fun acc key => ?_).symm
  rcases rejectKey receipt key acc.1 with ⟨taken, _ | operation⟩ <;> rfl

theorem tablesKept_reject (errors : List SyncError) (fallbackToBatch : Bool) (state : Option WorkspaceState) (o : Outbox) :
    TablesKept o (reject opts receipt errors fallbackToBatch state o).1 := by
  have hkeys : TablesKept o (rejectKeys opts receipt errors
      (rejectedKeys opts receipt errors fallbackToBatch state o).1 o).1 := by
    rw [rejectKeys_fst]
    exact tablesKept_foldl id _ (fun o key => tablesKept_rejectKey receipt key o) _ o
  unfold reject
  dsimp only
  refine TablesKept.trans ?_ (tablesKept_settle _)
  split
  · exact hkeys.trans (tablesKept_foldl Prod.fst ackTable tablesKept_ackTable receipt.dirtyTables.entries _)
  · exact hkeys

theorem evolves_load (queue : Option MutationQueue) (localDeletions : List Deletion) (o : Outbox) :
    Evolves o (load opts queue localDeletions o) := by
  unfold load rebuildGenerations
  simp only
  have hbump : ∀ key (o : Outbox), Evolves o (bumpRecord key o) := fun key o =>
    evolves_bumpRecord key rfl fun k _ => SameAt.refl o k
  refine Evolves.trans ?_ (evolves_foldl _ (fun o entry => ?_) _ _)
  · refine Evolves.trans ?_ (evolves_foldl _ (fun o item => hbump _ o) _ _)
    refine Evolves.trans (Evolves.trans ?_ (evolves_foldl _ (fun o entry => hbump _ o) _ _))
      (evolves_foldl _ (fun o entry => hbump _ o) _ _)
    exact fun _ => ⟨le_refl _, fun _ => .inl rfl, fun _ _ _ _ h => by cases h⟩
  · split
    · exact fun hb => ⟨Nat.le_succ _, fun _ => .inr (.inr ⟨rfl, .inl rfl⟩), fun k k' g _ hk hk' => hb.inj k k' g hk hk'⟩
    · exact .refl o

end Outbox

def Command.Stamps : Command → Prop
  | .serverRowVersion _ => False
  | .repairDuplicatePlanVersions _ => False
  | _ => True

/-- What a command has to do for a property of outboxes to be kept: its writes keep it. -/
def Command.Keeps (opts : OutboxOptions) (P : Outbox → Prop) (o : Outbox) : Command → Prop
  | .upsert table records _ => ∀ record ∈ records, hasRecordId record = true → ∀ o, P o → P (Outbox.enqueueUpsert opts table o record)
  | .patch table records _ => ∀ record ∈ records, hasRecordId record = true → ∀ o, P o → P (Outbox.enqueuePatch opts table o record)
  | .replaceTable table records bases => P (Outbox.replaceTable opts table records bases o).1
  | .delete table records => ∀ record ∈ records, hasRecordId record = true → ∀ o, P o → P (Outbox.enqueueDelete table o record)
  | .serverRowVersion entries => P (Outbox.applyServerRowVersions opts entries o).1
  | .repairDuplicatePlanVersions state =>
    ∀ repaired, Outbox.repairDuplicatePlanVersions opts state o = some repaired → P repaired.outbox
  | .snapshotForSync state => P (Outbox.snapshotForSync opts state o).1
  | .hydrate queue localDeletions | .restore queue localDeletions => P (Outbox.load opts queue localDeletions o)
  | _ => True

variable (opts : OutboxOptions)

open Outbox in
/-- A property that no loss of operations breaks is kept by a command whose writes keep it. -/
theorem step_inv (P : Outbox → Prop) (hsheds : ∀ {o o' : Outbox}, o.view.Sheds o'.view → TablesKept o o' → P o → P o') {o : Outbox} (h : P o)
    {c : Command} (hc : c.Keeps opts P o) : P (step opts o c) := by
  have henqueue : ∀ {command : Outbox → Outbox × Bool}, P (command o).1 → P (enqueue opts command o) := by
    intro command hcommand
    unfold enqueue
    split
    · exact hsheds (sheds_persist _) (tablesKept_persist _) hcommand
    · exact hcommand
  have hrecords : ∀ {f : Outbox → Record → Outbox} {records : List Record} {first : Outbox},
      (∀ record ∈ records, hasRecordId record = true → ∀ o, P o → P (f o record)) → P first →
        P (touchForNewPayload opts ((records.filter hasRecordId).foldl f first)) := by
    intro f records first hf hfirst
    refine hsheds (sheds_touch _) (.of_same rfl) (foldl_inv f P _ (fun o record hrecord => ?_) hfirst)
    obtain ⟨hmem, hid⟩ := List.mem_filter.mp hrecord
    exact hf record hmem hid o
  cases c with
  | upsert table records bases =>
    refine henqueue ?_
    unfold enqueueUpserts
    dsimp only
    split
    · exact h
    · exact hrecords hc (hsheds (sheds_capture table bases o) (.of_same rfl) h)
  | patch table records bases =>
    refine henqueue ?_
    unfold enqueuePatches
    dsimp only
    split
    · exact h
    · exact hrecords hc (hsheds (sheds_capture table bases o) (.of_same rfl) h)
  | replaceTable => exact henqueue hc
  | delete table records =>
    refine henqueue ?_
    unfold enqueueDeletes
    dsimp only
    split
    · exact h
    · exact hrecords hc h
  | serverRowVersion => exact henqueue hc
  | ackServerDeletions deletions => exact henqueue (hsheds (sheds_acknowledgeServerDeletions deletions o) (tablesKept_acknowledgeServerDeletions _ _) h)
  | rebase syncVersion => exact henqueue (hsheds (sheds_rebase syncVersion o) (tablesKept_rebase _ _) h)
  | repairDuplicatePlanVersions state =>
    unfold step
    dsimp only
    split
    · exact h
    · exact hc _ ‹_›
  | snapshotForSync => exact hc
  | ack receipt => exact hsheds (sheds_ack receipt o) (tablesKept_ack _ _) h
  | reject receipt errors fallbackToBatch state => exact hsheds (sheds_reject receipt errors fallbackToBatch state o) (tablesKept_reject _ _ _ _ _) h
  | hydrate => exact hc
  | restore queue localDeletions =>
    change P (persist opts (load opts queue localDeletions o))
    exact hsheds (sheds_persist (load opts queue localDeletions o)) (tablesKept_persist _) hc
  | discard =>
    change P (Outbox.discard opts o)
    unfold Outbox.discard
    split
    · exact h
    · exact hsheds (sheds_clear o) (tablesKept_clear o) h
  | renewClientMutationId =>
    change P (renewClientMutationId opts o)
    unfold renewClientMutationId
    split
    · exact hsheds (sheds_touch_persist o) (tablesKept_touch_persist o) h
    · exact h
  | retryPersistence => exact hsheds (sheds_persist o) (tablesKept_persist o) h

open Outbox in
/-- A command leaves an operation with its generation, drops it, or stamps it anew. -/
theorem evolves_step (o : Outbox) {c : Command} (hc : c.Stamps) : Evolves o (step opts o c) := by
  refine step_inv opts (Evolves o) (fun hsheds _ h => h.trans (.of_sheds hsheds)) (.refl o) ?_
  cases c with
  | upsert table => exact fun record _ _ o' ho => ho.trans (evolves_enqueueUpsert table o' record)
  | patch table => exact fun record _ _ o' ho => ho.trans (evolves_enqueuePatch table o' record)
  | replaceTable table records bases => exact evolves_replaceTable table records bases o
  | delete table => exact fun record _ _ o' ho => ho.trans (evolves_enqueueDelete table o' record)
  | snapshotForSync state => exact evolves_snapshotForSync state o
  | hydrate queue localDeletions => exact evolves_load queue localDeletions o
  | restore queue localDeletions => exact evolves_load queue localDeletions o
  | serverRowVersion => exact hc.elim
  | repairDuplicatePlanVersions => exact hc.elim
  | _ => trivial

open Outbox in
theorem evolves_run (o : Outbox) {cs : List Command} (hcs : ∀ c ∈ cs, c.Stamps) : Evolves o (run opts o cs) :=
  foldl_rel (step opts) Evolves .refl (fun _ _ _ => Evolves.trans) cs (fun o c hc => evolves_step opts o (hcs c hc)) o

theorem bounded_newOutbox : (newOutbox opts).view.Bounded :=
  ⟨fun _ _ h => (by cases h), fun _ _ _ h => (by cases h)⟩

theorem bounded_run {cs : List Command} (hcs : ∀ c ∈ cs, c.Stamps) : (run opts (newOutbox opts) cs).view.Bounded :=
  (bounded_newOutbox opts).advances (evolves_run opts _ hcs (bounded_newOutbox opts))

end Bidding
