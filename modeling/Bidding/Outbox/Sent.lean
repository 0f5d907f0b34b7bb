import Bidding.Outbox.Exclusivity

/-!
# What a push sends and what its receipt lists

`buildMutationPayload` goes over the dirty tables, the queued upserts and the queued
patches, and notes beside the payload what it has put in. What the three loops do to a table
depends on the entries of that table alone (`PayloadDraft.at`).
-/

namespace Bidding

open Foundations List Dict
open Option hiding map_map

section Sent

variable (queue : MutationQueue) (state : WorkspaceState) (isSyncedType : String → Bool)
  (normalizeRecord : Record → String → Record)

def SentWhole (table : String) : Prop :=
  queue.dirtyTables.get? table = some true ∧ isSyncedType table = true

instance (table : String) : Decidable (SentWhole queue isSyncedType table) :=
  inferInstanceAs (Decidable (_ ∧ _))

def sentUpsert (table id : String) : Option Record :=
  if isSyncedType table = true ∧ ¬SentWhole queue isSyncedType table then
    (queue.upserts.get₂ table id).map fun record => normalizeRecord record table
  else none

/-- The record a queued patch is sent as: none when its table is not permitted or the state
has no record for it. -/
def sentPatch (table id : String) : Option Record :=
  if isSyncedType table = true then
    (queue.patches.get₂ table id).bind fun patch =>
      (canonicalRecord state table patch).map fun canonical => normalizeRecord (applyRecordPatch canonical patch) table
  else none

/-- The queued operations a push carries one by one. -/
def Sent (key : RecordKey) : Prop :=
  key.id ≠ "" ∧
    match key.operation with
    | .upsert => (sentUpsert queue isSyncedType normalizeRecord key.table key.id).isSome = true
    | .patch => (sentPatch queue state isSyncedType normalizeRecord key.table key.id).isSome = true
    | .delete => key.table ≠ "" ∧ ∃ item ∈ queue.deletes, item.names key.table key.id = true

/-- Every queued record is stored under its own id. -/
structure MutationQueue.Keyed : Prop where
  upserts : ∀ table id record, queue.upserts.get₂ table id = some record → fieldText record "id" = id ∧ id ≠ ""
  patches : ∀ table id record, queue.patches.get₂ table id = some record → fieldText record "id" = id ∧ id ≠ ""

/-! ## One table of the payload -/

/-- What a draft holds of one table. -/
structure TableDraft where
  records : Option (List Record)
  whole : Prop
  upserts : String → Prop
  patches : String → Prop

def PayloadDraft.at (draft : PayloadDraft) (table : String) : TableDraft where
  records := draft.tables.get? table
  whole := table ∈ draft.sent.dirtyTables
  upserts := fun id => (table, id) ∈ draft.sent.upserts
  patches := fun id => (table, id) ∈ draft.sent.patches

def TableDraft.addDirty (table : String) (dirty : Bool) (draft : TableDraft) : TableDraft :=
  if !dirty || !isSyncedType table then draft
  else { draft with
    records := some ((stateTable state table).map fun record => normalizeRecord record table)
    whole := True }

def TableDraft.addUpserts (table : String) (records : Dict String Record) (draft : TableDraft) : TableDraft :=
  if !isSyncedType table || draft.records.isSome then draft
  else if records.isEmpty then draft
  else { draft with
    records := some (records.values.map fun record => normalizeRecord record table)
    upserts := fun id => draft.upserts id ∨ (id ∈ records.keys ∧ id ≠ "") }

def materialized (table : String) (patches : Dict String Record) : List (String × Record) :=
  patches.entries.filterMap fun item =>
    (canonicalRecord state table item.2).map fun canonical =>
      (item.1, normalizeRecord (applyRecordPatch canonical item.2) table)

def TableDraft.addPatches (table : String) (patches : Dict String Record) (draft : TableDraft) : TableDraft :=
  if !isSyncedType table then draft
  else { draft with
    records := if (materialized state normalizeRecord table patches).isEmpty then draft.records
      else some (((materialized state normalizeRecord table patches).map Prod.snd).foldl
        (fun byId record => byId.set (recordId record) record) (recordsById (draft.records.getD []))).values
    patches := fun id => draft.patches id ∨
      (id ∈ (materialized state normalizeRecord table patches).map Prod.fst ∧ id ≠ "") }

variable {queue state isSyncedType normalizeRecord}

variable (draft : PayloadDraft)

theorem at_addDirtyTables (table : String) : (addDirtyTables queue state isSyncedType normalizeRecord draft).at table =
    ((queue.dirtyTables.get? table).map fun dirty =>
      (draft.at table).addDirty state isSyncedType normalizeRecord table dirty).getD (draft.at table) := by
  refine foldl_entries _ (PayloadDraft.at · table)
    (fun dirty draft => draft.addDirty state isSyncedType normalizeRecord table dirty) table _ ?_ draft
  rintro draft ⟨other, dirty⟩ -
  by_cases hkey : other = table
  · subst hkey
    rw [if_pos rfl]
    unfold TableDraft.addDirty
    dsimp only
    split_ifs <;> simp [PayloadDraft.at]
  · dsimp only
    split_ifs <;> simp [PayloadDraft.at, Dict.get?_set, Ne.symm hkey]

theorem at_addUpserts (table : String) : (addUpserts queue isSyncedType normalizeRecord draft).at table =
    ((queue.upserts.get? table).map fun records =>
      (draft.at table).addUpserts isSyncedType normalizeRecord table records).getD (draft.at table) := by
  refine Dict.foldl_entries _ (PayloadDraft.at · table)
    (fun records draft => draft.addUpserts isSyncedType normalizeRecord table records) table _ ?_ draft
  rintro draft ⟨other, records⟩ -
  by_cases hkey : other = table
  · subst hkey
    unfold TableDraft.addUpserts Dict.contains
    dsimp only
    split_ifs <;> simp_all [PayloadDraft.at]
  · dsimp only
    split_ifs <;> simp [PayloadDraft.at, Dict.get?_set, Ne.symm hkey, hkey]

theorem at_addPatches (table : String) : (addPatches queue state isSyncedType normalizeRecord draft).at table =
    ((queue.patches.get? table).map fun patches =>
      (draft.at table).addPatches state isSyncedType normalizeRecord table patches).getD (draft.at table) := by
  refine foldl_entries _ (PayloadDraft.at · table)
    (fun patches draft => draft.addPatches state isSyncedType normalizeRecord table patches) table _ ?_ draft
  rintro draft ⟨other, patches⟩ -
  by_cases hkey : other = table
  · subst hkey
    unfold TableDraft.addPatches materialized
    dsimp only
    split_ifs <;> simp_all [PayloadDraft.at]
  · dsimp only
    split_ifs <;> simp [PayloadDraft.at, Dict.get?_set, Ne.symm hkey, hkey]

/-! ## The three loops together -/

variable (queue state isSyncedType normalizeRecord)

def payloadDraft : PayloadDraft :=
  addPatches queue state isSyncedType normalizeRecord <|
    addUpserts queue isSyncedType normalizeRecord <|
    addDirtyTables queue state isSyncedType normalizeRecord ⟨.empty, ⟨[], [], [], []⟩⟩

def upsertedTable (table : String) : TableDraft :=
  (addUpserts queue isSyncedType normalizeRecord
    (addDirtyTables queue state isSyncedType normalizeRecord ⟨.empty, ⟨[], [], [], []⟩⟩)).at table

variable {queue state isSyncedType normalizeRecord} {table : String} {record : Record} {id : String}

theorem at_payloadDraft (table : String) : (payloadDraft queue state isSyncedType normalizeRecord).at table =
    ((queue.patches.get? table).map fun patches =>
      (upsertedTable queue state isSyncedType normalizeRecord table).addPatches state isSyncedType
        normalizeRecord table patches).getD (upsertedTable queue state isSyncedType normalizeRecord table) :=
  at_addPatches _ table

theorem upsertedTable_of_whole (h : SentWhole queue isSyncedType table) :
    upsertedTable queue state isSyncedType normalizeRecord table =
      ⟨some ((stateTable state table).map fun record => normalizeRecord record table), True,
        fun _ => False, fun _ => False⟩ := by
  obtain ⟨hdirty, hsynced⟩ := h
  unfold upsertedTable
  rw [at_addUpserts, at_addDirtyTables, hdirty]
  cases queue.upserts.get? table with
  | none => simp [TableDraft.addDirty, hsynced, PayloadDraft.at]
  | some records => simp [TableDraft.addDirty, TableDraft.addUpserts, hsynced, PayloadDraft.at]

theorem upsertedTable_of_not_whole (h : ¬SentWhole queue isSyncedType table) :
    upsertedTable queue state isSyncedType normalizeRecord table =
      if isSyncedType table = true ∧ ((queue.upserts.get? table).getD .empty).isEmpty = false then
        ⟨some (((queue.upserts.get? table).getD .empty).values.map fun record =>
            normalizeRecord record table), False,
          fun id => id ∈ ((queue.upserts.get? table).getD .empty).keys ∧ id ≠ "", fun _ => False⟩
      else ⟨none, False, fun _ => False, fun _ => False⟩ := by
  have hdirty : ((queue.dirtyTables.get? table).map fun dirty =>
      (PayloadDraft.at ⟨.empty, ⟨[], [], [], []⟩⟩ table).addDirty state isSyncedType normalizeRecord
        table dirty).getD (PayloadDraft.at ⟨.empty, ⟨[], [], [], []⟩⟩ table) =
      ⟨none, False, fun _ => False, fun _ => False⟩ := by
    unfold SentWhole at h
    cases hget : queue.dirtyTables.get? table with
    | none => simp [PayloadDraft.at]
    | some dirty =>
      cases dirty with
      | false => simp [PayloadDraft.at, TableDraft.addDirty]
      | true =>
        have hsynced : isSyncedType table = false := by simpa [hget] using h
        simp [PayloadDraft.at, TableDraft.addDirty, hsynced]
  unfold upsertedTable
  rw [at_addUpserts, at_addDirtyTables, hdirty]
  cases hget : queue.upserts.get? table with
  | none => simp [Dict.isEmpty, Dict.empty]
  | some records =>
    cases hsynced : isSyncedType table with
    | false => simp [TableDraft.addUpserts, hsynced]
    | true =>
      cases hempty : records.isEmpty with
      | true => simp [TableDraft.addUpserts, hsynced, hempty]
      | false => simp [TableDraft.addUpserts, hsynced, hempty]

theorem draft_payloadDraft (table : String) : ((payloadDraft queue state isSyncedType normalizeRecord).at table).whole =
      (upsertedTable queue state isSyncedType normalizeRecord table).whole ∧
    ((payloadDraft queue state isSyncedType normalizeRecord).at table).upserts =
      (upsertedTable queue state isSyncedType normalizeRecord table).upserts := by
  rw [at_payloadDraft]
  cases queue.patches.get? table with
  | none => exact ⟨rfl, rfl⟩
  | some patches =>
    simp only [map_some, getD_some, TableDraft.addPatches]
    split <;> exact ⟨rfl, rfl⟩

theorem whole_payloadDraft (table : String) : ((payloadDraft queue state isSyncedType normalizeRecord).at table).whole ↔
    SentWhole queue isSyncedType table := by
  rw [(draft_payloadDraft table).1]
  by_cases h : SentWhole queue isSyncedType table
  · simp [upsertedTable_of_whole h, h]
  rw [upsertedTable_of_not_whole h]
  split
  · simp [h]
  · simp [h]

theorem sentUpsert_eq_none (h : ¬(isSyncedType table = true ∧
    ((queue.upserts.get? table).getD .empty).isEmpty = false)) (id : String) :
    sentUpsert queue isSyncedType normalizeRecord table id = none := by
  unfold sentUpsert
  split
  · rename_i hsynced
    have hempty : ((queue.upserts.get? table).getD .empty).isEmpty = true := by simpa [hsynced.1] using h
    rw [← Dict.get?_getD_empty, (isEmpty_iff _).mp hempty id]
    rfl
  · rfl

theorem upserts_payloadDraft (table id : String) :
    ((payloadDraft queue state isSyncedType normalizeRecord).at table).upserts id ↔
      id ≠ "" ∧ (sentUpsert queue isSyncedType normalizeRecord table id).isSome = true := by
  rw [(draft_payloadDraft table).2]
  by_cases h : SentWhole queue isSyncedType table
  · simp [upsertedTable_of_whole h, sentUpsert, h]
  rw [upsertedTable_of_not_whole h]
  have hkeys : id ∈ ((queue.upserts.get? table).getD .empty).keys ↔
      (queue.upserts.get₂ table id).isSome = true := by
    rw [mem_keys_iff, isSome_iff_exists, Dict.get?_getD_empty]
  split
  · rename_i hsent
    simp [sentUpsert, h, hsent.1, hkeys, and_comm]
  · rename_i hsent
    simp [sentUpsert_eq_none hsent]

theorem lookup_materialized (hsynced : isSyncedType table = true)
    {patches : Dict String Record} (hget : queue.patches.get? table = some patches) (id : String) :
    Dict.lookup id (materialized state normalizeRecord table patches) =
      sentPatch queue state isSyncedType normalizeRecord table id := by
  have hlookup := Dict.lookup_filterMap (fun _ patch =>
    (canonicalRecord state table patch).map fun canonical =>
      normalizeRecord (applyRecordPatch canonical patch) table) patches id
  have heq : materialized state normalizeRecord table patches =
      patches.entries.filterMap fun e => (((canonicalRecord state table e.2).map fun canonical =>
        normalizeRecord (applyRecordPatch canonical e.2) table)).map fun v => (e.1, v) := by
    unfold materialized
    congr 1
    funext e
    rw [Option.map_map]
    rfl
  rw [heq, hlookup]
  simp [sentPatch, hsynced, Dict.get₂, hget]

theorem patches_payloadDraft (table id : String) :
    ((payloadDraft queue state isSyncedType normalizeRecord).at table).patches id ↔
      id ≠ "" ∧ (sentPatch queue state isSyncedType normalizeRecord table id).isSome = true := by
  have hnone : ¬(upsertedTable queue state isSyncedType normalizeRecord table).patches id := by
    by_cases h : SentWhole queue isSyncedType table
    · simp [upsertedTable_of_whole h]
    rw [upsertedTable_of_not_whole h]
    split
    · exact not_false
    · exact not_false
  rw [at_payloadDraft]
  cases hget : queue.patches.get? table with
  | none => simp [hnone, sentPatch, Dict.get₂, hget]
  | some patches =>
    cases hsynced : isSyncedType table with
    | false => simp [TableDraft.addPatches, hsynced, hnone, sentPatch]
    | true =>
      have hmem : id ∈ (materialized state normalizeRecord table patches).map Prod.fst ↔
          (sentPatch queue state isSyncedType normalizeRecord table id).isSome = true := by
        rw [← lookup_materialized hsynced hget, ← ne_none_iff_isSome, Ne, Dict.lookup_eq_none_iff, not_not]
      simp only [map_some, getD_some, TableDraft.addPatches, hsynced, Bool.not_true,
        Bool.false_eq_true, if_false, hnone, false_or, hmem]
      exact and_comm

/-! ## The records of the payload -/

theorem recordId_of_fieldText (h : fieldText record "id" = id) (hid : id ≠ "") : recordId record = id := by
  unfold fieldText at h
  unfold recordId
  cases hget : record.get? "id" with
  | none => exact absurd (by simpa [hget] using h.symm) hid
  | some v =>
    simp only [hget] at h
    split at h
    · exact h
    · exact absurd h.symm hid

theorem id_applyRecordPatch (canonical patch : Record) :
    (applyRecordPatch canonical patch).get? "id" = canonical.get? "id" := by
  refine foldl_inv _ (fun merged : Record => merged.get? "id" = canonical.get? "id")
    patchAuthoritativeFields (fun merged field _ h => ?_) ?_
  · cases hfield : canonical.get? field with
    | none => exact h
    | some value =>
      by_cases hid : "id" = field
      · subst hid
        simp [hfield]
      · rw [Dict.get?_set_of_ne merged value hid]
        exact h
  · simp [Dict.get?_spread, Dict.get?_filterKeys, patchAuthoritativeFields]

theorem id_canonicalRecord {patch canonical : Record}
    (h : canonicalRecord state table patch = some canonical) : recordId canonical = fieldText patch "id" := by
  have hmem := mem_filter.mp (mem_of_getLast? h)
  unfold recordId
  cases hget : canonical.get? "id" with
  | none => simp [hget] at hmem
  | some v =>
    simp only [hget, Bool.and_eq_true, decide_eq_true_eq] at hmem
    exact hmem.2.2

theorem nodup_materialized (table : String) (patches : Dict String Record) :
    ((materialized state normalizeRecord table patches).map Prod.fst).Nodup := by
  have hsub : List.Sublist ((materialized state normalizeRecord table patches).map Prod.fst)
      (patches.entries.map Prod.fst) := by
    unfold materialized
    induction patches.entries with
    | nil => exact List.Sublist.slnil
    | cons e l ih =>
      rw [filterMap_cons]
      cases canonicalRecord state table e.2 with
      | none => exact ih.cons _
      | some canonical => exact ih.cons_cons _
  exact patches.nodupKeys.sublist hsub

theorem mem_upsertedTable (h : ¬SentWhole queue isSyncedType table) (record : Record) :
    record ∈ (upsertedTable queue state isSyncedType normalizeRecord table).records.getD [] ↔
      ∃ id, sentUpsert queue isSyncedType normalizeRecord table id = some record := by
  rw [upsertedTable_of_not_whole h]
  split
  · rename_i hsent
    simp only [getD_some, List.mem_map, mem_values_iff, Dict.get?_getD_empty]
    constructor
    · rintro ⟨queued, ⟨id, hqueued⟩, rfl⟩
      exact ⟨id, by simp [sentUpsert, hsent.1, h, hqueued]⟩
    · rintro ⟨id, hid⟩
      unfold sentUpsert at hid
      rw [if_pos ⟨hsent.1, h⟩] at hid
      obtain ⟨queued, hqueued, heq⟩ := map_eq_some_iff.mp hid
      exact ⟨queued, ⟨id, hqueued⟩, heq⟩
  · rename_i hsent
    simp [sentUpsert_eq_none hsent]

theorem mem_of_recordsById {records : List Record} (h : (recordsById records).get? id = some record) : record ∈ records := by
  unfold recordsById Dict.ofList at h
  rw [Dict.get?_foldl_set] at h
  have hlookup : Dict.lookup id (records.map fun record => (fieldText record "id", record)).reverse =
      some record := by simpa using h
  have hmem := Dict.mem_of_lookup_eq_some hlookup
  rw [mem_reverse] at hmem
  obtain ⟨found, hfound, heq⟩ := mem_map.mp hmem
  have hsame : found = record := (Prod.ext_iff.mp heq).2
  exact hsame ▸ hfound

theorem records_payloadDraft_of_unpatched (h : ∀ id, sentPatch queue state isSyncedType normalizeRecord table id = none) :
    (payloadDraft queue state isSyncedType normalizeRecord).tables.get? table =
      (upsertedTable queue state isSyncedType normalizeRecord table).records := by
  change ((payloadDraft queue state isSyncedType normalizeRecord).at table).records = _
  rw [at_payloadDraft]
  cases hget : queue.patches.get? table with
  | none => rfl
  | some patches =>
    cases hsynced : isSyncedType table with
    | false => simp [TableDraft.addPatches, hsynced]
    | true =>
      have hempty : materialized state normalizeRecord table patches = [] := by
        rw [eq_nil_iff_forall_not_mem]
        intro e he
        have hne : Dict.lookup e.1 (materialized state normalizeRecord table patches) ≠ none := by
          rw [Ne, Dict.lookup_eq_none_iff, not_not]
          exact mem_map.mpr ⟨e, he, rfl⟩
        exact hne ((lookup_materialized hsynced hget e.1).trans (h e.1))
      simp [TableDraft.addPatches, hsynced, hempty]

theorem records_payloadDraft_of_patched (h : sentPatch queue state isSyncedType normalizeRecord table id = some record) :
    isSyncedType table = true ∧ ∃ patches, queue.patches.get? table = some patches ∧
      (payloadDraft queue state isSyncedType normalizeRecord).tables.get? table =
        some (((materialized state normalizeRecord table patches).map Prod.snd).foldl
          (fun byId record => byId.set (recordId record) record)
          (recordsById ((upsertedTable queue state isSyncedType normalizeRecord table).records.getD []))).values := by
  have hsynced : isSyncedType table = true := by
    unfold sentPatch at h
    split at h
    · assumption
    · cases h
  refine ⟨hsynced, ?_⟩
  cases hget : queue.patches.get? table with
  | none => simp [sentPatch, hsynced, get₂, hget] at h
  | some patches =>
    refine ⟨patches, rfl, ?_⟩
    have hne : materialized state normalizeRecord table patches ≠ [] := by
      intro hnil
      rw [← lookup_materialized hsynced hget, hnil] at h
      cases h
    change ((payloadDraft queue state isSyncedType normalizeRecord).at table).records = _
    rw [at_payloadDraft, hget]
    simp [TableDraft.addPatches, hsynced, hne]

section Keyed

variable (hkeyed : queue.Keyed) (hserialize : ∀ record table, (normalizeRecord record table).get? "id" = record.get? "id")

include hkeyed hserialize

theorem recordId_of_patched (h : sentPatch queue state isSyncedType normalizeRecord table id = some record) :
    recordId record = id ∧ id ≠ "" := by
  unfold sentPatch at h
  split at h
  · obtain ⟨patch, hpatch, hmap⟩ := bind_eq_some_iff.mp h
    obtain ⟨canonical, hcanonical, rfl⟩ := map_eq_some_iff.mp hmap
    obtain ⟨hid, hne⟩ := hkeyed.patches table id patch hpatch
    refine ⟨?_, hne⟩
    rw [← hid, ← id_canonicalRecord hcanonical]
    unfold recordId
    rw [hserialize, id_applyRecordPatch]
  · cases h

theorem id_of_upserted (h : sentUpsert queue isSyncedType normalizeRecord table id = some record) :
    fieldText record "id" = id ∧ id ≠ "" := by
  unfold sentUpsert at h
  split at h
  · obtain ⟨queued, hqueued, rfl⟩ := map_eq_some_iff.mp h
    obtain ⟨hid, hne⟩ := hkeyed.upserts table id queued hqueued
    refine ⟨?_, hne⟩
    rw [← hid]
    unfold fieldText
    rw [hserialize]
  · cases h

theorem get?_overlay (hsynced : isSyncedType table = true)
    {patches : Dict String Record} (hget : queue.patches.get? table = some patches)
    (base : Dict String Record) (id : String) :
    (((materialized state normalizeRecord table patches).map Prod.snd).foldl
      (fun byId record => byId.set (recordId record) record) base).get? id =
      (sentPatch queue state isSyncedType normalizeRecord table id).or (base.get? id) := by
  have hnodup : ((materialized state normalizeRecord table patches).map Prod.fst).Nodup :=
    nodup_materialized table patches
  have hids : ∀ e ∈ materialized state normalizeRecord table patches, recordId e.2 = e.1 := by
    intro e he
    have hlookup : Dict.lookup e.1 (materialized state normalizeRecord table patches) = some e.2 :=
      (Dict.mem_entries_iff ⟨_, hnodup⟩ e.1 e.2).mp he
    rw [lookup_materialized hsynced hget] at hlookup
    exact (recordId_of_patched hkeyed hserialize hlookup).1
  have hpairs : ((materialized state normalizeRecord table patches).map Prod.snd).foldl
      (fun byId record => byId.set (recordId record) record) base =
      (materialized state normalizeRecord table patches).foldl (fun byId e => byId.set e.1 e.2) base := by
    rw [foldl_map]
    apply foldl_ext
    intro byId e he
    rw [hids e he]
  rw [hpairs, Dict.get?_foldl_set, Dict.lookup_reverse_of_nodup hnodup, lookup_materialized hsynced hget]

theorem get?_recordsById_upserted (h : ¬SentWhole queue isSyncedType table) (id : String) :
    (recordsById ((upsertedTable queue state isSyncedType normalizeRecord table).records.getD
      [])).get? id = sentUpsert queue isSyncedType normalizeRecord table id := by
  rw [upsertedTable_of_not_whole h]
  split
  · rename_i hsent
    generalize hrecords : (queue.upserts.get? table).getD .empty = records
    have hpairs : (records.values.map fun record => normalizeRecord record table).map
        (fun record => (fieldText record "id", record)) = records.entries.map fun e => (e.1, normalizeRecord e.2 table) := by
      unfold Dict.values
      rw [map_map, map_map]
      apply map_congr_left
      intro e he
      have hqueued : queue.upserts.get₂ table e.1 = some e.2 := by
        rw [← Dict.get?_getD_empty, hrecords]
        exact (Dict.mem_entries_iff records e.1 e.2).mp he
      obtain ⟨hid, -⟩ := hkeyed.upserts table e.1 e.2 hqueued
      have hsame : fieldText (normalizeRecord e.2 table) "id" = e.1 := by
        rw [← hid]
        unfold fieldText
        rw [hserialize]
      simp [hsame]
    have hnodup : ((records.entries.map fun e => (e.1, normalizeRecord e.2 table)).map Prod.fst).Nodup := by
      rw [map_map]
      exact records.nodupKeys
    have hmap : Dict.lookup id (records.entries.map fun e => (e.1, normalizeRecord e.2 table)) =
        (records.get? id).map fun record => normalizeRecord record table :=
      Dict.get?_mapEntries (fun _ record => normalizeRecord record table) records id
    simp only [getD_some, recordsById, hpairs, Dict.ofList]
    rw [Dict.get?_foldl_set, Dict.lookup_reverse_of_nodup hnodup, hmap]
    unfold sentUpsert
    rw [if_pos ⟨hsent.1, h⟩, ← Dict.get?_getD_empty, hrecords]
    simp
  · rename_i hsent
    rw [sentUpsert_eq_none hsent]
    rfl

theorem mem_table_of_not_whole (h : ¬SentWhole queue isSyncedType table) (record : Record) :
    record ∈ ((payloadDraft queue state isSyncedType normalizeRecord).tables.get? table).getD [] ↔
      ∃ id, (sentPatch queue state isSyncedType normalizeRecord table id).or
        (sentUpsert queue isSyncedType normalizeRecord table id) = some record := by
  by_cases hpatched : ∀ id, sentPatch queue state isSyncedType normalizeRecord table id = none
  · rw [records_payloadDraft_of_unpatched hpatched, mem_upsertedTable h]
    simp [hpatched]
  push Not at hpatched
  obtain ⟨id, hid⟩ := hpatched
  obtain ⟨found, hfound⟩ := ne_none_iff_exists'.mp hid
  obtain ⟨hsynced, patches, hget, hrecords⟩ := records_payloadDraft_of_patched hfound
  rw [hrecords, getD_some, mem_values_iff]
  simp only [get?_overlay hkeyed hserialize hsynced hget, get?_recordsById_upserted hkeyed hserialize h]

theorem mem_table_of_whole (h : SentWhole queue isSyncedType table) :
    (∀ id record, sentPatch queue state isSyncedType normalizeRecord table id = some record →
      record ∈ ((payloadDraft queue state isSyncedType normalizeRecord).tables.get? table).getD []) ∧
    ∀ record ∈ ((payloadDraft queue state isSyncedType normalizeRecord).tables.get? table).getD [],
      (∃ id, sentPatch queue state isSyncedType normalizeRecord table id = some record) ∨
        ∃ listed ∈ stateTable state table, record = normalizeRecord listed table := by
  have hbase : (upsertedTable queue state isSyncedType normalizeRecord table).records =
      some ((stateTable state table).map fun record => normalizeRecord record table) := by
    rw [upsertedTable_of_whole h]
  have hlisted : ∀ record ∈ (stateTable state table).map fun record => normalizeRecord record table,
      ∃ listed ∈ stateTable state table, record = normalizeRecord listed table := by
    intro record hrecord
    obtain ⟨listed, hmem, rfl⟩ := mem_map.mp hrecord
    exact ⟨listed, hmem, rfl⟩
  constructor
  · intro id record hpatched
    obtain ⟨hsynced, patches, hget, hrecords⟩ := records_payloadDraft_of_patched hpatched
    rw [hrecords, getD_some, mem_values_iff]
    exact ⟨id, by rw [get?_overlay hkeyed hserialize hsynced hget, hpatched]; rfl⟩
  · intro record hrecord
    by_cases hpatched : ∀ id, sentPatch queue state isSyncedType normalizeRecord table id = none
    · rw [records_payloadDraft_of_unpatched hpatched, hbase] at hrecord
      exact .inr (hlisted record hrecord)
    push Not at hpatched
    obtain ⟨id, hid⟩ := hpatched
    obtain ⟨found, hfound⟩ := ne_none_iff_exists'.mp hid
    obtain ⟨hsynced, patches, hget, hrecords⟩ := records_payloadDraft_of_patched hfound
    rw [hrecords, getD_some, mem_values_iff] at hrecord
    obtain ⟨id', hid'⟩ := hrecord
    rw [get?_overlay hkeyed hserialize hsynced hget, or_eq_some_iff] at hid'
    rcases hid' with hpatch | ⟨-, hbelow⟩
    · exact .inl ⟨id', hpatch⟩
    · rw [hbase] at hbelow
      exact .inr (hlisted record (mem_of_recordsById hbelow))

end Keyed

theorem mem_payloadDeletions (deletions : List Deletion) (table id : String) :
    (∃ item ∈ payloadDeletions deletions, item.names table id = true) ↔
      table ≠ "" ∧ id ≠ "" ∧ ∃ item ∈ deletions, item.names table id = true := by
  generalize hl : (deletions.filter fun item => item.table ≠ "" && item.id ≠ "").map
    (fun item => ((item.table, item.id), item)) = l
  have hget : ∀ key, (Dict.ofList l).get? key = Dict.lookup key l.reverse := by
    intro key
    unfold Dict.ofList
    rw [Dict.get?_foldl_set]
    simp
  have hmem : ∀ key item, (key, item) ∈ l → key = (item.table, item.id) ∧
      item ∈ deletions ∧ item.table ≠ "" ∧ item.id ≠ "" := by
    intro key item h
    rw [← hl] at h
    obtain ⟨found, hfound, heq⟩ := mem_map.mp h
    obtain ⟨rfl, rfl⟩ := Prod.ext_iff.mp heq
    obtain ⟨hin, hne⟩ := mem_filter.mp hfound
    exact ⟨rfl, hin, by simpa using hne⟩
  have hpayload : payloadDeletions deletions = (Dict.ofList l).values := by
    rw [← hl]
    rfl
  rw [hpayload]
  constructor
  · rintro ⟨item, hitem, hnames⟩
    obtain ⟨key, hkey⟩ := (Dict.mem_values_iff _ _).mp hitem
    rw [hget] at hkey
    obtain ⟨-, hin, htable, hid⟩ :=
      hmem key item (mem_reverse.mp (Dict.mem_of_lookup_eq_some hkey))
    obtain ⟨rfl, rfl⟩ := (Outbox.names_iff item table id).mp hnames
    exact ⟨htable, hid, item, hin, hnames⟩
  · rintro ⟨htable, hid, item, hin, hnames⟩
    obtain ⟨rfl, rfl⟩ := (Outbox.names_iff item table id).mp hnames
    have hentry : ((item.table, item.id), item) ∈ l := by
      rw [← hl]
      exact mem_map.mpr ⟨item, mem_filter.mpr ⟨hin, by simp [htable, hid]⟩, rfl⟩
    have hfound : Dict.lookup (item.table, item.id) l.reverse ≠ none := by
      rw [Ne, Dict.lookup_eq_none_iff, not_not]
      exact mem_map.mpr ⟨_, mem_reverse.mpr hentry, rfl⟩
    obtain ⟨last, hlast⟩ := ne_none_iff_exists'.mp hfound
    obtain ⟨hkey, -⟩ := hmem _ last (mem_reverse.mp (Dict.mem_of_lookup_eq_some hlast))
    refine ⟨last, (Dict.mem_values_iff _ _).mpr ⟨_, (hget _).trans hlast⟩, ?_⟩
    exact (Outbox.names_iff ..).mpr ⟨(Prod.ext_iff.mp hkey).1.symm, (Prod.ext_iff.mp hkey).2.symm⟩

variable {localDeletions : List Deletion} {snapshot receipt : Receipt} {payload : Payload}

section

variable (h : buildMutationPayload queue state localDeletions isSyncedType normalizeRecord snapshot = some (payload, receipt))
include h

theorem buildMutationPayload_eq : payload.tables = (payloadDraft queue state isSyncedType normalizeRecord).tables ∧
    payload.deletions = payloadDeletions (queue.deletes ++ localDeletions) ∧
    receipt = filterReceiptBySentOperations snapshot
      { (payloadDraft queue state isSyncedType normalizeRecord).sent with
        deletes := (queue.deletes.filter fun item => item.table ≠ "" && item.id ≠ "").map fun item =>
          (item.table, item.id) } := by
  unfold buildMutationPayload at h
  simp only at h
  split at h
  · cases h
  · simp only [some.injEq, Prod.mk.injEq] at h
    obtain ⟨rfl, rfl⟩ := h
    exact ⟨rfl, rfl, rfl⟩

theorem names_receipt (key : RecordKey) (generation : ℕ) : receipt.Names key generation ↔ snapshot.Names key generation ∧
    Sent queue state isSyncedType normalizeRecord key := by
  obtain ⟨-, -, rfl⟩ := buildMutationPayload_eq h
  obtain ⟨operation, table, id⟩ := key
  cases operation with
  | upsert =>
    have hsent : ((payloadDraft queue state isSyncedType normalizeRecord).at table).upserts id ↔ _ :=
      upserts_payloadDraft table id
    simp only [PayloadDraft.at] at hsent
    simp only [Receipt.Names, filterReceiptBySentOperations, get₂_filter₂, Sent,
      decide_eq_true_eq, hsent]
    split
    · rename_i hyes
      simp [hyes]
    · rename_i hno
      simp [hno]
  | patch =>
    have hsent : ((payloadDraft queue state isSyncedType normalizeRecord).at table).patches id ↔ _ :=
      patches_payloadDraft table id
    simp only [PayloadDraft.at] at hsent
    simp only [Receipt.Names, filterReceiptBySentOperations, get₂_filter₂, Sent,
      decide_eq_true_eq, hsent]
    split
    · rename_i hyes
      simp [hyes]
    · rename_i hno
      simp [hno]
  | delete =>
    have hsent : (table, id) ∈ ((queue.deletes.filter fun item =>
        item.table ≠ "" && item.id ≠ "").map fun item => (item.table, item.id)) ↔
        id ≠ "" ∧ table ≠ "" ∧ ∃ item ∈ queue.deletes, item.names table id = true := by
      constructor
      · intro hmem
        obtain ⟨item, hitem, heq⟩ := mem_map.mp hmem
        obtain ⟨rfl, rfl⟩ := Prod.ext_iff.mp heq
        obtain ⟨hin, hne⟩ := mem_filter.mp hitem
        simp only [Bool.and_eq_true, decide_eq_true_eq] at hne
        exact ⟨hne.2, hne.1, item, hin, (Outbox.names_iff ..).mpr ⟨rfl, rfl⟩⟩
      · rintro ⟨hid, htable, item, hin, hnames⟩
        obtain ⟨rfl, rfl⟩ := (Outbox.names_iff item table id).mp hnames
        exact mem_map.mpr ⟨item, mem_filter.mpr ⟨hin, by simp [htable, hid]⟩, rfl⟩
    simp only [Receipt.Names, filterReceiptBySentOperations, Dict.get?_filterKeys, Sent,
      decide_eq_true_eq, hsent]
    split
    · rename_i hyes
      simp [hyes]
    · rename_i hno
      simp [hno]

end

end Sent

/-! ## The outboxes that are reached -/

namespace Outbox

variable {opts : OutboxOptions} {o o' : Outbox} {table : String} {record : Record}

theorem fieldText_of_get? {record record' : Record} (h : record.get? "id" = record'.get? "id") :
    fieldText record "id" = fieldText record' "id" := by
  unfold fieldText
  rw [h]

theorem keyed_iff : o.queue.Keyed ↔ ∀ part table id record, (o.queue.records part).get₂ table id = some record →
    fieldText record "id" = id ∧ id ≠ "" :=
  ⟨fun h part => part.casesOn h.upserts h.patches, fun h => ⟨h .upserts, h .patches⟩⟩

/-- A queue stays keyed where every record it holds has the id field of one it held, or its own id. -/
theorem keyed_of_entries (h : o.queue.Keyed) (hwrites : ∀ key record, o'.entry key = some (.record record) →
    (∃ entry, o.entry key = some entry ∧ record.get? "id" = entry.idField) ∨ fieldText record "id" = key.id ∧ key.id ≠ "") :
    o'.queue.Keyed := by
  refine keyed_iff.mpr fun part table id record hget => ?_
  rcases hwrites ⟨part.operation, table, id⟩ record (by rw [entry_part, hget, map_some]) with ⟨entry, hentry, hid⟩ | hown
  · rw [entry_part] at hentry
    obtain ⟨queued, hqueued, rfl⟩ := map_eq_some_iff.mp hentry
    exact fieldText_of_get? hid ▸ keyed_iff.mp h part table id queued hqueued
  · exact hown

theorem keyed_noNew (h : o.queue.Keyed) (hn : NoNew o o') : o'.queue.Keyed :=
  keyed_of_entries h fun key _ hentry => .inl (hn key _ hentry)

/-- The queue that is loaded stays as it is: only generations are given anew. -/
theorem keyed_load (queue : Option MutationQueue) (localDeletions : List Deletion) (o : Outbox)
    (h : ∀ q, queue = some q → q.Keyed) : (load opts queue localDeletions o).queue.Keyed := by
  have hrecords : ∀ part (o : Outbox), o.queue.Keyed → (rebuildRecords part o).queue.Keyed := fun part o ho =>
    foldl_inv _ (fun o : Outbox => o.queue.Keyed) _ (fun _ _ _ h => h) ho
  unfold load rebuildGenerations
  refine foldl_inv _ (fun o : Outbox => o.queue.Keyed) _ (fun o entry _ ho => ?_) ?_
  · split <;> exact ho
  · refine foldl_inv _ (fun o : Outbox => o.queue.Keyed) _ (fun _ _ _ h => h) (hrecords .patches _ (hrecords .upserts _ ?_))
    cases queue with
    | none => exact ⟨fun _ _ _ hget => (by cases hget), fun _ _ _ hget => (by cases hget)⟩
    | some q => exact ⟨(h q rfl).upserts, (h q rfl).patches⟩

variable (hnormalize : ∀ record table, (opts.normalizeRecord record table).get? "id" = record.get? "id")

include hnormalize

theorem keyed_enqueueUpsert (h : o.queue.Keyed) (hne : fieldText record "id" ≠ "") :
    (enqueueUpsert opts table o record).queue.Keyed := by
  refine keyed_of_entries h fun key record' hentry => ?_
  rw [entry_enqueueUpsert] at hentry
  split_ifs at hentry with hkey
  · cases hentry
    have hid := recordId_of_fieldText rfl hne
    exact .inr (hkey.2 ▸ hid ▸ ⟨fieldText_of_get? (hnormalize ..), hne⟩)
  · exact .inl ⟨_, hentry, rfl⟩

theorem keyed_enqueuePatch (h : o.queue.Keyed) (hne : fieldText record "id" ≠ "") :
    (enqueuePatch opts table o record).queue.Keyed := by
  refine keyed_of_entries h fun key record' hentry => ?_
  rw [entry_enqueuePatch] at hentry
  split_ifs at hentry with hkey
  · cases hentry
    subst hkey
    have hid := recordId_of_fieldText rfl hne
    unfold patchedRecord patchOperation
    cases hqueued : o.queue.upserts.get₂ table (recordId record) with
    | some queued =>
      refine .inl ⟨.record queued, by simp [entry, MutationQueue.entry, hqueued], ?_⟩
      unfold mergeIntoUpsert Entry.idField
      cases hget : queued.get? "id" <;> simp [hget]
    | none =>
      refine .inr ⟨(fieldText_of_get? ?_).trans hid.symm, hid ▸ hne⟩
      rw [get?_spread, hnormalize]
      cases hget : record.get? "id" with
      | some _ => rfl
      | none => simp [fieldText, hget] at hne
  · exact .inl ⟨_, hentry, rfl⟩

theorem keyed_replaceRecord (h : o.queue.Keyed) (hne : fieldText record "id" ≠ "") :
    (replaceRecord opts table o record).queue.Keyed := by
  refine keyed_of_entries h fun key record' hentry => ?_
  rw [entry_replaceRecord] at hentry
  split at hentry
  · rename_i hkey
    cases hentry
    have hid := recordId_of_fieldText rfl hne
    exact .inr (hkey ▸ hid ▸ ⟨fieldText_of_get? (hnormalize ..), hne⟩)
  · exact .inl ⟨_, hentry, rfl⟩

theorem keyed_repairing {state : WorkspaceState} (h : o.queue.Keyed) (hrep : Repairing opts state o o') : o'.queue.Keyed := by
  refine keyed_of_entries h fun key record hentry => ?_
  obtain ⟨op, table, id⟩ := key
  by_cases hop : op = .upsert
  · subst hop
    obtain ⟨record', hget, hrecord⟩ := map_eq_some_iff.mp hentry
    cases hrecord
    rcases hrep.upserts table id record hget with hold | ⟨-, hne, found, hfound, rfl⟩
    · exact .inl ⟨.record record, by simp [entry, MutationQueue.entry, hold], rfl⟩
    refine .inr ⟨(fieldText_of_get? (hnormalize ..)).trans ?_, hne⟩
    unfold unsyncedParent recordById at hfound
    split at hfound
    · cases hfound
    rename_i hlisted
    split_ifs at hfound
    cases hfound
    simpa using find?_some hlisted
  · exact .inl ⟨_, (hrep.other _ hop).symm.trans hentry, rfl⟩

theorem keyed_repairingDuplicates {state : WorkspaceState} {acc : DuplicateRepair} (h : o.queue.Keyed)
    (hplans : ∀ plan ∈ stateTable state "kehoach", fieldText plan "id" ≠ "") (hrep : RepairingDuplicates opts state o acc) :
    acc.outbox.queue.Keyed := by
  refine keyed_of_entries h fun key record hentry => (hrep.grown key _ hentry).imp_right ?_
  rintro ⟨plan, hplan, merged, hmerged, hid, hkey, -⟩
  have hne := hplans plan hplan
  rw [hkey, recordId_of_fieldText rfl hne]
  exact ⟨fieldText_of_get? ((hid.trans (hnormalize ..)).trans hmerged), hne⟩

end Outbox

/-- The records a command is given have an id that is kept as the key, and a queue it loads is keyed. -/
def Command.Identifies : Command → Prop
  | .upsert _ records _ | .patch _ records _ | .replaceTable _ records _ =>
    ∀ record ∈ records, hasRecordId record = true → fieldText record "id" ≠ ""
  | .repairDuplicatePlanVersions state => ∀ plan ∈ stateTable state "kehoach", fieldText plan "id" ≠ ""
  | .hydrate queue _ | .restore queue _ => ∀ q, queue = some q → q.Keyed
  | _ => True

section Reached

open Outbox

variable {opts : OutboxOptions} (hnormalize : ∀ record table, (opts.normalizeRecord record table).get? "id" = record.get? "id")

include hnormalize

/-- A command leaves every record under its own id. -/
theorem keyed_step {o : Outbox} (h : o.queue.Keyed) {c : Command} (hc : c.Identifies) : (step opts o c).queue.Keyed := by
  refine step_inv opts (fun o => o.queue.Keyed) (fun hsheds _ h => keyed_noNew h (.of_sheds hsheds)) h ?_
  cases c with
  | upsert => exact fun record hmem hid _ ho => keyed_enqueueUpsert hnormalize ho (hc record hmem hid)
  | patch => exact fun record hmem hid _ ho => keyed_enqueuePatch hnormalize ho (hc record hmem hid)
  | replaceTable table records bases =>
    change (replaceTable opts table records bases o).1.queue.Keyed
    unfold replaceTable
    dsimp only
    split
    · exact h
    refine keyed_noNew (foldl_inv _ (fun o : Outbox => o.queue.Keyed) _ (fun o record hrecord ho => ?_)
      (keyed_noNew h (.of_sheds ((sheds_capture table bases o).trans (sheds_emptyTable ..)))))
      (.of_sheds ((sheds_filterDeletions ..).trans (sheds_touch _)))
    obtain ⟨hmem, hid⟩ := mem_filter.mp hrecord
    exact keyed_replaceRecord hnormalize ho (hc record hmem hid)
  | delete table =>
    refine fun record _ _ o ho => keyed_of_entries ho fun key record' hentry => .inl ⟨.record record', ?_, rfl⟩
    rw [entry_enqueueDelete_of_ne] at hentry
    · split at hentry
      · cases hentry
      · exact hentry
    · rintro rfl
      obtain ⟨_, -, hdeletion⟩ := map_eq_some_iff.mp hentry
      cases hdeletion
  | serverRowVersion entries => exact keyed_noNew h (noNew_applyServerRowVersions entries o)
  | repairDuplicatePlanVersions =>
    intro repaired hsome
    obtain ⟨acc, hrep, hsheds⟩ := repairDuplicatePlanVersions_spec hsome
    exact keyed_noNew (keyed_repairingDuplicates hnormalize h hc hrep) (.of_sheds hsheds)
  | snapshotForSync =>
    obtain ⟨o', hrep, hsheds⟩ := snapshotForSync_spec opts o
    exact keyed_noNew (keyed_repairing hnormalize h hrep) (.of_sheds hsheds)
  | hydrate queue localDeletions => exact keyed_load queue localDeletions o hc
  | restore queue localDeletions => exact keyed_load queue localDeletions o hc
  | _ => trivial

/-- In every outbox that such commands reach, the records are queued under their own ids. -/
theorem keyed_run {cs : List Command} (hcs : ∀ c ∈ cs, c.Identifies) : (run opts (newOutbox opts) cs).queue.Keyed :=
  foldl_inv _ (fun o : Outbox => o.queue.Keyed) cs (fun _ c hc ho => keyed_step hnormalize ho (hcs c hc))
    ⟨fun _ _ _ hget => (by cases hget), fun _ _ _ hget => (by cases hget)⟩

end Reached

/-! ## The theorem -/

/-- The receipt lists, with the generations of the snapshot, the records and deletions the
payload carries, and nothing else. -/
def ListsExactly (snapshot receipt : Receipt) (payload : Payload) : Prop :=
  ∀ table id, ((∃ record ∈ (payload.tables.get? table).getD [], recordId record = id) ∨
      ∃ item ∈ payload.deletions, item.names table id = true) ↔
    ∃ operation generation, receipt.Names ⟨operation, table, id⟩ generation ∧
      snapshot.Names ⟨operation, table, id⟩ generation

/-- What a push sends and what its receipt lists, for a queue whose records are stored under their own ids and a serializer
that keeps the id.

1. The receipt lists exactly the operations that are sent one by one, with their generations, and the tables sent whole.
2. A table that does not go whole carries a record for exactly those of its upserts and patches.
3. A table that goes whole carries the patched records, and beside them only records of the state.
4. The payload deletes what the queue deletes and what is deleted locally.
5. Acknowledging the receipt leaves every operation that was not sent as it is. -/
theorem receipt_lists_sent (queue : MutationQueue) (state : WorkspaceState)
    (localDeletions : List Deletion) (isSyncedType : String → Bool)
    (normalizeRecord : Record → String → Record) (snapshot receipt : Receipt) (payload : Payload)
    (hkeyed : queue.Keyed) (hserialize : ∀ record table, (normalizeRecord record table).get? "id" = record.get? "id")
    (hbuilt : buildMutationPayload queue state localDeletions isSyncedType normalizeRecord snapshot = some (payload, receipt)) :
    let sent := Sent queue state isSyncedType normalizeRecord
    ((∀ key generation, receipt.Names key generation ↔ snapshot.Names key generation ∧ sent key) ∧
      ∀ table generation, receipt.dirtyTables.get? table = some generation ↔
        snapshot.dirtyTables.get? table = some generation ∧
          SentWhole queue isSyncedType table) ∧
    (∀ table, ¬SentWhole queue isSyncedType table →
      (∀ id, (∃ record ∈ (payload.tables.get? table).getD [], recordId record = id) ↔
        sent ⟨.upsert, table, id⟩ ∨ sent ⟨.patch, table, id⟩) ∧
      ∀ record, record ∈ (payload.tables.get? table).getD [] ↔
        ∃ id, (sentPatch queue state isSyncedType normalizeRecord table id).or
          (sentUpsert queue isSyncedType normalizeRecord table id) = some record) ∧
    (∀ table, SentWhole queue isSyncedType table →
      (∀ id record, sentPatch queue state isSyncedType normalizeRecord table id = some record →
        record ∈ (payload.tables.get? table).getD []) ∧
      ∀ record ∈ (payload.tables.get? table).getD [],
        (∃ id, sentPatch queue state isSyncedType normalizeRecord table id = some record) ∨
          ∃ listed ∈ stateTable state table, record = normalizeRecord listed table) ∧
    (∀ table id, (∃ item ∈ payload.deletions, item.names table id = true) ↔
      sent ⟨.delete, table, id⟩ ∨
        (table ≠ "" ∧ id ≠ "" ∧ ∃ item ∈ localDeletions, item.names table id = true)) ∧
    (∀ (opts : OutboxOptions) (o : Outbox) key, ¬sent key → (o.ack opts receipt).1.entry key = o.entry key) := by
  intro sent
  obtain ⟨htables, hdeletions, hreceipt⟩ := buildMutationPayload_eq hbuilt
  have hnames := names_receipt hbuilt
  refine ⟨⟨hnames, fun table generation => ?_⟩, fun table hwhole => ⟨fun id => ?_, fun record => ?_⟩,
    fun table hwhole => ?_, fun table id => ?_, fun opts o key hnot => ?_⟩
  · have hlisted : ((payloadDraft queue state isSyncedType normalizeRecord).at table).whole ↔ _ :=
      whole_payloadDraft table
    simp only [PayloadDraft.at] at hlisted
    rw [hreceipt]
    simp only [filterReceiptBySentOperations, Dict.get?_filterKeys, decide_eq_true_eq, hlisted]
    split
    · rename_i hyes
      simp [hyes]
    · rename_i hno
      simp [hno]
  · rw [htables]
    simp only [mem_table_of_not_whole hkeyed hserialize hwhole]
    constructor
    · rintro ⟨record, ⟨at', hat⟩, rfl⟩
      rcases or_eq_some_iff.mp hat with hpatch | ⟨-, hupsert⟩
      · obtain ⟨hid, hne⟩ := recordId_of_patched hkeyed hserialize hpatch
        rw [hid]
        exact .inr ⟨hne, by simp [hpatch]⟩
      · obtain ⟨hid, hne⟩ := id_of_upserted hkeyed hserialize hupsert
        rw [recordId_of_fieldText hid hne]
        exact .inl ⟨hne, by simp [hupsert]⟩
    · intro hsent
      have hsome : ((sentPatch queue state isSyncedType normalizeRecord table id).or
          (sentUpsert queue isSyncedType normalizeRecord table id)).isSome = true := by
        rw [isSome_or, Bool.or_eq_true]
        rcases hsent with h | h
        · exact .inr h.2
        · exact .inl h.2
      obtain ⟨record, hrecord⟩ := isSome_iff_exists.mp hsome
      refine ⟨record, ⟨id, hrecord⟩, ?_⟩
      rcases or_eq_some_iff.mp hrecord with hpatch | ⟨-, hupsert⟩
      · exact (recordId_of_patched hkeyed hserialize hpatch).1
      · obtain ⟨hid, hne⟩ := id_of_upserted hkeyed hserialize hupsert
        exact recordId_of_fieldText hid hne
  · rw [htables]
    exact mem_table_of_not_whole hkeyed hserialize hwhole record
  · rw [htables]
    exact mem_table_of_whole hkeyed hserialize hwhole
  · rw [hdeletions, mem_payloadDeletions]
    simp only [sent, Sent, mem_append, or_and_right, exists_or]
    constructor
    · rintro ⟨htable, hid, hqueue | hlocal⟩
      · exact .inl ⟨hid, htable, hqueue⟩
      · exact .inr ⟨htable, hid, hlocal⟩
    · rintro (⟨hid, htable, hqueue⟩ | ⟨htable, hid, hlocal⟩)
      · exact ⟨htable, hid, .inl hqueue⟩
      · exact ⟨htable, hid, .inr hlocal⟩
  · exact Outbox.entry_ack_kept fun generation hgen => absurd ((hnames key generation).mp hgen).2 hnot

theorem receipt_lists_sent_packages :
    let name : String → String → Record := fun id name => .ofList [("id", .str id), ("tenGoiThau", .str name)]
    let queue : MutationQueue := { createEmptyMutationQueue "1" "m1" with
      upserts := .ofList [("goithau", .ofList [("g1", name "g1" "A")])]
      patches := .ofList [("goithau", .ofList [("g2", name "g2" "B"), ("g3", name "g3" "C")])] }
    let state : WorkspaceState := .ofList [("goithau", [name "g2" "old"])]
    let snapshot : Receipt := ⟨"m1", 1, .ofList [("goithau", .ofList [("g1", 1)])],
      .ofList [("goithau", .ofList [("g2", 2), ("g3", 3)])], .empty, .empty, .empty, .empty, .empty⟩
    ∃ payload receipt, buildMutationPayload queue state [] (fun _ => true) (fun record _ => record) snapshot =
        some (payload, receipt) ∧
      receipt.Names ⟨.upsert, "goithau", "g1"⟩ 1 ∧ receipt.Names ⟨.patch, "goithau", "g2"⟩ 2 ∧
      (∀ generation, ¬receipt.Names ⟨.patch, "goithau", "g3"⟩ generation) ∧
      ∀ o : Outbox, (o.ack plainOptions receipt).1.entry ⟨.patch, "goithau", "g3"⟩ = o.entry ⟨.patch, "goithau", "g3"⟩ := by
  intro name queue state snapshot
  have hkeyed : queue.Keyed := by
    have hupserts : ∀ e ∈ queue.upserts.entries₂, fieldText e.2.2 "id" = e.2.1 ∧ e.2.1 ≠ "" := by decide
    have hpatches : ∀ e ∈ queue.patches.entries₂, fieldText e.2.2 "id" = e.2.1 ∧ e.2.1 ≠ "" := by decide
    exact ⟨fun table id record h => hupserts (table, id, record) ((mem_entries₂_iff ..).mpr h),
      fun table id record h => hpatches (table, id, record) ((mem_entries₂_iff ..).mpr h)⟩
  have hsome : (buildMutationPayload queue state [] (fun _ => true) (fun record _ => record)
    snapshot).isSome = true := by decide
  obtain ⟨⟨payload, receipt⟩, hbuilt⟩ := isSome_iff_exists.mp hsome
  obtain ⟨⟨hnames, -⟩, -, -, -, hkept⟩ := receipt_lists_sent queue state [] (fun _ => true)
    (fun record _ => record) snapshot receipt payload hkeyed (fun _ _ => rfl) hbuilt
  have hunsent : ¬Sent queue state (fun _ => true) (fun record _ => record) ⟨.patch, "goithau", "g3"⟩ := by
    have hnone : (sentPatch queue state (fun _ => true) (fun record _ => record) "goithau" "g3").isSome = false := by decide
    rintro ⟨-, hsent⟩
    rw [hnone] at hsent
    cases hsent
  have hupsert : Sent queue state (fun _ => true) (fun record _ => record) ⟨.upsert, "goithau", "g1"⟩ := ⟨by decide, by decide⟩
  have hpatch : Sent queue state (fun _ => true) (fun record _ => record) ⟨.patch, "goithau", "g2"⟩ := ⟨by decide, by decide⟩
  have hfirst : snapshot.upserts.get₂ "goithau" "g1" = some 1 := by decide
  have hsecond : snapshot.patches.get₂ "goithau" "g2" = some 2 := by decide
  exact ⟨payload, receipt, hbuilt, (hnames _ 1).mpr ⟨hfirst, hupsert⟩, (hnames _ 2).mpr ⟨hsecond, hpatch⟩,
    fun generation hgen => hunsent ((hnames _ generation).mp hgen).2, fun o => hkept plainOptions o _ hunsent⟩

/-- A package queued in a table that goes whole travels with the table, and a deletion known
only locally travels too, but the receipt lists neither. -/
theorem whole_table_unlisted :
    let package : Record := .ofList [("id", .str "g1")]
    let queue : MutationQueue := { createEmptyMutationQueue "1" "m1" with
      dirtyTables := .ofList [("goithau", true)]
      upserts := .ofList [("goithau", .ofList [("g1", package)])] }
    let state : WorkspaceState := .ofList [("goithau", [package])]
    let snapshot : Receipt := ⟨"m1", 1, .ofList [("goithau", .ofList [("g1", 1)])], .empty, .empty,
      .ofList [("goithau", 2)], .empty, .empty, .empty⟩
    ∃ pushed, buildMutationPayload queue state [⟨"kehoach", "p1", none⟩] (fun _ => true)
        (fun record _ => record) snapshot = some pushed ∧
      (∃ record ∈ (pushed.1.tables.get? "goithau").getD [], recordId record = "g1") ∧
      snapshot.Names ⟨.upsert, "goithau", "g1"⟩ 1 ∧
      (∀ operation generation, ¬pushed.2.Names ⟨operation, "goithau", "g1"⟩ generation) ∧
      (∃ item ∈ pushed.1.deletions, item.names "kehoach" "p1" = true) ∧
      (∀ operation generation, ¬pushed.2.Names ⟨operation, "kehoach", "p1"⟩ generation) ∧
      ¬ListsExactly snapshot pushed.2 pushed.1 := by
  intro package queue state snapshot
  have hsome : (buildMutationPayload queue state [⟨"kehoach", "p1", none⟩] (fun _ => true)
    (fun record _ => record) snapshot).isSome = true := by decide
  obtain ⟨⟨payload, receipt⟩, hbuilt⟩ := isSome_iff_exists.mp hsome
  obtain ⟨htables, hdeletions, -⟩ := buildMutationPayload_eq hbuilt
  have hcarried : ∃ record ∈ (payload.tables.get? "goithau").getD [], recordId record = "g1" := by
    rw [htables]
    decide
  have hdeleted : ∃ item ∈ payload.deletions, item.names "kehoach" "p1" = true := by
    rw [hdeletions]
    decide
  have hunlisted : ∀ key, (key = ("goithau", "g1") ∨ key = ("kehoach", "p1")) →
      ∀ operation generation, ¬receipt.Names ⟨operation, key.1, key.2⟩ generation := by
    intro key hkey operation generation hgen
    obtain ⟨-, -, hsent⟩ := (names_receipt hbuilt _ generation).mp hgen
    cases operation with
    | upsert =>
      have hnone : ∀ key ∈ [("goithau", "g1"), ("kehoach", "p1")], (sentUpsert queue (fun _ => true)
        (fun record _ => record) key.1 key.2).isSome = false := by decide
      simp [hnone key (by simpa using hkey)] at hsent
    | patch =>
      have hnone : ∀ key ∈ [("goithau", "g1"), ("kehoach", "p1")], (sentPatch queue state
        (fun _ => true) (fun record _ => record) key.1 key.2).isSome = false := by decide
      simp [hnone key (by simpa using hkey)] at hsent
    | delete =>
      obtain ⟨-, item, hitem, -⟩ := hsent
      cases hitem
  have hfirst : snapshot.upserts.get₂ "goithau" "g1" = some 1 := by decide
  refine ⟨(payload, receipt), hbuilt, hcarried, hfirst, hunlisted _ (.inl rfl), hdeleted,
    hunlisted _ (.inr rfl), fun hexactly => ?_⟩
  obtain ⟨operation, generation, hgen, -⟩ := (hexactly "goithau" "g1").mp (.inl hcarried)
  exact hunlisted _ (.inl rfl) operation generation hgen

end Bidding
