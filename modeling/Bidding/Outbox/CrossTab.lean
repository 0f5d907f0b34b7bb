import Bidding.Foundations.SharedCell
import Bidding.Outbox.Store

/-!
# Many tabs, one durable queue

What the durable queue holds under one record is a shared value: a save of a tab merges the stored value, that of the tab's
last request, and its new one. But a newly saved deletion also clears the record whose id is its own up to the first `::`.
-/

namespace Bidding

open Foundations List Dict

structure Slot where
  upsert : Option Record
  patch : Option Record
  deletion : Option Deletion

def Slot.empty : Slot := ⟨none, none, none⟩

def MutationQueue.slot (queue : MutationQueue) (key : TableKey) : Slot :=
  ⟨queue.upserts.get₂ key.1 key.2, queue.patches.get₂ key.1 key.2, (deletionMap queue.deletes).get? key⟩

def queueSlot (queue : Option MutationQueue) (key : TableKey) : Slot :=
  (queue.map fun queue => queue.slot key).getD .empty

def envelopeSlot (envelope : Option Envelope) (key : TableKey) : Slot :=
  queueSlot (envelopeQueue envelope) key

variable {κ : Type} {α : Type}

theorem mem_unionKeys [DecidableEq κ] {a b : List κ} {k : κ} : k ∈ unionKeys a b ↔ k ∈ a ∨ k ∈ b := by
  simp only [unionKeys, mem_append, mem_filter, decide_eq_true_eq]
  tauto

theorem nodup_unionKeys [DecidableEq κ] {a b : List κ} (ha : a.Nodup) (hb : b.Nodup) : (unionKeys a b).Nodup := by
  refine nodup_append.mpr ⟨ha, hb.filter _, fun x hx y hy hxy => ?_⟩
  subst hxy
  simp only [mem_filter, decide_eq_true_eq] at hy
  exact hy.2 hx

theorem mem_unionKeys_keys [DecidableEq κ] {d e : Dict κ α} {k : κ} :
    k ∈ unionKeys d.keys e.keys ↔ ¬(d.get? k = none ∧ e.get? k = none) := by
  rw [mem_unionKeys, mem_keys_iff, mem_keys_iff, not_and_or,
    ← Option.ne_none_iff_exists', ← Option.ne_none_iff_exists']

theorem nodup_unionKeys_keys [DecidableEq κ] (d e : Dict κ α) :
    (unionKeys d.keys e.keys).Nodup := nodup_unionKeys d.nodupKeys e.nodupKeys

theorem get?_ofList [DecidableEq κ] (l : List (κ × α)) (k : κ) : (Dict.ofList l).get? k = Dict.lookup k l.reverse := by
  rw [Dict.ofList, Dict.get?_foldl_set]
  simp

theorem get?_deletionMap_filter (l : List Deletion) (table id : String) (key : TableKey) :
    (deletionMap (l.filter fun item => !item.names table id)).get? key =
      if key = (table, id) then none else (deletionMap l).get? key := by
  have hmap : ((l.filter fun item => !item.names table id).map fun item =>
      ((item.table, item.id), item)) =
      (l.map fun item => ((item.table, item.id), item)).filter fun e => e.1 ≠ (table, id) := by
    rw [filter_map]
    congr 1
    refine filter_congr fun item _ => ?_
    simp [Deletion.names, Function.comp]
  unfold deletionMap
  rw [get?_ofList, get?_ofList, hmap, ← filter_reverse, lookup_filter (fun k => decide (k ≠ (table, id)))]
  by_cases h : key = (table, id) <;> simp [h]

def WellKeyed (d : Dict TableKey Deletion) : Prop :=
  ∀ key item, d.get? key = some item → key = (item.table, item.id)

theorem wellKeyed_deletionMap (l : List Deletion) : WellKeyed (deletionMap l) := by
  intro key item h
  unfold deletionMap at h
  rw [get?_ofList] at h
  have hmem := Dict.mem_of_lookup_eq_some h
  rw [mem_reverse] at hmem
  obtain ⟨item', -, heq⟩ := mem_map.mp hmem
  simp only [Prod.mk.injEq] at heq
  obtain ⟨hk, rfl⟩ := heq
  exact hk.symm

variable {d : Dict TableKey Deletion}

theorem WellKeyed.set (h : WellKeyed d) {key : TableKey}
    {item : Deletion} (hitem : key = (item.table, item.id)) : WellKeyed (d.set key item) := by
  intro key' item' hget
  rw [Dict.get?_set] at hget
  split at hget
  · rename_i heq
    cases hget
    rw [heq, hitem]
  · exact h key' item' hget

theorem WellKeyed.erase (h : WellKeyed d) (key : TableKey) : WellKeyed (d.erase key) := by
  intro key' item' hget
  rw [Dict.get?_erase] at hget
  split at hget
  · cases hget
  · exact h key' item' hget

theorem get?_deletionMap_values (h : WellKeyed d) (key : TableKey) : (deletionMap d.values).get? key = d.get? key := by
  have hmap : (d.values.map fun item => ((item.table, item.id), item)) = d.entries := by
    rw [values, map_map]
    refine (map_congr_left fun e he => ?_).trans (map_id _)
    have := h e.1 e.2 ((mem_entries_iff d e.1 e.2).mp he)
    simp [Function.comp, ← this]
  unfold deletionMap
  rw [hmap, get?_ofList, lookup_reverse_of_nodup d.nodupKeys]
  rfl

/-! ## The merge of one slot -/

def Slot.mergeUpsert (before after : Option Record) (c : Slot) : Slot :=
  match after with
  | some record => if before = some record then c else ⟨some record, none, none⟩
  | none => if before.isSome && c.upsert = before then { c with upsert := none } else c

/-- What the merge of the patches does to a slot. -/
def Slot.mergePatch (id : String) (before after : Option Record) (c : Slot) : Slot :=
  if before = none ∧ after = none then c
  else
    let fields := mergePatchFields (c.patch.getD .empty) (before.getD .empty) (after.getD .empty)
    let deletion := if fields.2.isEmpty then c.deletion else none
    match (if fields.2.isEmpty then none else c.upsert) with
    | some upsert => ⟨some (applyRecordPatch upsert fields.2), none, deletion⟩
    | none =>
      if hasPatchFields fields.1 then
        let idValue := (((patchId after).or (patchId c.patch)).or (patchId before)).getD (.str id)
        ⟨c.upsert, some (fields.1.set "id" idValue), deletion⟩
      else ⟨c.upsert, none, deletion⟩

/-- What the merge of the deletions does to a slot; `whole` says that the id has no separator. -/
def Slot.mergeDeletion (whole : Bool) (before after : Option Deletion) (c : Slot) : Slot :=
  match after with
  | some item =>
    if before = some item then c
    else ⟨if whole then none else c.upsert, if whole then none else c.patch, some item⟩
  | none => if before.isSome && c.deletion = before then { c with deletion := none } else c

def Slot.merge (key : TableKey) (c b a : Slot) : Slot :=
  ((c.mergeUpsert b.upsert a.upsert).mergePatch key.2 b.patch a.patch).mergeDeletion
    (splitId key.2 = key.2) b.deletion a.deletion

variable {table id : String}

variable {before after : Dict String Record} {m : Option Record → Option Record → Slot → Slot}

theorem slot_mergeUpsert_of_ne
    {key : TableKey} (h : key ≠ (table, id)) (acc : MergeState) :
    (mergeUpsert table before after acc id).queue.slot key = acc.queue.slot key := by
  have hne : ¬(key.1 = table ∧ key.2 = id) := fun hk => h (Prod.ext hk.1 hk.2)
  unfold mergeUpsert
  split
  · split
    · split <;> rfl
    · simp only [MutationQueue.slot, get₂_set₂, get₂_dropIfEmpty, get₂_erase₂,
        get?_deletionMap_filter, if_neg hne, if_neg h]
  · split
    · simp only [MutationQueue.slot, get₂_erase₂, if_neg hne]
    · rfl

theorem slot_mergeUpsert_self (hin : ¬(before.get? id = none ∧ after.get? id = none)) (acc : MergeState) :
    (mergeUpsert table before after acc id).queue.slot (table, id) =
      (acc.queue.slot (table, id)).mergeUpsert (before.get? id) (after.get? id) := by
  unfold mergeUpsert Slot.mergeUpsert
  cases ha : after.get? id with
  | some record =>
    simp only
    split
    · split <;> rfl
    · simp [MutationQueue.slot, get₂_set₂, get₂_erase₂, get?_deletionMap_filter]
  | none =>
    have hb : (before.get? id).isSome = true := by
      rw [Option.isSome_iff_ne_none]
      exact fun hb => hin ⟨hb, ha⟩
    have hup : (acc.queue.slot (table, id)).upsert = acc.queue.upserts.get₂ table id := rfl
    simp only [hb, Bool.true_and, decide_eq_true_eq, hup]
    split
    · simp [MutationQueue.slot, get₂_erase₂]
    · rfl

theorem Slot.mergeUpsert_none (c : Slot) : c.mergeUpsert none none = c := rfl

theorem Slot.mergePatch_none (id : String) (c : Slot) : c.mergePatch id none none = c := rfl

theorem slot_foldIds
    {f : MergeState → String → MergeState}
    (hnone : ∀ c, m none none c = c)
    (hself : ¬(before.get? id = none ∧ after.get? id = none) → ∀ acc, (f acc id).queue.slot (table, id) =
        m (before.get? id) (after.get? id) (acc.queue.slot (table, id)))
    (hother : ∀ acc id', (table, id) ≠ (table, id') →
      (f acc id').queue.slot (table, id) = acc.queue.slot (table, id)) (acc : MergeState) :
    ((unionKeys before.keys after.keys).foldl f acc).queue.slot (table, id) =
      m (before.get? id) (after.get? id) (acc.queue.slot (table, id)) := by
  by_cases hin : id ∈ unionKeys before.keys after.keys
  · have h := foldl_once f (fun acc => acc.queue.slot (table, id))
      (m (before.get? id) (after.get? id)) id _ (nodup_unionKeys_keys before after)
      (hself (mem_unionKeys_keys.mp hin)) (fun acc id' _ hne => hother acc id' (by simp [Ne.symm hne])) acc
    rw [h, if_pos hin]
  · have hsame := foldl_inv f (fun s : MergeState => s.queue.slot (table, id) = acc.queue.slot (table, id)) _
      (fun s id' hid' hs => (hother s id' (by
        rintro heq
        cases heq
        exact hin hid')).trans hs) (s := acc) rfl
    have hmissing := not_not.mp (mt mem_unionKeys_keys.mpr hin)
    rw [hsame, hmissing.1, hmissing.2, hnone]

theorem slot_foldTables (one : String → Dict String Record → Dict String Record → MergeState → String → MergeState)
    {g : MergeState → String → MergeState} {previous requested : TableRecords} {key : TableKey}
    (hnone : ∀ c, m none none c = c)
    (hg : ∀ acc table, (g acc table).queue.slot key = ((unionKeys ((previous.get? table).getD .empty).keys
      ((requested.get? table).getD .empty).keys).foldl (one table ((previous.get? table).getD .empty)
        ((requested.get? table).getD .empty)) acc).queue.slot key)
    (hself : ∀ before after, ¬(before.get? key.2 = none ∧ after.get? key.2 = none) → ∀ acc,
      (one key.1 before after acc key.2).queue.slot key = m (before.get? key.2) (after.get? key.2) (acc.queue.slot key))
    (hother : ∀ table before after id acc, key ≠ (table, id) →
      (one table before after acc id).queue.slot key = acc.queue.slot key) (acc : MergeState) :
    ((unionKeys previous.keys requested.keys).foldl g acc).queue.slot key =
      m (previous.get₂ key.1 key.2) (requested.get₂ key.1 key.2) (acc.queue.slot key) := by
  have h := foldl_once g (fun acc => acc.queue.slot key) (m (previous.get₂ key.1 key.2) (requested.get₂ key.1 key.2)) key.1 _
    (nodup_unionKeys_keys previous requested) (fun acc => ?_) (fun acc table _ hne => ?_) acc
  · rw [h]
    split
    · rfl
    · rename_i hin
      have hmissing := not_not.mp (mt mem_unionKeys_keys.mpr hin)
      simp only [get₂, hmissing.1, hmissing.2, Option.bind_none, hnone]
  · rw [hg, ← Dict.get?_getD_empty previous, ← Dict.get?_getD_empty requested]
    exact slot_foldIds hnone (hself _ _) (fun acc id' h => hother key.1 _ _ id' acc h) acc
  · refine (hg acc table).trans (foldl_inv _ (fun s : MergeState => s.queue.slot key = acc.queue.slot key) _
      (fun s id' _ hs => (hother table _ _ id' s fun heq => hne ?_).trans hs) rfl)
    rw [heq]

variable (previous requested : TableRecords)

theorem slot_mergeUpserts (acc : MergeState) (key : TableKey) : (mergeUpserts previous requested acc).queue.slot key =
    (acc.queue.slot key).mergeUpsert (previous.get₂ key.1 key.2) (requested.get₂ key.1 key.2) :=
  slot_foldTables mergeUpsert Slot.mergeUpsert_none
    (fun acc table => by simp [mergeUpsertTable, MutationQueue.slot]) (fun _ _ => slot_mergeUpsert_self)
    (fun _ _ _ _ acc h => slot_mergeUpsert_of_ne h acc) acc

theorem slot_mergePatch_of_ne
    {key : TableKey} (h : key ≠ (table, id)) (acc : MergeState) :
    (mergePatch table before after acc id).queue.slot key = acc.queue.slot key := by
  have hne : ¬(key.1 = table ∧ key.2 = id) := fun hk => h (Prod.ext hk.1 hk.2)
  unfold mergePatch
  simp only
  generalize mergePatchFields _ _ _ = fields
  cases fields.2.isEmpty with
  | true =>
    by_cases hf : hasPatchFields fields.1 = true <;>
      simp [hf, MutationQueue.slot, get₂_set₂, get₂_erase₂, hne]
  | false =>
    simp only [Bool.not_false, if_true]
    cases acc.queue.upserts.get₂ table id with
    | some upsert =>
      simp only [MutationQueue.slot, get₂_set₂, get₂_erase₂, get?_deletionMap_filter, if_neg hne, if_neg h]
    | none =>
      by_cases hf : hasPatchFields fields.1 = true <;>
        simp [hf, MutationQueue.slot, get₂_set₂, get₂_erase₂, get?_deletionMap_filter, hne, h]

theorem slot_mergePatch_self (hin : ¬(before.get? id = none ∧ after.get? id = none)) (acc : MergeState) :
    (mergePatch table before after acc id).queue.slot (table, id) =
      (acc.queue.slot (table, id)).mergePatch id (before.get? id) (after.get? id) := by
  have hup : (acc.queue.slot (table, id)).upsert = acc.queue.upserts.get₂ table id := rfl
  have hpatch : (acc.queue.slot (table, id)).patch = acc.queue.patches.get₂ table id := rfl
  have hdel : (acc.queue.slot (table, id)).deletion = (deletionMap acc.queue.deletes).get? (table, id) :=
    rfl
  unfold mergePatch Slot.mergePatch
  rw [if_neg hin, hup, hpatch, hdel]
  simp only
  generalize mergePatchFields _ _ _ = fields
  cases fields.2.isEmpty with
  | true =>
    by_cases hf : hasPatchFields fields.1 = true <;>
      simp [hf, MutationQueue.slot, get₂_set₂, get₂_erase₂]
  | false =>
    simp only [Bool.not_false, if_true, Bool.false_eq_true, if_false]
    cases hu : acc.queue.upserts.get₂ table id with
    | some upsert => simp [MutationQueue.slot, get₂_set₂, get₂_erase₂, get?_deletionMap_filter]
    | none =>
      by_cases hf : hasPatchFields fields.1 = true <;>
        simp [hf, MutationQueue.slot, get₂_set₂, get₂_erase₂, get?_deletionMap_filter, hu]

theorem slot_mergePatches (acc : MergeState) (key : TableKey) : (mergePatches previous requested acc).queue.slot key =
    (acc.queue.slot key).mergePatch key.2 (previous.get₂ key.1 key.2) (requested.get₂ key.1 key.2) :=
  slot_foldTables (m := fun b a c => c.mergePatch key.2 b a) mergePatch (Slot.mergePatch_none key.2)
    (fun acc table => by simp [mergePatchTable, MutationQueue.slot]) (fun _ _ => slot_mergePatch_self)
    (fun _ _ _ _ acc h => slot_mergePatch_of_ne h acc) acc

/-! ## Deletions of other records -/

/-- No deletion that is new in `after` has an id whose part before its first separator is the
id of the record. -/
def SplitClear (before after : Dict TableKey Deletion) (key : TableKey) : Prop :=
  ∀ key' item, after.get? key' = some item → before.get? key' ≠ some item → key' ≠ key → (key'.1, splitId key'.2) ≠ key

def mergingSlot (key : TableKey) (acc : MergeState × Dict TableKey Deletion) : Slot :=
  ⟨acc.1.queue.upserts.get₂ key.1 key.2, acc.1.queue.patches.get₂ key.1 key.2, acc.2.get? key⟩

theorem mergingSlot_of_ne {before after : Dict TableKey Deletion} {key key' : TableKey}
    (hsplit : SplitClear before after key) (h : key' ≠ key) (acc : MergeState × Dict TableKey Deletion) :
    mergingSlot key (mergeDeletion before after acc key') = mergingSlot key acc := by
  unfold mergeDeletion
  cases ha : after.get? key' with
  | some item =>
    simp only
    split
    · split <;> rfl
    rename_i hb
    have hne : ¬(key.1 = key'.1 ∧ key.2 = splitId key'.2) := fun hk =>
      hsplit key' item ha hb h (Prod.ext hk.1.symm hk.2.symm)
    simp only [mergingSlot, get₂_dropIfEmpty, get₂_erase₂, if_neg hne, Dict.get?_set_of_ne _ _ (Ne.symm h)]
  | none =>
    simp only
    split
    · simp only [mergingSlot, Dict.get?_erase_of_ne _ (Ne.symm h)]
    · rfl

theorem mergingSlot_self {before after : Dict TableKey Deletion} {key : TableKey}
    (hin : ¬(before.get? key = none ∧ after.get? key = none)) (acc : MergeState × Dict TableKey Deletion) :
    mergingSlot key (mergeDeletion before after acc key) =
      (mergingSlot key acc).mergeDeletion (splitId key.2 = key.2) (before.get? key) (after.get? key) := by
  unfold mergeDeletion Slot.mergeDeletion
  cases ha : after.get? key with
  | some item =>
    simp only
    split
    · split <;> rfl
    by_cases hw : splitId key.2 = key.2
    · simp [mergingSlot, get₂_erase₂, hw]
    · have hne : ¬(key.2 = splitId key.2) := fun h => hw h.symm
      simp [mergingSlot, get₂_erase₂, hw, hne]
  | none =>
    have hb : (before.get? key).isSome = true := by
      rw [Option.isSome_iff_ne_none]
      exact fun hb => hin ⟨hb, ha⟩
    have hdel : (mergingSlot key acc).deletion = acc.2.get? key := rfl
    simp only [hb, Bool.true_and, decide_eq_true_eq, hdel]
    split
    · simp [mergingSlot]
    · rfl

theorem slot_mergeDeletions_eq (previous requested : List Deletion) (acc : MergeState) (key : TableKey) :
    (mergeDeletions previous requested acc).1.queue.slot key = mergingSlot key
      ((unionKeys (deletionMap previous).keys (deletionMap requested).keys).foldl
        (mergeDeletion (deletionMap previous) (deletionMap requested)) (acc, deletionMap acc.queue.deletes)) := by
  have hkeyed : WellKeyed ((unionKeys (deletionMap previous).keys (deletionMap requested).keys).foldl
      (mergeDeletion (deletionMap previous) (deletionMap requested)) (acc, deletionMap acc.queue.deletes)).2 := by
    refine foldl_inv _ (fun s : MergeState × Dict TableKey Deletion => WellKeyed s.2) _
      (fun s key' _ hs => ?_) (wellKeyed_deletionMap _)
    unfold mergeDeletion
    cases ha : (deletionMap requested).get? key' with
    | some item =>
      simp only
      split
      · split <;> exact hs
      · exact hs.set (wellKeyed_deletionMap requested key' item ha)
    | none =>
      simp only
      split
      · exact hs.erase key'
      · exact hs
  simp only [MutationQueue.slot, mergingSlot, mergeDeletions, get?_deletionMap_values hkeyed]

theorem slot_mergeDeletions {previous requested : List Deletion} {key : TableKey}
    (hsplit : SplitClear (deletionMap previous) (deletionMap requested) key) (acc : MergeState) :
    (mergeDeletions previous requested acc).1.queue.slot key =
      (acc.queue.slot key).mergeDeletion (splitId key.2 = key.2) ((deletionMap previous).get? key)
        ((deletionMap requested).get? key) := by
  rw [slot_mergeDeletions_eq]
  by_cases hin : key ∈ unionKeys (deletionMap previous).keys (deletionMap requested).keys
  · have h := foldl_once (mergeDeletion (deletionMap previous) (deletionMap requested))
      (mergingSlot key) (Slot.mergeDeletion (splitId key.2 = key.2) ((deletionMap previous).get? key)
        ((deletionMap requested).get? key)) key (unionKeys (deletionMap previous).keys (deletionMap requested).keys)
      (nodup_unionKeys_keys _ _) (mergingSlot_self (mem_unionKeys_keys.mp hin))
      (fun s key' _ hne => mergingSlot_of_ne hsplit hne s) (acc, deletionMap acc.queue.deletes)
    rw [h, if_pos hin]
    rfl
  · have hsame := foldl_inv (mergeDeletion (deletionMap previous) (deletionMap requested))
      (fun s => mergingSlot key s = acc.queue.slot key) _
      (fun s key' hk hs => (mergingSlot_of_ne hsplit (by rintro rfl; exact hin hk) s).trans hs)
      (s := (acc, deletionMap acc.queue.deletes)) rfl
    have hmissing := not_not.mp (mt mem_unionKeys_keys.mpr hin)
    rw [hsame, hmissing.1, hmissing.2]
    rfl

theorem slot_mergeBaseSnapshots (acc : MergeState × Dict TableKey Deletion) (key : TableKey) :
    (mergeBaseSnapshots previous requested acc).slot key = acc.1.queue.slot key := by
  refine foldl_inv (mergeBaseSnapshot previous requested) (fun s : MergeState => s.queue.slot key = acc.1.queue.slot key)
    (unionKeys (previous.entries₂.map fun entry => (entry.1, entry.2.1))
      (requested.entries₂.map fun entry => (entry.1, entry.2.1))) (fun s key' _ hs => ?_) rfl
  unfold mergeBaseSnapshot
  simp only
  split
  · exact hs
  · split
    · exact hs
    · split <;> exact hs

theorem slot_mergeMutationQueue_patched (current previous requested : Option MutationQueue)
    (key : TableKey) : ∃ acc : MergeState,
    acc.queue.slot key = ((queueSlot current key).mergeUpsert (queueSlot previous key).upsert
      (queueSlot requested key).upsert).mergePatch key.2 (queueSlot previous key).patch (queueSlot requested key).patch ∧
    (mergeMutationQueue current previous requested).slot key = (mergeDeletions ((previous.map MutationQueue.deletes).getD [])
        ((requested.map MutationQueue.deletes).getD []) acc).1.queue.slot key := by
  have hslot : ∀ (queue : Option MutationQueue) (base id : String),
      (queue.getD (createEmptyMutationQueue base id)).slot key = queueSlot queue key := by
    intro queue base id
    cases queue <;> rfl
  have hnorm : ∀ (queue : Option MutationQueue) (base id : String),
      (normalizeMutationQueue queue base id).slot key = queueSlot queue key :=
    fun queue base id => hslot queue base id
  have hdeletes : ∀ queue : Option MutationQueue, (queue.getD (createEmptyMutationQueue "" "")).deletes =
        (queue.map MutationQueue.deletes).getD [] := by
    intro queue
    cases queue <;> rfl
  have hupserts : ∀ queue : Option MutationQueue, (queue.getD (createEmptyMutationQueue "" "")).upserts.get₂ key.1 key.2 =
        (queueSlot queue key).upsert := fun queue => by rw [← hslot queue "" ""]; rfl
  have hpatches : ∀ queue : Option MutationQueue, (queue.getD (createEmptyMutationQueue "" "")).patches.get₂ key.1 key.2 =
        (queueSlot queue key).patch := fun queue => by rw [← hslot queue "" ""]; rfl
  have hmerged : (mergeMutationQueue current previous requested).slot key = (mergeBaseSnapshots _ _ _).slot key := rfl
  rw [hmerged, slot_mergeBaseSnapshots, hdeletes, hdeletes]
  refine ⟨_, ?_, rfl⟩
  rw [slot_mergePatches, slot_mergeUpserts, hnorm, hupserts, hupserts, hpatches, hpatches]

theorem slot_mergeMutationQueue {current previous requested : Option MutationQueue} {key : TableKey}
    (hsplit : SplitClear (deletionMap ((previous.map MutationQueue.deletes).getD []))
      (deletionMap ((requested.map MutationQueue.deletes).getD [])) key) :
    (mergeMutationQueue current previous requested).slot key =
      Slot.merge key (queueSlot current key) (queueSlot previous key) (queueSlot requested key) := by
  have hdeletion : ∀ queue : Option MutationQueue,
      (deletionMap ((queue.map MutationQueue.deletes).getD [])).get? key = (queueSlot queue key).deletion := by
    intro queue
    cases queue <;> rfl
  obtain ⟨acc, hpatched, hmerged⟩ := slot_mergeMutationQueue_patched current previous requested key
  rw [hmerged, slot_mergeDeletions hsplit, hpatched, hdeletion, hdeletion]
  rfl

end Bidding
