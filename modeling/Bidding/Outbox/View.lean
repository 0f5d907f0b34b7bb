import Bidding.Foundations.Stamped
import Bidding.Outbox.Exchange

/-!
# What the outbox holds under a record key

`Outbox.view` reads the outbox as a stamped store. For each write the methods share there is one lemma about `entry` and
one about `recordGenerations`, from which everything that follows is derived.
-/

namespace Bidding

open Foundations

inductive Entry where
  | record (r : Record)
  | deletion (d : Deletion)
  deriving DecidableEq

def MutationQueue.entry (queue : MutationQueue) (key : RecordKey) : Option Entry :=
  match key.operation with
  | .upsert => (queue.upserts.get₂ key.table key.id).map Entry.record
  | .patch => (queue.patches.get₂ key.table key.id).map Entry.record
  | .delete => (queue.deletes.find? (·.names key.table key.id)).map Entry.deletion

namespace Outbox

variable {opts : OutboxOptions}

def entry (o : Outbox) (key : RecordKey) : Option Entry := o.queue.entry key

def stamp (o : Outbox) (key : RecordKey) : Option ℕ := o.recordGenerations.get? key

def view (o : Outbox) : Stamped RecordKey Entry := ⟨o.generation, o.stamp, o.entry⟩

theorem names_iff (item : Deletion) (table id : String) : item.names table id = true ↔ item.table = table ∧ item.id = id := by
  simp [Deletion.names]

/-! ## The shared writes -/

theorem entry_part (o : Outbox) (part : RecordMap) (table id : String) : o.entry ⟨part.operation, table, id⟩ =
    ((o.queue.records part).get₂ table id).map Entry.record := by
  cases part <;> rfl

variable (part : RecordMap)

variable (table id : String)

theorem entry_setRecord (record : Record) (o : Outbox) (key : RecordKey) : (setRecord part table id record o).entry key =
    if key = ⟨part.operation, table, id⟩ then some (.record record) else o.entry key := by
  obtain ⟨op, t, i⟩ := key
  cases part <;> cases op <;>
    simp [entry, MutationQueue.entry, setRecord, MutationQueue.mapRecords, Dict.get₂_set₂,
      RecordMap.operation, RecordKey.mk.injEq, apply_ite (Option.map Entry.record)]

variable (o : Outbox)

variable (key : RecordKey)

theorem entry_eraseRecord : (eraseRecord part table id o).entry key =
    if key = ⟨part.operation, table, id⟩ then none else o.entry key := by
  obtain ⟨op, t, i⟩ := key
  cases part <;> cases op <;>
    simp [entry, MutationQueue.entry, eraseRecord, MutationQueue.mapRecords, Dict.get₂_erase₂,
      RecordMap.operation, RecordKey.mk.injEq, apply_ite (Option.map Entry.record)]

@[simp] theorem entry_dropEmptyTable (table : String) (o : Outbox)
    (key : RecordKey) : (dropEmptyTable part table o).entry key = o.entry key := by
  obtain ⟨op, t, i⟩ := key
  cases part <;> cases op <;>
    simp [entry, MutationQueue.entry, dropEmptyTable, MutationQueue.mapRecords]

theorem entry_filterDeletions (keeps : String → String → Bool) (o : Outbox) (key : RecordKey) :
    (filterDeletions keeps o).entry key =
      if key.operation = .delete ∧ keeps key.table key.id = false then none else o.entry key := by
  obtain ⟨op, t, i⟩ := key
  cases op with
  | upsert => simp [entry, MutationQueue.entry, filterDeletions]
  | patch => simp [entry, MutationQueue.entry, filterDeletions]
  | delete =>
    have hp : ∀ item : Deletion, item.names t i = true → keeps item.table item.id = keeps t i := by
      intro item h
      rw [names_iff] at h
      rw [h.1, h.2]
    simp only [entry, MutationQueue.entry, filterDeletions, List.find?_filter, true_and]
    cases hk : keeps t i with
    | false =>
      have : o.queue.deletes.find? (fun item => keeps item.table item.id && item.names t i) = none := by
        rw [List.find?_eq_none]
        intro item _ h
        rw [Bool.and_eq_true] at h
        rw [hp item h.2, hk] at h
        exact absurd h.1 (by simp)
      simp [this]
    | true =>
      have : (fun item : Deletion => keeps item.table item.id && item.names t i) = fun item => item.names t i := by
        funext item
        cases hn : item.names t i with
        | false => simp
        | true => simp [hp item hn, hk]
      simp [this]

theorem entry_dropDeletion : (dropDeletion table id o).entry key =
    if key = ⟨.delete, table, id⟩ then none else o.entry key := by
  obtain ⟨op, t, i⟩ := key
  rw [dropDeletion, entry_filterDeletions]
  simp only [Bool.not_eq_false', Bool.and_eq_true, decide_eq_true_eq, RecordKey.mk.injEq]

@[simp] theorem entry_forget (key key' : RecordKey) (o : Outbox) : (forget key o).entry key' = o.entry key' := rfl

@[simp] theorem entry_bumpRecord (key key' : RecordKey) (o : Outbox) : (bumpRecord key o).entry key' = o.entry key' := rfl

@[simp] theorem entry_touchForNewPayload : (touchForNewPayload opts o).entry key = o.entry key := rfl

@[simp] theorem entry_releaseBaseSnapshot : (releaseBaseSnapshot table id o).entry key = o.entry key := by
  unfold releaseBaseSnapshot
  split <;> rfl

theorem stamp_forget (key key' : RecordKey) (o : Outbox) :
    (forget key o).stamp key' = if key' = key then none else o.stamp key' :=
  Dict.get?_erase _ _ _

theorem stamp_bumpRecord (key key' : RecordKey) (o : Outbox) :
    (bumpRecord key o).stamp key' = if key' = key then some (o.generation + 1) else o.stamp key' :=
  Dict.get?_set _ _ _ _

@[simp] theorem stamp_setRecord (record : Record)
    (o : Outbox) (key : RecordKey) : (setRecord part table id record o).stamp key = o.stamp key :=
  rfl

@[simp] theorem stamp_eraseRecord : (eraseRecord part table id o).stamp key = o.stamp key := rfl

@[simp] theorem stamp_dropEmptyTable (table : String) (o : Outbox)
    (key : RecordKey) : (dropEmptyTable part table o).stamp key = o.stamp key := rfl

@[simp] theorem stamp_dropDeletion : (dropDeletion table id o).stamp key = o.stamp key := rfl

@[simp] theorem stamp_releaseBaseSnapshot : (releaseBaseSnapshot table id o).stamp key = o.stamp key := by
  unfold releaseBaseSnapshot
  split <;> rfl

@[simp] theorem generation_forget (o : Outbox) : (forget key o).generation = o.generation := rfl

@[simp] theorem generation_setRecord (record : Record)
    (o : Outbox) : (setRecord part table id record o).generation = o.generation := rfl

@[simp] theorem generation_eraseRecord : (eraseRecord part table id o).generation = o.generation := rfl

@[simp] theorem generation_dropEmptyTable (table : String) (o : Outbox) :
    (dropEmptyTable part table o).generation = o.generation := rfl

@[simp] theorem generation_dropDeletion : (dropDeletion table id o).generation = o.generation := rfl

@[simp] theorem generation_releaseBaseSnapshot : (releaseBaseSnapshot table id o).generation = o.generation := by
  unfold releaseBaseSnapshot
  split <;> rfl

theorem entry_of_not_hasChanges {o : Outbox} (h : mutationQueueHasChanges o.queue = false)
    (key : RecordKey) : o.entry key = none := by
  obtain ⟨hu, hp, hd⟩ := empty_of_not_hasChanges h
  obtain ⟨op, t, i⟩ := key
  cases op <;> simp [entry, MutationQueue.entry, hu, hp, hd]

@[simp] theorem entry_clear : (clear opts o).entry key = none := by
  obtain ⟨op, t, i⟩ := key
  cases op <;> rfl

@[simp] theorem entry_persist : (persist opts o).entry key = o.entry key := by
  unfold persist
  cases h : mutationQueueHasChanges o.queue with
  | true => rfl
  | false => simp [entry_of_not_hasChanges h]

theorem stamp_persist : (persist opts o).stamp key = o.stamp key ∨
    ((persist opts o).stamp key = none ∧ o.entry key = none) := by
  unfold persist
  cases h : mutationQueueHasChanges o.queue with
  | true => exact .inl rfl
  | false => exact .inr ⟨rfl, entry_of_not_hasChanges h key⟩

@[simp] theorem generation_persist : (persist opts o).generation = o.generation := by
  unfold persist
  split <;> rfl

theorem stamp_persist_of_some {o : Outbox} {key : RecordKey} {entry : Entry}
    (h : o.entry key = some entry) : (persist opts o).stamp key = o.stamp key := by
  rcases @stamp_persist opts o key with h' | ⟨-, h'⟩
  · exact h'
  · rw [h] at h'; cases h'

end Outbox

end Bidding
