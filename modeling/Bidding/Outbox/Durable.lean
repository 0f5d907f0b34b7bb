import Bidding.Outbox.Tabs

/-!
# The durable queue over a run of many tabs

The store of all tabs, read at one record, is a shared cell. Under the conditions of `StepOk` the durable queue holds, for
a record that one tab edits, what that tab saved last.
-/

namespace Bidding

open Foundations List

/-! ## A merge of valid queues is valid -/

/-- Every deletion of a map of deletions satisfies `P`. -/
def AllDeletions (P : Deletion → Prop) (d : Dict TableKey Deletion) : Prop :=
  ∀ key item, d.get? key = some item → P item

variable {P : Deletion → Prop}

theorem allDeletions_deletionMap {l : List Deletion} (h : ∀ item ∈ l, P item) : AllDeletions P (deletionMap l) := by
  intro key item hget
  unfold deletionMap at hget
  rw [get?_ofList] at hget
  have hmem := Dict.mem_of_lookup_eq_some hget
  rw [mem_reverse] at hmem
  obtain ⟨item', hin, heq⟩ := mem_map.mp hmem
  simp only [Prod.mk.injEq] at heq
  obtain ⟨-, rfl⟩ := heq
  exact h _ hin

variable (previous requested : TableRecords)

theorem deletes_mergeUpserts_subset (acc : MergeState) :
    (mergeUpserts previous requested acc).queue.deletes ⊆ acc.queue.deletes := by
  refine foldl_inv (mergeUpsertTable previous requested)
    (fun s : MergeState => s.queue.deletes ⊆ acc.queue.deletes) _ (fun s table _ hs => ?_) (List.Subset.refl _)
  refine foldl_inv (mergeUpsert table _ _)
    (fun s : MergeState => s.queue.deletes ⊆ acc.queue.deletes) _ (fun s id _ hs => ?_) hs
  unfold mergeUpsert
  split
  · split
    · split <;> exact hs
    · exact fun item hitem => hs (mem_of_mem_filter hitem)
  · split <;> exact hs

theorem deletes_mergePatches_subset (acc : MergeState) :
    (mergePatches previous requested acc).queue.deletes ⊆ acc.queue.deletes := by
  refine foldl_inv (mergePatchTable previous requested)
    (fun s : MergeState => s.queue.deletes ⊆ acc.queue.deletes) _ (fun s table _ hs => ?_) (List.Subset.refl _)
  refine foldl_inv (mergePatch table _ _) (fun s : MergeState => s.queue.deletes ⊆ acc.queue.deletes) _ (fun s id _ hs => ?_) hs
  unfold mergePatch
  simp only
  generalize mergePatchFields _ _ _ = fields
  have hqueue : ∀ q : MutationQueue, q.deletes ⊆ acc.queue.deletes → (if (!fields.2.isEmpty) = true then
        { q with deletes := q.deletes.filter fun item => !item.names table id }
        else q).deletes ⊆ acc.queue.deletes := by
    intro q hq
    split
    · exact fun item hitem => hq (mem_of_mem_filter hitem)
    · exact hq
  refine hqueue _ ?_
  split
  · exact hs
  · split <;> exact hs

theorem deletes_mergeMutationQueue
    {current previous requested : Option MutationQueue}
    (hcurrent : ∀ queue, current = some queue → ∀ item ∈ queue.deletes, P item)
    (hrequested : ∀ queue, requested = some queue → ∀ item ∈ queue.deletes, P item) :
    ∀ item ∈ (mergeMutationQueue current previous requested).deletes, P item := by
  have hgetD : ∀ (queue : Option MutationQueue) (base id : String), (∀ q, queue = some q → ∀ item ∈ q.deletes, P item) →
      ∀ item ∈ (queue.getD (createEmptyMutationQueue base id)).deletes, P item := by
    intro queue base id h
    cases queue with
    | none =>
      intro item hitem
      cases hitem
    | some q => exact h q rfl
  have hbase : ∀ (previous requested : TableRecords) (acc : MergeState × Dict TableKey Deletion),
      (mergeBaseSnapshots previous requested acc).deletes = acc.1.queue.deletes := by
    intro previous requested acc
    refine foldl_inv (mergeBaseSnapshot previous requested)
      (fun s : MergeState => s.queue.deletes = acc.1.queue.deletes) _ (fun s key _ hs => ?_) rfl
    unfold mergeBaseSnapshot
    simp only
    split
    · exact hs
    · split
      · exact hs
      · split <;> exact hs
  have hdeletions : ∀ (previous requested : List Deletion) (acc : MergeState),
      (∀ item ∈ acc.queue.deletes, P item) → (∀ item ∈ requested, P item) →
      ∀ item ∈ (mergeDeletions previous requested acc).1.queue.deletes, P item := by
    intro previous requested acc hacc hreq item hitem
    have hmap : AllDeletions P (mergeDeletions previous requested acc).2 := by
      refine foldl_inv (mergeDeletion (deletionMap previous) (deletionMap requested))
        (fun s : MergeState × Dict TableKey Deletion => AllDeletions P s.2) _
        (fun s key _ hs => ?_) (allDeletions_deletionMap hacc)
      unfold mergeDeletion
      split
      · rename_i item' ha
        split
        · split <;> exact hs
        intro key' item'' hget
        rw [Dict.get?_set] at hget
        split at hget
        · cases hget
          exact allDeletions_deletionMap hreq key item' ha
        · exact hs key' item'' hget
      · split
        · intro key' item'' hget
          rw [Dict.get?_erase] at hget
          split at hget
          · cases hget
          · exact hs key' item'' hget
        · exact hs
    obtain ⟨key, hget⟩ := (Dict.mem_values_iff _ _).mp hitem
    exact hmap key item hget
  intro item hitem
  have hmerged : (mergeMutationQueue current previous requested).deletes = (mergeBaseSnapshots _ _ _).deletes := rfl
  rw [hmerged, hbase] at hitem
  refine hdeletions _ _ _ (fun item hitem => ?_) (hgetD _ _ _ hrequested) item hitem
  exact hgetD current _ _ hcurrent item (deletes_mergeUpserts_subset _ _ _ (deletes_mergePatches_subset _ _ _ hitem))

theorem isMutationQueue_iff (queue : MutationQueue) : isMutationQueue queue = true ↔
    ∀ item ∈ queue.deletes, jsTrim item.table ≠ "" ∧ jsTrim item.id ≠ "" := by
  simp [isMutationQueue]

theorem isMutationQueue_envelopeQueue {envelope : Option Envelope} {queue : MutationQueue}
    (h : envelopeQueue envelope = some queue) : isMutationQueue queue = true := by
  cases envelope with
  | none => cases h
  | some envelope =>
    simp only [envelopeQueue, normalizeEnvelope, Option.filter] at h
    split at h
    · rename_i hall
      have hq : envelope.queue = some queue := h
      rw [hq] at hall
      exact hall
    · cases h

theorem isMutationQueue_merge (current previous requested : Option Envelope) :
    isMutationQueue (mergeMutationQueue (envelopeQueue current) (envelopeQueue previous) (envelopeQueue requested)) = true := by
  have hvalid : ∀ envelope queue, envelopeQueue envelope = some queue →
      ∀ item ∈ queue.deletes, jsTrim item.table ≠ "" ∧ jsTrim item.id ≠ "" :=
    fun envelope queue h => (isMutationQueue_iff queue).mp (isMutationQueue_envelopeQueue h)
  exact (isMutationQueue_iff _).mpr (deletes_mergeMutationQueue (hvalid current) (hvalid requested))

def requestSlot (queue : Option MutationQueue) (key : TableKey) : Slot :=
  queueSlot (queue.filter isMutationQueue) key

def queueDeletions (queue : Option MutationQueue) : Dict TableKey Deletion :=
  deletionMap ((queue.map MutationQueue.deletes).getD [])

namespace SharedStore

variable {τ : Type} [DecidableEq τ]

variable (store : SharedStore τ) {queue : Option MutationQueue}

def cellOf (key : TableKey) : SharedCell τ Slot :=
  ⟨envelopeSlot store.durable key, fun tab => envelopeSlot (store.tabs tab).persistedRequestEnvelope key⟩

def StepSplitClear (key : TableKey) (store : SharedStore τ) : StoreStep τ → Prop
  | .persist tab queue _ _ =>
    SplitClear (queueDeletions (envelopeQueue (store.tabs tab).persistedRequestEnvelope))
      (queueDeletions (queue.filter isMutationQueue)) key
  | .hydrate _ => True

def cellStep (key : TableKey) : StoreStep τ → CellStep τ Slot
  | .persist tab queue _ _ => .save tab (requestSlot queue key)
  | .hydrate tab => .load tab

omit [DecidableEq τ] in
theorem envelopeQueue_requestEnvelope (tab : τ) (queue : Option MutationQueue) (localDeletions : List Deletion) (now : ℕ) :
    envelopeQueue (some (store.requestEnvelope tab queue localDeletions now)) = queue.filter isMutationQueue := by
  cases queue with
  | none => rfl
  | some queue =>
    by_cases h : isMutationQueue queue = true <;>
      simp [envelopeQueue, normalizeEnvelope, requestEnvelope, Option.filter, h]

theorem envelopeQueue_normalizeEnvelope (envelope : Option Envelope) :
    envelopeQueue (normalizeEnvelope envelope) = envelopeQueue envelope := by
  cases envelope with
  | none => rfl
  | some envelope =>
    by_cases h : envelope.queue.all isMutationQueue = true <;>
      simp [envelopeQueue, normalizeEnvelope, Option.filter, h]

theorem envelopeQueue_mergeEnvelope (current previous requested : Option Envelope) (now : ℕ) :
    envelopeQueue (some (mergeEnvelope current previous requested now)) =
      some (mergeMutationQueue (envelopeQueue current) (envelopeQueue previous) (envelopeQueue requested)) := by
  have hqueue : (mergeEnvelope current previous requested now).queue =
      some (mergeMutationQueue (envelopeQueue current) (envelopeQueue previous) (envelopeQueue requested)) := rfl
  have hall : (mergeEnvelope current previous requested now).queue.all isMutationQueue = true := by
    rw [hqueue]
    exact isMutationQueue_merge current previous requested
  rw [← hqueue]
  simp [envelopeQueue, normalizeEnvelope, Option.filter, hall]

/-- One record of the shared store takes each step as a cell of its own. -/
theorem cellOf_step (step : StoreStep τ) {key : TableKey} (h : StepSplitClear key store step) :
    (store.step step).cellOf key = SharedCell.step (Slot.merge key) (store.cellOf key) (cellStep key step) := by
  cases step with
  | persist tab queue localDeletions now =>
    have hrequest := envelopeQueue_requestEnvelope store tab queue localDeletions now
    have hdurable : envelopeSlot (store.persist tab queue localDeletions now).durable key =
        Slot.merge key (envelopeSlot store.durable key)
          (envelopeSlot (store.tabs tab).persistedRequestEnvelope key) (requestSlot queue key) := by
      unfold persist envelopeSlot requestSlot
      simp only
      rw [envelopeQueue_mergeEnvelope, hrequest]
      exact slot_mergeMutationQueue h
    have hbase : (fun other => envelopeSlot
        ((store.persist tab queue localDeletions now).tabs other).persistedRequestEnvelope key) =
        Function.update (fun other => envelopeSlot (store.tabs other).persistedRequestEnvelope key)
          tab (requestSlot queue key) := by
      funext other
      by_cases hother : other = tab
      · subst hother
        simp [persist, envelopeSlot, requestSlot, hrequest]
      · simp [persist, Function.update_of_ne hother]
    simp only [SharedStore.step, cellOf, SharedCell.step, cellStep, hdurable, hbase]
  | hydrate tab =>
    have hbase : (fun other => envelopeSlot ((store.hydrate tab).tabs other).persistedRequestEnvelope key) =
        Function.update (fun other => envelopeSlot (store.tabs other).persistedRequestEnvelope key)
          tab (envelopeSlot store.durable key) := by
      funext other
      by_cases hother : other = tab
      · subst hother
        simp [hydrate, envelopeSlot, envelopeQueue_normalizeEnvelope]
      · simp [hydrate, Function.update_of_ne hother]
    simp only [SharedStore.step, cellOf, SharedCell.step, cellStep, hbase]
    rfl

/-! ## Runs -/

/-- A record has one editor: the editor saves a valid queue that holds the record under
one operation, the other tabs save the operations they had at their last save. -/
def EditedBy (owner : τ) (key : TableKey) (store : SharedStore τ) : StoreStep τ → Prop
  | .persist tab queue _ _ =>
    if tab = owner then queue.all isMutationQueue = true ∧ Slot.Single (queueSlot queue key)
    else requestSlot queue key = envelopeSlot (store.tabs tab).persistedRequestEnvelope key
  | .hydrate _ => True

def StepOk (owner : τ) (key : TableKey) (store : SharedStore τ) (step : StoreStep τ) : Prop :=
  StepSplitClear key store step ∧ EditedBy owner key store step

/-- Every step of a run satisfies `P` in the store it is taken in. -/
def RunAll (P : SharedStore τ → StoreStep τ → Prop) : SharedStore τ → List (StoreStep τ) → Prop
  | _, [] => True
  | store, step :: rest => P store step ∧ RunAll P (store.step step) rest

abbrev RunOk (owner : τ) (key : TableKey) : SharedStore τ → List (StoreStep τ) → Prop :=
  RunAll (StepOk owner key)

abbrev FollowsOwner (owner : τ) (key : TableKey) (store : SharedStore τ) : Prop :=
  SharedCell.Follows Slot.Same Slot.Single owner (store.cellOf key)

theorem requestSlot_of_valid {key : TableKey}
    (h : queue.all isMutationQueue = true) : requestSlot queue key = queueSlot queue key := by
  cases queue with
  | none => rfl
  | some queue =>
    have hvalid : isMutationQueue queue = true := h
    simp [requestSlot, Option.filter, hvalid]

variable {owner : τ}

variable {key : TableKey} {steps : List (StoreStep τ)}

theorem StepOk.respects {store : SharedStore τ} {step : StoreStep τ} (h : StepOk owner key store step) :
    SharedCell.Respects Slot.Single owner (store.cellOf key) (cellStep key step) := by
  cases step with
  | persist tab queue localDeletions now =>
    have hstep := h.2
    simp only [EditedBy] at hstep
    simp only [SharedCell.Respects, cellStep]
    split
    · rename_i hown
      rw [if_pos hown] at hstep
      rw [requestSlot_of_valid hstep.1]
      exact hstep.2
    · rename_i hown
      rw [if_neg hown] at hstep
      exact hstep
  | hydrate tab => trivial

/-- After a save of any tab the stored queue follows the edits of the tab that owns the record. -/
theorem FollowsOwner.step {store : SharedStore τ}
    {step : StoreStep τ} (h : FollowsOwner owner key store) (hok : StepOk owner key store step) :
    FollowsOwner owner key (store.step step) := by
  unfold FollowsOwner
  rw [cellOf_step store step hok.1]
  exact SharedCell.Follows.step (Slot.mergeLaws key) h hok.respects

theorem FollowsOwner.durable_step {store : SharedStore τ}
    {step : StoreStep τ} (h : FollowsOwner owner key store) (hok : StepOk owner key store step)
    (hne : ∀ queue localDeletions now, step ≠ .persist owner queue localDeletions now) :
    Slot.Same (envelopeSlot (store.step step).durable key) (envelopeSlot store.durable key) := by
  have hcell := SharedCell.Follows.cell_step (Slot.mergeLaws key) h hok.respects fun value heq => by
    cases step with
    | persist tab queue localDeletions now =>
      simp only [cellStep, CellStep.save.injEq] at heq
      exact hne queue localDeletions now (by rw [heq.1])
    | hydrate tab => cases heq
  rw [← cellOf_step store step hok.1] at hcell
  exact hcell

theorem run_append (store : SharedStore τ) (before after : List (StoreStep τ)) :
    store.run (before ++ after) = (store.run before).run after :=
  foldl_append ..

theorem runOk_append {store : SharedStore τ}
    {before after : List (StoreStep τ)} (h : RunOk owner key store (before ++ after)) :
    RunOk owner key store before ∧ RunOk owner key (store.run before) after := by
  induction before generalizing store with
  | nil => exact ⟨trivial, h⟩
  | cons step before ih =>
    obtain ⟨hstep, hrest⟩ := h
    obtain ⟨h1, h2⟩ := ih hrest
    exact ⟨⟨hstep, h1⟩, h2⟩

theorem FollowsOwner.run {store : SharedStore τ} (h : FollowsOwner owner key store)
    (hok : RunOk owner key store steps) : FollowsOwner owner key (store.run steps) := by
  induction steps generalizing store with
  | nil => exact h
  | cons step steps ih => exact ih (h.step hok.1) hok.2

omit [DecidableEq τ] in
theorem followsOwner_empty (owner : τ) (key : TableKey) : FollowsOwner owner key (.empty : SharedStore τ) :=
  ⟨.refl _, ⟨fun h => absurd rfl h, fun h => absurd rfl h, fun p h => by cases h⟩⟩

theorem FollowsOwner.durable_save {store : SharedStore τ} {localDeletions : List Deletion} {now : ℕ}
    (h : FollowsOwner owner key store) (hok : StepOk owner key store (.persist owner queue localDeletions now)) :
    Slot.Same (envelopeSlot (store.step (.persist owner queue localDeletions now)).durable key) (queueSlot queue key) := by
  have hvalid : queue.all isMutationQueue = true := by
    have hstep := hok.2
    simp only [EditedBy, if_true] at hstep
    exact hstep.1
  have hcell := SharedCell.Follows.cell_save (Slot.mergeLaws key) h hok.respects
  rw [requestSlot_of_valid hvalid] at hcell
  have hstep := cellOf_step store _ hok.1
  simp only [cellStep, requestSlot_of_valid hvalid] at hstep
  rw [← hstep] at hcell
  exact hcell

def stepTab : StoreStep τ → τ
  | .persist tab _ _ _ => tab
  | .hydrate tab => tab

def savedBy (owner : τ) (last : Option MutationQueue) : StoreStep τ → Option MutationQueue
  | .persist tab queue _ _ => if tab = owner then queue else last
  | .hydrate _ => last

def lastSaved (owner : τ) (steps : List (StoreStep τ)) : Option MutationQueue :=
  steps.foldl (savedBy owner) none

theorem lastSaved_filter (owner : τ) (steps : List (StoreStep τ)) :
    lastSaved owner (steps.filter fun step => stepTab step = owner) = lastSaved owner steps := by
  unfold lastSaved
  rw [foldl_filter]
  congr 1
  funext last step
  cases step with
  | persist tab queue localDeletions now => by_cases h : tab = owner <;> simp [stepTab, savedBy, h]
  | hydrate tab => simp [savedBy]

theorem durable_lastSaved (hok : RunOk owner key .empty steps) :
    Slot.Same (envelopeSlot (SharedStore.empty.run steps).durable key) (queueSlot (lastSaved owner steps) key) := by
  induction steps using List.reverseRecOn with
  | nil => exact .refl _
  | append_singleton steps step ih =>
    obtain ⟨hsteps, hstep, -⟩ := runOk_append hok
    have hfollows := (followsOwner_empty owner key).run hsteps
    have hlast : lastSaved owner (steps ++ [step]) = savedBy owner (lastSaved owner steps) step := by simp [lastSaved]
    rw [run_append, hlast]
    show Slot.Same (envelopeSlot ((SharedStore.empty.run steps).step step).durable key) _
    cases step with
    | persist tab queue localDeletions now =>
      by_cases htab : tab = owner
      · subst htab
        simp only [savedBy, if_true]
        exact hfollows.durable_save hstep
      · simp only [savedBy, if_neg htab]
        refine (hfollows.durable_step hstep fun queue' localDeletions' now' heq => ?_).trans (ih hsteps)
        simp only [StoreStep.persist.injEq] at heq
        exact htab heq.1
    | hydrate tab =>
      exact (hfollows.durable_step hstep fun _ _ _ heq => by cases heq).trans (ih hsteps)

/-- No save is lost and none comes back: in every run of any number of tabs the durable operations of a record are, after every
step, those its only editor saved last; and two runs with the same steps of the editor end with the same operations. -/
theorem merge_follows_editor (owner : τ) (key : TableKey) (steps : List (StoreStep τ))
    (hok : RunOk owner key .empty steps) : (∀ before after, steps = before ++ after →
      Slot.Same (envelopeSlot (SharedStore.empty.run before).durable key) (queueSlot (lastSaved owner before) key)) ∧
      ∀ steps', RunOk owner key .empty steps' → (steps.filter fun step => stepTab step = owner) =
          (steps'.filter fun step => stepTab step = owner) → Slot.Same (envelopeSlot (SharedStore.empty.run steps).durable key)
          (envelopeSlot (SharedStore.empty.run steps').durable key) := by
  refine ⟨fun before after heq => ?_, fun steps' hok' hsame => ?_⟩
  · rw [heq] at hok
    exact durable_lastSaved (runOk_append hok).1
  · have hlast : lastSaved owner steps = lastSaved owner steps' := by
      rw [← lastSaved_filter, hsame, lastSaved_filter]
    have h := durable_lastSaved hok
    rw [hlast] at h
    exact h.trans (durable_lastSaved hok').symm

def packageQueue : MutationQueue :=
  { createEmptyMutationQueue "1" "tab-1" with
    upserts := .ofList [("goithau", .ofList [("a", .ofList [("id", .str "a")])])] }

def packageDeletionQueue : MutationQueue :=
  { createEmptyMutationQueue "1" "tab-2" with deletes := [⟨"goithau", "a::b", none⟩] }

theorem single_packageQueue : Slot.Single (queueSlot (some packageQueue) ("goithau", "a")) :=
  ⟨fun _ => by decide, fun h => absurd (by decide) h, fun p hp => by
    have hnone : (queueSlot (some packageQueue) ("goithau", "a")).patch = none := by decide
    rw [hnone] at hp
    cases hp⟩

/-- The second tab loads the queue of the first, and saves it with a deletion of its own. -/
theorem merge_follows_editor_package :
    let steps := [.persist true (some packageQueue) [] 1, .hydrate false,
      .persist false (some { packageQueue with deletes := [⟨"goithau", "b", none⟩] }) [] 2]
    (envelopeSlot (SharedStore.empty.run steps).durable ("goithau", "a")).upsert ≠ none ∧
      (envelopeSlot (SharedStore.empty.run steps).durable ("goithau", "b")).deletion ≠ none := by
  intro steps
  have hok : RunOk true ("goithau", "a") .empty steps := by
    refine ⟨⟨fun key' item h => (nomatch h), by decide, single_packageQueue⟩, ⟨trivial, trivial⟩,
      ⟨fun key' item h _ _ => ?_, rfl⟩, trivial⟩
    have hsplit : ∀ e ∈ (deletionMap [⟨"goithau", "b", none⟩]).entries, (e.1.1, splitId e.1.2) ≠ ("goithau", "a") := by decide
    exact hsplit (key', item) ((Dict.mem_entries_iff ..).mpr h)
  have h := (merge_follows_editor true ("goithau", "a") _ hok).1 _ [] (append_nil _).symm
  rw [h.upsert]
  exact ⟨by decide, by decide⟩

/-- The merge can lose an edit: a tab saves an edit of the package `a`, another tab, that
never touches `a`, saves the deletion of the package `a::b`, and the edit is gone. -/
theorem deletion_clears_other_package : ¬ ∀ (owner : Bool) (key : TableKey) (steps : List (StoreStep Bool)),
    RunAll (EditedBy owner key) .empty steps → Slot.Same (envelopeSlot (SharedStore.empty.run steps).durable key)
      (queueSlot (lastSaved owner steps) key) := by
  intro h
  have hok : RunAll (EditedBy true ("goithau", "a")) .empty
      [.persist true (some packageQueue) [] 1, .persist false (some packageDeletionQueue) [] 2] := by
    refine ⟨⟨by decide, single_packageQueue⟩, ?_, trivial⟩
    show requestSlot (some packageDeletionQueue) ("goithau", "a") = Slot.empty
    have hnone : (requestSlot (some packageDeletionQueue) ("goithau", "a")).upsert = none ∧
        (requestSlot (some packageDeletionQueue) ("goithau", "a")).patch = none ∧
        (requestSlot (some packageDeletionQueue) ("goithau", "a")).deletion = none := by
      decide
    cases hslot : requestSlot (some packageDeletionQueue) ("goithau", "a") with
    | mk upsert patch deletion =>
      rw [hslot] at hnone
      obtain ⟨rfl, rfl, rfl⟩ := hnone
      rfl
  have hlost : (envelopeSlot (SharedStore.empty.run
      [.persist true (some packageQueue) [] 1, .persist false (some packageDeletionQueue) [] 2]).durable
        ("goithau", "a")).upsert = none := by decide
  have hkept : (queueSlot (lastSaved true [.persist true (some packageQueue) [] 1,
      .persist false (some packageDeletionQueue) [] 2]) ("goithau", "a")).upsert ≠ none := by
    decide
  exact hkept ((h true _ _ hok).upsert.symm.trans hlost)

end SharedStore

end Bidding
