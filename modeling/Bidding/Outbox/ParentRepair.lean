import Bidding.Outbox.Generations

/-!
# Parents before children

Before a push the outbox queues the records the queued ones refer to and the server has never had. A pass that changes
something queues a record of the workspace, so the passes end, and the last one has found nothing left to queue.
-/

namespace Bidding.Outbox

open Foundations Relation List Option

variable {opts : OutboxOptions} {state : WorkspaceState}

def stateKeys (state : WorkspaceState) : List TableKey :=
  state.entries.flatMap fun entry => entry.2.map fun record => (entry.1, fieldText record "id")

def queuesUpsert (o : Outbox) (key : TableKey) : Bool := (o.queue.upserts.get₂ key.1 key.2).isSome

def unqueued (state : WorkspaceState) (o : Outbox) : ℕ :=
  ((stateKeys state).filter fun key => !queuesUpsert o key).length

theorem unqueued_le (o : Outbox) : unqueued state o ≤ stateSize state := by
  refine (length_filter_le _ _).trans (le_of_eq ?_)
  simp [stateKeys, stateSize, length_flatMap, Dict.values, Function.comp_def]

theorem mem_stateKeys {key : TableKey} {record : Record} (h : unsyncedParent state key = some record) :
    key ∈ stateKeys state := by
  unfold unsyncedParent at h
  split at h
  · cases h
  rename_i found hfound
  have hid : fieldText found "id" = key.2 := by simpa using find?_some hfound
  have hmem := mem_of_find?_eq_some hfound
  unfold stateTable at hmem
  cases htable : state.get? key.1 with
  | none => simp [htable] at hmem
  | some records =>
    rw [htable] at hmem
    apply mem_flatMap.mpr
    refine ⟨(key.1, records), (Dict.mem_entries_iff ..).mpr htable, ?_⟩
    exact mem_map.mpr ⟨found, hmem, by rw [hid]⟩

theorem raises_repairParent (acc : Outbox × Bool) (parent : TableKey) :
    Raises (unqueued state) acc (repairParent opts state acc parent) := by
  rcases @repairParent_cases opts state acc parent with heq | ⟨record, -, hrecord, hnone, heq⟩
  · exact .inl heq
  have hmissing : acc.1.queue.upserts.get₂ parent.1 parent.2 = none := by
    simpa [entry, MutationQueue.entry] using hnone
  have hqueues : ∀ key, queuesUpsert (repairParent opts state acc parent).1 key =
      if key.1 = parent.1 ∧ key.2 = parent.2 then true else queuesUpsert acc.1 key := by
    intro key
    rw [heq]
    change ((acc.1.queue.upserts.set₂ parent.1 parent.2 _).get₂ key.1 key.2).isSome = _
    rw [Dict.get₂_set₂]
    split <;> rfl
  refine .inr ⟨by rw [heq], length_filter_lt (fun key _ hkey => ?_) (mem_stateKeys hrecord) ?_ ?_⟩
  · rw [hqueues] at hkey
    split at hkey
    · cases hkey
    · exact hkey
  · simp [queuesUpsert, hmissing]
  · simp [hqueues]

theorem raises_repairPass (o : Outbox) : Raises (unqueued state) (o, false) (repairPass opts state o) :=
  foldl_raises (fun acc _ _ => foldl_raises (fun acc _ _ =>
    foldl_raises (fun acc parent _ => raises_repairParent acc parent) acc) acc) (o, false)

/-- A pass that changes nothing has found the parents of every queued record queued. -/
theorem queued_of_idle {o : Outbox} (h : (repairPass opts state o).2 = false) {child parent : TableKey} {record : Record}
    (hrecord : o.queue.upserts.get₂ child.1 child.2 = some record) (hparent : parent ∈ parentKeysForRecord child.1 record)
    (hnamed : parent.1 ≠ "" ∧ parent.2 ≠ "") (hunsynced : (unsyncedParent state parent).isSome) :
    queuesUpsert o parent = true := by
  obtain ⟨records, htable, hid⟩ := bind_eq_some_iff.mp hrecord
  have hquiet : repairParent opts state (o, false) parent = (o, false) := by
    have hrecords := foldl_quiet (fun acc _ _ => foldl_raises (fun acc _ _ => foldl_raises
      (fun acc parent _ => raises_repairParent acc parent) acc) acc) h child.1 ((Dict.mem_keys_iff ..).mpr ⟨_, htable⟩)
    have hparents := foldl_quiet (fun acc _ _ => foldl_raises (fun acc parent _ => raises_repairParent acc parent) acc)
      (congrArg Prod.snd hrecords) record ((Dict.mem_values_iff ..).mpr ⟨child.2, by simpa [htable] using hid⟩)
    exact foldl_quiet (fun acc parent _ => raises_repairParent acc parent) (congrArg Prod.snd hparents) parent hparent
  obtain ⟨found, hfound⟩ := isSome_iff_exists.mp hunsynced
  by_contra hnot
  unfold repairParent at hquiet
  rw [if_neg (by simpa [hnamed, queuesUpsert] using hnot), hfound] at hquiet
  exact absurd (congrArg Prod.snd hquiet) (by simp)

/-- What the outbox would send for a key: the queued upsert, else the record of the workspace the server has never had. -/
def pendingRecord (opts : OutboxOptions) (state : WorkspaceState) (o : Outbox) (key : TableKey) : Option Record :=
  (o.queue.upserts.get₂ key.1 key.2).or ((unsyncedParent state key).map fun record => opts.normalizeRecord record key.1)

/-- A record refers to one of the workspace that is no mere reference and has no server row version. -/
def NeedsParent (opts : OutboxOptions) (state : WorkspaceState) (o : Outbox) (child parent : TableKey) : Prop :=
  ∃ record, pendingRecord opts state o child = some record ∧ parent ∈ parentKeysForRecord child.1 record ∧
    (parent.1 ≠ "" ∧ parent.2 ≠ "") ∧ (unsyncedParent state parent).isSome

theorem get₂_repair (o : Outbox) (table id : String) :
    (repairUnsyncedParentDependencies opts state o).queue.upserts.get₂ table id =
      (saturate (repairPass opts state) (stateSize state + 1) o).queue.upserts.get₂ table id := by
  apply map_injective (fun _ _ h => Entry.record.inj h)
  change (repairUnsyncedParentDependencies opts state o).entry ⟨.upsert, table, id⟩ = entry _ ⟨.upsert, table, id⟩
  unfold repairUnsyncedParentDependencies
  split
  · rw [entry_persist, entry_touchForNewPayload]
  · rename_i h
    rw [saturate, if_neg h, (raises_repairPass o).idle (by simpa using h)]

/-- The repair ends, and then every unsynced parent that a queued record needs, through any chain of parents, is queued. -/
theorem repair_closes (opts : OutboxOptions) (state : WorkspaceState) (o : Outbox) :
    LoopEnds (repairPass opts state) o (saturate (repairPass opts state) (stateSize state + 1) o) ∧
    ∀ child parent, queuesUpsert (repairUnsyncedParentDependencies opts state o) child = true →
      TransGen (NeedsParent opts state (repairUnsyncedParentDependencies opts state o)) child parent →
        queuesUpsert (repairUnsyncedParentDependencies opts state o) parent = true := by
  have hlowers : ∀ o, (repairPass opts state o).2 = true → unqueued state (repairPass opts state o).1 < unqueued state o :=
    fun o h => (raises_repairPass o).lowers h
  have hfuel : unqueued state o < stateSize state + 1 := Nat.lt_succ_of_le (unqueued_le o)
  refine ⟨saturate_loopEnds _ (unqueued state) hlowers _ o hfuel, ?_⟩
  obtain ⟨last, hidle, hlast⟩ := saturate_stable _ (unqueued state) hlowers _ o hfuel
  rw [(raises_repairPass last).idle hidle] at hlast
  have hget : ∀ table id, (repairUnsyncedParentDependencies opts state o).queue.upserts.get₂ table id =
      last.queue.upserts.get₂ table id := fun table id => by rw [get₂_repair, hlast]
  have hstep : ∀ child parent, queuesUpsert last child = true →
      NeedsParent opts state (repairUnsyncedParentDependencies opts state o) child parent →
        queuesUpsert last parent = true := by
    rintro child parent hchild ⟨record, hrecord, hparent, hnamed, hunsynced⟩
    obtain ⟨queued, hqueued⟩ := isSome_iff_exists.mp hchild
    rw [pendingRecord, hget, hqueued] at hrecord
    exact queued_of_idle hidle (hqueued.trans hrecord) hparent hnamed hunsynced
  intro child parent hchild hpath
  simp only [queuesUpsert, hget] at hchild ⊢
  induction hpath with
  | single hneeds => exact hstep child _ hchild hneeds
  | tail _ hneeds ih => exact hstep _ _ ih hneeds

theorem repair_closes_plan :
    let package : Record := .ofList [("id", .str "g1"), ("keHoachId", .str "k1")]
    let plan : Record := .ofList [("id", .str "k1")]
    let start := run plainOptions (newOutbox plainOptions) [.upsert "goithau" [package] []]
    queuesUpsert (repairUnsyncedParentDependencies plainOptions (.ofList [("kehoach", [plan])]) start)
      ("kehoach", "k1") = true := by
  intro package plan start
  refine (repair_closes plainOptions _ start).2 ("goithau", "g1") _ (by decide) (.single ?_)
  exact ⟨package, by decide, by decide, by decide, by decide⟩

end Bidding.Outbox
