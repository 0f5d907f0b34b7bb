import Bidding.Foundations.Closure
import Bidding.Outbox.Generations

/-!
# What a rejection takes back

The server has refused some records of a push. `reject` takes them out of the queue
together with the sent upserts that refer to them, directly or through one another, and
leaves everything else as it is.
-/

namespace Bidding

open Foundations List Option

namespace Outbox

variable {opts : OutboxOptions}

/-! ## The closure -/

/-- The keys `reject` starts from: those the errors name, with the whole receipt when the
caller asks for it and the errors do not say enough. -/
def namedKeys (opts : OutboxOptions) (receipt : Receipt) (errors : List SyncError)
    (fallbackToBatch : Bool) (state : Option WorkspaceState) (o : Outbox) : List TableKey :=
  let named := scopedErrors opts receipt errors state o.queue
  if fallbackToBatch && !errors.isEmpty && (named.2 || !named.1.any (receiptContains receipt)) then
    (receiptKeys receipt).foldl addKey named.1
  else named.1

def sentParents (o : Outbox) (sent : String × String × ℕ) : List TableKey :=
  if o.recordGenerations.get? ⟨.upsert, sent.1, sent.2.1⟩ = some sent.2.2 then
    ((o.queue.upserts.get₂ sent.1 sent.2.1).map (parentKeysForRecord sent.1)).getD []
  else []

/-- A key is rejected when it is named, or when it is a sent upsert, queued as it was sent,
that refers to a rejected key. -/
inductive Rejected (receipt : Receipt) (o : Outbox) (named : List TableKey) : TableKey → Prop
  | named {key : TableKey} : key ∈ named → Rejected receipt o named key
  | refers {table id : String} {generation : ℕ} {queued : Record} {parent : TableKey} :
      receipt.upserts.get₂ table id = some generation → o.stamp ⟨.upsert, table, id⟩ = some generation →
      o.queue.upserts.get₂ table id = some queued → parent ∈ parentKeysForRecord table queued →
      Rejected receipt o named parent → Rejected receipt o named (table, id)

variable (receipt : Receipt)

theorem rejectPass_eq (o : Outbox) :
    rejectPass receipt o = closurePass (fun sent => (sent.1, sent.2.1)) (sentParents o) receipt.upserts.entries₂ := by
  funext rejected
  unfold rejectPass closurePass
  congr 1
  funext acc sent
  unfold closureStep sentParents
  by_cases hmem : (sent.1, sent.2.1) ∈ acc.1
  · simp [hmem]
  by_cases hstamp : o.recordGenerations.get? ⟨.upsert, sent.1, sent.2.1⟩ = some sent.2.2
  · rw [if_pos hstamp]
    cases hqueued : o.queue.upserts.get₂ sent.1 sent.2.1 with
    | none => simp [hmem, hstamp]
    | some queued =>
      -- the two membership tests are decided in two ways
      simp only [hmem, hstamp, decide_false, ne_eq, not_true_eq_false, Bool.or_self,
        Bool.false_eq_true, if_false, map_some, getD_some]
      congr 2
      apply congrArg
      funext parent
      simp
  · simp [hmem, hstamp]

theorem mem_sentParents (o : Outbox) (sent : String × String × ℕ) (parent : TableKey) :
    parent ∈ sentParents o sent ↔ o.stamp ⟨.upsert, sent.1, sent.2.1⟩ = some sent.2.2 ∧
      ∃ queued, o.queue.upserts.get₂ sent.1 sent.2.1 = some queued ∧
        parent ∈ parentKeysForRecord sent.1 queued := by
  unfold sentParents stamp
  by_cases hstamp : o.recordGenerations.get? ⟨.upsert, sent.1, sent.2.1⟩ = some sent.2.2
  · cases hqueued : o.queue.upserts.get₂ sent.1 sent.2.1 with
    | none => simp [hstamp]
    | some queued => simp [hstamp]
  · simp [hstamp]

theorem reaches_iff_rejected (o : Outbox) (named : List TableKey) (key : TableKey) :
    Reaches (fun sent : String × String × ℕ => (sent.1, sent.2.1)) (sentParents o)
      receipt.upserts.entries₂ named key ↔ Rejected receipt o named key := by
  constructor
  · intro h
    induction h with
    | start hk => exact .named hk
    | @node sent parent hsent hparent _ ih =>
      obtain ⟨hstamp, queued, hqueued, hmem⟩ := (mem_sentParents o sent parent).mp hparent
      have hgen := (Dict.mem_entries₂_iff receipt.upserts sent.1 sent.2.1 sent.2.2).mp hsent
      exact .refers hgen hstamp hqueued hmem ih
  · intro h
    induction h with
    | named hk => exact .start hk
    | @refers table id generation queued parent hgen hstamp hqueued hmem _ ih =>
      have hsent := (Dict.mem_entries₂_iff receipt.upserts table id generation).mpr hgen
      have hparent : parent ∈ sentParents o (table, id, generation) :=
        (mem_sentParents ..).mpr ⟨hstamp, queued, hqueued, hmem⟩
      exact @Reaches.node _ _ (fun sent : String × String × ℕ => (sent.1, sent.2.1)) (sentParents o)
        receipt.upserts.entries₂ named (table, id, generation) parent hsent hparent ih

variable (errors : List SyncError)

variable (fallbackToBatch : Bool)

variable (state : Option WorkspaceState)

variable (o : Outbox) {o₁ o₂ o₃ : Outbox} {key : RecordKey} {part : RecordMap} {keys : List TableKey}
  {table id : String}

theorem rejectedKeys_eq : (rejectedKeys opts receipt errors fallbackToBatch state o).1 =
    saturate (rejectPass receipt o) (receipt.upserts.entries₂.length + 1)
      (namedKeys opts receipt errors fallbackToBatch state o) := rfl

theorem mem_rejectedKeys (key : TableKey) : key ∈ (rejectedKeys opts receipt errors fallbackToBatch state o).1 ↔
    Rejected receipt o (namedKeys opts receipt errors fallbackToBatch state o) key := by
  rw [rejectedKeys_eq, rejectPass_eq, mem_closure]
  exact reaches_iff_rejected receipt o _ key

theorem rejectedKeys_ends : LoopEnds (rejectPass receipt o) (namedKeys opts receipt errors fallbackToBatch state o)
    (rejectedKeys opts receipt errors fallbackToBatch state o).1 := by
  rw [rejectedKeys_eq, rejectPass_eq]
  exact closure_ends _

/-! ## One rejected key -/

/-- An operation was taken back: the receipt has sent it, and it was queued as it was sent. -/
structure TakenBack (receipt : Receipt) (o o' : Outbox) (key : RecordKey) : Prop where
  sent : ∃ generation, receipt.Names key generation ∧ o.stamp key = some generation
  stamp : o'.stamp key = none
  entry : o'.entry key = none

theorem TakenBack.of_same {receipt : Receipt}
    (h : SameAt o₁ o₂ key) (h' : TakenBack receipt o₂ o₃ key) : TakenBack receipt o₁ o₃ key :=
  ⟨h.1 ▸ h'.sent, h'.stamp, h'.entry⟩

theorem TakenBack.then_same {receipt : Receipt}
    (h : TakenBack receipt o₁ o₂ key) (h' : SameAt o₂ o₃ key) : TakenBack receipt o₁ o₃ key :=
  ⟨h.sent, h'.1.trans h.stamp, h'.2.trans h.entry⟩

theorem sameAt_release (table id : String) (o : Outbox) (key : RecordKey) : SameAt o (releaseBaseSnapshot table id o) key :=
  ⟨stamp_releaseBaseSnapshot table id o key, entry_releaseBaseSnapshot table id o key⟩

theorem rejectRecord_some {sent : Option ℕ}
    {o taken : Outbox} (h : rejectRecord part sent (table, id) o = some taken) :
    (∃ generation, sent = some generation ∧
      o.stamp ⟨part.operation, table, id⟩ = some generation) ∧
    taken.stamp ⟨part.operation, table, id⟩ = none ∧
    taken.entry ⟨part.operation, table, id⟩ = none ∧
    ∀ key, key ≠ ⟨part.operation, table, id⟩ → SameAt o taken key := by
  unfold rejectRecord at h
  simp only at h
  split at h
  · rename_i hguard
    cases h
    simp only [Bool.and_eq_true, decide_eq_true_eq] at hguard
    obtain ⟨generation, hsent⟩ := isSome_iff_exists.mp hguard.1.1
    refine ⟨⟨generation, hsent, hguard.1.2.trans hsent⟩, ?_, ?_, fun key hne => ⟨?_, ?_⟩⟩
    · exact (stamp_forget ..).trans (if_pos rfl)
    · exact (entry_dropEmptyTable ..).trans ((entry_eraseRecord ..).trans (if_pos rfl))
    · exact (stamp_forget ..).trans (if_neg hne)
    · exact (entry_dropEmptyTable ..).trans ((entry_eraseRecord ..).trans (if_neg hne))
  · cases h

theorem rejectRecord_of_sent {o : Outbox} {generation : ℕ} (hstamp : o.stamp ⟨part.operation, table, id⟩ = some generation)
    (hentry : o.entry ⟨part.operation, table, id⟩ ≠ none) :
    (rejectRecord part (some generation) (table, id) o).isSome = true := by
  have hqueued : ((o.queue.records part).get₂ table id).isSome = true := by
    rw [entry_part] at hentry
    simpa [isSome_iff_ne_none] using hentry
  unfold rejectRecord
  unfold stamp at hstamp
  simp [hstamp, hqueued]

theorem rejectDelete_cases (sent : Option ℕ) (table id : String) (o : Outbox) : (rejectDelete sent (table, id) o).1 = o ∨
    ((∃ generation, sent = some generation ∧ o.stamp ⟨.delete, table, id⟩ = some generation) ∧
      (rejectDelete sent (table, id) o).1.stamp ⟨.delete, table, id⟩ = none ∧
      (rejectDelete sent (table, id) o).1.entry ⟨.delete, table, id⟩ = none ∧
      ∀ key, key ≠ ⟨.delete, table, id⟩ → SameAt o (rejectDelete sent (table, id) o).1 key) := by
  unfold rejectDelete
  simp only
  split
  · rename_i hguard
    simp only [Bool.and_eq_true, decide_eq_true_eq] at hguard
    obtain ⟨generation, hsent⟩ := isSome_iff_exists.mp hguard.1
    refine .inr ⟨⟨generation, hsent, hguard.2.trans hsent⟩, ?_, ?_, fun key hne => ⟨?_, ?_⟩⟩
    · exact (stamp_forget ..).trans (if_pos rfl)
    · exact (entry_dropDeletion ..).trans (if_pos rfl)
    · exact (stamp_forget ..).trans (if_neg hne)
    · exact (entry_dropDeletion ..).trans (if_neg hne)
  · exact .inl rfl

theorem rejectKey_takes (table id : String) (o : Outbox) (key : RecordKey) : SameAt o (rejectKey receipt (table, id) o).1 key ∨
    (key.isOf table id ∧ TakenBack receipt o (rejectKey receipt (table, id) o).1 key) := by
  have hrecord : ∀ (part : RecordMap) (sent : Option ℕ) (taken : Outbox), (∀ generation, sent = some generation →
        receipt.Names ⟨part.operation, table, id⟩ generation) → rejectRecord part sent (table, id) o = some taken →
      SameAt o (releaseBaseSnapshot table id taken) key ∨
        (key.isOf table id ∧ TakenBack receipt o (releaseBaseSnapshot table id taken) key) := by
    intro part sent taken hnames h
    obtain ⟨⟨generation, hsent, hstamp⟩, hs, he, hother⟩ := rejectRecord_some h
    have hrelease := sameAt_release table id taken key
    by_cases hkey : key = ⟨part.operation, table, id⟩
    · subst hkey
      have htaken : TakenBack receipt o taken ⟨part.operation, table, id⟩ :=
        ⟨⟨generation, hnames generation hsent, hstamp⟩, hs, he⟩
      exact .inr ⟨⟨rfl, rfl⟩, htaken.then_same hrelease⟩
    · exact .inl ((hother key hkey).trans hrelease)
  unfold rejectKey
  split
  · exact .inl (.refl o key)
  split
  · rename_i taken h
    exact hrecord .upserts _ taken (fun _ hsent => hsent) h
  split
  · rename_i taken h
    exact hrecord .patches _ taken (fun _ hsent => hsent) h
  have hdelete : SameAt o (rejectDelete (receipt.deletes.get? (table, id)) (table, id) o).1 key ∨
      (key.isOf table id ∧ TakenBack receipt o
        (rejectDelete (receipt.deletes.get? (table, id)) (table, id) o).1 key) := by
    rcases rejectDelete_cases (receipt.deletes.get? (table, id)) table id o with
      h | ⟨⟨generation, hsent, hstamp⟩, hs, he, hother⟩
    · rw [h]
      exact .inl (.refl o key)
    · by_cases hkey : key = ⟨.delete, table, id⟩
      · subst hkey
        exact .inr ⟨⟨rfl, rfl⟩, ⟨generation, hsent, hstamp⟩, hs, he⟩
      · exact .inl (hother key hkey)
  simp only
  split
  · have hrelease := sameAt_release table id (rejectDelete (receipt.deletes.get? (table, id)) (table, id) o).1 key
    rcases hdelete with h | ⟨hof, h⟩
    · exact .inl (h.trans hrelease)
    · exact .inr ⟨hof, h.then_same hrelease⟩
  · exact hdelete

theorem rejectKey_upsert {receipt : Receipt} {o : Outbox} {generation : ℕ}
    (htable : table ≠ "") (hid : id ≠ "") (hsent : receipt.upserts.get₂ table id = some generation)
    (hstamp : o.stamp ⟨.upsert, table, id⟩ = some generation) (hentry : o.entry ⟨.upsert, table, id⟩ ≠ none) :
    (rejectKey receipt (table, id) o).1.entry ⟨.upsert, table, id⟩ = none := by
  have hsome := @rejectRecord_of_sent .upserts table id o generation hstamp hentry
  obtain ⟨taken, htaken⟩ := isSome_iff_exists.mp hsome
  obtain ⟨-, -, he, -⟩ := rejectRecord_some htaken
  unfold rejectKey
  simp only [htable, hid, hsent, htaken, decide_false, Bool.or_self, Bool.false_eq_true, if_false]
  rw [entry_releaseBaseSnapshot]
  exact he

/-! ## The whole rejection -/

def Takes (keys : List TableKey) (o o' : Outbox) : Prop :=
  ∀ key, SameAt o o' key ∨ ((key.table, key.id) ∈ keys ∧ TakenBack receipt o o' key)

theorem Takes.trans {receipt : Receipt}
    (h : Takes receipt keys o₁ o₂) (h' : Takes receipt keys o₂ o₃) : Takes receipt keys o₁ o₃ := by
  intro key
  rcases h key with hsame | ⟨hmem, htaken⟩
  · rcases h' key with hsame' | ⟨hmem', htaken'⟩
    · exact .inl (hsame.trans hsame')
    · exact .inr ⟨hmem', .of_same hsame htaken'⟩
  · rcases h' key with hsame' | ⟨-, htaken'⟩
    · exact .inr ⟨hmem, htaken.then_same hsame'⟩
    · exact .inr ⟨hmem, htaken.sent, htaken'.stamp, htaken'.entry⟩

theorem takes_foldl (all keys : List TableKey) (hkeys : ∀ key ∈ keys, key ∈ all) (o : Outbox) :
    Takes receipt all o (keys.foldl (fun o key => (rejectKey receipt key o).1) o) := by
  refine foldl_rel _ (Takes receipt all) (fun o key => .inl (.refl o key))
    (fun _ _ _ => Takes.trans) keys (fun o at' hat key => ?_) o
  rcases rejectKey_takes receipt at'.1 at'.2 o key with h | ⟨hof, h⟩
  · exact .inl h
  · have hkey : (key.table, key.id) = at' := Prod.ext hof.1 hof.2
    exact .inr ⟨hkey ▸ hkeys at' hat, h⟩

theorem entry_foldl_rejectKey {receipt : Receipt}
    {generation : ℕ} (hmem : (table, id) ∈ keys) (htable : table ≠ "") (hid : id ≠ "")
    (hsent : receipt.upserts.get₂ table id = some generation) {o : Outbox}
    (hstamp : o.stamp ⟨.upsert, table, id⟩ = some generation) :
    (keys.foldl (fun o key => (rejectKey receipt key o).1) o).entry ⟨.upsert, table, id⟩ = none := by
  obtain ⟨before, after, rfl⟩ := append_of_mem hmem
  rw [foldl_append, foldl_cons]
  have hbefore := takes_foldl receipt _ before (fun _ h => h) o ⟨.upsert, table, id⟩
  generalize before.foldl (fun o key => (rejectKey receipt key o).1) o = mid at hbefore ⊢
  have hgone : (rejectKey receipt (table, id) mid).1.entry ⟨.upsert, table, id⟩ = none := by
    by_cases hentry : mid.entry ⟨.upsert, table, id⟩ = none
    · rcases rejectKey_takes receipt table id mid ⟨.upsert, table, id⟩ with h | ⟨-, h⟩
      · exact h.2.trans hentry
      · exact h.entry
    · rcases hbefore with h | ⟨-, h⟩
      · exact rejectKey_upsert htable hid hsent (h.1.trans hstamp) hentry
      · exact absurd h.entry hentry
  rcases takes_foldl receipt _ after (fun _ h => h) (rejectKey receipt (table, id) mid).1 ⟨.upsert, table, id⟩ with h | ⟨-, h⟩
  · exact h.2.trans hgone
  · exact h.entry

theorem reject_sheds_taken (receipt : Receipt) (errors : List SyncError) (fallbackToBatch : Bool)
    (state : Option WorkspaceState) (o : Outbox) (key : RecordKey) :
    let taken := (rejectKeys opts receipt errors (rejectedKeys opts receipt errors fallbackToBatch state o).1 o).1
    let after := (reject opts receipt errors fallbackToBatch state o).1
    after.entry key = taken.entry key ∧
      (after.stamp key = taken.stamp key ∨ after.entry key = none) := by
  intro taken after
  have htables : ∀ acc : Outbox × Bool, SameAt acc.1 (receipt.dirtyTables.entries.foldl ackTable acc).1 key := by
    intro acc
    have h := Stamped.Settles.foldl (fun acc : Outbox × Bool => acc.1.view) ackTable _
      settles_ackTable receipt.dirtyTables.entries acc
    exact h.kept key fun _ ⟨_, _, hfalse⟩ => hfalse.elim
  have hsettle : ∀ acc : Outbox × Bool, SameAt taken acc.1 key → (settle opts acc).entry key = taken.entry key ∧
        ((settle opts acc).stamp key = taken.stamp key ∨ (settle opts acc).entry key = none) := by
    intro acc hsame
    refine ⟨(entry_settle acc key).trans hsame.2, ?_⟩
    rcases (@sheds_settle opts acc).key key with h | ⟨h, -⟩
    · exact .inl (h.1.trans hsame.1)
    · exact .inr h
  unfold after reject
  simp only
  split
  · exact hsettle _ (htables _)
  · exact hsettle _ (.refl _ key)

variable (key : RecordKey)

theorem reject_takes (hne : (reject opts receipt errors fallbackToBatch state o).1.entry key ≠ o.entry key) :
    (reject opts receipt errors fallbackToBatch state o).1.entry key = none ∧
      Rejected receipt o (namedKeys opts receipt errors fallbackToBatch state o) (key.table, key.id) ∧
      ∃ generation, receipt.Names key generation ∧ o.stamp key = some generation := by
  have hend := (@reject_sheds_taken opts receipt errors fallbackToBatch state o key).1
  have hloop := takes_foldl receipt (rejectedKeys opts receipt errors fallbackToBatch state o).1 _ (fun _ h => h) o key
  rw [← @rejectKeys_fst opts receipt errors] at hloop
  rcases hloop with hsame | ⟨hmem, htaken⟩
  · exact absurd (hend.trans hsame.2) hne
  · exact ⟨hend.trans htaken.entry, (mem_rejectedKeys ..).mp hmem, htaken.sent⟩

theorem reject_closed {generation : ℕ}
    {queued : Record} (htable : table ≠ "") (hid : id ≠ "")
    (hsent : receipt.upserts.get₂ table id = some generation)
    (hstamp : (reject opts receipt errors fallbackToBatch state o).1.stamp ⟨.upsert, table, id⟩ = some generation)
    (hqueued : (reject opts receipt errors fallbackToBatch state o).1.queue.upserts.get₂ table id = some queued) :
    o.stamp ⟨.upsert, table, id⟩ = some generation ∧
      o.queue.upserts.get₂ table id = some queued ∧
      ¬Rejected receipt o (namedKeys opts receipt errors fallbackToBatch state o) (table, id) := by
  have hafter : (reject opts receipt errors fallbackToBatch state o).1.entry ⟨.upsert, table, id⟩ =
      some (.record queued) := by simp [entry, MutationQueue.entry, hqueued]
  obtain ⟨hend, hendstamp⟩ :=
    @reject_sheds_taken opts receipt errors fallbackToBatch state o ⟨.upsert, table, id⟩
  have hloop := takes_foldl receipt (rejectedKeys opts receipt errors fallbackToBatch state o).1 _ (fun _ h => h) o
    ⟨.upsert, table, id⟩
  rw [← @rejectKeys_fst opts receipt errors] at hloop
  rcases hloop with hsame | ⟨-, htaken⟩
  · have hentry : o.entry ⟨.upsert, table, id⟩ = some (.record queued) :=
      hsame.2.symm.trans (hend.symm.trans hafter)
    have hwas : o.stamp ⟨.upsert, table, id⟩ = some generation := by
      rcases hendstamp with h | h
      · exact hsame.1.symm.trans (h.symm.trans hstamp)
      · rw [hafter] at h
        cases h
    refine ⟨hwas, by simpa [entry, MutationQueue.entry] using hentry, fun hrejected => ?_⟩
    have hgone := entry_foldl_rejectKey
      ((@mem_rejectedKeys opts receipt errors fallbackToBatch state o (table, id)).mpr hrejected) htable hid hsent hwas
    rw [← @rejectKeys_fst opts receipt errors, ← hend, hafter] at hgone
    cases hgone
  · rw [hafter] at hend
    exact absurd (hend.trans htaken.entry) (by simp)

variable (queue : MutationQueue)

theorem addUpserts_ids (isSyncedType : String → Bool)
    (normalizeRecord : Record → String → Record) (draft : PayloadDraft) (h : ∀ key ∈ draft.sent.upserts, key.2 ≠ "") :
    ∀ key ∈ (addUpserts queue isSyncedType normalizeRecord draft).sent.upserts, key.2 ≠ "" := by
  refine foldl_inv _ (fun draft : PayloadDraft => ∀ key ∈ draft.sent.upserts, key.2 ≠ "") _ (fun draft entry _ hdraft => ?_) h
  split
  · exact hdraft
  split
  · exact hdraft
  intro key hkey
  rcases mem_append.mp hkey with hold | hnew
  · exact hdraft key hold
  · obtain ⟨id, hid, rfl⟩ := mem_map.mp hnew
    simpa using (mem_filter.mp hid).2

theorem upserts_addDirtyTables (state : WorkspaceState)
    (isSyncedType : String → Bool) (normalizeRecord : Record → String → Record) (draft : PayloadDraft) :
    (addDirtyTables queue state isSyncedType normalizeRecord draft).sent.upserts = draft.sent.upserts := by
  refine foldl_inv _ (fun d : PayloadDraft => d.sent.upserts = draft.sent.upserts) _ (fun d entry _ hd => ?_) rfl
  split
  · exact hd
  · exact hd

theorem upserts_addPatches (state : WorkspaceState)
    (isSyncedType : String → Bool) (normalizeRecord : Record → String → Record) (draft : PayloadDraft) :
    (addPatches queue state isSyncedType normalizeRecord draft).sent.upserts = draft.sent.upserts := by
  refine foldl_inv _ (fun d : PayloadDraft => d.sent.upserts = draft.sent.upserts) _ (fun d entry _ hd => ?_) rfl
  split
  · exact hd
  simp only
  split
  · exact hd
  · exact hd

theorem id_ne_of_snapshot {o : Outbox} {state : WorkspaceState} {payload : Payload}
    {receipt : Receipt} (hsent : (snapshotForSync opts state o).2 = some (payload, receipt))
    {generation : ℕ} (h : receipt.upserts.get₂ table id = some generation) :
    id ≠ "" := by
  unfold snapshotForSync at hsent
  split at hsent
  · simp only [buildMutationPayload] at hsent
    split at hsent
    · cases hsent
    simp only [some.injEq, Prod.mk.injEq] at hsent
    rw [← hsent.2] at h
    simp only [filterReceiptBySentOperations, Dict.get₂_filter₂] at h
    split at h
    · rename_i hmem
      simp only [decide_eq_true_eq, upserts_addPatches] at hmem
      exact addUpserts_ids _ _ _ _ (by simp [upserts_addDirtyTables]) _ hmem
    · cases h
  · cases hsent

/-! ## Generations over all commands -/

def stamps : Stamped RecordKey Unit := ⟨o.generation, o.stamp, fun _ => none⟩

def Restamps (o o' : Outbox) : Prop := o.stamps.Bounded → Stamped.Advances o.stamps o'.stamps

theorem Restamps.refl : Restamps o o := Stamped.Advances.refl o.stamps

theorem Restamps.trans (h : Restamps o₁ o₂) (h' : Restamps o₂ o₃) : Restamps o₁ o₃ :=
  fun hb => (h hb).trans (h' (hb.advances (h hb)))

theorem bounded_stamps_iff : o.stamps.Bounded ↔ o.view.Bounded :=
  ⟨fun h => ⟨h.le_clock, h.inj⟩, fun h => ⟨h.le_clock, h.inj⟩⟩

theorem Restamps.of_evolves {o o' : Outbox} (h : Evolves o o') : Restamps o o' := by
  intro hb
  have hadv := h ((bounded_stamps_iff o).mp hb)
  refine ⟨hadv.clock_le, fun key => ?_, hadv.fresh_inj⟩
  rcases hadv.key key with hn | hfresh | ⟨hs, -⟩
  · exact .inl hn
  · exact .inr (.inl hfresh)
  · exact .inr (.inr ⟨hs, .inl rfl⟩)

theorem Restamps.of_same {o o' : Outbox} (hgen : o'.generation = o.generation)
    (hstamp : ∀ key, o'.stamp key = o.stamp key) : Restamps o o' := by
  intro hb
  refine Stamped.Sheds.advances ⟨hgen, fun key => .inl ⟨hstamp key, rfl⟩⟩ hb

theorem restamps_forget (o : Outbox) : Restamps o (forget key o) := by
  intro hb
  refine Stamped.Sheds.advances ⟨rfl, fun k => .inr ⟨rfl, ?_⟩⟩ hb
  by_cases hk : k = key
  · exact .inr ((stamp_forget ..).trans (if_pos hk))
  · exact .inl ((stamp_forget ..).trans (if_neg hk))

theorem restamps_bumpRecord (o : Outbox) : Restamps o (bumpRecord key o) :=
  .of_evolves (evolves_bumpRecord key rfl fun k _ => SameAt.refl o k)

theorem restamps_foldl {σ α : Type} (view : σ → Outbox) (f : σ → α → σ)
    (hf : ∀ s a, Restamps (view s) (view (f s a))) (l : List α) (s : σ) {o : Outbox}
    (hs : view s = o) : Restamps o (view (l.foldl f s)) := by
  subst hs
  exact foldl_rel f (fun s s' => Restamps (view s) (view s')) (fun s => .refl (view s))
    (fun _ _ _ => Restamps.trans) l (fun s a _ => hf s a) s

theorem restamps_touch_persist : Restamps o (persist opts (touchForNewPayload opts o)) :=
  .of_evolves (.of_sheds (sheds_touch_persist o))

theorem restamps_setRowVersion (part : RecordMap) (table id : String) (rowVersion : Int)
    (acc : Outbox × Bool) : Restamps acc.1 (setRowVersion part table id rowVersion acc).1 := by
  unfold setRowVersion
  split
  · exact .refl _
  · split
    · exact .refl _
    · exact .of_same rfl fun _ => rfl

theorem restamps_applyServerRowVersion (acc : Outbox × Bool) (entry : ServerRowVersion) :
    Restamps acc.1 (applyServerRowVersion acc entry).1 := by
  unfold applyServerRowVersion
  split
  · exact .refl _
  split
  · exact .refl _
  have hupserts := restamps_setRowVersion .upserts entry.table entry.id ‹_› acc
  have hpatches := restamps_setRowVersion .patches entry.table entry.id ‹_›
    (setRowVersion .upserts entry.table entry.id ‹_› acc)
  exact (hupserts.trans hpatches).trans (.of_same rfl fun _ => rfl)

theorem restamps_applyServerRowVersions (entries : List ServerRowVersion) (o : Outbox) :
    Restamps o (applyServerRowVersions opts entries o).1 := by
  have hfold := restamps_foldl Prod.fst applyServerRowVersion restamps_applyServerRowVersion entries (o, false) rfl
  unfold applyServerRowVersions
  simp only
  split
  · exact hfold.trans (.of_evolves (.of_sheds (sheds_touch _)))
  · exact hfold

theorem restamps_setRecord_bump (part : RecordMap) (table id : String) (record : Record)
    (key : RecordKey) (o : Outbox) : Restamps o (bumpRecord key (setRecord part table id record o)) :=
  Restamps.trans (.of_same rfl fun _ => rfl) (restamps_bumpRecord key _)

theorem restamps_repointTable (fromId toId : String) (acc : DuplicateRepair) (table : String) :
    Restamps acc.outbox (repointTable fromId toId acc table).outbox := by
  unfold repointTable
  simp only
  refine restamps_foldl DuplicateRepair.outbox _ (fun acc entry => ?_) _ _ rfl
  split
  · exact .refl _
  · exact restamps_setRecord_bump _ _ _ _ _ _

theorem restamps_repairDuplicatePlan (byVersion : Dict String ℕ) (acc : DuplicateRepair) (pending : Record) :
    Restamps acc.outbox (repairDuplicatePlan opts byVersion acc pending).outbox := by
  unfold repairDuplicatePlan
  simp only
  split
  · exact .refl _
  split
  · exact .refl _
  · refine Restamps.trans ?_ (restamps_foldl DuplicateRepair.outbox _ (restamps_repointTable _ _) _ _ rfl)
    refine Restamps.trans ?_ (restamps_setRecord_bump _ _ _ _ _ _)
    exact Restamps.trans (.of_same rfl fun _ => rfl) (restamps_forget _ _)

theorem restamps_repairDuplicatePlanVersions {state : WorkspaceState} {o : Outbox}
    {repaired : DuplicateRepair} (h : repairDuplicatePlanVersions opts state o = some repaired) :
    Restamps o repaired.outbox := by
  unfold repairDuplicatePlanVersions at h
  have hplans : Restamps o (repairDuplicatePlans opts state o).outbox :=
    restamps_foldl DuplicateRepair.outbox _ (restamps_repairDuplicatePlan _) _ ⟨state, o, [], .empty, .empty⟩ rfl
  generalize repairDuplicatePlans opts state o = plans at h hplans
  simp only at h
  split at h
  · cases h
  split at h
  · cases h
  rw [some.injEq] at h
  rw [← h]
  have hdrop : Restamps plans.outbox (dropEmptyTable .upserts "kehoach" plans.outbox) :=
    .of_same rfl fun _ => rfl
  exact (hplans.trans hdrop).trans (restamps_touch_persist _)

end Outbox

variable (opts : OutboxOptions)

open Outbox in
/-- Every command, the rebuild and the row versions too, stamps only with new generations. -/
theorem restamps_step (o : Outbox) (c : Command) : Restamps o (step opts o c) := by
  cases c with
  | serverRowVersion entries =>
    have h := @restamps_applyServerRowVersions opts entries o
    change Restamps o (enqueue opts (applyServerRowVersions opts entries) o)
    unfold enqueue
    split
    · exact h.trans (.of_evolves (.of_sheds (sheds_persist _)))
    · exact h
  | repairDuplicatePlanVersions state =>
    unfold step
    dsimp only
    cases h : o.repairDuplicatePlanVersions opts state with
    | none => exact .refl o
    | some repaired => exact restamps_repairDuplicatePlanVersions h
  | _ => exact .of_evolves (evolves_step opts o trivial)

open Outbox in
theorem restamps_run (o : Outbox) (cs : List Command) : Restamps o (run opts o cs) :=
  restamps_foldl id (step opts) (restamps_step opts) cs o rfl

open Outbox in
theorem bounded_stamps_run (cs : List Command) : (run opts (newOutbox opts) cs).stamps.Bounded := by
  have hnew : (newOutbox opts).stamps.Bounded :=
    (bounded_stamps_iff _).mpr (bounded_newOutbox opts)
  exact hnew.advances (restamps_run opts _ cs hnew)

/-! ## The theorem -/

namespace Outbox

variable {opts : OutboxOptions} {sent : Outbox} {late : List Command}

theorem parentKeysForRecord_blank (record : Record) : parentKeysForRecord "" record = [] := rfl

theorem not_writes_of_sent (hsent : sent.stamps.Bounded)
    {key : RecordKey} {generation : ℕ} (hold : sent.stamp key = some generation)
    (hlate : (run opts sent late).stamp key = some generation) {early rest : List Command}
    {c : Command} (heq : late = early ++ c :: rest) : ¬c.Writes opts (run opts sent early) key := by
  intro hwrites
  obtain ⟨⟨fresh, hfresh, hlt⟩, -⟩ := writtenSince_step (run opts sent early) hwrites
  have hearly : Stamped.Advances sent.stamps (run opts sent early).stamps :=
    restamps_run opts sent early hsent
  have hbearly := hsent.advances hearly
  have hstep := restamps_step opts (run opts sent early) c hbearly
  have hrun : run opts sent late = run opts (step opts (run opts sent early) c) rest := by
    rw [heq, run_append]
    rfl
  have hrest := restamps_run opts (step opts (run opts sent early) c) rest (hbearly.advances hstep)
  have hclock : generation ≤ (run opts sent early).generation :=
    (hsent.le_clock key generation hold).trans hearly.clock_le
  have hstamp : (step opts (run opts sent early) c).stamp key = some generation := by
    rw [hrun] at hlate
    exact hrest.stamp_of_le (hclock.trans hstep.clock_le) hlate
  rw [hfresh, some.injEq] at hstamp
  omega

theorem entry_eq_of_sent (hsent : sent.view.Bounded)
    (hstamps : ∀ c ∈ late, c.Stamps) {key : RecordKey} {generation : ℕ} (hold : sent.stamp key = some generation)
    (hlate : (run opts sent late).stamp key = some generation) (hqueued : (run opts sent late).entry key ≠ none) :
    (run opts sent late).entry key = sent.entry key := by
  rcases (evolves_run opts sent hstamps hsent).content_eq hsent hold hlate with h | h
  · exact h
  · exact absurd h hqueued

end Outbox

open Outbox in
/-- Rejection closure, for every outbox, receipt and list of errors.

1. The loop ends, in whatever way the records refer to each other.
2. No upsert of the receipt that is still queued as it was sent refers to a rejected record.
3. What leaves was named, or refers to a rejected record through sent upserts, with the generation of the receipt;
   everything else is as it was.
4. Whatever follows the push: the receipt names no record without an id, nothing a command wrote after it leaves, and what
   leaves has the content it was sent with. -/
theorem rejection_closure (opts : OutboxOptions) (receipt : Receipt) (errors : List SyncError)
    (fallbackToBatch : Bool) (state : Option WorkspaceState) (o : Outbox) :
    let named := namedKeys opts receipt errors fallbackToBatch state o
    let after := (reject opts receipt errors fallbackToBatch state o).1
    LoopEnds (rejectPass receipt o) named (rejectedKeys opts receipt errors fallbackToBatch state o).1 ∧
    (∀ table id generation queued, id ≠ "" → receipt.upserts.get₂ table id = some generation →
      after.stamp ⟨.upsert, table, id⟩ = some generation → after.queue.upserts.get₂ table id = some queued →
      ∀ parent ∈ parentKeysForRecord table queued, ¬Rejected receipt o named parent) ∧
    (∀ key, after.entry key ≠ o.entry key → after.entry key = none ∧ Rejected receipt o named (key.table, key.id) ∧
      ∃ generation, receipt.Names key generation ∧ o.stamp key = some generation) ∧
    (∀ before workspace payload late, ((run opts (newOutbox opts) before).snapshotForSync opts workspace).2 =
        some (payload, receipt) →
      let sent := ((run opts (newOutbox opts) before).snapshotForSync opts workspace).1
      o = run opts sent late →
      (∀ table id generation, receipt.upserts.get₂ table id = some generation → id ≠ "") ∧
      ∀ key, after.entry key ≠ o.entry key →
        (∀ early c rest, late = early ++ c :: rest → ¬c.Writes opts (run opts sent early) key) ∧
        ((∀ c ∈ late, c.Stamps) → o.entry key = sent.entry key)) := by
  intro named after
  refine ⟨rejectedKeys_ends .., fun table id generation queued hid hsent hstamp hqueued parent hparent
    hrejected => ?_, fun key => reject_takes receipt errors fallbackToBatch state o key,
    fun before workspace payload late hpush => ?_⟩
  · have htable : table ≠ "" := by
      rintro rfl
      rw [parentKeysForRecord_blank] at hparent
      cases hparent
    obtain ⟨hwas, hqueuedWas, hnot⟩ := reject_closed receipt errors fallbackToBatch state o htable hid hsent hstamp hqueued
    exact hnot (.refers hsent hwas hqueuedWas hparent hrejected)
  · intro sent ho
    refine ⟨fun table id generation hgen => id_ne_of_snapshot hpush hgen, fun key hne => ?_⟩
    obtain ⟨hgone, -, generation, hnames, hstamp⟩ :=
      reject_takes receipt errors fallbackToBatch state o key hne
    have hqueued : o.entry key ≠ none := fun h => hne (hgone.trans h.symm)
    have hold : sent.stamp key = some generation := stamp_of_snapshot hpush hnames
    have hbstamps : sent.stamps.Bounded := by
      have hstart := bounded_stamps_run opts before
      have hpushed : Restamps (run opts (newOutbox opts) before) sent :=
        .of_evolves (evolves_snapshotForSync workspace _)
      exact hstart.advances (hpushed hstart)
    subst ho
    exact ⟨fun early c rest heq => not_writes_of_sent hbstamps hold hstamp heq,
      fun hstamps => entry_eq_of_sent ((bounded_stamps_iff sent).mp hbstamps) hstamps hold hstamp hqueued⟩

theorem rejection_closure_plan :
    let plan : Record := .ofList [("id", .str "p1")]
    let sentPackage : Record := .ofList [("id", .str "g1"), ("keHoachId", .str "p1")]
    let newPackage : Record := .ofList [("id", .str "g2"), ("keHoachId", .str "p1")]
    let before := [Command.upsert "kehoach" [plan] [], .upsert "goithau" [sentPackage] []]
    let late := [Command.upsert "goithau" [newPackage] []]
    let errors : List Outbox.SyncError := [⟨"kehoach", "p1", "", ""⟩]
    ∃ payload receipt, ((run plainOptions (newOutbox plainOptions) before).snapshotForSync plainOptions .empty).2 =
        some (payload, receipt) ∧
      let sent :=
        ((run plainOptions (newOutbox plainOptions) before).snapshotForSync plainOptions .empty).1
      let o := run plainOptions sent late
      let after := (o.reject plainOptions receipt errors false none).1
      after.entry ⟨.upsert, "goithau", "g1"⟩ = none ∧
      Outbox.Rejected receipt o (Outbox.namedKeys plainOptions receipt errors false none o) ("goithau", "g1") ∧
      o.entry ⟨.upsert, "goithau", "g1"⟩ = sent.entry ⟨.upsert, "goithau", "g1"⟩ ∧
      after.entry ⟨.upsert, "goithau", "g2"⟩ ≠ none := by
  intro plan sentPackage newPackage before late errors
  have hsome : ((run plainOptions (newOutbox plainOptions) before).snapshotForSync plainOptions
    .empty).2.isSome = true := by decide
  have hpair : ∀ (pushed : Option (Payload × Receipt)) (noPayload : Payload) (noReceipt : Receipt),
      pushed.isSome = true → pushed = some ((pushed.map Prod.fst).getD noPayload, (pushed.map Prod.snd).getD noReceipt) := by
    intro pushed noPayload noReceipt h
    cases pushed with
    | none => cases h
    | some pair => rfl
  have hpush := hpair _ ⟨"", "", .empty, []⟩ (Outbox.createReceipt (newOutbox plainOptions)) hsome
  refine ⟨_, _, hpush, ?_⟩
  intro sent o after
  have hne : after.entry ⟨.upsert, "goithau", "g1"⟩ ≠ o.entry ⟨.upsert, "goithau", "g1"⟩ := by decide
  have hkept : after.entry ⟨.upsert, "goithau", "g2"⟩ ≠ none := by decide
  obtain ⟨-, -, htaken, hpushed⟩ := rejection_closure plainOptions _ errors false none o
  obtain ⟨hgone, hrejected, -⟩ := htaken ⟨.upsert, "goithau", "g1"⟩ hne
  obtain ⟨-, hsame⟩ := hpushed before .empty _ late hpush rfl
  exact ⟨hgone, hrejected, (hsame _ hne).2 (by simp [late, Command.Stamps]), hkept⟩

end Bidding
