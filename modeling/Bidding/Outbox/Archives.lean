import Bidding.Foundations.BestOf
import Bidding.Outbox.Exchange

/-!
# The archive of rejected pushes

Before a rejected push is taken out of the outbox, its receipt is archived in two places, and again as the rejection goes
on. After a crash the two archives are merged, and what is not restored yet is taken up again.
-/

namespace Bidding.Outbox

open Foundations List

/-- What is archived of a rejection. -/
structure RecoveryPayload where
  workspaceKey : String
  phase : String
  snapshot : Receipt
  validationErrors : List SyncError
  pendingRecords : List RejectedRecord
  deriving DecidableEq

structure RejectedDraft where
  payload : RecoveryPayload
  savedAt : ℕ
  deriving DecidableEq

/-- `RECOVERY_PHASE_ORDER[phase] ?? -1`. -/
def recoveryPhaseOrder (phase : String) : ℤ :=
  if phase = "prepared" then 0 else if phase = "rejected" then 1 else if phase = "restored" then 2 else -1

abbrev RejectedArchive := Dict String RejectedDraft

def archivedPhase (archive : RejectedArchive) (key : String) : ℤ :=
  ((archive.get? key).map fun draft => recoveryPhaseOrder draft.payload.phase).getD (-1)

/-- The later phase goes first, then the later time, then the later archive. -/
def supersedes (draft prior : RejectedDraft) : Bool :=
  recoveryPhaseOrder prior.payload.phase < recoveryPhaseOrder draft.payload.phase ||
    (recoveryPhaseOrder draft.payload.phase = recoveryPhaseOrder prior.payload.phase &&
      prior.savedAt ≤ draft.savedAt)

def mergeRejectedArchives (archives : List (Option RejectedArchive)) : RejectedArchive :=
  mergeBest supersedes (archives.filterMap id)

structure Archives where
  localStorage : RejectedArchive
  database : RejectedArchive
  deriving DecidableEq

structure SaveAttempt where
  localWorks : Bool
  databaseWorks : Bool
  localTime : ℕ
  databaseTime : ℕ

/-- `saveRejectedRecovery(recovery)`: the local storage takes the payload as it is, the database merges it; it is enough
that one of them works. A key is the id of a receipt, which has no blanks around it. -/
def saveRejectedRecovery (key : String) (payload : RecoveryPayload) (attempt : SaveAttempt) (s : Archives) : Archives × Bool :=
  ({ localStorage := if attempt.localWorks then s.localStorage.set key ⟨payload, attempt.localTime⟩ else s.localStorage
     database :=
      if attempt.databaseWorks then
        mergeRejectedArchives [some s.database, some (.ofList [(key, ⟨payload, attempt.databaseTime⟩)])]
      else s.database },
    attempt.localWorks || attempt.databaseWorks)

/-- The recoveries to take up: those of the workspace that are not restored yet. `databaseDrafts` is what was read of the
database before, if anything was. -/
def pendingRejectedRecoveries (workspaceKey : String) (databaseDrafts : Option RejectedArchive)
    (localDrafts : RejectedArchive) : List (String × RejectedDraft) :=
  (mergeRejectedArchives [databaseDrafts, some localDrafts]).entries.filter fun entry =>
    entry.2.payload.workspaceKey = workspaceKey &&
      (entry.2.payload.phase = "prepared" || entry.2.payload.phase = "rejected")

/-- What happens while one recovery is taken up: what the outbox rejects, or nothing when the rejection has to wait; the
records that could not be restored, or nothing when another workspace was opened meanwhile; and the save. -/
structure RecoveryOutcome where
  rejected : Option (List RejectedRecord)
  unrestored : Option (List RejectedRecord)
  attempt : SaveAttempt

/-- The payload after the rejection of a prepared recovery, and after the restoration. -/
def recoveredPayload (outcome : RecoveryOutcome) (payload : RecoveryPayload) : Option RecoveryPayload :=
  if payload.phase = "prepared" && outcome.rejected.isNone then none
  else outcome.unrestored.map fun unrestored =>
    { payload with
      phase := if unrestored.isEmpty then "restored" else "rejected"
      pendingRecords := unrestored }

/-- `recoverRejectedProjections(controller, recoveries, workspace)`, as far as the archives go: the recoveries are taken up
one after the other, up to the first that has to wait. -/
def recoverRejectedProjections (outcomes : String → RecoveryOutcome) :
    List (String × RejectedDraft) → Archives → Archives × Bool
  | [], s => (s, true)
  | (key, draft) :: recoveries, s =>
    match recoveredPayload (outcomes key) draft.payload with
    | none => (s, false)
    | some payload =>
      let saved := saveRejectedRecovery key payload (outcomes key).attempt s
      if saved.2 && payload.pendingRecords.isEmpty then recoverRejectedProjections outcomes recoveries saved.1
      else (saved.1, false)

theorem prefers_supersedes : Prefers supersedes fun prior draft =>
    recoveryPhaseOrder prior.payload.phase ≤ recoveryPhaseOrder draft.payload.phase where
  refl draft := Int.le_refl _
  trans a b c hab hbc := Int.le_trans hab hbc
  taken draft prior h := by
    simp only [supersedes, Bool.or_eq_true, Bool.and_eq_true, decide_eq_true_eq] at h
    omega
  left draft prior h := by
    simp only [supersedes, Bool.or_eq_false_iff, decide_eq_false_iff_not] at h
    omega

theorem neg_one_le_recoveryPhaseOrder (phase : String) : -1 ≤ recoveryPhaseOrder phase := by
  unfold recoveryPhaseOrder
  split_ifs <;> omega

theorem neg_one_le_archivedPhase (archive : RejectedArchive) (key : String) : -1 ≤ archivedPhase archive key := by
  unfold archivedPhase
  cases archive.get? key with
  | none => exact Int.le_refl _
  | some draft => exact neg_one_le_recoveryPhaseOrder draft.payload.phase

theorem mem_filterMap_archives (archives : List (Option RejectedArchive)) (archive : RejectedArchive) :
    archive ∈ archives.filterMap id ↔ some archive ∈ archives := by
  simp [mem_filterMap]

variable {archives : List (Option RejectedArchive)} {key saved : String}

theorem archivedPhase_le_merge {archive : RejectedArchive} (h : some archive ∈ archives) (key : String) :
    archivedPhase archive key ≤ archivedPhase (mergeRejectedArchives archives) key := by
  cases hdraft : archive.get? key with
  | none =>
    have hnone : archivedPhase archive key = -1 := by simp [archivedPhase, hdraft]
    rw [hnone]
    exact neg_one_le_archivedPhase _ key
  | some draft =>
    obtain ⟨best, hbest, hle⟩ := prefers_supersedes.le_mergeBest ((mem_filterMap_archives archives archive).mpr h) hdraft
    have hmerged : (mergeRejectedArchives archives).get? key = some best := hbest
    simpa [archivedPhase, hdraft, hmerged] using hle

theorem archivedPhase_merge_le {bound : ℤ} (hbound : -1 ≤ bound)
    (h : ∀ archive, some archive ∈ archives → archivedPhase archive key ≤ bound) :
    archivedPhase (mergeRejectedArchives archives) key ≤ bound := by
  cases hbest : (mergeRejectedArchives archives).get? key with
  | none => simpa [archivedPhase, hbest] using hbound
  | some best =>
    obtain ⟨archive, hmem, hdraft⟩ := prefers_supersedes.exists_of_mergeBest hbest
    have hle := h archive ((mem_filterMap_archives archives archive).mp hmem)
    simpa [archivedPhase, hbest, hdraft] using hle

theorem archivedPhase_merge_congr {archives' : List (Option RejectedArchive)}
    (h : ∀ archive : RejectedArchive, some archive ∈ archives ↔ some archive ∈ archives') (key : String) :
    archivedPhase (mergeRejectedArchives archives) key = archivedPhase (mergeRejectedArchives archives') key := by
  apply Int.le_antisymm
  · exact archivedPhase_merge_le (neg_one_le_archivedPhase _ key) fun archive hmem =>
      archivedPhase_le_merge ((h archive).mp hmem) key
  · exact archivedPhase_merge_le (neg_one_le_archivedPhase _ key) fun archive hmem =>
      archivedPhase_le_merge ((h archive).mpr hmem) key

theorem database_saveRejectedRecovery (saved : String) (payload : RecoveryPayload) (attempt : SaveAttempt) (s : Archives)
    (key : String) :
    archivedPhase s.database key ≤ archivedPhase (saveRejectedRecovery saved payload attempt s).1.database key := by
  unfold saveRejectedRecovery
  dsimp only
  split
  · exact archivedPhase_le_merge (mem_cons_self) key
  · exact Int.le_refl _

theorem localStorage_saveRejectedRecovery {payload : RecoveryPayload} (attempt : SaveAttempt) {s : Archives}
    (h : archivedPhase s.localStorage saved ≤ recoveryPhaseOrder payload.phase) (key : String) :
    archivedPhase s.localStorage key ≤ archivedPhase (saveRejectedRecovery saved payload attempt s).1.localStorage key := by
  unfold saveRejectedRecovery
  dsimp only
  split
  · by_cases hkey : key = saved
    · subst hkey
      simpa [archivedPhase] using h
    · have hsame : archivedPhase (s.localStorage.set saved ⟨payload, attempt.localTime⟩) key =
          archivedPhase s.localStorage key := by
        unfold archivedPhase
        rw [Dict.get?_set_of_ne _ _ hkey]
      exact Int.le_of_eq hsame.symm
  · exact Int.le_refl _

theorem archivedPhase_save_of_ne (hne : key ≠ saved) (payload : RecoveryPayload) (attempt : SaveAttempt) (s : Archives) :
    archivedPhase (saveRejectedRecovery saved payload attempt s).1.localStorage key = archivedPhase s.localStorage key := by
  unfold saveRejectedRecovery
  dsimp only
  split
  · unfold archivedPhase
    rw [Dict.get?_set_of_ne _ _ hne]
  · rfl

/-! ## Recovering -/

/-- No archive has gone back. -/
structure Archives.Onward (s s' : Archives) : Prop where
  localStorage : ∀ key, archivedPhase s.localStorage key ≤ archivedPhase s'.localStorage key
  database : ∀ key, archivedPhase s.database key ≤ archivedPhase s'.database key

theorem Archives.Onward.refl (s : Archives) : s.Onward s := ⟨fun _ => Int.le_refl _, fun _ => Int.le_refl _⟩

theorem Archives.Onward.trans {s t u : Archives} (h : s.Onward t) (h' : t.Onward u) : s.Onward u :=
  ⟨fun key => Int.le_trans (h.localStorage key) (h'.localStorage key),
    fun key => Int.le_trans (h.database key) (h'.database key)⟩

theorem Archives.Onward.merged {s s' : Archives} (h : s.Onward s') (key : String) :
    archivedPhase (mergeRejectedArchives [some s.database, some s.localStorage]) key ≤
      archivedPhase (mergeRejectedArchives [some s'.localStorage, some s'.database]) key := by
  refine archivedPhase_merge_le (neg_one_le_archivedPhase _ key) fun archive hmem => ?_
  simp only [mem_cons, Option.some.injEq, not_mem_nil, or_false] at hmem
  rcases hmem with rfl | rfl
  · have hpart := @archivedPhase_le_merge [some s'.localStorage, some s'.database] s'.database (by simp) key
    exact Int.le_trans (h.database key) hpart
  · have hpart := @archivedPhase_le_merge [some s'.localStorage, some s'.database] s'.localStorage (by simp) key
    exact Int.le_trans (h.localStorage key) hpart

theorem phase_recoveredPayload {outcome : RecoveryOutcome} {payload recovered : RecoveryPayload}
    (h : recoveredPayload outcome payload = some recovered)
    (hpending : payload.phase = "prepared" ∨ payload.phase = "rejected") :
    recoveryPhaseOrder payload.phase ≤ recoveryPhaseOrder recovered.phase := by
  have hrecovered : 1 ≤ recoveryPhaseOrder recovered.phase := by
    unfold recoveredPayload at h
    split at h
    · cases h
    · obtain ⟨unrestored, -, rfl⟩ := Option.map_eq_some_iff.mp h
      dsimp only
      split <;> decide
  rcases hpending with hphase | hphase
  · rw [hphase]
    exact Int.le_trans (by decide) hrecovered
  · rw [hphase]
    exact hrecovered

variable (outcomes : String → RecoveryOutcome)

theorem onward_recoverRejectedProjections (recoveries : List (String × RejectedDraft))
    (s : Archives) (hkeys : (recoveries.map Prod.fst).Nodup)
    (hpending : ∀ entry ∈ recoveries, entry.2.payload.phase = "prepared" ∨ entry.2.payload.phase = "rejected")
    (hlocal : ∀ entry ∈ recoveries, archivedPhase s.localStorage entry.1 ≤ recoveryPhaseOrder entry.2.payload.phase) :
    s.Onward (recoverRejectedProjections outcomes recoveries s).1 := by
  induction recoveries generalizing s with
  | nil => exact .refl s
  | cons entry recoveries ih =>
    obtain ⟨key, draft⟩ := entry
    rw [map_cons, nodup_cons] at hkeys
    unfold recoverRejectedProjections
    cases hpayload : recoveredPayload (outcomes key) draft.payload with
    | none => exact .refl s
    | some payload =>
      dsimp only
      have hphase := phase_recoveredPayload hpayload (hpending (key, draft) mem_cons_self)
      have hfar : archivedPhase s.localStorage key ≤ recoveryPhaseOrder payload.phase :=
        Int.le_trans (hlocal (key, draft) mem_cons_self) hphase
      have hsaved : s.Onward (saveRejectedRecovery key payload (outcomes key).attempt s).1 :=
        ⟨localStorage_saveRejectedRecovery _ hfar, database_saveRejectedRecovery key payload _ s⟩
      split
      · refine hsaved.trans (ih _ hkeys.2 (fun other hother => hpending other (mem_cons_of_mem _ hother))
          fun other hother => ?_)
        have hne : other.1 ≠ key := by
          intro heq
          exact hkeys.1 (mem_map.mpr ⟨other, hother, heq⟩)
        rw [archivedPhase_save_of_ne hne]
        exact hlocal other (mem_cons_of_mem _ hother)
      · exact hsaved

theorem onward_recover (workspaceKey : String)
    (databaseDrafts : Option RejectedArchive) (s : Archives) : s.Onward (recoverRejectedProjections outcomes
      (pendingRejectedRecoveries workspaceKey databaseDrafts s.localStorage) s).1 := by
  apply onward_recoverRejectedProjections
  · have hnodup := (mergeRejectedArchives [databaseDrafts, some s.localStorage]).nodupKeys
    exact hnodup.sublist (filter_sublist.map Prod.fst)
  · intro entry hentry
    have hpending := (mem_filter.mp hentry).2
    simp only [Bool.and_eq_true, Bool.or_eq_true, decide_eq_true_eq] at hpending
    exact hpending.2
  · intro entry hentry
    have hdraft := (Dict.mem_entries_iff _ entry.1 entry.2).mp (mem_filter.mp hentry).1
    have hmerged := @archivedPhase_le_merge [databaseDrafts, some s.localStorage] s.localStorage (by simp) entry.1
    have hphase : archivedPhase (mergeRejectedArchives [databaseDrafts, some s.localStorage]) entry.1 =
        recoveryPhaseOrder entry.2.payload.phase := by
      unfold archivedPhase
      rw [hdraft]
      rfl
    rwa [hphase] at hmerged

end Bidding.Outbox
