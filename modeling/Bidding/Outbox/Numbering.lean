import Bidding.Outbox.Rejection

/-!
# Generations start at one

Every generation is the next value of a counter that starts at 0, so no operation and no dirty table of an outbox has the
generation 0. For the tables this is followed command by command: only loading gives generations to tables.
-/

namespace Bidding

open Foundations

namespace Outbox

variable {opts : OutboxOptions} {o o' : Outbox}

variable (table : String)

theorem tablesKept_enqueuePatch (o : Outbox) (record : Record) : TablesKept o (enqueuePatch opts table o record) := by
  obtain ⟨part, -, heq⟩ := @enqueuePatch_eq opts table o record
  rw [heq]
  exact .of_same rfl

variable (records bases : List Record)

theorem tablesKept_replaceTable (o : Outbox) : TablesKept o (replaceTable opts table records bases o).1 := by
  unfold replaceTable
  dsimp only
  split
  · exact .refl o
  · exact @TablesKept.trans o (emptyTable table (captureBaseSnapshots opts table bases o)) _ (.of_same rfl)
      (TablesKept.trans (tablesKept_foldl id (replaceRecord opts table) (fun o record => .of_same rfl) _ _) (.of_same rfl))

theorem tablesKept_setRowVersion (part : RecordMap) (table id : String) (rowVersion : Int) (acc : Outbox × Bool) :
    TablesKept acc.1 (setRowVersion part table id rowVersion acc).1 := by
  unfold setRowVersion
  split
  · exact .refl _
  · split
    · exact .refl _
    · exact .of_same rfl

variable (acc : Outbox × Bool)

theorem tablesKept_applyServerRowVersion (entry : ServerRowVersion) : TablesKept acc.1 (applyServerRowVersion acc entry).1 := by
  unfold applyServerRowVersion
  split
  · exact .refl _
  rename_i rowVersion _
  split
  · exact .refl _
  have hupserts := tablesKept_setRowVersion .upserts entry.table entry.id rowVersion acc
  have hpatches := tablesKept_setRowVersion .patches entry.table entry.id rowVersion
    (setRowVersion .upserts entry.table entry.id rowVersion acc)
  exact (hupserts.trans hpatches).trans (.of_same rfl)

theorem tablesKept_applyServerRowVersions (entries : List ServerRowVersion) (o : Outbox) :
    TablesKept o (applyServerRowVersions opts entries o).1 := by
  have hfold := tablesKept_foldl Prod.fst applyServerRowVersion tablesKept_applyServerRowVersion entries (o, false)
  unfold applyServerRowVersions
  dsimp only
  split
  · exact hfold.trans (.of_same rfl)
  · exact hfold

theorem tablesKept_repointTable (fromId toId : String) (acc : DuplicateRepair) (table : String) :
    TablesKept acc.outbox (repointTable fromId toId acc table).outbox := by
  unfold repointTable
  dsimp only
  refine TablesKept.trans (TablesKept.of_same rfl) (tablesKept_foldl DuplicateRepair.outbox _ (fun acc entry => ?_) _ _)
  split
  · exact .refl _
  · exact .of_same rfl

theorem tablesKept_repairDuplicatePlan (byVersion : Dict String ℕ) (acc : DuplicateRepair) (pending : Record) :
    TablesKept acc.outbox (repairDuplicatePlan opts byVersion acc pending).outbox := by
  unfold repairDuplicatePlan
  dsimp only
  split
  · exact .refl _
  split
  · exact .refl _
  · exact TablesKept.trans (TablesKept.of_same rfl)
      (tablesKept_foldl DuplicateRepair.outbox _ (tablesKept_repointTable _ _) _ _)

theorem tablesKept_repairDuplicatePlanVersions {state : WorkspaceState} {o : Outbox} {repaired : DuplicateRepair}
    (h : repairDuplicatePlanVersions opts state o = some repaired) : TablesKept o repaired.outbox := by
  have hplans : TablesKept o (repairDuplicatePlans opts state o).outbox :=
    tablesKept_foldl DuplicateRepair.outbox _ (tablesKept_repairDuplicatePlan _) _ ⟨state, o, [], .empty, .empty⟩
  unfold repairDuplicatePlanVersions at h
  dsimp only at h
  split at h
  · cases h
  split at h
  · cases h
  · cases h
    exact hplans.trans (TablesKept.trans (.of_same rfl) (tablesKept_persist _))

theorem tablesKept_snapshotForSync (state : WorkspaceState) (o : Outbox) : TablesKept o (snapshotForSync opts state o).1 := by
  unfold snapshotForSync repairUnsyncedParentDependencies
  split
  · dsimp only
    split
    · have hloop := @repairLoop_rel opts state TablesKept .refl (fun _ _ _ => TablesKept.trans)
        (fun o parent record _ _ => .of_same rfl) (stateSize state + 1) o
      exact hloop.trans (TablesKept.trans (.of_same rfl) (tablesKept_persist _))
    · exact .refl o
  · exact .refl o

def TablesNumbered (o : Outbox) : Prop := ∀ table, o.tableGenerations.get? table ≠ some 0

theorem TablesNumbered.kept (h : TablesNumbered o) (hkept : TablesKept o o') : TablesNumbered o' := by
  intro table hzero
  rcases hkept table with hsame | hnone
  · exact h table (hsame.symm.trans hzero)
  · rw [hnone] at hzero
    cases hzero

theorem tablesNumbered_load (queue : Option MutationQueue) (localDeletions : List Deletion) (o : Outbox) :
    TablesNumbered (load opts queue localDeletions o) := by
  unfold load rebuildGenerations
  dsimp only
  refine foldl_inv _ TablesNumbered _ (fun o entry _ h => ?_) ?_
  · split
    · intro table hzero
      rw [Dict.get?_set] at hzero
      split at hzero
      · cases hzero
      · exact h table hzero
    · exact h
  · have hrebuilt : ∀ part o, TablesKept o (rebuildRecords part o) := by
      intro part o
      unfold rebuildRecords
      exact tablesKept_foldl id (fun o (entry : String × String × Record) =>
        bumpRecord ⟨part.operation, entry.1, entry.2.1⟩ o) (fun o entry => .of_same rfl) _ _
    refine TablesNumbered.kept ?_ (tablesKept_foldl id (fun o (item : Deletion) =>
      bumpRecord ⟨.delete, item.table, item.id⟩ o) (fun o item => .of_same rfl) _ _)
    refine TablesNumbered.kept ?_ (hrebuilt .patches _)
    refine TablesNumbered.kept ?_ (hrebuilt .upserts _)
    intro table hzero
    cases hzero

end Outbox

variable (opts : OutboxOptions)

open Outbox in
/-- No command gives a table the generation zero. -/
theorem tablesNumbered_step {o : Outbox} (h : TablesNumbered o) (c : Command) : TablesNumbered (step opts o c) := by
  refine step_inv opts TablesNumbered (fun _ hkept h => h.kept hkept) h ?_
  cases c with
  | upsert => exact fun _ _ _ _ ho => ho.kept (.of_same rfl)
  | patch table => exact fun record _ _ o ho => ho.kept (tablesKept_enqueuePatch table o record)
  | replaceTable table records bases => exact h.kept (tablesKept_replaceTable table records bases o)
  | delete => exact fun _ _ _ _ ho => ho.kept (.of_same rfl)
  | serverRowVersion entries => exact h.kept (tablesKept_applyServerRowVersions entries o)
  | repairDuplicatePlanVersions => exact fun _ hrepair => h.kept (tablesKept_repairDuplicatePlanVersions hrepair)
  | snapshotForSync state => exact h.kept (tablesKept_snapshotForSync state o)
  | hydrate queue localDeletions => exact tablesNumbered_load queue localDeletions o
  | restore queue localDeletions => exact tablesNumbered_load queue localDeletions o
  | _ => trivial

open Outbox in
theorem tablesNumbered_run (cs : List Command) : TablesNumbered (run opts (newOutbox opts) cs) := by
  unfold run
  refine foldl_inv _ TablesNumbered _ (fun o c _ h => tablesNumbered_step opts h c) fun table hzero => ?_
  cases hzero

theorem stamp_ne_zero_run (cs : List Command) (key : RecordKey) : (run opts (newOutbox opts) cs).stamp key ≠ some 0 := by
  intro hzero
  have hnew : (newOutbox opts).stamps.Bounded := (Outbox.bounded_stamps_iff _).mpr (bounded_newOutbox opts)
  rcases (restamps_run opts _ cs hnew).key key with hnone | ⟨generation, hsome, hlt, -⟩ | ⟨hsame, -⟩
  · rw [show (run opts (newOutbox opts) cs).stamp key = none from hnone] at hzero
    cases hzero
  · rw [show (run opts (newOutbox opts) cs).stamp key = some generation from hsome] at hzero
    cases hzero
    exact absurd hlt (Nat.not_lt_zero _)
  · have hnew : (newOutbox opts).stamp key = none := rfl
    rw [show (run opts (newOutbox opts) cs).stamp key = (newOutbox opts).stamp key from hsame, hnew] at hzero
    cases hzero

end Bidding
