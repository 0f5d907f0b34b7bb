import Bidding.Documents.Projection

/-!
# When the projected templates follow what is published

A row that is not completed, and that no worker has written already, is owed: its content will be written.
As long as what is owed or written last is what the database says, the files follow it once all rows are
completed.
-/

namespace Bidding.Documents.Projection

open List Function
open Option hiding map_id' map_map

variable {ι κ β : Type} {s : Scope ι β} {start w w' : World ι κ β}

def Owed (w : World ι κ β) (target : Target ι) (checksum : String) : Prop :=
  ∃ r ∈ w.rows, r.target = target ∧ r.desiredChecksum = checksum ∧ r.status ≠ .completed ∧
    ∀ i job, w.workers i = some job → job.row.id = r.id → job.written = false

def Shown (s : Scope ι β) (w : World ι κ β) (template : ι) (version : Version) : Prop :=
  ∃ content, s.read version.sha256 = some content ∧ w.files (s.legacyAlias template) = some content

/-- The files and the configuration follow what is published and assigned. -/
structure Follows (s : Scope ι β) (w : World ι κ β) : Prop where
  files : ∀ template version, w.published template = some version → Shown s w template version
  config : ∀ sets, w.committed = some sets → w.config = sets

def Quiet (w : World ι κ β) : Prop := ∀ r ∈ w.rows, r.status = .completed

/-- A publication leaves a row, or the row in its way is still to be written, or the file has its bytes
already; the templates of a document type differ by more than case, and a replacement leaves a row; and what
is written is current, or what is current is still to be written. -/
def Orderly (s : Scope ι β) (w : World ι κ β) : Action ι κ → Prop
  | .publish template version _ =>
    (∀ r ∈ w.rows, r.target = .publication template → r.desiredChecksum ≠ version.sha256) ∨
      Owed w (.publication template) version.sha256 ∨ Shown s w template version
  | .replaceAssignments sets _ =>
    normalizeSets s.casefold sets = sets ∧
      ∀ r ∈ w.rows, ∀ revision sets', r.target = .assignment revision sets' → r.desiredChecksum ≠ s.digest (w.revision + 1) sets
  | .writeFile i => ∀ job, w.workers i = some job →
    ∀ template version, job.row.target = .publication template → w.published template = some version →
      job.row.desiredChecksum = version.sha256 ∨ Owed w (.publication template) version.sha256
  | .writeConfig i => ∀ job, w.workers i = some job →
    ∀ revision sets, job.row.target = .assignment revision sets → ∀ committed, w.committed = some committed →
      sets = committed ∨ Owed w (.assignment w.revision committed) (s.digest w.revision committed)
  | _ => True

/-- After the cutover and before its first publication: no worker has a row, and the rows there are have
ids of their own and name the files of their templates. -/
structure Cutover (s : Scope ι β) (w : World ι κ β) : Prop where
  published : ∀ template, w.published template = none
  committed : w.committed = none
  workers : ∀ i, w.workers i = none
  nodup : (w.rows.map Row.id).Nodup
  fresh : ∀ r ∈ w.rows, r.id < w.nextId
  aliases : ∀ r ∈ w.rows, ∀ template, r.target = .publication template → r.desiredAlias = s.legacyAlias template

/-! ## Rows and jobs -/

/-- What a row is about does not change. -/
structure Row.Same (r r' : Row ι) : Prop where
  id : r'.id = r.id
  target : r'.target = r.target
  desiredAlias : r'.desiredAlias = r.desiredAlias
  checksum : r'.desiredChecksum = r.desiredChecksum

variable (r : Row ι)

theorem same_self : r.Same r := ⟨rfl, rfl, rfl, rfl⟩

theorem same_claimed (now : ℕ) : r.Same (r.claimed now) := ⟨rfl, rfl, rfl, rfl⟩

theorem same_complete : r.Same r.complete := by
  unfold Row.complete
  split
  · exact ⟨rfl, rfl, rfl, rfl⟩
  · exact same_self r

theorem same_retried (errorCode : String) (delaySeconds now : ℕ) : r.Same (r.retried errorCode delaySeconds now) := by
  unfold Row.retried
  split
  · exact ⟨rfl, rfl, rfl, rfl⟩
  · exact same_self r

theorem same_recovered (staleSeconds now : ℕ) : r.Same (r.recovered staleSeconds now) := by
  unfold Row.recovered
  split
  · exact ⟨rfl, rfl, rfl, rfl⟩
  · exact same_self r

theorem retried_open {r : Row ι} (h : r.status ≠ .completed) (errorCode : String) (delaySeconds now : ℕ) :
    (r.retried errorCode delaySeconds now).status ≠ .completed := by
  unfold Row.retried
  split
  · simp only
    split <;> exact Status.noConfusion
  · exact h

theorem recovered_open {r : Row ι} (h : r.status ≠ .completed) (staleSeconds now : ℕ) :
    (r.recovered staleSeconds now).status ≠ .completed := by
  unfold Row.recovered
  split
  · exact Status.noConfusion
  · exact h

/-- The rows have ids of their own and name the files of their templates, and a job has a copy of a row. -/
structure WellFormed (s : Scope ι β) (w : World ι κ β) : Prop where
  nodup : (w.rows.map Row.id).Nodup
  fresh : ∀ r ∈ w.rows, r.id < w.nextId
  aliases : ∀ r ∈ w.rows, ∀ template, r.target = .publication template → r.desiredAlias = s.legacyAlias template
  jobs : ∀ i job, w.workers i = some job → ∃ r ∈ w.rows, r.Same job.row

/-- What the steps of workers and of the clock leave: each row is still there, and is about the same. -/
structure Keeps (w w' : World ι κ β) : Prop where
  ids : w'.rows.map Row.id = w.rows.map Row.id
  rows : ∀ r ∈ w.rows, ∃ r' ∈ w'.rows, r.Same r'
  back : ∀ r' ∈ w'.rows, ∃ r ∈ w.rows, r.Same r'
  next : w'.nextId = w.nextId

variable {f : Row ι → Row ι}

theorem keeps_map (hf : ∀ r : Row ι, r.Same (f r)) (hrows : w'.rows = w.rows.map f)
    (hnext : w'.nextId = w.nextId) : Keeps w w' where
  ids := by
    rw [hrows, map_map]
    exact map_congr_left fun r _ => (hf r).id
  rows := fun r hr => ⟨f r, by rw [hrows]; exact mem_map_of_mem hr, hf r⟩
  back := fun r' hr' => by
    rw [hrows] at hr'
    obtain ⟨r, hr, rfl⟩ := mem_map.mp hr'
    exact ⟨r, hr, hf r⟩
  next := hnext

theorem same_ite (hf : ∀ r : Row ι, r.Same (f r)) (id : ℕ) (r : Row ι) : r.Same (if r.id = id then f r else r) := by
  split
  · exact hf r
  · exact same_self r

theorem WellFormed.keeps (h : WellFormed s w) (hkeeps : Keeps w w') (hjobs : ∀ i job, w'.workers i = some job →
    (∃ job₀, w.workers i = some job₀ ∧ job.row = job₀.row) ∨ ∃ r ∈ w.rows, r.Same job.row) : WellFormed s w' where
  nodup := by
    rw [hkeeps.ids]
    exact h.nodup
  fresh := fun r' hr' => by
    obtain ⟨r, hr, hsame⟩ := hkeeps.back r' hr'
    rw [hsame.id, hkeeps.next]
    exact h.fresh r hr
  aliases := fun r' hr' template htarget => by
    obtain ⟨r, hr, hsame⟩ := hkeeps.back r' hr'
    rw [hsame.desiredAlias]
    exact h.aliases r hr template (hsame.target.symm.trans htarget)
  jobs := fun i job hjob => by
    have hrow : ∃ r ∈ w.rows, r.Same job.row := by
      rcases hjobs i job hjob with ⟨job₀, hjob₀, heq⟩ | hrow
      · rw [heq]
        exact h.jobs i job₀ hjob₀
      · exact hrow
    obtain ⟨r, hr, hsame⟩ := hrow
    obtain ⟨r', hr', hsame'⟩ := hkeeps.rows r hr
    exact ⟨r', hr', ⟨hsame.id.trans hsame'.id.symm, hsame.target.trans hsame'.target.symm,
      hsame.desiredAlias.trans hsame'.desiredAlias.symm, hsame.checksum.trans hsame'.checksum.symm⟩⟩

theorem Owed.map {target : Target ι} {checksum : String} (h : Owed w target checksum)
    (hf : ∀ r : Row ι, r.Same (f r)) (hrows : w'.rows = w.rows.map f)
    (hstill : ∀ r ∈ w.rows, r.target = target → r.desiredChecksum = checksum → r.status ≠ .completed →
      (∀ i job, w.workers i = some job → job.row.id = r.id → job.written = false) → (f r).status ≠ .completed ∧
        ∀ i job, w'.workers i = some job → job.row.id = r.id → job.written = false) :
    Owed w' target checksum := by
  obtain ⟨r, hr, htarget, hchecksum, hopen, hunwritten⟩ := h
  obtain ⟨hopen', hunwritten'⟩ := hstill r hr htarget hchecksum hopen hunwritten
  refine ⟨f r, by rw [hrows]; exact mem_map_of_mem hr, (hf r).target.trans htarget,
    (hf r).checksum.trans hchecksum, hopen', fun i job hjob hid => ?_⟩
  exact hunwritten' i job hjob (hid.trans (hf r).id)

/-- The file and the configuration are right, or what makes them right is owed. -/
structure Tracks (s : Scope ι β) (w : World ι κ β) : Prop where
  wellFormed : WellFormed s w
  files : ∀ template version, w.published template = some version →
    Shown s w template version ∨ Owed w (.publication template) version.sha256
  config : ∀ sets, w.committed = some sets → normalizeSets s.casefold sets = sets ∧
    (w.config = sets ∨ Owed w (.assignment w.revision sets) (s.digest w.revision sets))

/-- What a step leaves alone stays right. -/
structure Alike (w w' : World ι κ β) : Prop where
  published : w'.published = w.published
  committed : w'.committed = w.committed
  revision : w'.revision = w.revision
  files : w'.files = w.files
  config : w'.config = w.config
  owed : ∀ target checksum, Owed w target checksum → Owed w' target checksum

theorem Tracks.alike (h : Tracks s w) (hw : WellFormed s w') (halike : Alike w w') : Tracks s w' where
  wellFormed := hw
  files := fun template version hpublished => by
    rw [halike.published] at hpublished
    refine (h.files template version hpublished).imp (fun hshown => ?_) (halike.owed _ _)
    rw [Shown, halike.files]
    exact hshown
  config := fun sets hcommitted => by
    rw [halike.committed] at hcommitted
    rw [halike.config, halike.revision]
    obtain ⟨hnormal, hright⟩ := h.config sets hcommitted
    exact ⟨hnormal, hright.imp_right (halike.owed _ _)⟩

section Enqueue

variable [DecidableEq ι] {target : Target ι} {desiredAlias checksum : String}

theorem enqueue_published : (w.enqueue target desiredAlias checksum).published = w.published := by
  unfold World.enqueue
  split <;> rfl

theorem enqueue_committed : (w.enqueue target desiredAlias checksum).committed = w.committed := by
  unfold World.enqueue
  split <;> rfl

theorem enqueue_revision : (w.enqueue target desiredAlias checksum).revision = w.revision := by
  unfold World.enqueue
  split <;> rfl

theorem enqueue_files : (w.enqueue target desiredAlias checksum).files = w.files := by
  unfold World.enqueue
  split <;> rfl

theorem enqueue_config : (w.enqueue target desiredAlias checksum).config = w.config := by
  unfold World.enqueue
  split <;> rfl

theorem enqueue_workers : (w.enqueue target desiredAlias checksum).workers = w.workers := by
  unfold World.enqueue
  split <;> rfl

theorem mem_enqueue {r : Row ι} (h : r ∈ w.rows) : r ∈ (w.enqueue target desiredAlias checksum).rows := by
  unfold World.enqueue
  split
  · exact h
  · exact mem_append_left _ h

theorem WellFormed.enqueue (h : WellFormed s w)
    (halias : ∀ template, target = .publication template → desiredAlias = s.legacyAlias template) :
    WellFormed s (w.enqueue target desiredAlias checksum) := by
  unfold World.enqueue
  split
  · exact h
  refine ⟨?_, fun r hr => ?_, fun r hr => ?_, fun i job hjob => ?_⟩
  · rw [map_append, nodup_append]
    refine ⟨h.nodup, nodup_singleton _, fun id hid id' hid' => ?_⟩
    obtain ⟨r, hr, rfl⟩ := mem_map.mp hid
    rw [mem_singleton.mp hid']
    exact Nat.ne_of_lt (h.fresh r hr)
  · rcases mem_append.mp hr with hr | hr
    · exact Nat.lt_succ_of_lt (h.fresh r hr)
    · rw [mem_singleton.mp hr]
      exact Nat.lt_succ_self _
  · rcases mem_append.mp hr with hr | hr
    · exact h.aliases r hr
    · rw [mem_singleton.mp hr]
      exact halias
  · obtain ⟨r, hr, hsame⟩ := h.jobs i job hjob
    exact ⟨r, mem_append_left _ hr, hsame⟩

theorem Owed.enqueue {target' : Target ι} {checksum' : String} (h : Owed w target' checksum') :
    Owed (w.enqueue target desiredAlias checksum) target' checksum' := by
  obtain ⟨r, hr, htarget, hchecksum, hopen, hunwritten⟩ := h
  refine ⟨r, mem_enqueue hr, htarget, hchecksum, hopen, ?_⟩
  rw [enqueue_workers]
  exact hunwritten

theorem owed_enqueue (h : WellFormed s w) (hnone : w.conflicts target checksum = false) :
    Owed (w.enqueue target desiredAlias checksum) target checksum := by
  unfold World.enqueue
  rw [if_neg (by simp [hnone])]
  refine ⟨_, mem_append_right _ (mem_singleton_self _), rfl, rfl, Status.noConfusion, fun i job hjob hid => ?_⟩
  -- no job has the id of the new row
  obtain ⟨r, hr, hsame⟩ := h.jobs i job hjob
  have hlt : r.id < w.nextId := h.fresh r hr
  rw [← hsame.id, hid] at hlt
  exact absurd hlt (Nat.lt_irrefl _)

end Enqueue

section Catalog

variable [DecidableEq ι] {template : ι} {sets : AssignmentSets} {expected : ℕ}

theorem publish_wellFormed (h : WellFormed s w) (template : ι) (version : Version) :
    WellFormed s (w.publish s template version) := by
  unfold World.publish
  refine WellFormed.enqueue ⟨h.nodup, h.fresh, h.aliases, h.jobs⟩ fun template' htarget => ?_
  rw [Target.publication.inj htarget]

theorem conflicts_publication {checksum : String}
    (h : ∀ r ∈ w.rows, r.target = .publication template → r.desiredChecksum ≠ checksum) :
    w.conflicts (.publication template) checksum = false := by
  refine any_eq_false.mpr fun r hr hkey => ?_
  rw [Bool.and_eq_true, decide_eq_true_eq] at hkey
  cases htarget : r.target with
  | publication template' =>
    rw [htarget] at hkey
    have htemplate : template' = template := of_decide_eq_true hkey.1
    exact h r hr (by rw [htarget, htemplate]) hkey.2
  | assignment revision sets =>
    rw [htarget] at hkey
    exact absurd hkey.1 Bool.false_ne_true

theorem conflicts_assignment {revision : ℕ} {checksum : String}
    (h : ∀ r ∈ w.rows, ∀ revision' sets', r.target = .assignment revision' sets' →
      r.desiredChecksum ≠ checksum) : w.conflicts (.assignment revision sets) checksum = false := by
  refine any_eq_false.mpr fun r hr hkey => ?_
  rw [Bool.and_eq_true, decide_eq_true_eq] at hkey
  cases htarget : r.target with
  | publication template =>
    rw [htarget] at hkey
    exact absurd hkey.1 Bool.false_ne_true
  | assignment revision' sets' => exact h r hr revision' sets' htarget hkey.2

theorem Tracks.publish (h : Tracks s w) {version : Version}
    (hallowed : Orderly s w (.publish template version expected : Action ι κ)) : Tracks s (w.publish s template version) := by
  have hwf := publish_wellFormed h.wellFormed template version
  have howed : ∀ target checksum, Owed w target checksum →
      Owed (w.publish s template version) target checksum := fun _ _ howed => Owed.enqueue howed
  have hfiles : (w.publish s template version).files = w.files := enqueue_files
  refine ⟨hwf, fun template' version' hpublished => ?_, fun sets hcommitted => ?_⟩
  · have hkept : ∀ version, Shown s w template' version → Shown s (w.publish s template version') template' version :=
      fun version hshown => by
        obtain ⟨content, hread, hfile⟩ := hshown
        exact ⟨content, hread, by rw [World.publish, enqueue_files]; exact hfile⟩
    have hupdated : update w.published template (some version) template' = some version' := by
      rw [World.publish, enqueue_published] at hpublished
      exact hpublished
    by_cases htemplate : template' = template
    · subst htemplate
      rw [update_self] at hupdated
      cases hupdated
      rcases hallowed with hnew | howed' | hshown
      · exact .inr (owed_enqueue ⟨h.wellFormed.nodup, h.wellFormed.fresh, h.wellFormed.aliases,
          h.wellFormed.jobs⟩ (conflicts_publication hnew))
      · exact .inr (howed _ _ howed')
      · exact .inl (hkept _ hshown)
    · rw [update_of_ne htemplate] at hupdated
      refine (h.files template' version' hupdated).imp (fun hshown => ?_) (howed _ _)
      rw [Shown, hfiles]
      exact hshown
  · rw [World.publish, enqueue_committed] at hcommitted
    obtain ⟨hnormal, hright⟩ := h.config sets hcommitted
    have hrevision : (w.publish s template version).revision = w.revision := enqueue_revision
    have hconfig : (w.publish s template version).config = w.config := enqueue_config
    rw [hrevision, hconfig]
    exact ⟨hnormal, hright.imp_right (howed _ _)⟩

theorem Tracks.replaceAssignments (h : Tracks s w) (hallowed : Orderly s w (.replaceAssignments sets expected : Action ι κ)) :
    Tracks s (w.replaceAssignments s sets) := by
  have hbefore : WellFormed s { w with revision := w.revision + 1, committed := some sets } :=
    ⟨h.wellFormed.nodup, h.wellFormed.fresh, h.wellFormed.aliases, h.wellFormed.jobs⟩
  refine ⟨hbefore.enqueue (fun template htarget => nomatch htarget),
    fun template version hpublished => ?_, fun sets' hcommitted => ?_⟩
  · rw [World.replaceAssignments, enqueue_published] at hpublished
    refine (h.files template version hpublished).imp (fun hshown => ?_) Owed.enqueue
    obtain ⟨content, hread, hfile⟩ := hshown
    exact ⟨content, hread, by rw [World.replaceAssignments, enqueue_files]; exact hfile⟩
  · rw [World.replaceAssignments, enqueue_committed] at hcommitted
    cases hcommitted
    refine ⟨hallowed.1, .inr ?_⟩
    have hrevision : (w.replaceAssignments s sets).revision = w.revision + 1 := enqueue_revision
    rw [hrevision]
    exact owed_enqueue hbefore (conflicts_assignment hallowed.2)

end Catalog

section Workers

variable [DecidableEq κ] {i : κ} {job : Job ι} {id : ℕ}

theorem workers_setWorker {job₀ : Option (Job ι)} {j : κ} {job' : Job ι} (h : (w.setWorker i job₀).workers j = some job') :
    (j = i ∧ job₀ = some job') ∨ (j ≠ i ∧ w.workers j = some job') := by
  have hupdate : update w.workers i job₀ j = some job' := h
  by_cases hj : j = i
  · subst hj
    rw [update_self] at hupdate
    exact .inl ⟨rfl, hupdate⟩
  · rw [update_of_ne hj] at hupdate
    exact .inr ⟨hj, hupdate⟩

theorem Tracks.rows (h : Tracks s w) {f : Row ι → Row ι} (hf : ∀ r : Row ι, r.Same (f r)) (job₀ : Option (Job ι))
    (hjob₀ : ∀ job', job₀ = some job' → (∃ job, w.workers i = some job ∧ job.row = job'.row ∧ job.written = job'.written) ∨
        (job'.written = false ∧ ∃ r ∈ w.rows, r.Same job'.row))
    (hopen : ∀ r ∈ w.rows, r.status ≠ .completed →
      (∀ i job, w.workers i = some job → job.row.id = r.id → job.written = false) → (f r).status ≠ .completed) :
    Tracks s ({ w with rows := w.rows.map f }.setWorker i job₀) := by
  refine h.alike ?_ ⟨rfl, rfl, rfl, rfl, rfl, fun target checksum howed => ?_⟩
  · refine h.wellFormed.keeps (keeps_map hf rfl rfl) fun j job' hjob' => ?_
    rcases workers_setWorker hjob' with ⟨rfl, hset⟩ | ⟨-, hother⟩
    · exact (hjob₀ job' hset).imp (fun ⟨job, hjob, hrow, _⟩ => ⟨job, hjob, hrow.symm⟩) And.right
    · exact .inl ⟨job', hother, rfl⟩
  · refine howed.map hf rfl fun r hr _ _ hstatus hunwritten => ⟨hopen r hr hstatus hunwritten, ?_⟩
    intro j job' hjob' hid
    rcases workers_setWorker hjob' with ⟨rfl, hset⟩ | ⟨-, hother⟩
    · rcases hjob₀ job' hset with ⟨job, hjob, hrow, hwritten⟩ | ⟨hwritten, -⟩
      · rw [← hwritten]
        exact hunwritten j job hjob (by rw [hrow]; exact hid)
      · exact hwritten
    · exact hunwritten j job' hother hid

omit [DecidableEq κ] in
theorem find?_rows {row : Row ι} (h : w.rows.find? (fun r => r.id = id) = some row) : row ∈ w.rows ∧ row.id = id :=
  ⟨mem_of_find?_eq_some h, by simpa using find?_some h⟩

theorem Tracks.claim (h : Tracks s w) (hact : w.claim i id = some w') : Tracks s w' := by
  unfold World.claim at hact
  split at hact
  · rename_i row hidle hfind
    obtain ⟨hmem, hid⟩ := find?_rows hfind
    split at hact
    · cases hact
      refine h.rows (same_ite (fun r => same_claimed r w.clock) id) _ (fun job' hjob' => ?_) fun r _ hopen _ => ?_
      · cases hjob'
        exact .inr ⟨rfl, row, hmem, same_claimed row w.clock⟩
      · split
        · exact Status.noConfusion
        · exact hopen
    · exact absurd hact (some_ne_none _).symm
  · exact absurd hact (some_ne_none _).symm

theorem complete_open {r : Row ι} (hopen : r.status ≠ .completed) (hid : r.id ≠ id) :
    (if r.id = id then r.complete else r).status ≠ .completed := by
  rw [if_neg hid]
  exact hopen

theorem Tracks.complete (h : Tracks s w) (hjob : w.workers i = some job) (hwritten : job.written = true) :
    Tracks s ((w.updateRow job.row.id fun r => r.complete).setWorker i none) := by
  refine h.rows (same_ite same_complete job.row.id) none (fun job' hjob' => nomatch hjob')
    fun r _ hopen hunwritten => complete_open hopen fun hid => ?_
  exact absurd (hwritten.symm.trans (hunwritten i job hjob hid.symm)) (Bool.false_ne_true).symm

theorem Tracks.retry (h : Tracks s w) (id : ℕ) (errorCode : String) (delaySeconds now : ℕ) :
    Tracks s ((w.updateRow id fun r => r.retried errorCode delaySeconds now).setWorker i none) := by
  refine h.rows (same_ite (fun r => same_retried r errorCode delaySeconds now) id) none
    (fun job' hjob' => nomatch hjob') fun r _ hopen _ => ?_
  split
  · exact retried_open hopen errorCode delaySeconds now
  · exact hopen

theorem Owed.written {target : Target ι} {checksum : String} (h : Owed w target checksum)
    (hw : WellFormed s w) (hjob : w.workers i = some job)
    (hother : ¬ (job.row.target = target ∧ job.row.desiredChecksum = checksum)) (hrows : w'.rows = w.rows)
    (hworkers : w'.workers = update w.workers i (some { job with written := true })) : Owed w' target checksum := by
  refine h.map same_self (by rw [hrows, map_id']) fun r hr htarget hchecksum hopen hunwritten =>
    ⟨hopen, fun j job' hjob' hid => ?_⟩
  rw [hworkers] at hjob'
  by_cases hj : j = i
  · subst hj
    rw [update_self] at hjob'
    cases hjob'
    obtain ⟨r', hr', hsame⟩ := hw.jobs j job hjob
    -- ids are unique, so the row of the job is the one owed
    have heq : r' = r := inj_on_of_nodup_map hw.nodup hr' hr (hsame.id.symm.trans hid)
    rw [heq] at hsame
    exact absurd ⟨hsame.target.trans htarget, hsame.checksum.trans hchecksum⟩ hother
  · rw [update_of_ne hj] at hjob'
    exact hunwritten j job' hjob' hid

theorem WellFormed.written (h : WellFormed s w) (hjob : w.workers i = some job) (hrows : w'.rows = w.rows)
    (hnext : w'.nextId = w.nextId)
    (hworkers : w'.workers = update w.workers i (some { job with written := true })) : WellFormed s w' := by
  refine h.keeps (keeps_map same_self (by rw [hrows, map_id']) hnext) fun j job' hjob' => .inl ?_
  rw [hworkers] at hjob'
  by_cases hj : j = i
  · subst hj
    rw [update_self] at hjob'
    cases hjob'
    exact ⟨job, hjob, rfl⟩
  · rw [update_of_ne hj] at hjob'
    exact ⟨job', hjob', rfl⟩

theorem Tracks.writeFile (h : Tracks s w) (hjob : w.workers i = some job)
    (hallowed : Orderly s w (.writeFile i)) (hact : w.writeFile s i job = some w') : Tracks s w' := by
  unfold World.writeFile at hact
  split at hact
  · exact absurd hact (some_ne_none _).symm
  rename_i template htarget
  obtain ⟨content, hread, rfl⟩ := map_eq_some_iff.mp hact
  refine ⟨h.wellFormed.written hjob rfl rfl rfl, fun template' version hpublished => ?_, fun sets hcommitted => ?_⟩
  · obtain ⟨r, hr, hsame⟩ := h.wellFormed.jobs i job hjob
    have hname : job.row.desiredAlias = s.legacyAlias template := by
      rw [hsame.desiredAlias]
      exact h.wellFormed.aliases r hr template (hsame.target.symm.trans htarget)
    by_cases htemplate : template' = template
    · subst htemplate
      by_cases hchecksum : job.row.desiredChecksum = version.sha256
      · refine .inl ⟨content, by rw [← hchecksum]; exact hread, ?_⟩
        rw [← hname]
        exact update_self _ _ _
      · have howed : Owed w (.publication template') version.sha256 :=
          (hallowed job hjob template' version htarget hpublished).resolve_left hchecksum
        exact .inr (howed.written h.wellFormed hjob (fun hsame => hchecksum hsame.2) rfl rfl)
    · refine (h.files template' version hpublished).imp (fun hshown => ?_) fun howed => ?_
      · obtain ⟨content', hread', hfile⟩ := hshown
        refine ⟨content', hread', ?_⟩
        have hother : s.legacyAlias template' ≠ job.row.desiredAlias := fun heq =>
          htemplate (s.alias_unique (heq.trans hname))
        exact (update_of_ne hother _ _).trans hfile
      · refine howed.written h.wellFormed hjob (fun hsame => htemplate ?_) rfl rfl
        exact (Target.publication.inj (htarget.symm.trans hsame.1)).symm
  · obtain ⟨hnormal, hright⟩ := h.config sets hcommitted
    refine ⟨hnormal, hright.imp_right fun howed => howed.written h.wellFormed hjob ?_ rfl rfl⟩
    rintro ⟨hassignment, -⟩
    exact nomatch htarget.symm.trans hassignment

theorem Tracks.writeConfig (h : Tracks s w) (hjob : w.workers i = some job)
    (hallowed : Orderly s w (.writeConfig i)) (hact : w.writeConfig s i job = some w') : Tracks s w' := by
  unfold World.writeConfig at hact
  split at hact
  · exact absurd hact (some_ne_none _).symm
  rename_i revision sets htarget
  split at hact
  · cases hact
    refine ⟨h.wellFormed.written hjob rfl rfl rfl, fun template version hpublished => ?_, fun committed hcommitted => ?_⟩
    · refine (h.files template version hpublished).imp_right fun howed =>
        howed.written h.wellFormed hjob ?_ rfl rfl
      rintro ⟨hpublication, -⟩
      exact nomatch htarget.symm.trans hpublication
    · obtain ⟨hnormal, -⟩ := h.config committed hcommitted
      refine ⟨hnormal, ?_⟩
      by_cases hsets : sets = committed
      · exact .inl (by rw [hsets]; exact hnormal)
      have howed := (hallowed job hjob revision sets htarget committed hcommitted).resolve_left hsets
      refine .inr (howed.written h.wellFormed hjob ?_ rfl rfl)
      rintro ⟨hassignment, -⟩
      exact hsets (Target.assignment.inj (htarget.symm.trans hassignment)).2
  · exact absurd hact (some_ne_none _).symm

end Workers

section Runs

variable [DecidableEq ι] [DecidableEq κ]

/-- An orderly step keeps each file and the configuration right, or owed by a job. -/
theorem Tracks.step (h : Tracks s w) {action : Action ι κ} (hallowed : Orderly s w action)
    (hact : w.act s action = some w') : Tracks s w' := by
  cases action with
  | publish template version expected =>
    simp only [World.act] at hact
    split at hact
    · rw [← some.inj hact]
      exact h.publish hallowed
    · exact absurd hact (some_ne_none _).symm
  | replaceAssignments sets expected =>
    simp only [World.act] at hact
    split at hact
    · rw [← some.inj hact]
      exact h.replaceAssignments hallowed
    · exact absurd hact (some_ne_none _).symm
  | tick seconds =>
    rw [← some.inj hact]
    exact h.alike ⟨h.wellFormed.nodup, h.wellFormed.fresh, h.wellFormed.aliases, h.wellFormed.jobs⟩
      ⟨rfl, rfl, rfl, rfl, rfl, fun _ _ howed => howed⟩
  | claim i id => exact h.claim hact
  | writeFile i =>
    obtain ⟨job, hjob, hwrite⟩ := bind_eq_some_iff.mp hact
    exact h.writeFile hjob hallowed hwrite
  | readRevision i =>
    obtain ⟨job, hjob, rfl⟩ := map_eq_some_iff.mp hact
    have hsame := h.rows (i := i) same_self (some { job with revision := some w.configRevision })
      (fun job' hjob' => .inl ⟨job, hjob, by rw [← some.inj hjob']; exact ⟨rfl, rfl⟩⟩) fun r _ hopen _ => hopen
    rw [map_id'] at hsame
    exact hsame
  | writeConfig i =>
    obtain ⟨job, hjob, hwrite⟩ := bind_eq_some_iff.mp hact
    exact h.writeConfig hjob hallowed hwrite
  | complete i =>
    obtain ⟨job, hjob, hcomplete⟩ := bind_eq_some_iff.mp hact
    split at hcomplete
    · rename_i hwritten
      rw [← some.inj hcomplete]
      exact h.complete hjob hwritten
    · exact absurd hcomplete (some_ne_none _).symm
  | retry i errorCode =>
    obtain ⟨job, -, rfl⟩ := map_eq_some_iff.mp hact
    exact h.retry _ _ _ _
  | crash i =>
    rw [← some.inj hact]
    have hsame := h.rows (i := i) same_self none (fun job' hjob' => nomatch hjob') fun r _ hopen _ => hopen
    rw [map_id'] at hsame
    exact hsame
  | recoverStale staleSeconds =>
    rw [← some.inj hact]
    have hf : ∀ r : Row ι, r.Same (r.recovered staleSeconds w.clock) := fun r => same_recovered r staleSeconds w.clock
    refine h.alike (h.wellFormed.keeps (keeps_map hf rfl rfl) fun i job hjob => .inl ⟨job, hjob, rfl⟩)
      ⟨rfl, rfl, rfl, rfl, rfl, fun target checksum howed => howed.map hf rfl ?_⟩
    exact fun r _ _ _ hopen hunwritten => ⟨recovered_open hopen staleSeconds w.clock, hunwritten⟩

omit [DecidableEq ι] [DecidableEq κ] in
theorem Cutover.tracks (h : Cutover s w) : Tracks s w where
  wellFormed := ⟨h.nodup, h.fresh, h.aliases, fun i job hjob => by
    rw [h.workers i] at hjob
    exact nomatch hjob⟩
  files := fun template version hpublished => by
    rw [h.published template] at hpublished
    exact nomatch hpublished
  config := fun sets hcommitted => by
    rw [h.committed] at hcommitted
    exact nomatch hcommitted

omit [DecidableEq ι] [DecidableEq κ] in
/-- Where nothing is owed, the files and the configuration are the published ones. -/
theorem Tracks.follows (h : Tracks s w) (hquiet : Quiet w) : Follows s w := by
  have hnone : ∀ target checksum, ¬ Owed w target checksum := by
    rintro target checksum ⟨r, hr, -, -, hopen, -⟩
    exact hopen (hquiet r hr)
  exact ⟨fun template version hpublished =>
      (h.files template version hpublished).resolve_right (hnone _ _),
    fun sets hcommitted => (h.config sets hcommitted).2.resolve_right (hnone _ _)⟩

/-- In an orderly run from the cutover, once all rows are completed, the files and the configuration follow
what is published and assigned. -/
theorem projection_follows (hstart : Cutover s start) (hrun : Run s (Orderly s) start w) (hquiet : Quiet w) : Follows s w := by
  have htracks : Tracks s w := by
    clear hquiet
    induction hrun with
    | start => exact hstart.tracks
    | step _ hallowed hact ih => exact ih.step hallowed hact
  exact htracks.follows hquiet

theorem Run.actions {actions : List (Action ι κ)} : ∀ {w₀ : World ι κ β},
    Run s (fun _ _ => True) start w₀ → actions.foldlM (fun w action => w.act s action) w₀ = some w →
      Run s (fun _ _ => True) start w := by
  induction actions with
  | nil =>
    intro w₀ hrun h
    cases h
    exact hrun
  | cons action actions ih =>
    intro w₀ hrun h
    rw [foldlM_cons] at h
    obtain ⟨w₁, hact, hrest⟩ := bind_eq_some_iff.mp h
    exact ih (hrun.step trivial hact) hrest

end Runs

/-! ## Publishing an earlier version again

The first version is published and written, then the second, and then the first again: its row is completed
already, so that no row is inserted and the file keeps the second. -/

def sampleScope : Scope Unit String where
  legacyAlias := fun _ => "plan.docx"
  alias_unique := fun _ _ _ => rfl
  read := some
  digest := fun _ _ => "digest"
  casefold := id

def sampleStart : World Unit Unit String where
  rowVersion := fun _ => 1
  published := fun _ => none
  revision := 0
  committed := none
  rows := []
  nextId := 0
  files := fun _ => none
  configRevision := 0
  config := fun _ => []
  clock := 0
  workers := fun _ => none

def sampleProjection (version : Version) (expectedRowVersion id : ℕ) : List (Action Unit Unit) :=
  [.publish () version expectedRowVersion, .claim () id, .writeFile (), .complete ()]

def sampleActions : List (Action Unit Unit) :=
  sampleProjection ⟨"v1", "first"⟩ 1 0 ++ sampleProjection ⟨"v2", "second"⟩ 2 1 ++ [.publish () ⟨"v1", "first"⟩ 3]

theorem projection_follows_sample : ∃ w : World Unit Unit String,
    w.published () = some ⟨"v1", "first"⟩ ∧ w.files "plan.docx" = some "first" ∧ Follows sampleScope w := by
  have hcutover : Cutover sampleScope sampleStart :=
    ⟨fun _ => rfl, rfl, fun _ => rfl, nodup_nil, by simp [sampleStart], by simp [sampleStart]⟩
  have hstart : Run sampleScope (Orderly sampleScope) sampleStart sampleStart := .start
  have hpublish := hstart.step (a := .publish () ⟨"v1", "first"⟩ 1) (.inl (by simp [sampleStart])) rfl
  have hclaim := hpublish.step (a := .claim () 0) trivial rfl
  have hwrite := hclaim.step (a := .writeFile ()) (fun job hjob template version _ hversion => .inl (by
    cases hjob
    cases hversion
    rfl)) rfl
  have hcomplete := hwrite.step (a := .complete ()) trivial rfl
  exact ⟨_, rfl, rfl, projection_follows hcutover hcomplete fun r hr => by
    obtain rfl := mem_singleton.mp hr
    rfl⟩

/-- All rows are completed, and the file has not the bytes of the version that is published. -/
theorem republished_version_not_shown :
    ¬ ∀ w : World Unit Unit String, Run sampleScope (fun _ _ => True) sampleStart w → Quiet w → Follows sampleScope w := by
  intro hall
  let shows (w : World Unit Unit String) := (w.rows.map Row.status, w.published (), w.files "plan.docx")
  have hresult : (sampleActions.foldlM (World.act sampleScope) sampleStart).map shows =
      some ([.completed, .completed], some ⟨"v1", "first"⟩, some "second") := by decide
  obtain ⟨w, hw, heq⟩ := map_eq_some_iff.mp hresult
  obtain ⟨hstatus, hpublished, hfile⟩ : w.rows.map Row.status = [.completed, .completed] ∧
      w.published () = some ⟨"v1", "first"⟩ ∧ w.files "plan.docx" = some "second" := by
    simpa only [shows, Prod.mk.injEq] using heq
  have hquiet : Quiet w := fun r hr => by
    have hmem : r.status ∈ w.rows.map Row.status := mem_map_of_mem hr
    rw [hstatus] at hmem
    simpa using hmem
  obtain ⟨content, hread, hshown⟩ := (hall w (Run.start.actions hw) hquiet).files () _ hpublished
  have hfirst : some "first" = some content := hread
  have hsecond : some "second" = some content := hfile.symm.trans hshown
  exact absurd (hfirst.trans hsecond.symm) (by decide)

end Bidding.Documents.Projection
