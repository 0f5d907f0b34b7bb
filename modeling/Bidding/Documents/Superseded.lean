import Bidding.Documents.Worker

/-!
# Superseded workers

Every update of a job asks for the lock token of the worker; the result files and the provenance rows have no such guard.
When no superseded worker goes on to them, a superseded worker changes nothing.
-/

namespace Bidding.Documents

open Option Function

variable {ι : Type} {job : Job} {w w' : World ι} {a : Action ι} {i : ι}

def Claim.Superseded (claim : Claim) (w : World ι) : Prop := claim.token + 1 < w.claims

/-- The files are written under a claim. -/
structure Files.WrittenBy (files : Files) (token : ℕ) : Prop where
  json : ∀ file, files.json = some file → file.claim = token
  bin : ∀ file, files.bin = some file → file.claim = token

def CompletedOwn (job : Job) (w : World ι) : Prop :=
  ∀ row, w.stored.row = some row → row.status = .completed → ∃ token result, w.completed = some (token, result) ∧
    job.readResult w.stored.files = some result ∧ w.stored.files.WrittenBy token

def SupersededIdle (w : World ι) (a : Action ι) (w' : World ι) : Prop :=
  ∀ i deed claim phase, a = .work i deed → w.task i = some (claim, phase) → claim.Superseded w → w'.stored = w.stored

def Deed.Unguarded (job : Job) (w : World ι) : Deed → Prop
  | .unlinkJson => w.stored.files.json ≠ none
  | .unlinkBin => w.stored.files.bin ≠ none
  | .writeFile => True
  | .finish _ => job.ownerScoped = true ∧ job.artifactProvenance ≠ none
  | .updateRow => False
  | .nothing => False

def StopsInTime (job : Job) (w : World ι) : Action ι → Prop
  | .work i deed => ∀ claim phase, w.task i = some (claim, phase) → deed.Unguarded job w → ¬ claim.Superseded w
  | _ => True

/-- What the latest worker knows of the files. -/
def FilesAt (job : Job) (files : Files) (token : ℕ) : Phase → Prop
  | .unlinkingBin => files.json = none
  | .rendering => files.json = none ∧ files.bin = none
  | .rendered => files.json = none ∧ files.bin = none
  | .wroteBin content => files.json = none ∧ files.bin = some ⟨content, token⟩
  | .wrote => files.WrittenBy token
  | .finalizing result => files.WrittenBy token ∧ job.readResult files = some result
  | .finishing result => files.WrittenBy token ∧ job.readResult files = some result
  | _ => True

structure Sound (job : Job) (w : World ι) : Prop where
  tokens : ∀ i claim phase, w.task i = some (claim, phase) → claim.token < w.claims
  own : ∀ i j claim phase claim' phase', w.task i = some (claim, phase) → w.task j = some (claim', phase') →
    claim.token = claim'.token → i = j
  locked : ∀ row, w.stored.row = some row → row.status = .processing → ∃ token, row.lockedBy = some token ∧ token + 1 = w.claims
  active : ∀ i claim phase, w.task i = some (claim, phase) → claim.token + 1 = w.claims →
    ∀ row, w.stored.row = some row → row.status = .processing ∧ row.lockedBy = some claim.token
  files : ∀ i claim phase, w.task i = some (claim, phase) → claim.token + 1 = w.claims → w.stored.row ≠ none →
    FilesAt job w.stored.files claim.token phase
  completed : CompletedOwn job w

section Guard

variable {claim : Claim} {f : JobRow → JobRow} {row : JobRow}

theorem guarded_of_processing (h : row.status = .processing ∧ row.lockedBy = some claim.token) :
    guarded claim f (some row) = some (f row) := if_pos h

theorem Sound.not_held (h : Sound job w) (hsuperseded : claim.Superseded w) (hrow : w.stored.row = some row) :
    ¬(row.status = .processing ∧ row.lockedBy = some claim.token) := by
  intro hguard
  obtain ⟨token, hlocked, hlatest⟩ := h.locked row hrow hguard.1
  obtain rfl := some.inj (hlocked.symm.trans hguard.2)
  exact absurd hsuperseded (by unfold Claim.Superseded; omega)

theorem Sound.guarded_superseded (h : Sound job w) (hsuperseded : claim.Superseded w) :
    guarded claim f w.stored.row = w.stored.row := by
  cases hrow : w.stored.row with
  | none => rfl
  | some row => exact if_neg (h.not_held hsuperseded hrow)

theorem Sound.completedBy_superseded (h : Sound job w) (hsuperseded : claim.Superseded w) (deed : Deed) :
    completedBy claim deed w.stored.row w.completed = w.completed := by
  cases deed with
  | finish result =>
    cases hrow : w.stored.row with
    | none => rfl
    | some row => exact if_neg (h.not_held hsuperseded hrow)
  | _ => cases w.stored.row <;> rfl

end Guard

section Superseded

variable {claim : Claim} {phase : Phase} {deed : Deed} {s : Stored} {next : Option Phase}

theorem recordProvenance_of_none {result : Result} {table table' : ProvenanceTable}
    (hnone : ¬ (job.ownerScoped = true ∧ job.artifactProvenance ≠ none))
    (h : job.recordProvenance result table = some table') : table' = table := by
  unfold Job.recordProvenance at h
  split at h
  · rename_i hscoped hsome
    exact absurd ⟨hscoped, by rw [hsome]; exact some_ne_none _⟩ hnone
  · exact (some.inj h).symm

theorem Sound.work_superseded (h : Sound job w) (hwork : Work job w.clock claim w.stored phase deed s next)
    (hsuperseded : claim.Superseded w) (hstops : ¬ deed.Unguarded job w) : s = w.stored := by
  cases hwork with
  | unlinkJson => exact congrArg w.stored.putJson (not_not.mp hstops).symm
  | unlinkBin => exact congrArg w.stored.putBin (not_not.mp hstops).symm
  | failJson error => exact congrArg w.stored.putJson (not_not.mp hstops).symm
  | failBin error => exact congrArg w.stored.putBin (not_not.mp hstops).symm
  | writeBin content hbin => exact absurd trivial hstops
  | writeBytes content => exact absurd trivial hstops
  | writeValue text => exact absurd trivial hstops
  | writeError errorType message => exact absurd trivial hstops
  | writeLateError content errorType message => exact absurd trivial hstops
  | prepare now hnow => exact congrArg w.stored.putRow (h.guarded_superseded hsuperseded)
  | render now hnow => exact congrArg w.stored.putRow (h.guarded_superseded hsuperseded)
  | finalize now result hnow => exact congrArg w.stored.putRow (h.guarded_superseded hsuperseded)
  | fail now error hnow => exact congrArg w.stored.putRow (h.guarded_superseded hsuperseded)
  | finish now result table hnow hrecord =>
    rw [recordProvenance_of_none hstops hrecord, h.guarded_superseded hsuperseded]
    rfl
  | read result hread => rfl
  | raise phase error htrying => rfl
  | keepJson error => rfl
  | keepBin error => rfl
  | killed phase => rfl

end Superseded

variable [DecidableEq ι]

section Latest

variable {claim : Claim} {phase : Phase} {deed : Deed} {s : Stored} {next : Option Phase} {j : ι} {claim' : Claim} {phase' : Phase} {row' : JobRow}

def World.goOn (w : World ι) (i : ι) (claim : Claim) (deed : Deed) (s : Stored) (next : Option Phase) : World ι where
  stored := s
  task := update w.task i (next.map fun phase => (claim, phase))
  clock := w.clock
  claims := w.claims
  completed := completedBy claim deed w.stored.row w.completed

theorem task_goOn (hj : (w.goOn i claim deed s next).task j = some (claim', phase')) :
    (j = i ∧ claim' = claim ∧ next = some phase') ∨ (j ≠ i ∧ w.task j = some (claim', phase')) := by
  by_cases hij : j = i
  · subst hij
    change update w.task j _ j = _ at hj
    rw [update_self] at hj
    obtain ⟨phase, hnext, heq⟩ := map_eq_some_iff.mp hj
    obtain ⟨rfl, rfl⟩ := Prod.mk.inj heq
    exact .inl ⟨rfl, rfl, hnext⟩
  · change update w.task i _ j = _ at hj
    rw [update_of_ne hij] at hj
    exact .inr ⟨hij, hj⟩

theorem exists_task_of_goOn (htask : w.task i = some (claim, phase)) (hj : (w.goOn i claim deed s next).task j = some (claim', phase')) :
    ∃ phase, w.task j = some (claim', phase) := by
  rcases task_goOn hj with ⟨rfl, rfl, -⟩ | ⟨-, hj⟩
  · exact ⟨phase, htask⟩
  · exact ⟨phase', hj⟩

theorem Sound.goOn (h : Sound job w) (htask : w.task i = some (claim, phase))
    (hlocked : ∀ row, s.row = some row → row.status = .processing → ∃ token, row.lockedBy = some token ∧ token + 1 = w.claims)
    (hactive : ∀ j claim' phase', (w.goOn i claim deed s next).task j = some (claim', phase') →
      claim'.token + 1 = w.claims → ∀ row, s.row = some row → row.status = .processing ∧ row.lockedBy = some claim'.token)
    (hfiles : ∀ j claim' phase', (w.goOn i claim deed s next).task j = some (claim', phase') →
      claim'.token + 1 = w.claims → s.row ≠ none → FilesAt job s.files claim'.token phase')
    (hcompleted : CompletedOwn job (w.goOn i claim deed s next)) : Sound job (w.goOn i claim deed s next) where
  tokens := fun j claim' phase' hj => by
    obtain ⟨phase'', hj⟩ := exists_task_of_goOn htask hj
    exact h.tokens j claim' phase'' hj
  own := fun j k claim' phase' claim'' phase'' hj hk heq => by
    obtain ⟨phasej, hj⟩ := exists_task_of_goOn htask hj
    obtain ⟨phasek, hk⟩ := exists_task_of_goOn htask hk
    exact h.own j k claim' phasej claim'' phasek hj hk heq
  locked := hlocked
  active := hactive
  files := hfiles
  completed := hcompleted

omit [DecidableEq ι] in
theorem Sound.latest (h : Sound job w) (htask : w.task i = some (claim, phase)) (hlatest : claim.token + 1 = w.claims)
    (hj : w.task j = some (claim', phase')) (hlatest' : claim'.token + 1 = w.claims) : j = i :=
  h.own j i claim' phase' claim phase hj htask (by omega)

theorem Sound.keep (h : Sound job w) (htask : w.task i = some (claim, phase)) (hlatest : claim.token + 1 = w.claims)
    (hrow : ∀ row', s.row = some row' → ∃ row, w.stored.row = some row ∧ row'.status = row.status ∧
      row'.lockedBy = row.lockedBy)
    (hfiles : ∀ phase', next = some phase' → w.stored.row ≠ none → FilesAt job s.files claim.token phase') :
    Sound job (w.goOn i claim deed s next) := by
  refine h.goOn htask ?_ ?_ ?_ ?_
  · intro row' hrow' hprocessing
    obtain ⟨row, hold, hstatus, hlock⟩ := hrow row' hrow'
    rw [hlock]
    exact h.locked row hold (hstatus.symm.trans hprocessing)
  · intro j claim' phase' hj hlatest' row' hrow'
    obtain ⟨row, hold, hstatus, hlock⟩ := hrow row' hrow'
    obtain ⟨phase'', hj⟩ := exists_task_of_goOn htask hj
    rw [hstatus, hlock]
    exact h.active j claim' phase'' hj hlatest' row hold
  · intro j claim' phase' hj hlatest' hsome
    obtain ⟨row', hrow'⟩ := ne_none_iff_exists'.mp hsome
    obtain ⟨row, hold, -⟩ := hrow row' hrow'
    rcases task_goOn hj with ⟨rfl, rfl, hnext⟩ | ⟨hij, hj⟩
    · exact hfiles phase' hnext (by rw [hold]; exact some_ne_none row)
    · exact absurd (h.latest htask hlatest hj hlatest') hij
  · -- a completed row has no latest worker
    intro row' hrow' hcompleted
    obtain ⟨row, hold, hstatus, -⟩ := hrow row' hrow'
    have hprocessing := (h.active i claim phase htask hlatest row hold).1
    rw [hstatus, hprocessing] at hcompleted
    cases hcompleted

theorem Sound.quit (h : Sound job w) (htask : w.task i = some (claim, phase)) (hlatest : claim.token + 1 = w.claims)
    (hlocked : ∀ row, s.row = some row → row.status ≠ .processing)
    (hcompleted : CompletedOwn job (w.goOn i claim deed s none)) : Sound job (w.goOn i claim deed s none) := by
  have hothers : ∀ j claim' phase', (w.goOn i claim deed s none).task j = some (claim', phase') →
      claim'.token + 1 ≠ w.claims := by
    intro j claim' phase' hj hlatest'
    rcases task_goOn hj with ⟨-, -, hnext⟩ | ⟨hij, hj⟩
    · cases hnext
    · exact hij (h.latest htask hlatest hj hlatest')
  refine h.goOn htask ?_ ?_ ?_ hcompleted
  · exact fun row hrow hprocessing => absurd hprocessing (hlocked row hrow)
  · exact fun j claim' phase' hj hlatest' => absurd hlatest' (hothers j claim' phase' hj)
  · exact fun j claim' phase' hj hlatest' => absurd hlatest' (hothers j claim' phase' hj)

theorem exists_of_progress {now completedItems totalItems : ℕ} {progressPhase : String} {old : Option JobRow}
    (h : guarded claim (progressRow now progressPhase completedItems totalItems) old = some row') :
    ∃ row, old = some row ∧ row'.status = row.status ∧ row'.lockedBy = row.lockedBy := by
  cases old with
  | none => cases h
  | some row =>
    refine ⟨row, rfl, ?_⟩
    change (if _ then some (progressRow now progressPhase completedItems totalItems row) else some row) = some row' at h
    split at h
    · cases h
      exact ⟨rfl, rfl⟩
    · cases h
      exact ⟨rfl, rfl⟩

omit [DecidableEq ι] in
theorem exists_self (h : w.stored.row = some row') :
    ∃ row, w.stored.row = some row ∧ row'.status = row.status ∧ row'.lockedBy = row.lockedBy :=
  ⟨row', h, rfl, rfl⟩

omit [DecidableEq ι] in
theorem Sound.guarded_latest (h : Sound job w) (htask : w.task i = some (claim, phase))
    (hlatest : claim.token + 1 = w.claims) {f : JobRow → JobRow} (hrow' : guarded claim f w.stored.row = some row') :
    ∃ row, w.stored.row = some row ∧ row.status = .processing ∧ row.lockedBy = some claim.token ∧ row' = f row := by
  cases hrow : w.stored.row with
  | none =>
    rw [hrow] at hrow'
    cases hrow'
  | some row =>
    obtain ⟨hstatus, hlock⟩ := h.active i claim phase htask hlatest row hrow
    rw [hrow, guarded_of_processing ⟨hstatus, hlock⟩] at hrow'
    exact ⟨row, rfl, hstatus, hlock, (some.inj hrow').symm⟩

theorem Sound.work_latest (h : Sound job w) (htask : w.task i = some (claim, phase))
    (hlatest : claim.token + 1 = w.claims) (hwork : Work job w.clock claim w.stored phase deed s next) :
    Sound job (w.goOn i claim deed s next) := by
  have hfiles := h.files i claim phase htask hlatest
  cases hwork with
  | prepare now hnow =>
    exact h.keep htask hlatest (fun _ => exists_of_progress) fun phase' hnext _ => some.inj hnext ▸ trivial
  | unlinkJson =>
    exact h.keep htask hlatest (fun _ => exists_self) fun phase' hnext _ => some.inj hnext ▸ rfl
  | unlinkBin =>
    exact h.keep htask hlatest (fun _ => exists_self) fun phase' hnext hsome => some.inj hnext ▸ ⟨hfiles hsome, rfl⟩
  | render now hnow =>
    exact h.keep htask hlatest (fun _ => exists_of_progress) fun phase' hnext hsome => some.inj hnext ▸ hfiles hsome
  | writeBin content hbin =>
    exact h.keep htask hlatest (fun _ => exists_self) fun phase' hnext hsome => some.inj hnext ▸ ⟨(hfiles hsome).1, rfl⟩
  | writeBytes content =>
    refine h.keep htask hlatest (fun _ => exists_self) fun phase' hnext hsome => ?_
    cases hnext
    obtain ⟨-, hbin⟩ := hfiles hsome
    exact ⟨fun file hfile => some.inj hfile ▸ rfl, fun file hfile => mem_unique hbin hfile ▸ rfl⟩
  | writeValue text =>
    refine h.keep htask hlatest (fun _ => exists_self) fun phase' hnext hsome => ?_
    cases hnext
    obtain ⟨-, hbin⟩ := hfiles hsome
    exact ⟨fun file hfile => some.inj hfile ▸ rfl, fun file hfile => nomatch hbin.symm.trans hfile⟩
  | writeError errorType message =>
    refine h.keep htask hlatest (fun _ => exists_self) fun phase' hnext hsome => ?_
    cases hnext
    obtain ⟨-, hbin⟩ := hfiles hsome
    exact ⟨fun file hfile => some.inj hfile ▸ rfl, fun file hfile => nomatch hbin.symm.trans hfile⟩
  | writeLateError content errorType message =>
    refine h.keep htask hlatest (fun _ => exists_self) fun phase' hnext hsome => ?_
    cases hnext
    obtain ⟨-, hbin⟩ := hfiles hsome
    exact ⟨fun file hfile => some.inj hfile ▸ rfl, fun file hfile => mem_unique hbin hfile ▸ rfl⟩
  | read result hread =>
    exact h.keep htask hlatest (fun _ => exists_self) fun phase' hnext hsome => some.inj hnext ▸ ⟨hfiles hsome, hread⟩
  | finalize now result hnow =>
    exact h.keep htask hlatest (fun _ => exists_of_progress) fun phase' hnext hsome => some.inj hnext ▸ hfiles hsome
  | finish now result table hnow hrecord =>
    refine h.quit htask hlatest ?_ ?_
    · intro row' hrow'
      obtain ⟨row, -, -, -, rfl⟩ := h.guarded_latest htask hlatest hrow'
      exact fun hstatus => nomatch hstatus
    · intro row' hrow' _
      obtain ⟨row, hrow, hstatus, hlock, -⟩ := h.guarded_latest htask hlatest hrow'
      obtain ⟨hown, hread⟩ := hfiles (by rw [hrow]; exact some_ne_none row)
      refine ⟨claim.token, result, ?_, hread, hown⟩
      show completedBy claim (.finish result) w.stored.row w.completed = _
      rw [hrow]
      exact if_pos ⟨hstatus, hlock⟩
  | raise phase error htrying =>
    exact h.keep htask hlatest (fun _ => exists_self) fun phase' hnext _ => some.inj hnext ▸ trivial
  | failJson error =>
    exact h.keep htask hlatest (fun _ => exists_self) fun phase' hnext _ => some.inj hnext ▸ trivial
  | failBin error =>
    exact h.keep htask hlatest (fun _ => exists_self) fun phase' hnext _ => some.inj hnext ▸ trivial
  | keepJson error =>
    exact h.keep htask hlatest (fun _ => exists_self) fun phase' hnext _ => some.inj hnext ▸ trivial
  | keepBin error =>
    exact h.keep htask hlatest (fun _ => exists_self) fun phase' hnext _ => some.inj hnext ▸ trivial
  | fail now error hnow =>
    have hstatus : ∀ row', guarded claim (failRow job now error claim) w.stored.row = some row' →
        row'.status = .retry ∨ row'.status = .failed := by
      intro row' hrow'
      obtain ⟨row, -, -, -, rfl⟩ := h.guarded_latest htask hlatest hrow'
      show (if error.retries job claim then Status.retry else .failed) = _ ∨
        (if error.retries job claim then Status.retry else .failed) = _
      split
      · exact .inl rfl
      · exact .inr rfl
    refine h.quit htask hlatest (fun row' hrow' => ?_) fun row' hrow' hcompleted => ?_
    · rcases hstatus row' hrow' with heq | heq <;> rw [heq] <;> exact nofun
    · rcases hstatus row' hrow' with heq | heq <;> rw [heq] at hcompleted <;> cases hcompleted
  | killed phase =>
    exact h.keep htask hlatest (fun _ => exists_self) fun phase' hnext _ => nomatch hnext

end Latest

/-! ## Runs -/

theorem Sound.goOn_superseded (h : Sound job w) {claim : Claim} {phase : Phase} {deed : Deed} {next : Option Phase}
    (htask : w.task i = some (claim, phase)) (hsuperseded : claim.Superseded w) :
    Sound job (w.goOn i claim deed w.stored next) := by
  have hold : claim.token + 1 ≠ w.claims := Nat.ne_of_lt hsuperseded
  refine h.goOn htask h.locked ?_ ?_ ?_
  · intro j claim' phase' hj hlatest
    obtain ⟨phase'', hj⟩ := exists_task_of_goOn htask hj
    exact h.active j claim' phase'' hj hlatest
  · intro j claim' phase' hj hlatest
    rcases task_goOn hj with ⟨-, rfl, -⟩ | ⟨-, hj⟩
    · exact absurd hlatest hold
    · exact h.files j claim' phase' hj hlatest
  · intro row hrow hcompleted
    obtain ⟨token, result, heq, hread, hown⟩ := h.completed row hrow hcompleted
    exact ⟨token, result, (h.completedBy_superseded hsuperseded deed).trans heq, hread, hown⟩

omit [DecidableEq ι] in
theorem Sound.putRow (h : Sound job w) {row' : Option JobRow} (hrow : ∀ r', row' = some r' → w.stored.row = some r' ∨
      ∃ r, w.stored.row = some r ∧ r.status ≠ .processing ∧ r'.status ≠ .processing ∧ r'.status ≠ .completed) :
    Sound job { w with stored := w.stored.putRow row' } where
  tokens := h.tokens
  own := h.own
  locked := fun r' hr' hprocessing => by
    rcases hrow r' hr' with hsame | ⟨r, -, -, hother, -⟩
    · exact h.locked r' hsame hprocessing
    · exact absurd hprocessing hother
  active := fun j claim phase hj hlatest r' hr' => by
    rcases hrow r' hr' with hsame | ⟨r, hr, hother, -⟩
    · exact h.active j claim phase hj hlatest r' hsame
    · exact absurd (h.active j claim phase hj hlatest r hr).1 hother
  files := fun j claim phase hj hlatest hsome => by
    refine h.files j claim phase hj hlatest fun hnone => ?_
    obtain ⟨r', hr'⟩ := ne_none_iff_exists'.mp hsome
    rcases hrow r' hr' with hsame | ⟨r, hr, -⟩
    · exact nomatch hnone.symm.trans hsame
    · exact nomatch hnone.symm.trans hr
  completed := fun r' hr' hcompleted => by
    rcases hrow r' hr' with hsame | ⟨r, -, -, -, hother⟩
    · exact h.completed r' hsame hcompleted
    · exact absurd hcompleted hother

theorem cancelRow_cases (now : ℕ) (row : JobRow) : cancelRow now row = row ∨
    (row.status ≠ .processing ∧ (cancelRow now row).status ≠ .processing ∧ (cancelRow now row).status ≠ .completed) := by
  unfold cancelRow
  split
  · rename_i hopen
    refine .inr ⟨?_, nofun, nofun⟩
    rcases hopen with heq | heq <;> rw [heq] <;> exact nofun
  · exact .inl rfl

theorem retryRow_cases (now : ℕ) (row : JobRow) : retryRow job now row = row ∨
    (row.status ≠ .processing ∧ (retryRow job now row).status ≠ .processing ∧
      (retryRow job now row).status ≠ .completed) := by
  unfold retryRow
  split
  · rename_i hfailed
    refine .inr ⟨?_, nofun, nofun⟩
    rw [hfailed.1]
    exact nofun
  · exact .inl rfl

theorem Sound.claim (h : Sound job w) {now : ℕ} {row : JobRow} (hidle : w.task i = none) : Sound job
      { stored := w.stored.putRow (some (claimRow now w.claims row))
        task := update w.task i (some (row.claim w.claims, .preparing))
        clock := w.clock
        claims := w.claims + 1
        completed := w.completed } := by
  have hcases : ∀ j claim phase, update w.task i (some (row.claim w.claims, .preparing)) j = some (claim, phase) →
      (j = i ∧ claim = row.claim w.claims ∧ phase = .preparing) ∨ (j ≠ i ∧ w.task j = some (claim, phase)) := by
    intro j claim phase hj
    by_cases hij : j = i
    · subst hij
      rw [update_self] at hj
      cases hj
      exact .inl ⟨rfl, rfl, rfl⟩
    · rw [update_of_ne hij] at hj
      exact .inr ⟨hij, hj⟩
  constructor
  · intro j claim phase hj
    rcases hcases j claim phase hj with ⟨-, rfl, -⟩ | ⟨-, hj⟩
    · exact Nat.lt_succ_self w.claims
    · exact Nat.lt_succ_of_lt (h.tokens j claim phase hj)
  · intro j k claim phase claim' phase' hj hk heq
    rcases hcases j claim phase hj with ⟨hji, rfl, -⟩ | ⟨-, hj'⟩
    · rcases hcases k claim' phase' hk with ⟨hki, -⟩ | ⟨-, hk'⟩
      · exact hji.trans hki.symm
      · exact absurd heq.symm (Nat.ne_of_lt (h.tokens k claim' phase' hk'))
    · rcases hcases k claim' phase' hk with ⟨-, rfl, -⟩ | ⟨-, hk'⟩
      · exact absurd heq (Nat.ne_of_lt (h.tokens j claim phase hj'))
      · exact h.own j k claim phase claim' phase' hj' hk' heq
  · intro row' hrow' _
    cases hrow'
    exact ⟨w.claims, rfl, rfl⟩
  · intro j claim phase hj hlatest row' hrow'
    cases hrow'
    rcases hcases j claim phase hj with ⟨-, rfl, -⟩ | ⟨-, hj⟩
    · exact ⟨rfl, rfl⟩
    · exact absurd (Nat.succ.inj hlatest) (Nat.ne_of_lt (h.tokens j claim phase hj))
  · intro j claim phase hj hlatest _
    rcases hcases j claim phase hj with ⟨-, -, rfl⟩ | ⟨-, hj⟩
    · trivial
    · exact absurd (Nat.succ.inj hlatest) (Nat.ne_of_lt (h.tokens j claim phase hj))
  · intro row' hrow' hcompleted
    cases hrow'
    cases hcompleted

/-- A step leaves the job to the last that claimed it, with its own files. -/
theorem Sound.step (h : Sound job w) (hstep : Step job w a w') (hstops : StopsInTime job w a) : Sound job w' := by
  cases hstep with
  | advance seconds => exact ⟨h.tokens, h.own, h.locked, h.active, h.files, h.completed⟩
  | cancel now hnow =>
    refine h.putRow fun row' hrow' => ?_
    obtain ⟨row, hrow, rfl⟩ := map_eq_some_iff.mp hrow'
    rcases cancelRow_cases now row with heq | hother
    · rw [heq]
      exact .inl hrow
    · exact .inr ⟨row, hrow, hother⟩
  | retry now hnow =>
    refine h.putRow fun row' hrow' => ?_
    obtain ⟨row, hrow, rfl⟩ := map_eq_some_iff.mp hrow'
    rcases retryRow_cases now row with heq | hother
    · rw [heq]
      exact .inl hrow
    · exact .inr ⟨row, hrow, hother⟩
  | consume row hrow hcompleted => exact h.putRow fun row' hrow' => nomatch hrow'
  | expire now row hnow hrow hpurgeable => exact h.putRow fun row' hrow' => nomatch hrow'
  | remove hnone =>
    refine ⟨h.tokens, h.own, h.locked, h.active, fun _ _ _ _ _ hsome => absurd hnone hsome, fun row hrow => ?_⟩
    exact nomatch hnone.symm.trans hrow
  | claim i now row hnow hidle hrow hclaimable => exact h.claim hidle
  | work i claim phase deed s next htask hwork =>
    rcases Nat.lt_or_eq_of_le (h.tokens i claim phase htask) with hsuperseded | hlatest
    · obtain rfl := h.work_superseded hwork hsuperseded fun hunguarded => hstops claim phase htask hunguarded hsuperseded
      exact h.goOn_superseded htask hsuperseded
    · exact h.work_latest htask hlatest hwork

theorem Reached.sound (h : Reached job (StopsInTime job) w) : Sound job w := by
  induction h with
  | start progressPhase progressCompletedItems progressTotalItems clock provenance =>
    constructor
    · exact fun _ _ _ hj => nomatch hj
    · exact fun _ _ _ _ _ _ hj => nomatch hj
    · intro row hrow hprocessing
      cases hrow
      cases hprocessing
    · exact fun _ _ _ hj => nomatch hj
    · exact fun _ _ _ hj => nomatch hj
    · intro row hrow hcompleted
      cases hrow
      cases hcompleted
  | step _ hstep hstops ih => exact ih.step hstep hstops

/-- In every run in which superseded workers stop in time, a superseded worker changes nothing, and a completed
job has the files of the claim that completed it. -/
theorem superseded_worker_changes_nothing (h : Reached job (StopsInTime job) w) :
    CompletedOwn job w ∧ ∀ a w', Step job w a w' → StopsInTime job w a → SupersededIdle w a w' := by
  refine ⟨h.sound.completed, fun a w' hstep hstops => ?_⟩
  rintro i deed claim phase rfl htask hsuperseded
  cases hstep with
  | work i' claim' phase' deed' s next htask' hwork =>
    obtain ⟨rfl, rfl⟩ := Prod.mk.inj (mem_unique htask htask')
    exact h.sound.work_superseded hwork hsuperseded fun hunguarded => hstops claim phase htask hunguarded hsuperseded

section Samples

def sampleJob : Job where
  id := "job"
  settings := ⟨240, 2, 86400, by omega, by omega, by omega⟩
  ownerScoped := false
  artifactProvenance := none
  totalItems := 1
  sha256 := id
  unzip := fun _ => none

def sampleClaim (i : ℕ) : Claim := ⟨i, i + 1, 0, 1⟩

/-- Worker `i` claims the job. -/
def World.claimSample (w : World ℕ) (i now : ℕ) (row : JobRow) : World ℕ where
  stored := w.stored.putRow (some (claimRow now w.claims row))
  task := update w.task i (some (row.claim w.claims, .preparing))
  clock := w.clock
  claims := w.claims + 1
  completed := w.completed

/-- Worker `i` goes on. -/
def World.workSample (w : World ℕ) (i : ℕ) (deed : Deed) (s : Stored) (next : Option Phase) : World ℕ :=
  w.goOn i (sampleClaim i) deed s next

variable {P : World ℕ → Action ℕ → Prop} {w : World ℕ}

theorem stopsInTime_of_latest {i : ℕ} {phase : Phase} (htask : w.task i = some (sampleClaim i, phase))
    (hlatest : i + 1 = w.claims) (deed : Deed) : StopsInTime sampleJob w (.work i deed) := by
  rintro claim phase' htask' - hsuperseded
  obtain ⟨rfl, -⟩ := Prod.mk.inj (mem_unique htask htask')
  exact absurd hlatest (Nat.ne_of_lt hsuperseded)

theorem Reached.work (h : Reached sampleJob P w) (i : ℕ) {phase : Phase} {deed : Deed} {s : Stored}
    {next : Option Phase} (hwork : Work sampleJob w.clock (sampleClaim i) w.stored phase deed s next)
    (htask : w.task i = some (sampleClaim i, phase)) (hP : P w (.work i deed)) :
    Reached sampleJob P (w.workSample i deed s next) :=
  h.step (.work i (sampleClaim i) phase deed s next htask hwork) hP

def sampleTaken : World ℕ :=
  let w : World ℕ := .start sampleJob "queued" 0 1 1000 fun _ => none
  let row := enqueuedRow "queued" 0 1 1000 86400
  let claimed := { w.claimSample 0 1000 row with clock := 1240 }
  claimed.claimSample 1 1240 (claimRow 1000 0 row)

section

variable (hP : ∀ w a, StopsInTime sampleJob w a → P w a)
include hP

theorem reached_sampleTaken : Reached sampleJob P sampleTaken := by
  have hstart : Reached sampleJob P (.start sampleJob "queued" 0 1 1000 fun _ => none) := .start _ _ _ _ _
  have hclaimed := hstart.step (.claim 0 1000 (enqueuedRow "queued" 0 1 1000 86400) (by decide) rfl rfl (by decide))
    (hP _ _ trivial)
  have hlater := hclaimed.step (.advance 240) (hP _ _ trivial)
  exact hlater.step (.claim 1 1240 (claimRow 1000 0 (enqueuedRow "queued" 0 1 1000 86400)) (by decide) rfl rfl (by decide))
    (hP _ _ trivial)

def sampleRendered : World ℕ :=
  let prepared := sampleTaken.workSample 1 .updateRow (sampleTaken.stored.putRow
    (guarded (sampleClaim 1) (progressRow 1240 "preparing" 0 1) sampleTaken.stored.row)) (some .unlinkingJson)
  let unlinked := (prepared.workSample 1 .unlinkJson (prepared.stored.putJson none) (some .unlinkingBin)).workSample 1
    .unlinkBin ((prepared.stored.putJson none).putBin none) (some .rendering)
  let rendering := unlinked.workSample 1 .updateRow (unlinked.stored.putRow
    (guarded (sampleClaim 1) (progressRow 1240 "rendering" 0 1) unlinked.stored.row)) (some .rendered)
  rendering.workSample 1 .writeFile (rendering.stored.putJson (some ⟨.value "ok", 1⟩)) (some .wrote)

theorem reached_sampleRendered : Reached sampleJob P sampleRendered := by
  have hprepared := (reached_sampleTaken hP).work 1 (.prepare 1240 (by decide)) rfl (hP _ _ (stopsInTime_of_latest rfl rfl _))
  have hjson := hprepared.work 1 .unlinkJson rfl (hP _ _ (stopsInTime_of_latest rfl rfl _))
  have hbin := hjson.work 1 .unlinkBin rfl (hP _ _ (stopsInTime_of_latest rfl rfl _))
  have hrendering := hbin.work 1 (.render 1240 (by decide)) rfl (hP _ _ (stopsInTime_of_latest rfl rfl _))
  exact hrendering.work 1 (.writeValue "ok") rfl (hP _ _ (stopsInTime_of_latest rfl rfl _))

def sampleCompleted : World ℕ :=
  let read := sampleRendered.workSample 1 .nothing sampleRendered.stored (some (.finalizing (.value "ok")))
  let finalized := read.workSample 1 .updateRow (read.stored.putRow
    (guarded (sampleClaim 1) (progressRow 1240 "finalizing" 1 1) read.stored.row)) (some (.finishing (.value "ok")))
  finalized.workSample 1 (.finish (.value "ok")) (finalized.stored.putRow
    (guarded (sampleClaim 1) (completeRow 1240 (sampleClaim 1)) finalized.stored.row)) none

theorem reached_sampleCompleted : Reached sampleJob P sampleCompleted := by
  have hread := (reached_sampleRendered hP).work 1 (.read (.value "ok") rfl) rfl (hP _ _ (stopsInTime_of_latest rfl rfl _))
  have hfinalized := hread.work 1 (.finalize 1240 (.value "ok") (by decide)) rfl (hP _ _ (stopsInTime_of_latest rfl rfl _))
  exact hfinalized.work 1 (.finish 1240 (.value "ok") _ (by decide) rfl) rfl (hP _ _ (stopsInTime_of_latest rfl rfl _))

end

def sampleLate : World ℕ :=
  sampleCompleted.workSample 0 .updateRow (sampleCompleted.stored.putRow
    (guarded (sampleClaim 0) (progressRow 1240 "preparing" 0 1) sampleCompleted.stored.row)) (some .unlinkingJson)

theorem superseded_worker_changes_nothing_sample :
    CompletedOwn sampleJob sampleCompleted ∧ sampleCompleted.completed = some (1, .value "ok") ∧
      SupersededIdle sampleCompleted (.work 0 .updateRow) sampleLate := by
  obtain ⟨hcompleted, hidle⟩ := superseded_worker_changes_nothing (reached_sampleCompleted fun _ _ hstops => hstops)
  exact ⟨hcompleted, rfl, hidle _ _ (.work 0 (sampleClaim 0) .preparing .updateRow _ _ rfl (.prepare 1240 (by decide)))
    fun _ _ _ hunguarded => hunguarded.elim⟩

/-- Worker 0 fails late, and unlinks the result of worker 1. -/
theorem result_unlinked_by_superseded_worker :
    ∃ w : World ℕ, Reached sampleJob (fun _ _ => True) w ∧ ¬ CompletedOwn sampleJob w := by
  have hcompleted := reached_sampleCompleted (P := fun _ _ => True) fun _ _ _ => trivial
  have hraised := hcompleted.work 0 (.raise .preparing ⟨.worker, "DocumentWorkerError", "late"⟩ rfl) rfl trivial
  have hunlinked := hraised.work 0 (.failJson _) rfl trivial
  refine ⟨_, hunlinked, fun hown => ?_⟩
  obtain ⟨token, result, -, hread, -⟩ := hown _ rfl rfl
  cases hread

end Samples

end Bidding.Documents
