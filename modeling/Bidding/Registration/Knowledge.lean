import Bidding.Registration.Otp

/-!
# What a process knows of an account

The account row is locked by whoever writes the account or its failure bucket, so that what a process knows of it (`Phase`)
stands until it commits. The address of an account never changes, since the trigger refuses it.
-/

namespace Bidding.Registration

open Foundations Option Tables

variable {ι : Type}

def wrongs (id : String) : List Event → ℕ
  | [] => 0
  | .wrong id' :: history => if id' = id then wrongs id history + 1 else wrongs id history
  | .issued id' _ _ :: history => if id' = id then 0 else wrongs id history
  | .verified _ _ :: history => wrongs id history

def Event.user : Event → String
  | .issued id _ _ => id
  | .wrong id => id
  | .verified id _ => id

theorem wrongs_cons_of_ne {id : String} {e : Event} (h : e.user ≠ id) (history : List Event) :
    wrongs id (e :: history) = wrongs id history := by
  cases e with
  | issued id' code email => exact if_neg h
  | wrong id' => exact if_neg h
  | verified id' code => rfl

section Invariant

variable (settings : Settings) (digest : String → String → String) (s : Shared ι Row Event) (i : ι)

/-- The bucket counts the wrong guesses since the code was issued, and outlives the code. -/
def Tally (id : String) (expiry : ℕ) : Prop :=
  wrongs id s.history < settings.maxFailures ∧
    ((s.tables.committed (.bucket id) = none ∧ wrongs id s.history = 0) ∨
      ∃ bucket : BucketRow, s.tables.committed (.bucket id) = some bucket ∧
        bucket.attemptCount = wrongs id s.history ∧ expiry < bucket.expiresAt)

/-- The code of an account was sent to its address, and is over or still counted. -/
def Outstanding (id : String) (row : AccountRow) : Prop :=
  ∀ stored, row.maXacMinh = some stored → ∃ expiry, row.hanXacMinh = some expiry ∧ 0 < expiry ∧
    expiry ≤ s.clock + 600 ∧
    (∃ draw, stored = hashRegistrationOtp digest (generateOtp draw) id ∧
      .issued id (generateOtp draw) row.email ∈ s.history) ∧
    (expiry < s.clock ∨ Tally settings s id expiry)

/-- What holds of the committed rows. -/
structure Settled : Prop where
  address : ∀ (id : String) (row : AccountRow), s.tables.committed (.account id) = some row → row.email = row.emailNorm
  codes : ∀ (id : String) (row : AccountRow), s.tables.committed (.account id) = some row → Outstanding settings digest s id row
  buckets : ∀ id, s.tables.committed (.account id) = none → s.tables.committed (.bucket id) = none
  pending : ∀ (id : String) (row : PendingRow), s.tables.committed (.pending id) = some row → row.verifiedAt = none

/-- The process holds the row of an account. -/
structure Held (id : String) (row : AccountRow) : Prop where
  locked : s.tables.locked (.account id) = some i
  committed : s.tables.committed (.account id) = some row

def Selected.Held (selected : Selected) : Prop :=
  ∃ row, Registration.Held s i selected.id row ∧ selected.daXacMinh = row.daXacMinh

def Recipient.Known (user : Recipient) : Prop :=
  ∃ row : AccountRow, s.tables.committed (.account user.id) = some row ∧ row.email = user.email

/-- The process has put a code on the account, which has the address it sends the code to. -/
structure Coded (id : String) (draw : Fin 900000) (address : String) (row : AccountRow) : Prop where
  locked : s.tables.locked (.account id) = some i
  view : s.tables.view i (.account id) = some row
  email : row.email = address
  emailNorm : row.emailNorm = address
  code : row.maXacMinh = some (hashRegistrationOtp digest (generateOtp draw) id)
  expiry : ∃ expiry, row.hanXacMinh = some expiry ∧ 0 < expiry ∧ expiry ≤ s.clock + 600
  old : (s.tables.committed (.account id) = none ∧ row.daXacMinh = false) ∨
    ∃ old : AccountRow, s.tables.committed (.account id) = some old ∧ old.email = address ∧
      row.daXacMinh = old.daXacMinh

def Judged (id : String) (hanXacMinh : Option ℕ) (now : ℕ) : Prop :=
  ∃ expiry, hanXacMinh = some expiry ∧ 0 < expiry ∧ expiry ≤ now + 600 ∧
    (expiry < now ∨ Tally settings s id expiry)

def Counted (id : String) (hanXacMinh : Option ℕ) (bucket : BucketRow) : Prop :=
  ∃ expiry, hanXacMinh = some expiry ∧
    (expiry < s.clock ∨ (bucket.attemptCount = wrongs id s.history + 1 ∧ expiry < bucket.expiresAt))

def Accepted (id email code : String) : Prop :=
  .issued id code email ∈ s.history ∧ wrongs id s.history < settings.maxFailures

/-- What a process knows after its statements so far. -/
def Phase : Task → Prop
  | .idle => True
  | .register phase r c => c ≤ s.clock ∧ match phase with
    | .begun => True
    | .named usernameRow => ∀ row ∈ usernameRow, row.Held s i
    | .mailed conflicting rest => ∀ row ∈ conflicting, row.Held s i ∧ (row ∈ rest ∨ row.daXacMinh = false)
    | .reclaiming id => ∃ row, Held s i id row ∧ row.daXacMinh = false
    | .reclaimed id => ∃ row, Coded digest s i id r.draw r.email row
    | .creating => True
    | .issued id => (∃ row, Coded digest s i id r.draw r.email row) ∧ s.tables.view i (.bucket id) = none
  | .rotate phase _ draw => match phase with
    | .begun => True
    | .found user => user.Known s
    | .timed user expiry => user.Known s ∧ 0 < expiry ∧ expiry ≤ s.clock + 600
    | .updated user => ∃ row, Coded digest s i user.id draw user.email row
    | .cleared user => (∃ row, Coded digest s i user.id draw user.email row) ∧ s.tables.view i (.bucket user.id) = none
  | .confirm phase _ presented => match phase with
    | .begun => True
    | .selected id maXacMinh hanXacMinh => ∃ row, Held s i id row ∧ row.maXacMinh = maXacMinh ∧
        row.hanXacMinh = hanXacMinh
    | .judged id stored hanXacMinh now => ∃ row, Held s i id row ∧ row.maXacMinh = some stored ∧
        row.hanXacMinh = hanXacMinh ∧ now ≤ s.clock ∧ Judged settings s id hanXacMinh now
    | .counted id attemptCount => ∃ row bucket, Held s i id row ∧ s.tables.view i (.account id) = some row ∧
        s.tables.view i (.bucket id) = some bucket ∧ bucket.attemptCount = attemptCount ∧
        Counted s id row.hanXacMinh bucket
    | .failed id => ∃ row, Held s i id row ∧
        s.tables.view i (.account id) = some { row with maXacMinh := none, hanXacMinh := none }
    | .cleared id _ => ∃ row, Held s i id row ∧ s.tables.view i (.account id) = some row ∧
        Accepted settings s id row.email presented.code
    | .verified id => ∃ row row', Held s i id row ∧ s.tables.view i (.account id) = some row' ∧
        row'.email = row.email ∧ row'.emailNorm = row.emailNorm ∧ row'.maXacMinh = none ∧
        Accepted settings s id row.email presented.code

end Invariant

/-- The account whose row or bucket the process may have written. -/
def Task.writes : Task → Option String
  | .register (.reclaimed id) _ _ => some id
  | .register (.issued id) _ _ => some id
  | .rotate (.updated user) _ _ => some user.id
  | .rotate (.cleared user) _ _ => some user.id
  | .confirm (.counted id _) _ _ => some id
  | .confirm (.failed id) _ _ => some id
  | .confirm (.cleared id _) _ _ => some id
  | .confirm (.verified id) _ _ => some id
  | _ => none

/-- What holds of one process. -/
structure Local (settings : Settings) (digest : String → String → String) (s : Shared ι Row Event) (i : ι)
    (t : Task) : Prop where
  accounts : ∀ id, s.tables.written i (.account id) ≠ none → t.writes = some id
  buckets : ∀ id, s.tables.written i (.bucket id) ≠ none → t.writes = some id
  pending : ∀ id, s.tables.written i (.pending id) = none
  phase : Phase settings digest s i t

/-- What the commits of others guarantee to a process. -/
structure Rely (s s' : Shared ι Row Event) (i : ι) : Prop where
  email : ∀ (id : String) (row : AccountRow), s.tables.committed (.account id) = some row →
    ∃ row' : AccountRow, s'.tables.committed (.account id) = some row' ∧ row'.email = row.email
  wrongs : ∀ id, s.tables.locked (.account id) = some i → wrongs id s'.history = wrongs id s.history
  bucket : ∀ id, s.tables.locked (.account id) = some i → s'.tables.committed (.bucket id) = s.tables.committed (.bucket id)

section Frame

variable {settings : Settings} {digest : String → String → String} {s s' : Shared ι Row Event} {i : ι} {t : Task}
  {id : String} {row : AccountRow} {hanXacMinh : Option ℕ}

theorem Tally.of_eq {expiry : ℕ} (hbucket : s'.tables.committed (.bucket id) = s.tables.committed (.bucket id))
    (hwrongs : wrongs id s'.history = wrongs id s.history) (h : Tally settings s id expiry) : Tally settings s' id expiry := by
  unfold Tally
  rw [hbucket, hwrongs]
  exact h

theorem Held.frame (hf : Frame s s' i) (h : Held s i id row) : Held s' i id row :=
  ⟨hf.locked _ h.locked, (hf.held _ h.locked).trans h.committed⟩

theorem Selected.Held.frame (hf : Frame s s' i) {selected : Selected} (h : selected.Held s i) : selected.Held s' i := by
  obtain ⟨row, hheld, hverified⟩ := h
  exact ⟨row, hheld.frame hf, hverified⟩

theorem Recipient.Known.rely (hr : Rely s s' i) {user : Recipient} (h : user.Known s) : user.Known s' := by
  obtain ⟨row, hrow, hemail⟩ := h
  obtain ⟨row', hrow', hemail'⟩ := hr.email user.id row hrow
  exact ⟨row', hrow', hemail'.trans hemail⟩

theorem Coded.frame (hf : Frame s s' i) {draw : Fin 900000} {address : String}
    (h : Coded digest s i id draw address row) : Coded digest s' i id draw address row where
  locked := hf.locked _ h.locked
  view := (hf.view h.locked).trans h.view
  email := h.email
  emailNorm := h.emailNorm
  code := h.code
  expiry := by
    obtain ⟨expiry, hexpiry, hpos, hle⟩ := h.expiry
    exact ⟨expiry, hexpiry, hpos, Nat.le_trans hle (Nat.add_le_add_right hf.clock 600)⟩
  old := by
    rw [hf.held _ h.locked]
    exact h.old

theorem Rely.view_bucket (hf : Frame s s' i) (hr : Rely s s' i) (hlocked : s.tables.locked (.account id) = some i) :
    s'.tables.view i (.bucket id) = s.tables.view i (.bucket id) := by
  rw [view, view, hf.written, hr.bucket id hlocked]

theorem Judged.rely (hr : Rely s s' i) (hlocked : s.tables.locked (.account id) = some i)
    {now : ℕ} (h : Judged settings s id hanXacMinh now) : Judged settings s' id hanXacMinh now := by
  obtain ⟨expiry, hexpiry, hpos, hle, hover⟩ := h
  exact ⟨expiry, hexpiry, hpos, hle, hover.imp_right (Tally.of_eq (hr.bucket id hlocked) (hr.wrongs id hlocked))⟩

theorem Counted.rely (hf : Frame s s' i) (hr : Rely s s' i) (hlocked : s.tables.locked (.account id) = some i)
    {bucket : BucketRow} (h : Counted s id hanXacMinh bucket) : Counted s' id hanXacMinh bucket := by
  obtain ⟨expiry, hexpiry, hover⟩ := h
  refine ⟨expiry, hexpiry, hover.imp (fun hlt => Nat.lt_of_lt_of_le hlt hf.clock) ?_⟩
  rw [hr.wrongs id hlocked]
  exact fun hcount => hcount

theorem Accepted.rely (hf : Frame s s' i) (hr : Rely s s' i) (hlocked : s.tables.locked (.account id) = some i)
    {email code : String} (h : Accepted settings s id email code) : Accepted settings s' id email code := by
  refine ⟨hf.mem_history h.1, ?_⟩
  rw [hr.wrongs id hlocked]
  exact h.2

theorem Phase.frame (hf : Frame s s' i) (hr : Rely s s' i) (h : Phase settings digest s i t) :
    Phase settings digest s' i t := by
  cases t with
  | idle => trivial
  | register phase r c =>
    obtain ⟨hclock, h⟩ := h
    refine ⟨Nat.le_trans hclock hf.clock, ?_⟩
    cases phase with
    | begun => trivial
    | named usernameRow => exact fun row hrow => (h row hrow).frame hf
    | mailed conflicting rest => exact fun row hrow => ⟨(h row hrow).1.frame hf, (h row hrow).2⟩
    | reclaiming id =>
      obtain ⟨row, hheld, hunverified⟩ := h
      exact ⟨row, hheld.frame hf, hunverified⟩
    | reclaimed id =>
      obtain ⟨row, hcoded⟩ := h
      exact ⟨row, hcoded.frame hf⟩
    | creating => trivial
    | issued id =>
      obtain ⟨⟨row, hcoded⟩, hbucket⟩ := h
      exact ⟨⟨row, hcoded.frame hf⟩, (hr.view_bucket hf hcoded.locked).trans hbucket⟩
  | rotate phase username draw =>
    cases phase with
    | begun => trivial
    | found user => exact Recipient.Known.rely hr h
    | timed user expiry => exact ⟨h.1.rely hr, h.2.1, Nat.le_trans h.2.2 (Nat.add_le_add_right hf.clock 600)⟩
    | updated user =>
      obtain ⟨row, hcoded⟩ := h
      exact ⟨row, hcoded.frame hf⟩
    | cleared user =>
      obtain ⟨⟨row, hcoded⟩, hbucket⟩ := h
      exact ⟨⟨row, hcoded.frame hf⟩, (hr.view_bucket hf hcoded.locked).trans hbucket⟩
  | confirm phase username presented =>
    cases phase with
    | begun => trivial
    | selected id maXacMinh hanXacMinh =>
      obtain ⟨row, hheld, hcode, hexpiry⟩ := h
      exact ⟨row, hheld.frame hf, hcode, hexpiry⟩
    | judged id stored hanXacMinh now =>
      obtain ⟨row, hheld, hcode, hexpiry, hnow, hjudged⟩ := h
      exact ⟨row, hheld.frame hf, hcode, hexpiry, Nat.le_trans hnow hf.clock, hjudged.rely hr hheld.locked⟩
    | counted id attemptCount =>
      obtain ⟨row, bucket, hheld, hview, hbucket, hcount, hcounted⟩ := h
      exact ⟨row, bucket, hheld.frame hf, (hf.view hheld.locked).trans hview,
        (hr.view_bucket hf hheld.locked).trans hbucket, hcount, hcounted.rely hf hr hheld.locked⟩
    | failed id =>
      obtain ⟨row, hheld, hview⟩ := h
      exact ⟨row, hheld.frame hf, (hf.view hheld.locked).trans hview⟩
    | cleared id currentTime =>
      obtain ⟨row, hheld, hview, haccepted⟩ := h
      exact ⟨row, hheld.frame hf, (hf.view hheld.locked).trans hview, haccepted.rely hf hr hheld.locked⟩
    | verified id =>
      obtain ⟨row, row', hheld, hview, hemail, hnorm, hcode, haccepted⟩ := h
      exact ⟨row, row', hheld.frame hf, (hf.view hheld.locked).trans hview, hemail, hnorm, hcode,
        haccepted.rely hf hr hheld.locked⟩

theorem Local.frame (h : Local settings digest s i t) (hf : Frame s s' i) (hr : Rely s s' i) :
    Local settings digest s' i t where
  accounts := fun id hwritten => h.accounts id (by rwa [hf.written] at hwritten)
  buckets := fun id hwritten => h.buckets id (by rwa [hf.written] at hwritten)
  pending := fun id => (hf.written _).trans (h.pending id)
  phase := h.phase.frame hf hr

end Frame

section Statement

variable {settings : Settings} {digest : String → String → String} {s : Shared ι Row Event} {i : ι} {t t' : Task}
  {id : String} {row : AccountRow}

section

variable (h : Local settings digest s i t)
include h

theorem Local.view_account (hwrites : t.writes = none) (id : String) :
    s.tables.view i (.account id) = s.tables.committed (.account id) := by
  apply view_of_not_written
  by_contra hwritten
  rw [h.accounts id hwritten] at hwrites
  cases hwrites

theorem Local.view_bucket (hwrites : t.writes = none) (id : String) :
    s.tables.view i (.bucket id) = s.tables.committed (.bucket id) := by
  apply view_of_not_written
  by_contra hwritten
  rw [h.buckets id hwritten] at hwrites
  cases hwrites

theorem Local.view_pending (id : String) : s.tables.view i (.pending id) = s.tables.committed (.pending id) :=
  view_of_not_written (h.pending id)

end

variable [DecidableEq ι]

def after (s : Shared ι Row Event) (i : ι) (request : Request Row) : Shared ι Row Event :=
  { s with tables := s.tables.exec i request }

theorem held_after_lock (hrow : s.tables.committed (.account id) = some row) :
    Held (after s i (.lock (.account id))) i id row :=
  ⟨locked_exec_lock _, hrow⟩

variable {request : Request Row} {f : AccountRow → AccountRow} {draw : Fin 900000} {c : ℕ} {username : String} {presented : Presented}

theorem Held.exec (hready : s.tables.Ready i request) (h : Held s i id row) : Held (after s i request) i id row :=
  ⟨locked_exec hready h.locked, (congrFun (committed_exec request) _).trans h.committed⟩

theorem Selected.Held.exec (hready : s.tables.Ready i request) {selected : Selected}
    (h : selected.Held s i) : selected.Held (after s i request) i := by
  obtain ⟨row, hheld, hverified⟩ := h
  exact ⟨row, hheld.exec hready, hverified⟩

theorem Local.silent (h : Local settings digest s i t)
    (hwritten : ∀ k, (s.tables.exec i request).written i k = s.tables.written i k)
    (hwrites : t.writes = none) (hphase : Phase settings digest (after s i request) i t') :
    Local settings digest (after s i request) i t' where
  accounts := fun id hne => by
    have hold := h.accounts id (by rwa [← hwritten])
    rw [hwrites] at hold
    cases hold
  buckets := fun id hne => by
    have hold := h.buckets id (by rwa [← hwritten])
    rw [hwrites] at hold
    cases hold
  pending := fun id => (hwritten _).trans (h.pending id)
  phase := hphase

theorem Local.write {statement : Statement Row} (h : Local settings digest s i t) (id : String) (hwrites : t'.writes = some id)
    (hkept : t.writes = none ∨ t.writes = some id) (haccount : ∀ id' row, id' ≠ id → statement (.account id') row = none)
    (hbucket : ∀ id' row, id' ≠ id → statement (.bucket id') row = none)
    (hpending : ∀ id' row, statement (.pending id') row = none)
    (hphase : Phase settings digest (after s i (.write statement)) i t') :
    Local settings digest (after s i (.write statement)) i t' where
  accounts := fun id' hne => by
    rw [hwrites]
    by_contra hother
    have hid : id' ≠ id := fun heq => hother (congrArg some heq.symm)
    refine hne ((written_exec_write _ _).trans ?_)
    rw [haccount _ _ hid, none_or]
    by_contra hold
    have hold := h.accounts id' hold
    rcases hkept with hnone | hsome
    · rw [hnone] at hold
      cases hold
    · exact hother (hsome.symm.trans hold)
  buckets := fun id' hne => by
    rw [hwrites]
    by_contra hother
    have hid : id' ≠ id := fun heq => hother (congrArg some heq.symm)
    refine hne ((written_exec_write _ _).trans ?_)
    rw [hbucket _ _ hid, none_or]
    by_contra hold
    have hold := h.buckets id' hold
    rcases hkept with hnone | hsome
    · rw [hnone] at hold
      cases hold
    · exact hother (hsome.symm.trans hold)
  pending := fun id' => by
    refine (written_exec_write _ _).trans ?_
    rw [hpending, none_or, h.pending]
  phase := hphase

theorem view_putAccount (old : Option AccountRow) (row : AccountRow) :
    (s.tables.exec i (.write (putAccount id old row))).view i (.account id) = some row := by
  rw [view_exec_write]
  show Option.getD (if id = id then some (some row) else none) _ = some row
  rw [if_pos rfl]
  rfl

theorem locked_putAccount (old : Option AccountRow) (row : AccountRow) :
    (s.tables.exec i (.write (putAccount id old row))).locked (.account id) = some i := by
  refine if_pos ?_
  show Option.isSome (if id = id then some (some row) else none) = true
  rw [if_pos rfl]
  rfl

theorem view_updateAccount (hrow : s.tables.view i (.account id) = some row) :
    (s.tables.exec i (.write (updateAccount id f))).view i (.account id) = some (f row) := by
  rw [view_exec_write, hrow]
  show Option.getD (if id = id then some (some (f row)) else none) _ = some (f row)
  rw [if_pos rfl]
  rfl

theorem locked_updateAccount (hrow : s.tables.view i (.account id) = some row) :
    (s.tables.exec i (.write (updateAccount id f))).locked (.account id) = some i := by
  refine if_pos ?_
  rw [hrow]
  show Option.isSome (if id = id then some (some (f row)) else none) = true
  rw [if_pos rfl]
  rfl

theorem view_clearBucket : (s.tables.exec i (.write (clearBucket id))).view i (.bucket id) = none := by
  rw [view_exec_write]
  show Option.getD (if id = id then some none else none) _ = none
  rw [if_pos rfl]
  rfl

theorem view_account_clearBucket (id' : String) :
    (s.tables.exec i (.write (clearBucket id'))).view i (.account id) = s.tables.view i (.account id) := by
  rw [view_exec_write]
  rfl

theorem view_putBucket (bucket : BucketRow) :
    (s.tables.exec i (.write (putBucket id bucket))).view i (.bucket id) = some bucket := by
  rw [view_exec_write]
  show Option.getD (if id = id then some (some bucket) else none) _ = some bucket
  rw [if_pos rfl]
  rfl

theorem view_account_putBucket (bucket : BucketRow) :
    (s.tables.exec i (.write (putBucket id bucket))).view i (.account id) = s.tables.view i (.account id) := by
  rw [view_exec_write]
  rfl

theorem Coded.clearBucket {address : String}
    (hready : s.tables.Ready i (.write (Registration.clearBucket id))) (h : Coded digest s i id draw address row) :
    Coded digest (after s i (.write (Registration.clearBucket id))) i id draw address row where
  locked := locked_exec hready h.locked
  view := (view_account_clearBucket id).trans h.view
  email := h.email
  emailNorm := h.emailNorm
  code := h.code
  expiry := h.expiry
  old := h.old

/-! ### Registration -/

theorem Local.selectForUpdate (h : Local settings digest s i t) (hwrites : t.writes = none) {index : Option String}
    {selected : Option Selected}
    (hnext : selectForUpdate (s.tables.view i) index = some (request, selected)) :
    (∀ k, (s.tables.exec i request).written i k = s.tables.written i k) ∧
      ∀ row ∈ selected, row.Held (after s i request) i := by
  unfold Registration.selectForUpdate at hnext
  split at hnext
  · cases hnext
    exact ⟨fun _ => rfl, fun row hrow => nomatch hrow⟩
  split at hnext
  · cases hnext
  rename_i id _ row hsees
  cases hnext
  refine ⟨fun _ => rfl, fun selected hselected => ?_⟩
  cases hselected
  exact ⟨row, held_after_lock ((h.view_account hwrites id).symm.trans hsees), rfl⟩

theorem daXacMinh_of_stale {row : Selected} (h : row.stale settings c = true) : row.daXacMinh = false := by
  simp only [Selected.stale, Bool.and_eq_true, Bool.not_eq_true'] at h
  exact h.1

omit [DecidableEq ι] in
theorem emailNorm_of_validate (h : Local settings digest s i t) (hsettled : Settled settings digest s) {email : String}
    (hvalid : validateVerifiedEmailChange row email (s.tables.view i (.pending id)) c = true) : row.emailNorm = email := by
  simp only [validateVerifiedEmailChange, Bool.or_eq_true, decide_eq_true_eq] at hvalid
  refine hvalid.resolve_right fun hchange => ?_
  obtain ⟨change, hpending, hverified⟩ := (any_eq_true _ _).mp hchange
  rw [h.view_pending] at hpending
  have hnone := hsettled.pending id change hpending
  simp [hnone] at hverified

theorem Local.next_register (h : Local settings digest s i t) (hsettled : Settled settings digest s)
    {phase phase' : RegisterPhase} {r : UnverifiedAccount} (ht : t = .register phase r c)
    (hnext : nextRegister settings digest (s.tables.view i) r c phase = some (request, phase'))
    (hready : s.tables.Ready i request) :
    Local settings digest (after s i request) i (.register phase' r c) := by
  subst ht
  obtain ⟨hclock, hphase⟩ := h.phase
  cases phase with
  | begun =>
    obtain ⟨⟨request', selected⟩, hselect, heq⟩ := map_eq_some_iff.mp hnext
    obtain ⟨rfl, rfl⟩ := Prod.mk.inj heq
    obtain ⟨hwritten, hheld⟩ := h.selectForUpdate rfl hselect
    exact h.silent hwritten rfl ⟨hclock, hheld⟩
  | named usernameRow =>
    obtain ⟨⟨request', selected⟩, hselect, heq⟩ := map_eq_some_iff.mp hnext
    obtain ⟨rfl, rfl⟩ := Prod.mk.inj heq
    obtain ⟨hwritten, hheld⟩ := h.selectForUpdate rfl hselect
    refine h.silent hwritten rfl ⟨hclock, fun row hrow => ⟨?_, .inl hrow⟩⟩
    rcases List.mem_append.mp hrow with hname | hmail
    · exact (hphase row (mem_toList.mp hname)).exec hready
    · exact hheld row (mem_toList.mp hmail)
  | mailed conflicting rest =>
    cases rest with
    | cons row rest =>
      simp only [nextRegister] at hnext
      split at hnext
      · rename_i habandoned
        cases hnext
        rw [Bool.and_eq_true] at habandoned
        refine h.silent (fun _ => rfl) rfl ⟨hclock, fun row' hrow' => ?_⟩
        obtain ⟨hheld, hleft⟩ := hphase row' hrow'
        refine ⟨hheld, hleft.elim (fun hmem => ?_) .inr⟩
        rcases List.mem_cons.mp hmem with rfl | hrest
        · exact .inr (daXacMinh_of_stale habandoned.1)
        · exact .inl hrest
      · cases hnext
    | nil =>
      cases conflicting with
      | nil =>
        cases hnext
        exact h.silent (fun _ => rfl) rfl ⟨hclock, trivial⟩
      | cons row others =>
        simp only [nextRegister] at hnext
        split at hnext
        · cases hnext
          obtain ⟨⟨account, hheld, hverified⟩, hleft⟩ := hphase row List.mem_cons_self
          have hunverified := hleft.resolve_left List.not_mem_nil
          exact h.silent (fun _ => rfl) rfl ⟨hclock, account, hheld, hverified.symm.trans hunverified⟩
        · cases hnext
  | reclaiming id =>
    obtain ⟨row, hheld, hunverified⟩ := hphase
    have hsees : s.tables.view i (.account id) = some row := (h.view_account rfl id).trans hheld.committed
    simp only [nextRegister, hsees, hunverified, Bool.false_eq_true, if_false] at hnext
    split at hnext
    · rename_i hvalid
      cases hnext
      rw [Bool.and_eq_true] at hvalid
      have hnorm := emailNorm_of_validate h hsettled hvalid.1
      refine h.write id rfl (.inl rfl) (fun id' _ hid => if_neg hid) (fun _ _ _ => rfl) (fun _ _ => rfl)
        ⟨hclock, reclaimRow digest r c id row, ?_⟩
      exact {
        locked := locked_putAccount _ _
        view := view_putAccount _ _
        email := rfl
        emailNorm := rfl
        code := rfl
        expiry := ⟨c + 600, rfl, by omega, Nat.add_le_add_right hclock 600⟩
        old := .inr ⟨row, hheld.committed, (hsettled.address id row hheld.committed).trans hnorm, rfl⟩ }
    · cases hnext
  | reclaimed id =>
    cases hnext
    obtain ⟨row, hcoded⟩ := hphase
    exact h.write id rfl (.inr rfl) (fun _ _ _ => rfl) (fun id' _ hid => if_neg hid) (fun _ _ => rfl)
      ⟨hclock, ⟨row, hcoded.clearBucket hready⟩, view_clearBucket⟩
  | creating =>
    simp only [nextRegister] at hnext
    split at hnext
    · rename_i hnew
      cases hnext
      simp only [Bool.and_eq_true, isNone_iff_eq_none] at hnew
      have hnone : s.tables.committed (.account r.userUuid) = none := (h.view_account rfl _).symm.trans hnew.1.1
      refine h.write r.userUuid rfl (.inl rfl) (fun id' _ hid => if_neg hid) (fun _ _ _ => rfl) (fun _ _ => rfl)
        ⟨hclock, ⟨createRow digest r c, ?_⟩, ?_⟩
      · exact {
          locked := locked_putAccount _ _
          view := view_putAccount _ _
          email := rfl
          emailNorm := rfl
          code := rfl
          expiry := ⟨c + 600, rfl, by omega, Nat.add_le_add_right hclock 600⟩
          old := .inl ⟨hnone, rfl⟩ }
      · -- a new account has no failure bucket
        exact (view_exec_write _ _).trans ((h.view_bucket rfl _).trans (hsettled.buckets _ hnone))
    · cases hnext
  | issued id => cases hnext

theorem Local.next_rotate (h : Local settings digest s i t) (hsettled : Settled settings digest s)
    {phase phase' : RotatePhase}
    (ht : t = .rotate phase username draw)
    (hnext : nextRotate digest (s.tables.view i) s.clock username draw phase = some (request, phase'))
    (hready : s.tables.Ready i request) :
    Local settings digest (after s i request) i (.rotate phase' username draw) := by
  subst ht
  have hphase := h.phase
  cases phase with
  | begun =>
    simp only [nextRotate] at hnext
    split at hnext
    · cases hnext
    rename_i id _
    split at hnext
    · cases hnext
    rename_i row hsees
    split at hnext
    · cases hnext
    · cases hnext
      exact h.silent (fun _ => rfl) rfl ⟨row, (h.view_account rfl id).symm.trans hsees, rfl⟩
  | found user =>
    cases hnext
    exact h.silent (fun _ => rfl) rfl ⟨hphase, by omega, Nat.le_refl _⟩
  | timed user expiry =>
    cases hnext
    obtain ⟨⟨row, hrow, hemail⟩, hpos, hle⟩ := hphase
    have hsees : s.tables.view i (.account user.id) = some row := (h.view_account rfl _).trans hrow
    refine h.write user.id rfl (.inl rfl) (fun id' old hid => ?_) (fun _ _ _ => rfl) (fun _ _ => rfl)
      ⟨{ row with
          maXacMinh := some (hashRegistrationOtp digest (generateOtp draw) user.id)
          hanXacMinh := some expiry }, ?_⟩
    · cases old with
      | none => rfl
      | some old => exact if_neg hid
    · exact {
        locked := locked_updateAccount hsees
        view := view_updateAccount hsees
        email := hemail
        emailNorm := (hsettled.address _ _ hrow).symm.trans hemail
        code := rfl
        expiry := ⟨expiry, rfl, hpos, hle⟩
        old := .inr ⟨row, hrow, hemail, rfl⟩ }
  | updated user =>
    cases hnext
    obtain ⟨row, hcoded⟩ := hphase
    exact h.write user.id rfl (.inr rfl) (fun _ _ _ => rfl) (fun id' _ hid => if_neg hid) (fun _ _ => rfl)
      ⟨⟨row, hcoded.clearBucket hready⟩, view_clearBucket⟩
  | cleared user => cases hnext

/-! ### Confirmation -/

theorem hash_of_verify {stored code userId : String} (h : verifyRegistrationOtp digest stored code userId = true) :
    stored = hashRegistrationOtp digest code userId := by
  simp only [verifyRegistrationOtp, Bool.and_eq_true, decide_eq_true_eq] at h
  exact h.2

theorem length_generateOtp (draw : Fin 900000) : (generateOtp draw).length ≤ 6 := by
  have hlt : draw.val + 100000 < 10 ^ 6 := by omega
  exact (Nat.length_repr_le_iff (by omega)).mpr hlt

theorem eq_of_hash_eq (hdigest : CollisionFree digest) {userId : String}
    (h : hashRegistrationOtp digest (generateOtp draw) userId = hashRegistrationOtp digest presented.code userId) :
    generateOtp draw = presented.code := by
  apply hdigest userId _ _ (length_generateOtp draw) presented.short
  unfold hashRegistrationOtp at h
  exact (String.append_right_inj _).mp h

omit [DecidableEq ι] in
theorem counted_consumeAttempt {hanXacMinh : Option ℕ} (hclock : c ≤ s.clock) (h : Judged settings s id hanXacMinh c) :
    Counted s id hanXacMinh (consumeAttempt settings c (s.tables.committed (.bucket id))) := by
  obtain ⟨expiry, hexpiry, -, hle, hover⟩ := h
  refine ⟨expiry, hexpiry, ?_⟩
  rcases hover with hover | ⟨hlt, ⟨hbucket, hzero⟩ | ⟨bucket, hbucket, hcount, hlater⟩⟩
  · exact .inl (Nat.lt_of_lt_of_le hover hclock)
  · rw [hbucket]
    refine .inr ⟨?_, ?_⟩
    · rw [hzero]
      rfl
    · show expiry < c + 24 * 3600
      omega
  · rw [hbucket]
    unfold consumeAttempt
    by_cases hreset : bucket.expiresAt ≤ c
    · left
      omega
    · right
      simp only [hreset, if_false]
      exact ⟨by omega, hlater⟩

theorem Local.next_confirm (hdigest : CollisionFree digest) (h : Local settings digest s i t)
    (hsettled : Settled settings digest s) {phase phase' : ConfirmPhase} (ht : t = .confirm phase username presented)
    (hnext : nextConfirm settings digest (s.tables.view i) s.clock username presented phase = some (request, phase'))
    (hready : s.tables.Ready i request) : Local settings digest (after s i request) i (.confirm phase' username presented) := by
  subst ht
  have hphase := h.phase
  cases phase with
  | begun =>
    simp only [nextConfirm] at hnext
    split at hnext
    · cases hnext
    rename_i id _
    split at hnext
    · cases hnext
    · rename_i row hsees
      cases hnext
      exact h.silent (fun _ => rfl) rfl ⟨row, held_after_lock ((h.view_account rfl id).symm.trans hsees), rfl, rfl⟩
  | selected id maXacMinh hanXacMinh =>
    cases maXacMinh with
    | none => cases hnext
    | some stored =>
      simp only [nextConfirm] at hnext
      split at hnext
      · cases hnext
      cases hnext
      obtain ⟨row, hheld, hcode, hexpiry⟩ := hphase
      obtain ⟨expiry, hsome, hpos, hle, -, hover⟩ := hsettled.codes id row hheld.committed stored hcode
      exact h.silent (fun _ => rfl) rfl
        ⟨row, hheld, hcode, hexpiry, Nat.le_refl _, expiry, hexpiry.symm.trans hsome, hpos, hle, hover⟩
  | judged id stored hanXacMinh c =>
    obtain ⟨row, hheld, hcode, hexpiry, hclock, hjudged⟩ := hphase
    have hview : s.tables.view i (.account id) = some row := (h.view_account rfl id).trans hheld.committed
    simp only [nextConfirm] at hnext
    split at hnext
    · rename_i hverify
      split at hnext
      · cases hnext
      rename_i hcurrent
      cases hnext
      refine h.write id rfl (.inl rfl) (fun _ _ _ => rfl) (fun id' _ hid => if_neg hid) (fun _ _ => rfl)
        ⟨row, hheld.exec hready, (view_account_clearBucket id).trans hview, ?_, ?_⟩
      · -- the code that is kept is the one that was sent
        obtain ⟨-, -, -, -, ⟨draw, hstored, hissued⟩, -⟩ := hsettled.codes id row hheld.committed stored hcode
        have heq := eq_of_hash_eq hdigest (hstored.symm.trans (hash_of_verify hverify))
        rw [← heq]
        exact hissued
      · obtain ⟨expiry, hsome, hpos, -, hover⟩ := hjudged
        refine (hover.resolve_left fun hlt => hcurrent ?_).1
        rw [hsome]
        simp only [any_some, Bool.and_eq_true, decide_eq_true_eq]
        exact ⟨by omega, hlt⟩
    · cases hnext
      refine h.write id rfl (.inl rfl) (fun _ _ _ => rfl) (fun id' _ hid => if_neg hid) (fun _ _ => rfl)
        ⟨row, _, hheld.exec hready, (view_account_putBucket _).trans hview, view_putBucket _, rfl, ?_⟩
      rw [hexpiry, h.view_bucket rfl id]
      exact counted_consumeAttempt hclock hjudged
  | counted id attemptCount =>
    simp only [nextConfirm] at hnext
    split at hnext
    · cases hnext
      obtain ⟨row, bucket, hheld, hview, -⟩ := hphase
      refine h.write id rfl (.inr rfl) (fun id' old hid => ?_) (fun _ _ _ => rfl) (fun _ _ => rfl)
        ⟨row, hheld.exec hready, view_updateAccount hview⟩
      cases old with
      | none => rfl
      | some old => exact if_neg hid
    · cases hnext
  | failed id => cases hnext
  | cleared id currentTime =>
    cases hnext
    obtain ⟨row, hheld, hview, haccepted⟩ := hphase
    refine h.write id rfl (.inr rfl) (fun id' old hid => ?_) (fun _ _ _ => rfl) (fun _ _ => rfl)
      ⟨row, _, hheld.exec hready, view_updateAccount hview, rfl, rfl, rfl, haccepted⟩
    cases old with
    | none => rfl
    | some old => exact if_neg hid
  | verified id => cases hnext

/-- The next statement of a process carries on what it knows of the account and the codes. -/
theorem Local.next (hdigest : CollisionFree digest) (hsettled : Settled settings digest s) (h : Local settings digest s i t)
    (hnext : (program settings digest).next (s.tables.view i) s.clock t = some (request, t'))
    (hready : s.tables.Ready i request) : Local settings digest (after s i request) i t' := by
  cases t with
  | idle => cases hnext
  | register phase r c =>
    obtain ⟨⟨request', phase'⟩, hphase, heq⟩ := map_eq_some_iff.mp hnext
    obtain ⟨rfl, rfl⟩ := Prod.mk.inj heq
    exact h.next_register hsettled rfl hphase hready
  | rotate phase username draw =>
    obtain ⟨⟨request', phase'⟩, hphase, heq⟩ := map_eq_some_iff.mp hnext
    obtain ⟨rfl, rfl⟩ := Prod.mk.inj heq
    exact h.next_rotate hsettled rfl hphase hready
  | confirm phase username presented =>
    obtain ⟨⟨request', phase'⟩, hphase, heq⟩ := map_eq_some_iff.mp hnext
    obtain ⟨rfl, rfl⟩ := Prod.mk.inj heq
    exact h.next_confirm hdigest hsettled rfl hphase hready

end Statement

end Bidding.Registration
