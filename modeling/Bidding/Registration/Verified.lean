import Bidding.Registration.Knowledge

/-!
# A verified address was proved

What a commit leaves of the account it is about (`Effect`) keeps the invariant of the committed rows: the code of an account
was sent to its address, and its failure bucket counts the wrong guesses.
-/

namespace Bidding.Registration

open Foundations Option

variable {ι : Type}

section Commit

variable {settings : Settings} {digest : String → String → String} {s : Shared ι Row Event} {i j : ι} {t : Task}
  {e : Event}

def committed [DecidableEq ι] (s : Shared ι Row Event) (i : ι) (e : Event) : Shared ι Row Event :=
  { tables := s.tables.commit i, clock := s.clock, history := e :: s.history }

/-- What a commit leaves of the account it is about. -/
structure Effect [DecidableEq ι] (settings : Settings) (digest : String → String → String) (s : Shared ι Row Event)
    (i : ι) (e : Event) (row : AccountRow) : Prop where
  locked : s.tables.locked (.account e.user) = some i
  view : s.tables.view i (.account e.user) = some row
  address : row.email = row.emailNorm
  old : s.tables.committed (.account e.user) = none ∨
    ∃ old : AccountRow, s.tables.committed (.account e.user) = some old ∧ old.email = row.email
  code : Outstanding settings digest (committed s i e) e.user row
  verified : row.daXacMinh = true →
    (∃ old : AccountRow, s.tables.committed (.account e.user) = some old ∧ old.daXacMinh = true) ∨
      ∃ code, e = .verified e.user code
  accepted : ∀ code, e = .verified e.user code → Accepted settings s e.user row.email code

variable [DecidableEq ι] {id : String} {row : AccountRow}

theorem Coded.effect {draw : Fin 900000} {address : String}
    (h : Coded digest s i id draw address row) (hbucket : s.tables.view i (.bucket id) = none) :
    Effect settings digest s i (.issued id (generateOtp draw) address) row where
  locked := h.locked
  view := h.view
  address := h.email.trans h.emailNorm.symm
  old := by
    rcases h.old with ⟨hnone, -⟩ | ⟨old, hold, hemail, -⟩
    · exact .inl hnone
    · exact .inr ⟨old, hold, hemail.trans h.email.symm⟩
  code := by
    intro stored hstored
    obtain ⟨expiry, hexpiry, hpos, hle⟩ := h.expiry
    refine ⟨expiry, hexpiry, hpos, hle, ⟨draw, mem_unique hstored h.code, ?_⟩, .inr ⟨?_, .inl ⟨hbucket, ?_⟩⟩⟩
    · rw [h.email]
      exact List.mem_cons_self
    · show wrongs id (.issued id (generateOtp draw) address :: s.history) < settings.maxFailures
      rw [wrongs, if_pos rfl]
      exact settings.one_le_maxFailures
    · show wrongs id (.issued id (generateOtp draw) address :: s.history) = 0
      rw [wrongs, if_pos rfl]
  verified := by
    intro hverified
    rcases h.old with ⟨-, hunverified⟩ | ⟨old, hold, -, heq⟩
    · rw [hunverified] at hverified
      cases hverified
    · exact .inl ⟨old, hold, heq.symm.trans hverified⟩
  accepted := fun code heq => nomatch heq

theorem Counted.effect (hsettled : Settled settings digest s) {bucket : BucketRow}
    (hheld : Held s i id row) (hview : s.tables.view i (.account id) = some row)
    (hbucket : s.tables.view i (.bucket id) = some bucket) (h : Counted s id row.hanXacMinh bucket)
    (hfew : ¬ settings.maxFailures - bucket.attemptCount = 0) : Effect settings digest s i (.wrong id) row where
  locked := hheld.locked
  view := hview
  address := hsettled.address id row hheld.committed
  old := .inr ⟨row, hheld.committed, rfl⟩
  code := by
    intro stored hstored
    obtain ⟨expiry, hexpiry, hpos, hle, ⟨draw, hcode, hissued⟩, -⟩ := hsettled.codes id row hheld.committed stored hstored
    refine ⟨expiry, hexpiry, hpos, hle, ⟨draw, hcode, List.mem_cons_of_mem _ hissued⟩, ?_⟩
    obtain ⟨expiry', hexpiry', hover⟩ := h
    obtain rfl := mem_unique hexpiry hexpiry'
    refine hover.imp_right fun ⟨hcount, hlater⟩ => ?_
    have hwrongs : wrongs id (.wrong id :: s.history) = bucket.attemptCount := by rw [wrongs, if_pos rfl, hcount]
    refine ⟨?_, .inr ⟨bucket, hbucket, hwrongs.symm, hlater⟩⟩
    show wrongs id (.wrong id :: s.history) < settings.maxFailures
    omega
  verified := fun hverified => .inl ⟨row, hheld.committed, hverified⟩
  accepted := fun code heq => nomatch heq

theorem Local.effect (h : Local settings digest s i t) (hsettled : Settled settings digest s)
    (hfinish : t.finish settings = some e) : t.writes = some e.user ∧ ∃ row, Effect settings digest s i e row := by
  have hphase := h.phase
  cases t with
  | idle => cases hfinish
  | register phase r c =>
    cases phase with
    | issued id =>
      cases hfinish
      obtain ⟨-, ⟨row, hcoded⟩, hbucket⟩ := hphase
      exact ⟨rfl, row, hcoded.effect hbucket⟩
    | _ => cases hfinish
  | rotate phase username draw =>
    cases phase with
    | cleared user =>
      cases hfinish
      obtain ⟨⟨row, hcoded⟩, hbucket⟩ := hphase
      exact ⟨rfl, row, hcoded.effect hbucket⟩
    | _ => cases hfinish
  | confirm phase username presented =>
    cases phase with
    | counted id attemptCount =>
      obtain ⟨row, bucket, hheld, hview, hbucket, rfl, hcounted⟩ := hphase
      simp only [Task.finish] at hfinish
      split at hfinish
      · cases hfinish
      · rename_i hfew
        cases hfinish
        exact ⟨rfl, row, hcounted.effect hsettled hheld hview hbucket hfew⟩
    | failed id =>
      cases hfinish
      obtain ⟨row, hheld, hview⟩ := hphase
      exact ⟨rfl, _, {
        locked := hheld.locked
        view := hview
        address := hsettled.address id row hheld.committed
        old := .inr ⟨row, hheld.committed, rfl⟩
        code := fun stored hstored => nomatch hstored
        verified := fun hverified => .inl ⟨row, hheld.committed, hverified⟩
        accepted := fun code heq => nomatch heq }⟩
    | verified id =>
      cases hfinish
      obtain ⟨row, row', hheld, hview, hemail, hnorm, hcode, haccepted⟩ := hphase
      exact ⟨rfl, row', {
        locked := hheld.locked
        view := hview
        address := hemail.trans ((hsettled.address id row hheld.committed).trans hnorm.symm)
        old := .inr ⟨row, hheld.committed, hemail.symm⟩
        code := fun stored hstored => nomatch hcode.symm.trans hstored
        verified := fun _ => .inr ⟨_, rfl⟩
        accepted := fun code heq => by
          obtain ⟨-, rfl⟩ := Event.verified.inj heq
          rw [hemail]
          exact haccepted }⟩
    | _ => cases hfinish

theorem Local.others (h : Local settings digest s i t) (hwrites : t.writes = some e.user)
    (hid : id ≠ e.user) : (s.tables.commit i).committed (.account id) = s.tables.committed (.account id) ∧
      (s.tables.commit i).committed (.bucket id) = s.tables.committed (.bucket id) := by
  constructor
  · apply Tables.committed_commit_of_not_written
    by_contra hwritten
    exact hid (some.inj ((h.accounts id hwritten).symm.trans hwrites))
  · apply Tables.committed_commit_of_not_written
    by_contra hwritten
    exact hid (some.inj ((h.buckets id hwritten).symm.trans hwrites))

/-- A commit keeps the outstanding codes and the counters of wrong ones right. -/
theorem Settled.commit (hsettled : Settled settings digest s) (h : Local settings digest s i t)
    (hfinish : t.finish settings = some e) : Settled settings digest (committed s i e) := by
  obtain ⟨hwrites, row, heffect⟩ := h.effect hsettled hfinish
  have hself : (committed s i e).tables.committed (.account e.user) = some row := heffect.view
  constructor
  · intro id row' hrow'
    by_cases hid : id = e.user
    · subst hid
      obtain rfl := mem_unique hself hrow'
      exact heffect.address
    · exact hsettled.address id row' ((h.others hwrites hid).1.symm.trans hrow')
  · intro id row' hrow'
    by_cases hid : id = e.user
    · subst hid
      obtain rfl := mem_unique hself hrow'
      exact heffect.code
    · obtain ⟨haccount, hbucket⟩ := h.others hwrites hid
      intro stored hstored
      obtain ⟨expiry, hexpiry, hpos, hle, ⟨draw, hcode, hissued⟩, hover⟩ :=
        hsettled.codes id row' (haccount.symm.trans hrow') stored hstored
      exact ⟨expiry, hexpiry, hpos, hle, ⟨draw, hcode, List.mem_cons_of_mem _ hissued⟩,
        hover.imp_right (Tally.of_eq hbucket (wrongs_cons_of_ne (Ne.symm hid) _))⟩
  · intro id hnone
    by_cases hid : id = e.user
    · subst hid
      rw [hself] at hnone
      cases hnone
    · obtain ⟨haccount, hbucket⟩ := h.others hwrites hid
      exact hbucket.trans (hsettled.buckets id (haccount.symm.trans hnone))
  · intro id row' hrow'
    exact hsettled.pending id row' ((Tables.committed_commit_of_not_written (h.pending id)).symm.trans hrow')

theorem Local.rely (hsettled : Settled settings digest s) (h : Local settings digest s i t)
    (hfinish : t.finish settings = some e) (hne : j ≠ i) : Rely s (committed s i e) j := by
  obtain ⟨hwrites, row, heffect⟩ := h.effect hsettled hfinish
  have hother : ∀ id, s.tables.locked (.account id) = some j → id ≠ e.user := by
    rintro id hlocked rfl
    exact hne (mem_unique hlocked heffect.locked)
  constructor
  · intro id old hold
    by_cases hid : id = e.user
    · subst hid
      rcases heffect.old with hnone | ⟨old', hold', hemail⟩
      · rw [hold] at hnone
        cases hnone
      · obtain rfl := mem_unique hold hold'
        exact ⟨row, heffect.view, hemail.symm⟩
    · exact ⟨old, (h.others hwrites hid).1.trans hold, rfl⟩
  · exact fun id hlocked => wrongs_cons_of_ne (Ne.symm (hother id hlocked)) _
  · exact fun id hlocked => (h.others hwrites (hother id hlocked)).2

end Commit

section Main

variable {settings : Settings} {digest : String → String → String} {s s' : Shared ι Row Event} {i : ι}

theorem Settled.quiet (h : Settled settings digest s) (hcommitted : s'.tables.committed = s.tables.committed)
    (hhistory : s'.history = s.history) (hclock : s.clock ≤ s'.clock) : Settled settings digest s' where
  address := by
    rw [hcommitted]
    exact h.address
  codes := by
    rw [hcommitted]
    intro id row hrow stored hstored
    obtain ⟨expiry, hexpiry, hpos, hle, hissued, hover⟩ := h.codes id row hrow stored hstored
    refine ⟨expiry, hexpiry, hpos, Nat.le_trans hle (Nat.add_le_add_right hclock 600), ?_, ?_⟩
    · rw [hhistory]
      exact hissued
    · exact hover.imp (fun hlt => Nat.lt_of_lt_of_le hlt hclock)
        (Tally.of_eq (congrFun hcommitted _) (congrArg (wrongs id) hhistory))
  buckets := by
    rw [hcommitted]
    exact h.buckets
  pending := by
    rw [hcommitted]
    exact h.pending

variable [DecidableEq ι]

theorem preserved (hdigest : CollisionFree digest) : Preserved (program settings digest) (Settled settings digest)
    (Local settings digest : Shared ι Row Event → ι → Task → Prop) Rely where
  quiet := Settled.quiet
  relyQuiet := fun hcommitted hhistory =>
    ⟨fun id row hrow => ⟨row, (congrFun hcommitted _).trans hrow, rfl⟩,
      fun id _ => congrArg (wrongs id) hhistory, fun id _ => congrFun hcommitted _⟩
  frame := Local.frame
  start := by
    intro s i t h hstarts
    have hnone : ∀ id, s.tables.written i (.account id) = none ∧ s.tables.written i (.bucket id) = none := by
      intro id
      constructor
      · by_contra hwritten
        exact absurd (h.accounts id hwritten) (by simp [program, Task.writes])
      · by_contra hwritten
        exact absurd (h.buckets id hwritten) (by simp [program, Task.writes])
    refine ⟨fun id hwritten => absurd (hnone id).1 hwritten, fun id hwritten => absurd (hnone id).2 hwritten, h.pending, ?_⟩
    rcases hstarts with ⟨r, rfl⟩ | ⟨username, draw, rfl⟩ | ⟨username, presented, rfl⟩
    · exact ⟨Nat.le_refl _, trivial⟩
    · trivial
    · trivial
  statement := fun hsettled h hnext hready => h.next hdigest hsettled hnext hready
  settled := fun hsettled h hfinish => hsettled.commit h hfinish
  rely := fun hsettled _ h hfinish hne => h.rely hsettled hfinish hne
  idle := fun hwritten =>
    ⟨fun id hne => absurd (hwritten _) hne, fun id hne => absurd (hwritten _) hne, fun id => hwritten _, trivial⟩

omit [DecidableEq ι] in
theorem Stored.settled (stored : Stored) (clock : ℕ) : Settled settings digest (stored.shared clock : Shared ι Row Event) where
  address := stored.address
  codes := fun id row hrow code hcode => by
    rw [stored.noCode id row hrow] at hcode
    cases hcode
  buckets := stored.noBucket
  pending := stored.unverified

/-- A confirmation with a wrong code: it has read the code of the account, or would read it now. -/
def Guesses (digest : String → String → String) (sees : ∀ k, Option (Row k)) (id : String) : Task → Prop
  | .confirm .begun username presented => sees (.username username) = some id ∧ ∃ (row : AccountRow) (stored : String),
      sees (.account id) = some row ∧ row.maXacMinh = some stored ∧ stored ≠ "" ∧
        verifyRegistrationOtp digest stored presented.code id = false
  | .confirm (.selected id' maXacMinh _) _ presented => id' = id ∧ ∃ stored, maXacMinh = some stored ∧ stored ≠ "" ∧
      verifyRegistrationOtp digest stored presented.code id = false
  | .confirm (.judged id' stored _ _) _ presented => id' = id ∧ verifyRegistrationOtp digest stored presented.code id = false
  | .confirm (.counted id' _) _ _ => id' = id
  | .confirm (.failed id') _ _ => id' = id
  | _ => False

omit [DecidableEq ι] in
variable (settings) in
/-- A wrong guess has a next statement and stays one, up to the commit that counts it. -/
theorem Guesses.next {sees : ∀ k, Option (Row k)} {id : String} {t : Task} (h : Guesses digest sees id t) (now : ℕ) :
    (t.finish settings = some (.wrong id) ∧ (program settings digest).next sees now t = none) ∨
      t.finish settings = none ∧ ∃ request t', (program settings digest).next sees now t = some (request, t') ∧
        ∀ sees', Guesses digest sees' id t' := by
  cases t with
  | confirm phase username presented =>
    cases phase with
    | begun =>
      obtain ⟨husername, row, stored, haccount, hcode, hfilled, hwrong⟩ := h
      refine .inr ⟨rfl, .lock (.account id), .confirm (.selected id row.maXacMinh row.hanXacMinh) username presented, ?_,
        fun _ => ⟨rfl, stored, hcode, hfilled, hwrong⟩⟩
      simp only [program, nextConfirm, husername, haccount, map_some]
    | selected id' maXacMinh hanXacMinh =>
      obtain ⟨rfl, stored, rfl, hfilled, hwrong⟩ := h
      refine .inr ⟨rfl, .read, .confirm (.judged id' stored hanXacMinh now) username presented, ?_, fun _ => ⟨rfl, hwrong⟩⟩
      simp only [program, nextConfirm, if_neg hfilled, map_some]
    | judged id' stored hanXacMinh c =>
      obtain ⟨rfl, hwrong⟩ := h
      let bucket := consumeAttempt settings c (sees (.bucket id'))
      refine .inr ⟨rfl, .write (putBucket id' bucket), .confirm (.counted id' bucket.attemptCount) username presented, ?_,
        fun _ => rfl⟩
      simp only [program, nextConfirm, hwrong, Bool.false_eq_true, if_false, map_some, bucket]
    | counted id' attemptCount =>
      obtain rfl := h
      by_cases hlast : settings.maxFailures - attemptCount = 0
      · refine .inr ⟨if_pos hlast, .write (updateAccount id' fun row => { row with maXacMinh := none, hanXacMinh := none }),
          .confirm (.failed id') username presented, ?_, fun _ => rfl⟩
        simp only [program, nextConfirm, if_pos hlast, map_some]
      · refine .inl ⟨if_neg hlast, ?_⟩
        simp only [program, nextConfirm, if_neg hlast, map_none]
    | failed id' =>
      obtain rfl := h
      exact .inl ⟨rfl, rfl⟩
    | _ => cases h
  | _ => cases h

/-- What the verification of an address proves: an account becomes verified only by a code that was sent to
the address it has then, and no code is accepted after too many wrong guesses. Every wrong guess goes on to a commit that
counts it, unless it is rolled back. -/
structure Proven (settings : Settings) (digest : String → String → String) (s : Shared ι Row Event) (task : ι → Task)
    (s' : Shared ι Row Event) (task' : ι → Task) : Prop where
  verified : ∀ (id : String) (row' : AccountRow), s'.tables.committed (.account id) = some row' →
    row'.daXacMinh = true → (∀ row : AccountRow, s.tables.committed (.account id) = some row → row.daXacMinh = false) →
    ∃ code, s'.history = .verified id code :: s.history ∧ .issued id code row'.email ∈ s.history
  accepted : ∀ id code, s'.history = .verified id code :: s.history →
    (∃ row' : AccountRow, s'.tables.committed (.account id) = some row' ∧ .issued id code row'.email ∈ s.history) ∧
      wrongs id s.history < settings.maxFailures
  guessed : ∀ i id, Guesses digest (s.tables.view i) id (task i) → (task i).finish settings = some (.wrong id) ∨
    ∃ request t, (program settings digest).next (s.tables.view i) s.clock (task i) = some (request, t) ∧
      ∀ sees, Guesses digest sees id t
  counted : ∀ i id, Guesses digest (s.tables.view i) id (task i) → task' i ≠ task i →
    (∀ sees, Guesses digest sees id (task' i)) ∨ s'.history = .wrong id :: s.history ∨ s'.tables = s.tables.abort i

/-- A step of a wrong guess leads on to its commit, or commits it, or rolls it back. -/
theorem guess_step {task task' : ι → Task} (hstep : (program settings digest).Step s task s' task') (i : ι) (id : String)
    (h : Guesses digest (s.tables.view i) id (task i)) (hmoved : task' i ≠ task i) :
    (∀ sees, Guesses digest sees id (task' i)) ∨ s'.history = .wrong id :: s.history ∨ s'.tables = s.tables.abort i := by
  have hnext := h.next settings s.clock
  have hself {j : ι} {t : Task} (hj : Function.update task j t i ≠ task i) : i = j := by
    by_contra hne
    exact hj (Function.update_of_ne hne _ _)
  cases hstep with
  | advance seconds => exact absurd rfl hmoved
  | start j t hidle hstarts =>
    obtain rfl := hself hmoved
    rw [hidle] at h
    cases h
  | statement j request t hstatement hready =>
    obtain rfl := hself hmoved
    obtain ⟨-, hnone⟩ | ⟨-, request', t', hsome, hguess⟩ := hnext
    · rw [hnone] at hstatement
      cases hstatement
    · rw [hsome] at hstatement
      cases hstatement
      rw [Function.update_self]
      exact .inl hguess
  | commit j e hfinish =>
    obtain rfl := hself hmoved
    obtain ⟨hwrong, -⟩ | ⟨hnone, -⟩ := hnext
    · exact .inr (.inl (congrArg (· :: s.history) (some.inj (hfinish.symm.trans hwrong))))
    · rw [show (task i).finish settings = some e from hfinish] at hnone
      cases hnone
  | abort j =>
    obtain rfl := hself hmoved
    exact .inr (.inr rfl)

/-- A step that commits nothing verifies nothing. -/
theorem Proven.quiet {task task' : ι → Task} (hstep : (program settings digest).Step s task s' task')
    (hcommitted : s'.tables.committed = s.tables.committed) (hhistory : s'.history = s.history) :
    Proven settings digest s task s' task' where
  verified := by
    intro id row' hrow' hverified hunverified
    rw [hcommitted] at hrow'
    rw [hunverified row' hrow'] at hverified
    cases hverified
  accepted := by
    intro id code heq
    have hlength := congrArg List.length (hhistory.symm.trans heq)
    simp at hlength
  guessed := fun i id h => (h.next _ s.clock).imp And.left And.right
  counted := guess_step hstep

/-- In every run, an account becomes verified only when a code is presented that was sent to its address; after too many
wrong guesses a code is no longer accepted, and every wrong guess that is not rolled back is counted. -/
theorem registration_proves_address (hdigest : CollisionFree digest) {stored : Stored} {clock : ℕ}
    {task task' : ι → Task} (h : (program settings digest).Reached (stored.shared clock) s task)
    (hstep : (program settings digest).Step s task s' task') : Proven settings digest s task s' task' := by
  have hsound := (preserved hdigest).reached (stored.settled clock) (fun _ _ => rfl) h
  have hquiet := Proven.quiet hstep
  have hguess := guess_step hstep
  cases hstep with
  | advance seconds => exact hquiet rfl rfl
  | start i t hidle hstarts => exact hquiet rfl rfl
  | statement i request t hnext hready => exact hquiet (Tables.committed_exec request) rfl
  | abort i => exact hquiet rfl rfl
  | commit i e hfinish =>
    obtain ⟨hwrites, row, heffect⟩ := (hsound.processes i).effect hsound.settled hfinish
    refine ⟨?_, ?_, fun i id h => (h.next _ s.clock).imp And.left And.right, hguess⟩
    · intro id row' hrow' hverified hunverified
      by_cases hid : id = e.user
      · subst hid
        obtain rfl := mem_unique heffect.view hrow'
        rcases heffect.verified hverified with ⟨old, hold, hbefore⟩ | ⟨code, heq⟩
        · rw [hunverified old hold] at hbefore
          cases hbefore
        · exact ⟨code, congrArg (· :: s.history) heq, (heffect.accepted code heq).1⟩
      · rw [hunverified row' (((hsound.processes i).others hwrites hid).1.symm.trans hrow')] at hverified
        cases hverified
    · intro id code heq
      obtain ⟨rfl, -⟩ := List.cons.inj heq
      obtain ⟨hissued, hfew⟩ := heffect.accepted code rfl
      exact ⟨⟨row, heffect.view, hissued⟩, hfew⟩

end Main

section Samples

structure Sample where
  shared : Shared Unit Row Event
  task : Task

def sampleSettings : Settings := ⟨5, 259200, by omega, by omega⟩

def sampleDigest (_ code : String) : String := code

def Sample.start (w : Sample) (t : Task) : Sample := if w.task = .idle then ⟨w.shared, t⟩ else w

def Sample.run (w : Sample) : Sample :=
  match (program sampleSettings sampleDigest).next (w.shared.tables.view ()) w.shared.clock w.task with
  | some (request, t) => ⟨after w.shared () request, t⟩
  | none => w

def Sample.commit (w : Sample) : Sample :=
  match w.task.finish sampleSettings with
  | some e => ⟨committed w.shared () e, .idle⟩
  | none => w

inductive Move where
  | register (r : UnverifiedAccount)
  | rotate (username : String) (draw : Fin 900000)
  | confirm (username : String) (presented : Presented)
  | next
  | commit
  | advance (seconds : ℕ)

def Sample.move (w : Sample) : Move → Sample
  | .register r => w.start (.register .begun r w.shared.clock)
  | .rotate username draw => w.start (.rotate .begun username draw)
  | .confirm username presented => w.start (.confirm .begun username presented)
  | .next => w.run
  | .commit => w.commit
  | .advance seconds => ⟨{ w.shared with clock := w.shared.clock + seconds }, w.task⟩

def Sample.Reached (stored : Stored) (w : Sample) : Prop :=
  (program sampleSettings sampleDigest).Reached (stored.shared 1000) w.shared fun _ => w.task

variable {stored : Stored} {w : Sample}

theorem Sample.update_task (t t' : Task) : Function.update (fun _ : Unit => t) () t' = fun _ => t' :=
  funext fun _ => Function.update_self _ _ _

theorem Sample.Reached.begin (h : w.Reached stored) {t : Task}
    (ht : (program sampleSettings sampleDigest).starts w.shared.clock t) : (w.start t).Reached stored := by
  unfold Sample.start
  split
  · rename_i hidle
    have hstep := h.step (.start () t hidle ht)
    rwa [Sample.update_task] at hstep
  · exact h

theorem Sample.Reached.next (h : w.Reached stored) : w.run.Reached stored := by
  unfold Sample.run
  split
  · rename_i request t hnext
    have hready : w.shared.tables.Ready () request := by
      cases request with
      | read => trivial
      | lock k => exact fun _ _ => rfl
      | write statement => exact fun _ _ _ _ => rfl
    have hstep := h.step (.statement () request t hnext hready)
    rwa [Sample.update_task] at hstep
  · exact h

theorem Sample.Reached.finish (h : w.Reached stored) : w.commit.Reached stored := by
  unfold Sample.commit
  split
  · rename_i e hfinish
    have hstep := h.step (.commit () e hfinish)
    rwa [Sample.update_task] at hstep
  · exact h

theorem Sample.Reached.move (h : w.Reached stored) (m : Move) : (w.move m).Reached stored := by
  cases m with
  | register r => exact h.begin (.inl ⟨r, rfl⟩)
  | rotate username draw => exact h.begin (.inr (.inl ⟨username, draw, rfl⟩))
  | confirm username presented => exact h.begin (.inr (.inr ⟨username, presented, rfl⟩))
  | next => exact h.next
  | commit => exact h.finish
  | advance seconds => exact h.step (.advance seconds)

theorem Sample.Reached.moves (h : w.Reached stored) (moves : List Move) : (moves.foldl Sample.move w).Reached stored := by
  induction moves generalizing w with
  | nil => exact h
  | cons m moves ih => exact ih (h.move m)

def sampleStored : Stored where
  committed := fun _ => none
  noCode := fun _ _ hrow => nomatch hrow
  address := fun _ _ hrow => nomatch hrow
  noBucket := fun _ _ => rfl
  unverified := fun _ _ hrow => nomatch hrow

/-- A request with at most seven statements, and its commit. -/
def transaction (m : Move) : List Move := m :: List.replicate 7 .next ++ [.commit]

def sampleAccount (name : String) (draw : Fin 900000) (userUuid : String) : UnverifiedAccount :=
  ⟨"alice", "hash", name, "a@example.com", draw, userUuid⟩

def sampleWrong : Move := .confirm "alice" ⟨"999999", by decide⟩

/-- A registration, a rotation and, three days later, a reclaim, each with a wrong guess after it; then the right code. -/
def sampleMoves : List Move :=
  transaction (.register (sampleAccount "Alice" 23456 "u")) ++ transaction sampleWrong ++
    transaction (.rotate "alice" 34567) ++ transaction sampleWrong ++ [.advance 260000] ++
    transaction (.register (sampleAccount "Alicia" 45678 "v")) ++ transaction sampleWrong ++
    .confirm "alice" ⟨"145678", by decide⟩ :: List.replicate 4 .next

def sampleWritten : Sample := sampleMoves.foldl Sample.move ⟨sampleStored.shared 1000, .idle⟩

def sampleHistory : List Event :=
  [.wrong "u", .issued "u" "145678" "a@example.com", .wrong "u", .issued "u" "134567" "a@example.com", .wrong "u",
    .issued "u" "123456" "a@example.com"]

theorem finish_sampleWritten : sampleWritten.task.finish sampleSettings = some (.verified "u" "145678") ∧
    sampleWritten.shared.history = sampleHistory := by
  decide +kernel

theorem registration_proves_address_sample :
    Proven sampleSettings sampleDigest sampleWritten.shared (fun _ => sampleWritten.task)
        (committed sampleWritten.shared () (.verified "u" "145678")) (Function.update (fun _ => sampleWritten.task) () .idle) ∧
      sampleWritten.shared.history = sampleHistory := by
  obtain ⟨hfinish, hhistory⟩ := finish_sampleWritten
  have hstart : (Sample.mk (sampleStored.shared 1000) .idle).Reached sampleStored := .start
  have hreached : sampleWritten.Reached sampleStored := hstart.moves sampleMoves
  generalize sampleWritten = w at hfinish hhistory hreached ⊢
  exact ⟨registration_proves_address (fun _ _ _ _ _ h => h) hreached (.commit () _ hfinish), hhistory⟩

end Samples

end Bidding.Registration
