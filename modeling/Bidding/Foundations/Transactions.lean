import Bidding.Foundations.Processes

/-!
# Transactions as scripts

A script says a transaction statement by statement. A row may have a guard, another row that is held by whoever writes it.
`Valid` is the rule for one script, `Sound.within` the rule for all runs, and `Sound.post` says what a commit has done.
-/

namespace Foundations

open List Option Function Tables

inductive Script {κ : Type} (ρ : κ → Type) (σ ε : Type) where
  | commit (e : ε)
  | refuse
  | statement (name : Option σ) (request : (∀ k, Option (ρ k)) → ℕ → Request ρ) (next : (∀ k, Option (ρ k)) → ℕ → Script ρ σ ε)

variable {ι κ σ ε : Type} {ρ : κ → Type} [DecidableEq ι] [DecidableEq κ]

namespace Script

/-- A `SELECT`. -/
def query (next : (∀ k, Option (ρ k)) → ℕ → Script ρ σ ε) : Script ρ σ ε :=
  .statement none (fun _ _ => .read) next

/-- A `SELECT … FOR UPDATE` of one row, with what it is joined with. -/
def select (k : κ) (next : (∀ k, Option (ρ k)) → ℕ → Script ρ σ ε) : Script ρ σ ε :=
  .statement none (fun _ _ => .lock k) next

/-- A `SELECT … FOR UPDATE` of the row that is found, if one is. -/
def find (key : (∀ k, Option (ρ k)) → Option κ) (next : (∀ k, Option (ρ k)) → ℕ → Script ρ σ ε) : Script ρ σ ε :=
  .statement none (fun view _ => ((key view).map Request.lock).getD .read) next

def write (statement : Statement ρ) (next : Script ρ σ ε) : Script ρ σ ε :=
  .statement none (fun _ _ => .write statement) fun _ _ => next

def attempt (statement : (∀ k, Option (ρ k)) → ℕ → Option (Statement ρ)) (next : Script ρ σ ε) : Script ρ σ ε :=
  .statement none (fun view now => ((statement view now).map Request.write).getD .read) fun view now =>
    if (statement view now).isSome then next else .refuse

/-- Processes that run one transaction after another. -/
def program (starts : ℕ → Script ρ σ ε → Prop) : Program ρ (Option (Script ρ σ ε)) ε where
  idle := none
  starts now task := ∃ script, task = some script ∧ starts now script
  next view now
    | some (.statement _ request next) => some (request view now, some (next view now))
    | _ => none
  finish
    | some (.commit e) => some e
    | _ => none

end Script

def Statement.set (k : κ) (row : Option (ρ k)) : Statement ρ := fun k' _ => if h : k = k' then some (h ▸ row) else none

/-- An `UPDATE` of one row, if it is there. -/
def Statement.modify (k : κ) (f : ρ k → ρ k) : Statement ρ := fun k' row =>
  if h : k = k' then row.map fun r => some (h ▸ f (h ▸ r)) else none

def Statement.both (first second : Statement ρ) : Statement ρ := fun k row => (first k row).or (second k row)

@[simp] theorem Statement.set_self (k : κ) (row old : Option (ρ k)) : Statement.set k row k old = some row := by
  simp [Statement.set]

theorem Statement.set_of_ne {k k' : κ} (h : k ≠ k') (row : Option (ρ k)) (old : Option (ρ k')) :
    Statement.set k row k' old = none := by
  simp [Statement.set, h]

@[simp] theorem Statement.modify_self (k : κ) (f : ρ k → ρ k) (r : ρ k) :
    Statement.modify k f k (some r) = some (some (f r)) := by
  simp [Statement.modify]

theorem Statement.modify_of_ne {k k' : κ} (h : k ≠ k') (f : ρ k → ρ k) (old : Option (ρ k')) :
    Statement.modify k f k' old = none := by
  simp [Statement.modify, h]

section Within

variable {τ : Type}

/-- Runs in which every statement and every commit meets a condition of the state before it. -/
inductive Program.Within (p : Program ρ τ ε) (meets : Shared ι ρ ε → ι → τ → Prop)
    (start : Shared ι ρ ε) (task₀ : ι → τ) : Shared ι ρ ε → (ι → τ) → Prop where
  | refl : p.Within meets start task₀ start task₀
  | advance {s : Shared ι ρ ε} {task : ι → τ} (seconds : ℕ) : p.Within meets start task₀ s task →
      p.Within meets start task₀ { s with clock := s.clock + seconds } task
  | start {s : Shared ι ρ ε} {task : ι → τ} (i : ι) (t : τ) : p.Within meets start task₀ s task →
      task i = p.idle → p.starts s.clock t → p.Within meets start task₀ s (update task i t)
  | statement {s : Shared ι ρ ε} {task : ι → τ} (i : ι) (request : Request ρ) (t : τ) :
      p.Within meets start task₀ s task → meets s i (task i) →
      p.next (s.tables.view i) s.clock (task i) = some (request, t) → s.tables.Ready i request →
      p.Within meets start task₀ { s with tables := s.tables.exec i request } (update task i t)
  | commit {s : Shared ι ρ ε} {task : ι → τ} (i : ι) (e : ε) : p.Within meets start task₀ s task →
      meets s i (task i) → p.finish (task i) = some e → p.Within meets start task₀
        { tables := s.tables.commit i, clock := s.clock, history := e :: s.history }
        (update task i p.idle)
  | abort {s : Shared ι ρ ε} {task : ι → τ} (i : ι) : p.Within meets start task₀ s task →
      p.Within meets start task₀ { s with tables := s.tables.abort i } (update task i p.idle)

variable {p : Program ρ τ ε} {start s s' : Shared ι ρ ε} {task₀ task task' : ι → τ}

theorem Program.Within.step (h : p.Within (fun _ _ _ => True) start task₀ s task)
    (hstep : p.Step s task s' task') : p.Within (fun _ _ _ => True) start task₀ s' task' := by
  cases hstep with
  | advance seconds => exact h.advance seconds
  | start i t hidle hstarts => exact h.start i t hidle hstarts
  | statement i request t hnext hready => exact h.statement i request t trivial hnext hready
  | commit i e hfinish => exact h.commit i e trivial hfinish
  | abort i => exact h.abort i

theorem Program.Within.clock_le {meets : Shared ι ρ ε → ι → τ → Prop} (h : p.Within meets start task₀ s task) :
    start.clock ≤ s.clock := by
  induction h with
  | refl => exact Nat.le_refl _
  | advance seconds _ ih => exact Nat.le_add_right_of_le ih
  | _ => assumption

/-- A condition may be replaced by one that follows from it at the times of the run. -/
theorem Program.Within.mono {meets meets' : Shared ι ρ ε → ι → τ → Prop} (h : p.Within meets start task₀ s task)
    (hmeets : ∀ s i t, start.clock ≤ s.clock → meets s i t → meets' s i t) : p.Within meets' start task₀ s task := by
  induction h with
  | refl => exact .refl
  | advance seconds _ ih => exact ih.advance seconds
  | start i t _ hidle hstarts ih => exact ih.start i t hidle hstarts
  | statement i request t hrun hmet hnext hready ih =>
    exact ih.statement i request t (hmeets _ i _ hrun.clock_le hmet) hnext hready
  | commit i e hrun hmet hfinish ih => exact ih.commit i e (hmeets _ i _ hrun.clock_le hmet) hfinish
  | abort i _ ih => exact ih.abort i

theorem Program.Reached.within (h : p.Reached start s task) : p.Within (fun _ _ _ => True) start (fun _ => p.idle) s task := by
  induction h with
  | start => exact .refl
  | step _ hstep ih => exact ih.step hstep

theorem Program.Within.reached (h : p.Within (fun _ _ _ => True) start (fun _ => p.idle) s task) :
    p.Reached start s task := by
  induction h with
  | refl => exact .start
  | advance seconds _ ih => exact ih.step (.advance seconds)
  | start i t _ hidle hstarts ih => exact ih.step (.start i t hidle hstarts)
  | statement i request t _ _ hnext hready ih => exact ih.step (.statement i request t hnext hready)
  | commit i e _ _ hfinish ih => exact ih.step (.commit i e hfinish)
  | abort i _ ih => exact ih.step (.abort i)

end Within

/-! ## Transactions one after another -/

def Request.seen (view : ∀ k, Option (ρ k)) : Request ρ → ∀ k, Option (ρ k)
  | .write statement => fun k => (statement k (view k)).getD (view k)
  | _ => view

def Script.alone (now : ℕ) : Script ρ σ ε → (∀ k, Option (ρ k)) → Option (ε × ∀ k, Option (ρ k))
  | .commit e, view => some (e, view)
  | .refuse, _ => none
  | .statement _ request next, view => alone now (next view now) ((request view now).seen view)

/-- Scripts that run one after another: what they commit, and the rows afterwards. -/
def Script.serial (now : ℕ) : List (Script ρ σ ε) → (∀ k, Option (ρ k)) → Option (List ε × ∀ k, Option (ρ k))
  | [], view => some ([], view)
  | script :: rest, view => do
    let (e, view) ← script.alone now view
    let (events, view) ← serial now rest view
    pure (e :: events, view)

/-- No process holds or has written a row, but for one. -/
structure Only (s : Shared ι ρ ε) (i : ι) : Prop where
  locked : ∀ k j, s.tables.locked k = some j → j = i
  written : ∀ j, j ≠ i → ∀ k, s.tables.written j k = none

/-- No process holds or has written a row. -/
structure Quiet (s : Shared ι ρ ε) : Prop where
  locked : ∀ k, s.tables.locked k = none
  written : ∀ i k, s.tables.written i k = none

section Alone

variable {starts : ℕ → Script ρ σ ε → Prop} {start s : Shared ι ρ ε} {i : ι} {script : Script ρ σ ε} {c : ∀ k, Option (ρ k)}

theorem Only.exec (h : Only s i) (request : Request ρ) : Only { s with tables := s.tables.exec i request } i where
  locked := fun k j hk => by
    cases request with
    | read => exact h.locked k j hk
    | lock k' =>
      by_cases hkey : k = k'
      · subst hkey
        exact (some.inj ((locked_exec_lock k).symm.trans hk)).symm
      · exact h.locked k j ((update_of_ne hkey _ _).symm.trans hk)
    | write statement =>
      by_cases hwrites : (statement k (s.tables.view i k)).isSome = true
      · exact (some.inj ((if_pos hwrites).symm.trans hk)).symm
      · exact h.locked k j ((if_neg hwrites).symm.trans hk)
  written := fun j hj k => (written_exec_of_ne request hj k).trans (h.written j hj k)

omit [DecidableEq ι] [DecidableEq κ] in
theorem Only.ready (h : Only s i) (request : Request ρ) : s.tables.Ready i request := by
  cases request with
  | read => exact trivial
  | lock k => exact h.locked k
  | write statement => exact fun k _ => h.locked k

omit [DecidableEq κ] [DecidableEq ι] in
theorem Quiet.only (h : Quiet s) (i : ι) : Only s i where
  locked := fun k j hk => by
    rw [h.locked k] at hk
    cases hk
  written := fun j _ => h.written j

theorem view_exec_self (request : Request ρ) : (s.tables.exec i request).view i = request.seen (s.tables.view i) := by
  cases request with
  | read => rfl
  | lock k => rfl
  | write statement => exact funext fun k => view_exec_write statement k

section Runs

variable {meets : Shared ι ρ ε → ι → Option (Script ρ σ ε) → Prop} {e : ε}

/-- The statements of a script that runs alone come to its commit, where each of them meets the condition. -/
theorem within_commit (hmeets : ∀ s' name request next, s'.tables.committed = s.tables.committed →
      meets s' i (some (.statement name request next))) (honly : Only s i)
    (hrun : (Script.program starts).Within meets start (fun _ => none) s (update (fun _ => none) i (some script)))
    (halone : script.alone s.clock (s.tables.view i) = some (e, c)) :
    ∃ s', (Script.program starts).Within meets start (fun _ => none) s'
        (update (fun _ => none) i (some (.commit e))) ∧
      Only s' i ∧ s'.tables.view i = c ∧ s'.tables.committed = s.tables.committed ∧ s'.clock = s.clock ∧
      s'.history = s.history := by
  induction script generalizing s with
  | commit e' =>
    cases halone
    exact ⟨s, hrun, honly, rfl, rfl, rfl, rfl⟩
  | refuse => cases halone
  | statement name request next ih =>
    have hstep := hrun.statement i (request (s.tables.view i) s.clock) (some (next (s.tables.view i) s.clock))
      (by rw [update_self]; exact hmeets s name request next rfl) (by rw [update_self]; rfl)
      (honly.ready _)
    rw [update_idem] at hstep
    have hcommitted : (s.tables.exec i (request (s.tables.view i) s.clock)).committed = s.tables.committed :=
      committed_exec _
    obtain ⟨s', hrun', honly', hview, hcommitted', hkept⟩ := ih (s.tables.view i) s.clock
      (fun s' name request next h => hmeets s' name request next (h.trans hcommitted)) (honly.exec _) hstep
      (by rw [view_exec_self]; exact halone)
    exact ⟨s', hrun', honly', hview, hcommitted'.trans hcommitted, hkept⟩

/-- A script that runs alone, up to and with its commit. -/
theorem within_alone (hmeets : ∀ s' name request next, s'.tables.committed = s.tables.committed →
      meets s' i (some (.statement name request next))) (hcommit : ∀ s', meets s' i (some (.commit e))) (hquiet : Quiet s)
    (hrun : (Script.program starts).Within meets start (fun _ => none) s fun _ => none) (hstarts : starts s.clock script)
    (halone : script.alone s.clock s.tables.committed = some (e, c)) :
    ∃ s', (Script.program starts).Within meets start (fun _ => none) s' (fun _ => none) ∧ Quiet s' ∧
      s'.tables.committed = c ∧ s'.clock = s.clock ∧ s'.history = e :: s.history := by
  have hview : s.tables.view i = s.tables.committed :=
    funext fun k => view_of_not_written (hquiet.written i k)
  obtain ⟨s', hrun', honly, hc, -, hclock, hhistory⟩ := within_commit hmeets (hquiet.only i)
    (hrun.start i (some script) rfl ⟨script, rfl, hstarts⟩) (by rw [hview]; exact halone)
  have hstep := hrun'.commit i e (by rw [update_self]; exact hcommit s') (by rw [update_self]; rfl)
  rw [update_idem] at hstep
  have hnone : update (fun _ : ι => (none : Option (Script ρ σ ε))) i none = fun _ => none :=
    update_eq_self i _
  rw [show (Script.program starts).idle = none from rfl, hnone] at hstep
  refine ⟨_, hstep, ⟨fun k => ?_, fun j k => ?_⟩, hc, hclock, congrArg (e :: ·) hhistory⟩
  · have hrelease : s'.tables.release i k = none := by
      unfold release
      split
      · rfl
      rename_i hother
      cases hk : s'.tables.locked k with
      | none => rfl
      | some j => exact absurd (hk.trans (congrArg some (honly.locked k j hk))) hother
    exact hrelease
  · by_cases hj : j = i
    · subst hj
      exact written_commit_self k
    · exact (written_commit_of_ne hj k).trans (honly.written j hj k)

/-- Transactions that run one after the other are a run of the program. -/
theorem reached_serial {scripts : List (Script ρ σ ε)} {events : List ε} (hquiet : Quiet s) (i : ι)
    (hreached : (Script.program starts).Reached start s fun _ => none) (hstarts : ∀ script ∈ scripts, starts s.clock script)
    (hserial : Script.serial s.clock scripts s.tables.committed = some (events, c)) :
    ∃ s', (Script.program starts).Reached start s' (fun _ => none) ∧ s'.tables.committed = c ∧
      s'.history = events.reverse ++ s.history := by
  induction scripts generalizing s events with
  | nil =>
    cases hserial
    exact ⟨s, hreached, rfl, rfl⟩
  | cons script rest ih =>
    obtain ⟨⟨e, view⟩, halone, hserial⟩ := bind_eq_some_iff.mp hserial
    obtain ⟨⟨events, _⟩, hserial, hsame⟩ := bind_eq_some_iff.mp hserial
    cases hsame
    rw [forall_mem_cons] at hstarts
    obtain ⟨s', hrun, hquiet', hcommitted, hclock, hhistory⟩ := within_alone (i := i) (fun _ _ _ _ _ => trivial)
      (fun _ => trivial) hquiet hreached.within hstarts.1 halone
    rw [← hclock] at hstarts hserial
    obtain ⟨s'', hreached', hcommitted', hhistory'⟩ := ih hquiet' hrun.reached hstarts.2 (by rw [hcommitted]; exact hserial)
    exact ⟨s'', hreached', hcommitted', by rw [hhistory', hhistory, reverse_cons, append_assoc, singleton_append]⟩

end Runs

end Alone

/-- How the processes go about the rows. -/
structure Discipline (ι : Type) {κ : Type} (ρ : κ → Type) (σ ε : Type) where
  /-- who writes a row holds its guard too -/
  guard : κ → κ
  /-- what holds of the committed rows -/
  Settled : (∀ k, Option (ρ k)) → Prop
  /-- what a process relies on in the commits of the others -/
  Rely : Shared ι ρ ε → Shared ι ρ ε → ι → Prop
  /-- the condition of the statements and commits -/
  Meets : Shared ι ρ ε → ι → Script ρ σ ε → Prop
  /-- what a process has done when it commits -/
  Post : Shared ι ρ ε → ι → ε → Prop

namespace Discipline

variable (d : Discipline ι ρ σ ε)

structure Steady (s s' : Shared ι ρ ε) (i : ι) : Prop extends Frame s s' i where
  guarded : ∀ k, s.tables.locked (d.guard k) = some i → s'.tables.committed k = s.tables.committed k
  rely : d.Rely s s' i

/-- An assertion that the others keep. -/
def Stable (P : Shared ι ρ ε → ι → Prop) : Prop := ∀ {s s' i}, P s i → d.Steady s s' i → P s' i

def Admits (s : Shared ι ρ ε) (i : ι) : Request ρ → Prop
  | .write statement => ∀ k, (statement k (s.tables.view i k)).isSome = true →
      d.guard k = k ∨ s.tables.locked (d.guard k) = some i
  | _ => True

/-- The script does what it should from where the assertion holds. -/
def Valid : Script ρ σ ε → (Shared ι ρ ε → ι → Prop) → Prop
  | .commit e, P => ∀ s i, d.Settled s.tables.committed → P s i → d.Meets s i (.commit e) → d.Post s i e
  | .refuse, _ => True
  | .statement name request next, P => ∀ s i, d.Settled s.tables.committed → P s i →
      d.Meets s i (.statement name request next) → s.tables.Ready i (request (s.tables.view i) s.clock) →
        d.Admits s i (request (s.tables.view i) s.clock) ∧
        ∃ Q, d.Stable Q ∧ Q { s with tables := s.tables.exec i (request (s.tables.view i) s.clock) } i ∧
          Valid (next (s.tables.view i) s.clock) Q

def Local (s : Shared ι ρ ε) (i : ι) : Option (Script ρ σ ε) → Prop
  | none => ∀ k, s.tables.written i k = none
  | some script => ∃ P, d.Stable P ∧ P s i ∧ d.Valid script P

/-- Who has written a row holds its guard. -/
def Guarded (s : Shared ι ρ ε) : Prop :=
  ∀ i k, s.tables.written i k ≠ none → s.tables.locked (d.guard k) = some i

structure Sound (s : Shared ι ρ ε) (task : ι → Option (Script ρ σ ε)) : Prop where
  locking : s.tables.Locking
  guarded : d.Guarded s
  settled : d.Settled s.tables.committed
  processes : ∀ i, d.Local s i (task i)

abbrev afterCommit (s : Shared ι ρ ε) (i : ι) (e : ε) : Shared ι ρ ε :=
  { tables := s.tables.commit i, clock := s.clock, history := e :: s.history }

/-- What has to be shown of a discipline. -/
structure Lawful : Prop where
  /-- nothing is committed -/
  relyQuiet : ∀ {s s' : Shared ι ρ ε} {i}, s'.tables.committed = s.tables.committed → d.Rely s s' i
  settled : ∀ {s i e}, s.tables.Locking → d.Guarded s → d.Settled s.tables.committed → d.Post s i e →
    d.Settled (s.tables.commit i).committed
  rely : ∀ {s i e j}, s.tables.Locking → d.Guarded s → d.Settled s.tables.committed → d.Post s i e →
    j ≠ i → d.Rely s (afterCommit s i e) j

variable {d} {s s' : Shared ι ρ ε} {i j : ι} {task task' : ι → Option (Script ρ σ ε)} {e : ε} {request : Request ρ} {k : κ} {t : Option (Script ρ σ ε)}

/-! ## The rule for all runs -/

omit [DecidableEq κ] in
theorem Steady.quiet (hd : d.Lawful) (hf : Frame s s' i) (h : s'.tables.committed = s.tables.committed) : d.Steady s s' i :=
  { hf with guarded := fun k _ => congrFun h k, rely := hd.relyQuiet h }

theorem Steady.commit (hd : d.Lawful) (hs : d.Sound s task) (hpost : d.Post s i e) (hj : j ≠ i) :
    d.Steady s (afterCommit s i e) j where
  toFrame := Frame.commit hs.locking hj e
  guarded := fun k hk => by
    refine committed_commit_of_not_written ?_
    by_contra hwritten
    exact hj (some.inj (hk.symm.trans (hs.guarded i k hwritten)))
  rely := hd.rely hs.locking hs.guarded hs.settled hpost hj

theorem Local.steady {script : Option (Script ρ σ ε)} (h : d.Local s i script) (hs : d.Steady s s' i) :
    d.Local s' i script := by
  cases script with
  | none =>
    intro k
    rw [hs.written]
    exact h k
  | some script =>
    obtain ⟨P, hstable, hp, hvalid⟩ := h
    exact ⟨P, hstable, hstable hp hs, hvalid⟩

theorem Sound.post (hs : d.Sound s task) (htask : task i = some (.commit e))
    (hmeets : d.Meets s i (.commit e)) : d.Post s i e := by
  have hlocal := hs.processes i
  rw [htask] at hlocal
  obtain ⟨P, -, hp, hvalid⟩ := hlocal
  exact hvalid s i hs.settled hp hmeets

theorem Guarded.exec (h : d.Guarded s) (hl : s.tables.Locking)
    (hready : s.tables.Ready i request) (hadmits : d.Admits s i request) :
    d.Guarded { s with tables := s.tables.exec i request } := by
  intro j k hwritten
  by_cases hj : j = i
  · subst hj
    cases request with
    | read => exact h j k hwritten
    | lock k' => exact locked_exec hready (h j k hwritten)
    | write statement =>
      by_cases hwrites : (statement k (s.tables.view j k)).isSome = true
      · rcases hadmits k hwrites with hself | hholds
        · rw [hself]
          exact hl.exec hready j k hwritten
        · exact locked_exec hready hholds
      · have hold : s.tables.written j k ≠ none := by
          have hnone := not_isSome_iff_eq_none.mp hwrites
          rwa [written_exec_write, hnone, none_or] at hwritten
        exact locked_exec hready (h j k hold)
  · rw [show ({ s with tables := s.tables.exec i request } : Shared ι ρ ε).tables.written j k =
      s.tables.written j k from written_exec_of_ne request hj k] at hwritten
    exact locked_exec hready (h j k hwritten)

omit [DecidableEq κ] in
theorem guarded_release (h : d.Guarded s) (hk : s.tables.written j k ≠ none) (hj : j ≠ i) :
    s.tables.release i (d.guard k) = some j :=
  release_of_ne hj (h j k hk)

theorem Sound.statement (hd : d.Lawful) (hs : d.Sound s task) {starts : ℕ → Script ρ σ ε → Prop}
    (hmeets : ∀ script, task i = some script → d.Meets s i script)
    (hnext : (Script.program starts).next (s.tables.view i) s.clock (task i) = some (request, t))
    (hready : s.tables.Ready i request) : d.Sound { s with tables := s.tables.exec i request } (update task i t) := by
  have hlocal := hs.processes i
  cases htask : task i with
  | none =>
    rw [htask] at hnext
    cases hnext
  | some script =>
    rw [htask] at hnext hlocal
    cases script with
    | commit e => cases hnext
    | refuse => cases hnext
    | statement name ask next =>
      cases hnext
      obtain ⟨P, -, hp, hvalid⟩ := hlocal
      obtain ⟨hadmits, Q, hstable, hq, hrest⟩ := hvalid s i hs.settled hp (hmeets _ htask) hready
      have hcommitted : (s.tables.exec i (ask (s.tables.view i) s.clock)).committed = s.tables.committed :=
        committed_exec _
      refine ⟨hs.locking.exec hready, hs.guarded.exec hs.locking hready hadmits, ?_, forall_update ?_ ?_⟩
      · rw [hcommitted]
        exact hs.settled
      · exact ⟨Q, hstable, hq, hrest⟩
      · intro j hj
        exact (hs.processes j).steady (.quiet hd (.exec hj hready) hcommitted)

/-- A commit keeps the invariant, and what the other transactions hold stays steady. -/
theorem Sound.commit (hd : d.Lawful) (hs : d.Sound s task) (hpost : d.Post s i e) :
    d.Sound (afterCommit s i e) (update task i none) where
  locking := hs.locking.commit
  guarded := fun j k hwritten => by
    by_cases hj : j = i
    · subst hj
      exact absurd (written_commit_self k) hwritten
    · have hold : s.tables.written j k ≠ none := by rwa [written_commit_of_ne hj] at hwritten
      exact guarded_release hs.guarded hold hj
  settled := hd.settled hs.locking hs.guarded hs.settled hpost
  processes := forall_update (fun k => written_commit_self k) fun j hj =>
    (hs.processes j).steady (.commit hd hs hpost hj)

theorem Sound.abort (hd : d.Lawful) (hs : d.Sound s task) (i : ι) :
    d.Sound { s with tables := s.tables.abort i } (update task i none) where
  locking := hs.locking.abort
  guarded := fun j k hwritten => by
    by_cases hj : j = i
    · subst hj
      exact absurd (written_abort_self k) hwritten
    · have hold : s.tables.written j k ≠ none := by rwa [written_abort_of_ne hj] at hwritten
      exact guarded_release hs.guarded hold hj
  settled := hs.settled
  processes := forall_update (fun k => written_abort_self k) fun j hj =>
    (hs.processes j).steady (.quiet hd (.abort hj) rfl)

theorem Sound.start (hs : d.Sound s task) {script : Script ρ σ ε} (hidle : task i = none)
    (hvalid : d.Valid script fun s i => ∀ k, s.tables.written i k = none) :
    d.Sound s (update task i (some script)) := by
  have hlocal := hs.processes i
  rw [hidle] at hlocal
  refine ⟨hs.locking, hs.guarded, hs.settled, forall_update ⟨_, ?_, hlocal, hvalid⟩ fun j _ => hs.processes j⟩
  intro s s' i hnone hsteady k
  rw [hsteady.written]
  exact hnone k

theorem Sound.initial (hsettled : d.Settled s.tables.committed)
    (hwritten : ∀ i k, s.tables.written i k = none) : d.Sound s fun _ : ι => none where
  locking := fun i k hk => absurd (hwritten i k) hk
  guarded := fun i k hk => absurd (hwritten i k) hk
  settled := hsettled
  processes := hwritten

/-- What every process does. -/
def MeetsTask (d : Discipline ι ρ σ ε) (s : Shared ι ρ ε) (i : ι) (task : Option (Script ρ σ ε)) : Prop :=
  ∀ script, task = some script → d.Meets s i script

/-- Scripts that are valid. -/
def Starts (d : Discipline ι ρ σ ε) (starts : ℕ → Script ρ σ ε → Prop) : Prop :=
  ∀ now script, starts now script → d.Valid script fun s i => ∀ k, s.tables.written i k = none

omit [DecidableEq κ] in
theorem commit_of_finish {starts : ℕ → Script ρ σ ε → Prop}
    (h : (Script.program starts).finish t = some e) : t = some (.commit e) := by
  cases t with
  | none => cases h
  | some script =>
    cases script with
    | commit e' => rw [some.inj h]
    | refuse => cases h
    | statement _ _ _ => cases h

theorem Sound.within (hd : d.Lawful) {starts : ℕ → Script ρ σ ε → Prop} (hstarts : d.Starts starts)
    {keeps : (∀ k, Option (ρ k)) → (∀ k, Option (ρ k)) → Prop} (hrefl : ∀ c, keeps c c)
    (htrans : ∀ c c' c'', keeps c c' → keeps c' c'' → keeps c c'')
    (hcommit : ∀ {s : Shared ι ρ ε} {i e}, s.tables.Locking → d.Guarded s → d.Settled s.tables.committed →
      d.Post s i e → keeps s.tables.committed (s.tables.commit i).committed)
    (hs : d.Sound s task) (h : (Script.program starts).Within d.MeetsTask s task s' task') :
    d.Sound s' task' ∧ keeps s.tables.committed s'.tables.committed := by
  induction h with
  | refl => exact ⟨hs, hrefl _⟩
  | advance seconds _ ih =>
    obtain ⟨hsound, hkeeps⟩ := ih
    refine ⟨⟨hsound.locking, hsound.guarded, hsound.settled, fun i => ?_⟩, hkeeps⟩
    exact (hsound.processes i).steady (.quiet hd (.advance seconds) rfl)
  | start i t _ hidle hbegins ih =>
    obtain ⟨script, rfl, hscript⟩ := hbegins
    exact ⟨ih.1.start hidle (hstarts _ script hscript), ih.2⟩
  | statement i request t _ hmeets hnext hready ih =>
    refine ⟨ih.1.statement hd hmeets hnext hready, ?_⟩
    rw [show _ = _ from committed_exec request]
    exact ih.2
  | commit i e _ hmeets hfinish ih =>
    obtain ⟨hsound, hkeeps⟩ := ih
    have htask := commit_of_finish hfinish
    have hpost := hsound.post htask (hmeets _ htask)
    exact ⟨hsound.commit hd hpost, htrans _ _ _ hkeeps (hcommit hsound.locking hsound.guarded hsound.settled hpost)⟩
  | abort i _ ih => exact ⟨ih.1.abort hd i, ih.2⟩

/-! ## From one discipline to another -/

/-- The other discipline asks and gives the same of the processes in `K`. -/
structure SameOn (d d' : Discipline ι ρ σ ε) (K : ι → Prop) : Prop where
  guard : d'.guard = d.guard
  settled : d'.Settled = d.Settled
  rely : ∀ {s s' i}, d'.Rely s s' i → d.Rely s s' i
  meets : ∀ {s i script}, K i → d'.Meets s i script → d.Meets s i script
  post : ∀ {s i e}, K i → d.Post s i e → d'.Post s i e

section SameOn

variable {d' : Discipline ι ρ σ ε} {K : ι → Prop}

omit [DecidableEq ι] [DecidableEq κ] in
theorem SameOn.stable (h : SameOn d d' K) {P : Shared ι ρ ε → ι → Prop} (hp : d.Stable P) : d'.Stable fun s i => P s i ∧ K i :=
  fun hr hs => ⟨hp hr.1 { hs.toFrame with guarded := h.guard ▸ hs.guarded, rely := h.rely hs.rely }, hr.2⟩

theorem SameOn.valid (h : SameOn d d' K) {script : Script ρ σ ε} {P : Shared ι ρ ε → ι → Prop} (hvalid : d.Valid script P) :
    d'.Valid script fun s i => P s i ∧ K i := by
  induction script generalizing P with
  | commit e => exact fun s i hsettled hp hmeets => h.post hp.2 (hvalid s i (h.settled ▸ hsettled) hp.1 (h.meets hp.2 hmeets))
  | refuse => exact True.intro
  | statement name request next ih =>
    intro s i hsettled hp hmeets hready
    obtain ⟨hadmits, Q, hstable, hq, hrest⟩ := hvalid s i (h.settled ▸ hsettled) hp.1 (h.meets hp.2 hmeets) hready
    refine ⟨?_, _, h.stable hstable, ⟨hq, hp.2⟩, ih _ _ hrest⟩
    rwa [show d'.Admits = d.Admits by unfold Admits; rw [h.guard]]

/-- A state that is sound for a discipline is so for one that differs only for idle processes. -/
theorem Sound.same (h : SameOn d d' K) (hs : d.Sound s task) (hidle : ∀ i, ¬ K i → task i = none) : d'.Sound s task where
  locking := hs.locking
  guarded := by
    unfold Guarded
    rw [h.guard]
    exact hs.guarded
  settled := h.settled ▸ hs.settled
  processes := fun i => by
    have hlocal := hs.processes i
    cases htask : task i with
    | none => rwa [htask] at hlocal
    | some script =>
      rw [htask] at hlocal
      obtain ⟨P, hstable, hp, hvalid⟩ := hlocal
      have hk : K i := by
        by_contra hnot
        rw [hidle i hnot] at htask
        cases htask
      exact ⟨_, h.stable hstable, ⟨hp, hk⟩, h.valid hvalid⟩

end SameOn

/-! ## What a script knows of the rows -/

/-- The transaction has written these rows and no others. -/
def Wrote (s : Shared ι ρ ε) (i : ι) (rows : List (Σ k, Option (ρ k))) : Prop :=
  (∀ row ∈ rows, s.tables.written i row.1 = some row.2) ∧
    ∀ k, k ∉ rows.map Sigma.fst → s.tables.written i k = none

/-- What a transaction that has written these rows sees. -/
def Sees (rows : List (Σ k, Option (ρ k))) (c view : ∀ k, Option (ρ k)) : Prop :=
  (∀ row ∈ rows, view row.1 = row.2) ∧ ∀ k, k ∉ rows.map Sigma.fst → view k = c k

/-- The rows that are held, or whose guards are. -/
def Covers (d : Discipline ι ρ σ ε) (held : List κ) (k : κ) : Prop := k ∈ held ∨ d.guard k ∈ held

/-- The transaction holds these rows, has written those, and the rows covered are committed as they
were. -/
structure Knows (d : Discipline ι ρ σ ε) (held : List κ) (rows : List (Σ k, Option (ρ k)))
    (c : ∀ k, Option (ρ k)) (s : Shared ι ρ ε) (i : ι) : Prop where
  locked : ∀ k ∈ held, s.tables.locked k = some i
  wrote : Wrote s i rows
  agrees : ∀ k, d.Covers held k → s.tables.committed k = c k

/-- An assertion that neither the others nor the statements of the process itself make wrong. -/
structure Lasting (d : Discipline ι ρ σ ε) (R : Shared ι ρ ε → ι → Prop) : Prop where
  stable : d.Stable R
  own : ∀ {s : Shared ι ρ ε} {i request}, s.tables.Ready i request → R s i → R { s with tables := s.tables.exec i request } i

theorem Lasting.trivial : d.Lasting fun _ _ => True := ⟨fun _ _ => True.intro, fun _ _ => True.intro⟩

theorem Lasting.and {R R' : Shared ι ρ ε → ι → Prop} (h : d.Lasting R) (h' : d.Lasting R') :
    d.Lasting fun s i => R s i ∧ R' s i :=
  ⟨fun hr hs => ⟨h.stable hr.1 hs, h'.stable hr.2 hs⟩, fun hready hr => ⟨h.own hready hr.1, h'.own hready hr.2⟩⟩

theorem Lasting.time (T : ι → ℕ → Prop) (now : ℕ) : d.Lasting fun s i => now ≤ s.clock ∧ T i now :=
  ⟨fun h hs => ⟨Nat.le_trans h.1 hs.clock, h.2⟩, fun _ h => h⟩

omit [DecidableEq ι] [DecidableEq κ] in
theorem Wrote.sees {rows : List (Σ k, Option (ρ k))} (h : Wrote s i rows) : Sees rows s.tables.committed (s.tables.view i) := by
  constructor
  · intro row hrow
    rw [view, h.1 row hrow, getD_some]
  · intro k hk
    exact view_of_not_written (h.2 k hk)

omit [DecidableEq κ] in
theorem Sees.eq {c view : ∀ k, Option (ρ k)} (h : Sees [] c view) : view = c :=
  funext fun k => h.2 k not_mem_nil

variable {held : List κ} {rows : List (Σ k, Option (ρ k))} {c₀ : ∀ k, Option (ρ k)}
  {R : Shared ι ρ ε → ι → Prop} {next : (∀ k, Option (ρ k)) → ℕ → Script ρ σ ε} {view : ∀ k, Option (ρ k)} {statement : Statement ρ} {new : List (Σ k, Option (ρ k))}

omit [DecidableEq ι] [DecidableEq κ] in
theorem Knows.refresh (h : d.Knows held rows c₀ s i) : d.Knows held rows s.tables.committed s i :=
  ⟨h.locked, h.wrote, fun _ _ => rfl⟩

omit [DecidableEq ι] [DecidableEq κ] in
theorem Knows.stable : d.Stable (d.Knows held rows c₀) := by
  intro s s' i h hs
  refine ⟨fun k hk => hs.locked k (h.locked k hk), ⟨?_, ?_⟩, fun k hk => ?_⟩
  · intro row hrow
    rw [hs.written]
    exact h.wrote.1 row hrow
  · intro k hk
    rw [hs.written]
    exact h.wrote.2 k hk
  · have hsame : s'.tables.committed k = s.tables.committed k := by
      rcases hk with hself | hguard
      · exact hs.held k (h.locked k hself)
      · exact hs.guarded k (h.locked _ hguard)
    exact hsame.trans (h.agrees k hk)

theorem stable_and (hR : d.Lasting R) : d.Stable fun s i => d.Knows held rows c₀ s i ∧ R s i :=
  fun h hs => ⟨Knows.stable h.1 hs, hR.stable h.2 hs⟩

theorem valid_read {name : Option σ} (h : ∀ s i, d.Settled s.tables.committed → d.Knows held rows c₀ s i → R s i →
      d.Meets s i (.statement name (fun _ _ => .read) next) → ∃ R' : Shared ι ρ ε → ι → Prop, d.Lasting R' ∧ R' s i ∧
          d.Valid (next (s.tables.view i) s.clock) fun s' i => d.Knows held rows s.tables.committed s' i ∧ R' s' i) :
    d.Valid (.statement name (fun _ _ => .read) next) fun s i => d.Knows held rows c₀ s i ∧ R s i := by
  intro s i hsettled hp hmeets _
  obtain ⟨R', hR', hr, hvalid⟩ := h s i hsettled hp.1 hp.2 hmeets
  exact ⟨True.intro, _, stable_and hR', ⟨hp.1.refresh, hr⟩, hvalid⟩

theorem valid_query (hR : d.Lasting R) (h : ∀ c view now, d.Settled c → (∀ k, d.Covers held k → c k = c₀ k) → Sees rows c view →
      d.Valid (next view now) fun s i => d.Knows held rows c s i ∧ R s i) :
    d.Valid (.query next) fun s i => d.Knows held rows c₀ s i ∧ R s i :=
  valid_read fun s _ hsettled hknows hr _ =>
    ⟨R, hR, hr, h s.tables.committed _ s.clock hsettled hknows.agrees hknows.wrote.sees⟩

theorem Knows.lock (h : d.Knows held rows c₀ s i) (hready : s.tables.Ready i (.lock k)) :
    d.Knows (k :: held) rows s.tables.committed { s with tables := s.tables.exec i (.lock k) } i := by
  refine ⟨fun k' hk' => ?_, h.wrote, fun _ _ => rfl⟩
  rcases mem_cons.mp hk' with rfl | hk'
  · exact locked_exec_lock k'
  · exact locked_exec hready (h.locked k' hk')

theorem valid_select (hR : d.Lasting R)
    (h : ∀ c view now, d.Settled c → (∀ k, d.Covers held k → c k = c₀ k) → Sees rows c view →
      d.Valid (next view now) fun s i => d.Knows (k :: held) rows c s i ∧ R s i) :
    d.Valid (.select k next) fun s i => d.Knows held rows c₀ s i ∧ R s i := by
  intro s i hsettled hp _ hready
  exact ⟨True.intro, _, stable_and hR, ⟨hp.1.lock hready, hR.own hready hp.2⟩,
    h s.tables.committed _ s.clock hsettled hp.1.agrees hp.1.wrote.sees⟩

/-- A `SELECT … FOR UPDATE` whose time is kept, with what the condition says of it. -/
theorem valid_select_at {T : ι → ℕ → Prop} (hT : ∀ {s i script}, d.Meets s i script → T i s.clock) (hR : d.Lasting R)
    (h : ∀ c view now, d.Settled c → (∀ k, d.Covers held k → c k = c₀ k) → Sees rows c view →
      d.Valid (next view now) fun s i => d.Knows (k :: held) rows c s i ∧ (R s i ∧ now ≤ s.clock ∧ T i now)) :
    d.Valid (.select k next) fun s i => d.Knows held rows c₀ s i ∧ R s i := by
  intro s i hsettled hp hmeets hready
  exact ⟨True.intro, _, stable_and (hR.and (.time T s.clock)),
    ⟨hp.1.lock hready, hR.own hready hp.2, Nat.le_refl _, hT hmeets⟩,
    h s.tables.committed _ s.clock hsettled hp.1.agrees hp.1.wrote.sees⟩

theorem valid_find (hR : d.Lasting R) {key : (∀ k, Option (ρ k)) → Option κ}
    (h : ∀ c view now, d.Settled c → (∀ k, d.Covers held k → c k = c₀ k) → Sees rows c view →
      d.Valid (next view now) fun s i => d.Knows ((key view).toList ++ held) rows c s i ∧ R s i) :
    d.Valid (.find key next) fun s i => d.Knows held rows c₀ s i ∧ R s i := by
  intro s i hsettled hp _ hready
  have hnext := h s.tables.committed _ s.clock hsettled hp.1.agrees hp.1.wrote.sees
  cases hkey : key (s.tables.view i) with
  | none =>
    simp only [hkey, map_none, getD_none, toList_none, nil_append] at hnext ⊢
    exact ⟨True.intro, _, stable_and hR, ⟨hp.1.refresh, hp.2⟩, hnext⟩
  | some k =>
    simp only [hkey, map_some, getD_some, toList_some, singleton_append]
      at hnext hready ⊢
    exact ⟨True.intro, _, stable_and hR, ⟨hp.1.lock hready, hR.own hready hp.2⟩, hnext⟩

/-- The statement writes these rows and no others. -/
def Puts (statement : Statement ρ) (view : ∀ k, Option (ρ k)) (rows : List (Σ k, Option (ρ k))) : Prop :=
  (∀ row ∈ rows, statement row.1 (view row.1) = some row.2) ∧
    ∀ k, k ∉ rows.map Sigma.fst → statement k (view k) = none

theorem puts_set (view : ∀ k, Option (ρ k)) (k : κ) (row : Option (ρ k)) : Puts (Statement.set k row) view [⟨k, row⟩] := by
  constructor
  · intro kv hkv
    obtain rfl := mem_singleton.mp hkv
    exact Statement.set_self k row _
  · intro k' hk'
    exact Statement.set_of_ne (fun h => hk' (by simp [h])) row _

theorem puts_modify {r : ρ k} (h : view k = some r) (f : ρ k → ρ k) : Puts (Statement.modify k f) view [⟨k, some (f r)⟩] := by
  constructor
  · intro kv hkv
    obtain rfl := mem_singleton.mp hkv
    rw [h]
    exact Statement.modify_self k f r
  · intro k' hk'
    exact Statement.modify_of_ne (fun h => hk' (by simp [h])) f _

omit [DecidableEq κ] in
theorem Puts.both {first second : Statement ρ}
    {rows rows' : List (Σ k, Option (ρ k))} (h : Puts first view rows) (h' : Puts second view rows')
    (hapart : ∀ row ∈ rows', row.1 ∉ rows.map Sigma.fst) :
    Puts (Statement.both first second) view (rows ++ rows') := by
  constructor
  · intro row hrow
    unfold Statement.both
    rcases mem_append.mp hrow with hrow | hrow
    · rw [h.1 row hrow, some_or]
    · rw [h.2 row.1 (hapart row hrow), none_or]
      exact h'.1 row hrow
  · intro k hk
    rw [map_append, mem_append, not_or] at hk
    unfold Statement.both
    rw [h.2 k hk.1, h'.2 k hk.2, none_or]

theorem Knows.write (h : d.Knows held rows c₀ s i) (hready : s.tables.Ready i (.write statement))
    (hputs : Puts statement (s.tables.view i) new) (hnew : ∀ row ∈ new, row.1 ∉ rows.map Sigma.fst) :
    d.Knows (new.map Sigma.fst ++ held) (new ++ rows) s.tables.committed
      { s with tables := s.tables.exec i (.write statement) } i := by
  have hnone : ∀ row ∈ rows, statement row.1 (s.tables.view i row.1) = none := by
    intro row hrow
    refine hputs.2 row.1 fun hmem => ?_
    obtain ⟨row', hrow', hkey⟩ := mem_map.mp hmem
    exact hnew row' hrow' (mem_map.mpr ⟨row, hrow, hkey.symm⟩)
  refine ⟨fun k hk => ?_, ⟨fun row hrow => ?_, fun k hk => ?_⟩, fun _ _ => rfl⟩
  · rcases mem_append.mp hk with hk | hk
    · obtain ⟨row, hrow, rfl⟩ := mem_map.mp hk
      exact if_pos (by rw [hputs.1 row hrow]; rfl)
    · exact locked_exec hready (h.locked k hk)
  · rw [written_exec_write]
    rcases mem_append.mp hrow with hrow | hrow
    · rw [hputs.1 row hrow, some_or]
    · rw [hnone row hrow, none_or]
      exact h.wrote.1 row hrow
  · rw [map_append, mem_append, not_or] at hk
    rw [written_exec_write, hputs.2 k hk.1, none_or]
    exact h.wrote.2 k hk.2

omit [DecidableEq ι] in
theorem Knows.admits (h : d.Knows held rows c₀ s i) (hputs : Puts statement (s.tables.view i) new)
    (hguards : ∀ row ∈ new, d.guard row.1 = row.1 ∨ d.guard row.1 ∈ held) : d.Admits s i (.write statement) := by
  intro k hwrites
  have hmem : k ∈ new.map Sigma.fst := by
    by_contra hnot
    rw [hputs.2 k hnot] at hwrites
    cases hwrites
  obtain ⟨row, hrow, rfl⟩ := mem_map.mp hmem
  exact (hguards row hrow).imp_right (h.locked _)

theorem valid_write (hR : d.Lasting R) {next : Script ρ σ ε}
    (h : ∀ c view, d.Settled c → (∀ k, d.Covers held k → c k = c₀ k) → Sees rows c view →
      ∃ new, Puts statement view new ∧ (∀ row ∈ new, row.1 ∉ rows.map Sigma.fst) ∧
        (∀ row ∈ new, d.guard row.1 = row.1 ∨ d.guard row.1 ∈ held) ∧
        d.Valid next fun s i => d.Knows (new.map Sigma.fst ++ held) (new ++ rows) c s i ∧ R s i) :
    d.Valid (.write statement next) fun s i => d.Knows held rows c₀ s i ∧ R s i := by
  intro s i hsettled hp _ hready
  obtain ⟨new, hputs, hnew, hguards, hvalid⟩ := h s.tables.committed _ hsettled hp.1.agrees hp.1.wrote.sees
  exact ⟨hp.1.admits hputs hguards, _, stable_and hR, ⟨hp.1.write hready hputs hnew, hR.own hready hp.2⟩, hvalid⟩

theorem valid_attempt (hR : d.Lasting R) {statement : (∀ k, Option (ρ k)) → ℕ → Option (Statement ρ)}
    {next : Script ρ σ ε}
    (h : ∀ c view now st, d.Settled c → (∀ k, d.Covers held k → c k = c₀ k) → Sees rows c view →
      statement view now = some st → ∃ new, Puts st view new ∧ (∀ row ∈ new, row.1 ∉ rows.map Sigma.fst) ∧
        (∀ row ∈ new, d.guard row.1 = row.1 ∨ d.guard row.1 ∈ held) ∧
        d.Valid next fun s i => d.Knows (new.map Sigma.fst ++ held) (new ++ rows) c s i ∧ R s i) :
    d.Valid (.attempt statement next) fun s i => d.Knows held rows c₀ s i ∧ R s i := by
  intro s i hsettled hp _ hready
  cases hst : statement (s.tables.view i) s.clock with
  | none =>
    simp only [hst, map_none, getD_none, isSome_none, Bool.false_eq_true, if_false]
    exact ⟨True.intro, _, Lasting.trivial.stable, True.intro, True.intro⟩
  | some st =>
    simp only [hst, map_some, getD_some, isSome_some, if_true] at hready ⊢
    obtain ⟨new, hputs, hnew, hguards, hvalid⟩ :=
      h s.tables.committed _ s.clock st hsettled hp.1.agrees hp.1.wrote.sees hst
    exact ⟨hp.1.admits hputs hguards, _, stable_and hR, ⟨hp.1.write hready hputs hnew, hR.own hready hp.2⟩, hvalid⟩

theorem valid_commit (h : ∀ s i, d.Settled s.tables.committed → d.Knows held rows c₀ s i → R s i → d.Meets s i (.commit e) →
    d.Post s i e) : d.Valid (.commit e) fun s i => d.Knows held rows c₀ s i ∧ R s i :=
  fun s i hsettled hp hmeets => h s i hsettled hp.1 hp.2 hmeets

theorem valid_unless {refused : Prop} [Decidable refused] {next : Script ρ σ ε}
    {P : Shared ι ρ ε → ι → Prop} (h : ¬ refused → d.Valid next P) :
    d.Valid (if refused then .refuse else next) P := by
  split
  · exact True.intro
  · rename_i hpasses
    exact h hpasses

theorem valid_begin {script : Script ρ σ ε} (h : ∀ c, d.Valid script fun s i => d.Knows [] [] c s i ∧ True) :
    d.Valid script fun s i => ∀ k, s.tables.written i k = none := by
  have hknows : ∀ s i, (∀ k, s.tables.written i k = none) → d.Knows [] [] (fun _ => none) s i := by
    intro s i hnone
    refine ⟨fun k hk => absurd hk not_mem_nil, ⟨fun row hrow => absurd hrow not_mem_nil,
      fun k _ => hnone k⟩, fun k hk => ?_⟩
    rcases hk with hk | hk <;> exact absurd hk not_mem_nil
  cases script with
  | commit e => exact fun s i hsettled hp => h _ s i hsettled ⟨hknows s i hp, True.intro⟩
  | refuse => exact True.intro
  | statement name request next => exact fun s i hsettled hp => h _ s i hsettled ⟨hknows s i hp, True.intro⟩

end Discipline

end Foundations
