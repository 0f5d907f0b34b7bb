import Bidding.Foundations.ReadCommitted

/-!
# Processes that interleave statement by statement

A program says which statement comes next, by what the transaction sees and the clock, and what a commit tells the
others; a transaction may be rolled back at any point. `Preserved` is the rule for what holds along every run. What a
process knows (`Local`) is not lost to the others (`Frame`, `Rely`).
-/

namespace Foundations

open Function Tables

/-- What the processes share: the tables, the clock, and what was committed, the latest first. -/
structure Shared (ι : Type) {κ : Type} (ρ : κ → Type) (ε : Type) where
  tables : Tables ι ρ
  clock : ℕ
  history : List ε

/-- What a process does, by its task. -/
structure Program {κ : Type} (ρ : κ → Type) (τ ε : Type) where
  idle : τ
  /-- the tasks that an idle process may begin, at a time -/
  starts : ℕ → τ → Prop
  /-- the next statement, by what the transaction sees and the time -/
  next : (∀ k, Option (ρ k)) → ℕ → τ → Option (Request ρ × τ)
  /-- what a commit after the last statement says -/
  finish : τ → Option ε

variable {ι κ τ ε : Type} {ρ : κ → Type} [DecidableEq ι] [DecidableEq κ]

/-- One step of the processes. -/
inductive Program.Step (p : Program ρ τ ε) (s : Shared ι ρ ε) (task : ι → τ) : Shared ι ρ ε → (ι → τ) → Prop where
  | advance (seconds : ℕ) : p.Step s task { s with clock := s.clock + seconds } task
  | start (i : ι) (t : τ) : task i = p.idle → p.starts s.clock t → p.Step s task s (update task i t)
  | statement (i : ι) (request : Request ρ) (t : τ) :
      p.next (s.tables.view i) s.clock (task i) = some (request, t) → s.tables.Ready i request →
      p.Step s task { s with tables := s.tables.exec i request } (update task i t)
  | commit (i : ι) (e : ε) : p.finish (task i) = some e →
      p.Step s task { tables := s.tables.commit i, clock := s.clock, history := e :: s.history } (update task i p.idle)
  | abort (i : ι) : p.Step s task { s with tables := s.tables.abort i } (update task i p.idle)

inductive Program.Reached (p : Program ρ τ ε) (start : Shared ι ρ ε) : Shared ι ρ ε → (ι → τ) → Prop where
  | start : p.Reached start start fun _ => p.idle
  | step {s s' : Shared ι ρ ε} {task task' : ι → τ} : p.Reached start s task → p.Step s task s' task' → p.Reached start s' task'

/-- What a step of another process leaves to a process. -/
structure Frame (s s' : Shared ι ρ ε) (i : ι) : Prop where
  written : ∀ k, s'.tables.written i k = s.tables.written i k
  locked : ∀ k, s.tables.locked k = some i → s'.tables.locked k = some i
  held : ∀ k, s.tables.locked k = some i → s'.tables.committed k = s.tables.committed k
  history : ∃ new, s'.history = new ++ s.history
  clock : s.clock ≤ s'.clock

section Frame

variable {s s' : Shared ι ρ ε} {i j : ι} {k : κ}

omit [DecidableEq ι] [DecidableEq κ] in
theorem Frame.view (hf : Frame s s' i) (hlocked : s.tables.locked k = some i) : s'.tables.view i k = s.tables.view i k := by
  rw [Tables.view, Tables.view, hf.written, hf.held k hlocked]

omit [DecidableEq ι] [DecidableEq κ] in
theorem Frame.mem_history (hf : Frame s s' i) {e : ε} (h : e ∈ s.history) : e ∈ s'.history := by
  obtain ⟨new, hnew⟩ := hf.history
  rw [hnew]
  exact List.mem_append_right new h

omit [DecidableEq ι] [DecidableEq κ] in
theorem Frame.advance (seconds : ℕ) : Frame s { s with clock := s.clock + seconds } i where
  written := fun _ => rfl
  locked := fun _ hk => hk
  held := fun _ _ => rfl
  history := ⟨[], rfl⟩
  clock := Nat.le_add_right _ _

theorem Frame.exec {request : Request ρ} (hne : i ≠ j) (hready : s.tables.Ready j request) :
    Frame s { s with tables := s.tables.exec j request } i where
  written := fun k => written_exec_of_ne request hne k
  locked := fun _ hk => locked_exec hready hk
  held := fun k _ => congrFun (committed_exec request) k
  history := ⟨[], rfl⟩
  clock := Nat.le_refl _

omit [DecidableEq κ] in
theorem Frame.commit (hl : s.tables.Locking) (hne : i ≠ j) (e : ε) :
    Frame s { tables := s.tables.commit j, clock := s.clock, history := e :: s.history } i where
  written := fun k => written_commit_of_ne hne k
  locked := fun _ hk => release_of_ne hne hk
  held := fun _ hk => committed_commit_of_locked hl hk hne
  history := ⟨[e], rfl⟩
  clock := Nat.le_refl _

omit [DecidableEq κ] in
theorem Frame.abort (hne : i ≠ j) : Frame s { s with tables := s.tables.abort j } i where
  written := fun k => written_abort_of_ne hne k
  locked := fun _ hk => release_of_ne hne hk
  held := fun _ _ => rfl
  history := ⟨[], rfl⟩
  clock := Nat.le_refl _

end Frame

/-- What has to be shown for an invariant of a program. -/
structure Preserved (p : Program ρ τ ε) (Settled : Shared ι ρ ε → Prop)
    (Local : Shared ι ρ ε → ι → τ → Prop) (Rely : Shared ι ρ ε → Shared ι ρ ε → ι → Prop) : Prop where
  /-- nothing is committed -/
  quiet : ∀ {s s'}, Settled s → s'.tables.committed = s.tables.committed → s'.history = s.history →
    s.clock ≤ s'.clock → Settled s'
  relyQuiet : ∀ {s s' : Shared ι ρ ε} {i}, s'.tables.committed = s.tables.committed → s'.history = s.history → Rely s s' i
  frame : ∀ {s s' i t}, Local s i t → Frame s s' i → Rely s s' i → Local s' i t
  start : ∀ {s i t}, Local s i p.idle → p.starts s.clock t → Local s i t
  statement : ∀ {s i t request t'}, Settled s → Local s i t →
    p.next (s.tables.view i) s.clock t = some (request, t') → s.tables.Ready i request →
    Local { s with tables := s.tables.exec i request } i t'
  settled : ∀ {s i t e}, Settled s → Local s i t → p.finish t = some e →
    Settled { tables := s.tables.commit i, clock := s.clock, history := e :: s.history }
  rely : ∀ {s i t e j}, Settled s → s.tables.Locking → Local s i t → p.finish t = some e → j ≠ i →
    Rely s { tables := s.tables.commit i, clock := s.clock, history := e :: s.history } j
  /-- a process that is in no transaction has written nothing -/
  idle : ∀ {s : Shared ι ρ ε} {i}, (∀ k, s.tables.written i k = none) → Local s i p.idle

/-- The invariant. -/
structure Sound (Settled : Shared ι ρ ε → Prop) (Local : Shared ι ρ ε → ι → τ → Prop)
    (s : Shared ι ρ ε) (task : ι → τ) : Prop where
  locking : s.tables.Locking
  settled : Settled s
  processes : ∀ i, Local s i (task i)

section Rule

variable {p : Program ρ τ ε} {Settled : Shared ι ρ ε → Prop} {Local : Shared ι ρ ε → ι → τ → Prop}
  {Rely : Shared ι ρ ε → Shared ι ρ ε → ι → Prop} {s s' start : Shared ι ρ ε} {task task' : ι → τ}

omit [DecidableEq κ] in
theorem forall_update {P : ι → τ → Prop} {i : ι} {t : τ} (hself : P i t)
    (hothers : ∀ j, j ≠ i → P j (task j)) (j : ι) : P j (update task i t j) := by
  by_cases hj : j = i
  · subst hj
    rw [update_self]
    exact hself
  · rw [update_of_ne hj]
    exact hothers j hj

/-- A step of one process keeps what every process knows. -/
theorem Preserved.step (hp : Preserved p Settled Local Rely) (h : Sound Settled Local s task)
    (hstep : p.Step s task s' task') : Sound Settled Local s' task' := by
  cases hstep with
  | advance seconds =>
    refine ⟨h.locking, hp.quiet h.settled rfl rfl (Nat.le_add_right _ _), fun i => ?_⟩
    exact hp.frame (h.processes i) (.advance seconds) (hp.relyQuiet rfl rfl)
  | start i t hidle hstarts =>
    refine ⟨h.locking, h.settled, forall_update ?_ fun j _ => h.processes j⟩
    exact hp.start (hidle ▸ h.processes i) hstarts
  | statement i request t hnext hready =>
    have hcommitted : (s.tables.exec i request).committed = s.tables.committed := committed_exec request
    refine ⟨h.locking.exec hready, hp.quiet h.settled hcommitted rfl (Nat.le_refl _),
      forall_update (hp.statement h.settled (h.processes i) hnext hready) fun j hj => ?_⟩
    exact hp.frame (h.processes j) (.exec hj hready) (hp.relyQuiet hcommitted rfl)
  | commit i e hfinish =>
    refine ⟨h.locking.commit, hp.settled h.settled (h.processes i) hfinish,
      forall_update (hp.idle written_commit_self) fun j hj => ?_⟩
    exact hp.frame (h.processes j) (.commit h.locking hj e) (hp.rely h.settled h.locking (h.processes i) hfinish hj)
  | abort i =>
    refine ⟨h.locking.abort, hp.quiet h.settled rfl rfl (Nat.le_refl _),
      forall_update (hp.idle written_abort_self) fun j hj => ?_⟩
    exact hp.frame (h.processes j) (.abort hj) (hp.relyQuiet rfl rfl)

/-- What the steps preserve holds in every state that is reached. -/
theorem Preserved.reached (hp : Preserved p Settled Local Rely) (hsettled : Settled start)
    (hwritten : ∀ i k, start.tables.written i k = none) (h : p.Reached start s task) : Sound Settled Local s task := by
  induction h with
  | start => exact ⟨fun i k hk => absurd (hwritten i k) hk, hsettled, fun i => hp.idle (hwritten i)⟩
  | step _ hstep ih => exact hp.step ih hstep

end Rule

end Foundations
