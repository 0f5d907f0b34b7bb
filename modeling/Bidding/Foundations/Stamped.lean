import Mathlib.Algebra.Order.Group.Nat
import Mathlib.Tactic.Common

/-!
# Stamped stores

A store that stamps every write of a key with the next value of one counter, seen through a `Stamped`. `Advances` is all
that a run may do, so one stamp never stands for two keys or two contents.
-/

namespace Foundations

structure Stamped (κ α : Type) where
  clock : ℕ
  stamp : κ → Option ℕ
  content : κ → Option α

namespace Stamped

variable {κ α : Type} {u v w : Stamped κ α} {k k' : κ} {g : ℕ}

/-- No stamp is from the future, and no two keys share one. -/
structure Bounded (v : Stamped κ α) : Prop where
  le_clock : ∀ k g, v.stamp k = some g → g ≤ v.clock
  inj : ∀ k k' g, v.stamp k = some g → v.stamp k' = some g → k = k'

/-- What may happen to one key. -/
def KeyAdvances (v w : Stamped κ α) (k : κ) : Prop :=
  w.stamp k = none ∨
  (∃ g, w.stamp k = some g ∧ v.clock < g ∧ g ≤ w.clock) ∨
  (w.stamp k = v.stamp k ∧ (w.content k = v.content k ∨ w.content k = none))

/-- The store went from `v` to `w` by stamped writes and by removals. -/
structure Advances (v w : Stamped κ α) : Prop where
  clock_le : v.clock ≤ w.clock
  key : ∀ k, KeyAdvances v w k
  fresh_inj : ∀ k k' g, v.clock < g → w.stamp k = some g → w.stamp k' = some g → k = k'

/-- The key has lost its content, or nothing happened to it. -/
def Fades (v w : Stamped κ α) (k : κ) : Prop :=
  (w.stamp k = v.stamp k ∧ w.content k = v.content k) ∨ w.content k = none

/-- Nothing was written: every key is as it was, or has lost its content. -/
structure Sheds (v w : Stamped κ α) : Prop where
  clock_eq : w.clock = v.clock
  key : ∀ k, (w.stamp k = v.stamp k ∧ w.content k = v.content k) ∨
    (w.content k = none ∧ (w.stamp k = v.stamp k ∨ w.stamp k = none))

/-- The keys that still have a remembered stamp are removed, the others are as they were. -/
structure Settles (remembered : κ → ℕ → Prop) (v w : Stamped κ α) : Prop where
  clock_eq : w.clock = v.clock
  gone : ∀ k g, remembered k g → v.stamp k = some g → w.stamp k = none ∧ w.content k = none
  kept : ∀ k, (∀ g, remembered k g → v.stamp k ≠ some g) → w.stamp k = v.stamp k ∧ w.content k = v.content k

theorem Advances.refl (v : Stamped κ α) (hb : Bounded v) : Advances v v where
  clock_le := le_refl _
  key _ := .inr (.inr ⟨rfl, .inl rfl⟩)
  fresh_inj k k' g _ := hb.inj k k' g

theorem Advances.stamp_of_le (h : Advances v w) (hg : g ≤ v.clock) (hw : w.stamp k = some g) : v.stamp k = some g := by
  rcases h.key k with hn | ⟨g', hg', hlt, -⟩ | ⟨hs, -⟩
  · rw [hn] at hw; cases hw
  · rw [hg', Option.some.injEq] at hw; omega
  · rw [← hs, hw]

theorem Advances.trans (h : Advances u v) (h' : Advances v w) : Advances u w where
  clock_le := h.clock_le.trans h'.clock_le
  key k := by
    rcases h'.key k with hn | ⟨g, hg, hlt, hle⟩ | ⟨hs, hc⟩
    · exact .inl hn
    · exact .inr (.inl ⟨g, hg, lt_of_le_of_lt h.clock_le hlt, hle⟩)
    rcases h.key k with hn | ⟨g, hg, hlt, hle⟩ | ⟨hs', hc'⟩
    · exact .inl (hs.trans hn)
    · exact .inr (.inl ⟨g, hs.trans hg, hlt, hle.trans h'.clock_le⟩)
    refine .inr (.inr ⟨hs.trans hs', ?_⟩)
    rcases hc with hc | hc
    · rwa [hc]
    · exact .inr hc
  fresh_inj k k' g hlt hk hk' := by
    by_cases hg : g ≤ v.clock
    · exact h.fresh_inj k k' g hlt (h'.stamp_of_le hg hk) (h'.stamp_of_le hg hk')
    · exact h'.fresh_inj k k' g (by omega) hk hk'

theorem Bounded.advances (hv : Bounded v) (h : Advances v w) : Bounded w where
  le_clock k g hg := by
    by_cases hle : g ≤ v.clock
    · exact hle.trans h.clock_le
    rcases h.key k with hn | ⟨g', hg', -, hle'⟩ | ⟨hs, -⟩
    · rw [hn] at hg; cases hg
    · rw [hg'] at hg; cases hg; exact hle'
    · exact absurd (hv.le_clock k g (hs ▸ hg)) hle
  inj k k' g hk hk' := by
    by_cases hle : g ≤ v.clock
    · exact hv.inj k k' g (h.stamp_of_le hle hk) (h.stamp_of_le hle hk')
    · exact h.fresh_inj k k' g (by omega) hk hk'

theorem Advances.stamp_ne (h : Advances v w) (hg : g ≤ v.clock) (hne : v.stamp k ≠ some g) : w.stamp k ≠ some g :=
  fun hw => hne (h.stamp_of_le hg hw)

theorem Advances.key_eq (h : Advances v w) (hb : Bounded v) (hv : v.stamp k = some g) (hw : w.stamp k' = some g) : k = k' :=
  hb.inj k k' g hv (h.stamp_of_le (hb.le_clock k g hv) hw)

theorem Advances.content_eq (h : Advances v w) (hb : Bounded v) (hv : v.stamp k = some g)
    (hw : w.stamp k = some g) : w.content k = v.content k ∨ w.content k = none := by
  rcases h.key k with hn | ⟨g', hg', hlt, -⟩ | ⟨-, hc⟩
  · rw [hn] at hw; cases hw
  · rw [hg', Option.some.injEq] at hw
    have := hb.le_clock k g hv
    omega
  · exact hc

theorem Advances.of_write (hb : Bounded v) (hclock : w.clock = v.clock + 1) (hk : w.stamp k = some (v.clock + 1))
    (hother : ∀ k', k' ≠ k → w.stamp k' = none ∨
      (w.stamp k' = v.stamp k' ∧ (w.content k' = v.content k' ∨ w.content k' = none))) :
    Advances v w where
  clock_le := by omega
  key k' := by
    by_cases h : k' = k
    · subst h
      exact .inr (.inl ⟨_, hk, by omega, by omega⟩)
    · rcases hother k' h with hn | hs
      · exact .inl hn
      · exact .inr (.inr hs)
  fresh_inj := by
    have only : ∀ k' g, v.clock < g → w.stamp k' = some g → k' = k := by
      intro k' g hlt hg
      by_contra h
      rcases hother k' h with hn | ⟨hs, -⟩
      · rw [hn] at hg; cases hg
      · have := hb.le_clock k' g (hs ▸ hg)
        omega
    intro k₁ k₂ g hlt h₁ h₂
    rw [only k₁ g hlt h₁, only k₂ g hlt h₂]

theorem Sheds.refl (v : Stamped κ α) : Sheds v v := ⟨rfl, fun _ => .inl ⟨rfl, rfl⟩⟩

theorem Sheds.trans (h : Sheds u v) (h' : Sheds v w) : Sheds u w where
  clock_eq := h'.clock_eq.trans h.clock_eq
  key k := by
    rcases h'.key k with ⟨hs', hc'⟩ | ⟨hc', hs'⟩
    · rw [hs', hc']; exact h.key k
    refine .inr ⟨hc', ?_⟩
    rcases hs' with hs' | hs'
    · rw [hs']
      rcases h.key k with ⟨hs, -⟩ | ⟨-, hs⟩
      · exact .inl hs
      · exact hs
    · exact .inr hs'

theorem Sheds.advances (h : Sheds v w) (hb : Bounded v) : Advances v w where
  clock_le := h.clock_eq.ge
  key k := by
    rcases h.key k with ⟨hs, hc⟩ | ⟨hc, hs | hs⟩
    · exact .inr (.inr ⟨hs, .inl hc⟩)
    · exact .inr (.inr ⟨hs, .inr hc⟩)
    · exact .inl hs
  fresh_inj k k' g hlt hk _ := by
    have old : v.stamp k = some g := by
      rcases h.key k with ⟨hs, -⟩ | ⟨-, hs | hs⟩
      · rw [← hs, hk]
      · rw [← hs, hk]
      · rw [hs] at hk; cases hk
    have := hb.le_clock k g old
    omega

theorem Sheds.fades (h : Sheds v w) (k : κ) : Fades v w k := by
  rcases h.key k with hs | ⟨hc, -⟩
  · exact .inl hs
  · exact .inr hc

theorem Fades.refl (v : Stamped κ α) (k : κ) : Fades v v k := .inl ⟨rfl, rfl⟩

theorem Fades.trans (h : Fades u v k) (h' : Fades v w k) : Fades u w k := by
  rcases h' with ⟨hs, hc⟩ | hn
  · rcases h with ⟨hs', hc'⟩ | hn
    · exact .inl ⟨hs.trans hs', hc.trans hc'⟩
    · exact .inr (hc.trans hn)
  · exact .inr hn

variable {R R' : κ → ℕ → Prop}

theorem Settles.sheds (h : Settles R v w) : Sheds v w where
  clock_eq := h.clock_eq
  key k := by
    by_cases hk : ∃ g, R k g ∧ v.stamp k = some g
    · obtain ⟨g, hR, hs⟩ := hk
      exact .inr ⟨(h.gone k g hR hs).2, .inr (h.gone k g hR hs).1⟩
    · exact .inl (h.kept k fun g hR hs => hk ⟨g, hR, hs⟩)

theorem Settles.none (v : Stamped κ α) : Settles (fun _ _ => False) v v :=
  ⟨rfl, fun _ _ h => h.elim, fun _ _ => ⟨rfl, rfl⟩⟩

theorem Settles.single [DecidableEq κ] (hclock : w.clock = v.clock)
    (hstamp : ∀ k', w.stamp k' = if k' = k then .none else v.stamp k')
    (hcontent : ∀ k', w.content k' = if k' = k then .none else v.content k') (h : v.stamp k = some g) :
    Settles (fun k' g' => k' = k ∧ g' = g) v w where
  clock_eq := hclock
  gone k' _ hk _ := ⟨(hstamp k').trans (if_pos hk.1), (hcontent k').trans (if_pos hk.1)⟩
  kept k' hne := by
    have hk : k' ≠ k := by
      rintro rfl
      exact hne g ⟨rfl, rfl⟩ h
    exact ⟨(hstamp k').trans (if_neg hk), (hcontent k').trans (if_neg hk)⟩

theorem Settles.trans (h : Settles R u v) (h' : Settles R' v w) : Settles (fun k g => R k g ∨ R' k g) u w where
  clock_eq := h'.clock_eq.trans h.clock_eq
  gone k g hR hs := by
    by_cases hk : ∃ g', R k g' ∧ u.stamp k = some g'
    · obtain ⟨g', hR', hs'⟩ := hk
      obtain ⟨hv, hvc⟩ := h.gone k g' hR' hs'
      obtain ⟨hw, hwc⟩ := h'.kept k fun _ _ => by rw [hv]; simp
      exact ⟨hw.trans hv, hwc.trans hvc⟩
    · obtain ⟨hv, -⟩ := h.kept k fun g' hR' hs' => hk ⟨g', hR', hs'⟩
      rcases hR with hR | hR
      · exact absurd ⟨g, hR, hs⟩ hk
      · exact h'.gone k g hR (hv.trans hs)
  kept k hne := by
    obtain ⟨hv, hvc⟩ := h.kept k fun g hR => hne g (.inl hR)
    obtain ⟨hw, hwc⟩ := h'.kept k fun g hR => by rw [hv]; exact hne g (.inr hR)
    exact ⟨hw.trans hv, hwc.trans hvc⟩

theorem Settles.foldl {σ β : Type} (view : σ → Stamped κ α) (f : σ → β → σ) (R : β → κ → ℕ → Prop)
    (hstep : ∀ s b, Settles (R b) (view s) (view (f s b))) (l : List β) (s : σ) :
    Settles (fun k g => ∃ b ∈ l, R b k g) (view s) (view (l.foldl f s)) := by
  induction l generalizing s with
  | nil => exact ⟨rfl, fun _ _ ⟨_, h, _⟩ => by simp at h, fun _ _ => ⟨rfl, rfl⟩⟩
  | cons b l ih =>
    have h := (hstep s b).trans (ih (f s b))
    refine ⟨h.clock_eq, fun k g hR => h.gone k g ?_, fun k hR => h.kept k fun g hg => hR g ?_⟩
    · simpa only [List.mem_cons, exists_eq_or_imp] using hR
    · simpa only [List.mem_cons, exists_eq_or_imp] using hg

theorem Settles.congr (h : Settles R v w) (hR : ∀ k g, R k g ↔ R' k g) : Settles R' v w where
  clock_eq := h.clock_eq
  gone k g hr := h.gone k g ((hR k g).mpr hr)
  kept k hne := h.kept k fun g hr => hne g ((hR k g).mp hr)

end Stamped

end Foundations
