import Mathlib.Order.Lattice
import Mathlib.Tactic.Common

/-!
# Terms that follow each other

A term may be booked ahead: it waits behind the current one or one that waits itself. As long as nobody is given a new
term while others wait behind his old one (`Step`), the terms are apart (`Sound`).
-/

namespace Foundations

open List Function

structure Slot (τ : Type) where
  start : τ
  stop : τ
  deriving DecidableEq

structure Booked (ι τ : Type) where
  slot : Slot τ
  behind : Option ι

/-- Who holds the current term, its end, the terms that wait, and the terms that were given. -/
structure Line (ι τ : Type) where
  holder : Option ι
  stop : τ
  waiting : ι → Option (Booked ι τ)
  given : List (Slot τ)

variable {ι τ : Type} [DecidableEq ι] [LinearOrder τ]

/-- One term ends before the other one starts. -/
def Slot.Apart (a b : Slot τ) : Prop := a.stop ≤ b.start ∨ b.stop ≤ a.start

namespace Line

/-- Nobody waits behind `i`. -/
def Unawaited (l : Line ι τ) (i : ι) : Prop := ∀ j b, l.waiting j = some b → b.behind ≠ some i

def Last (l : Line ι τ) (i : ι) (slot : Slot τ) : Prop :=
  l.stop ≤ slot.start ∧ ∀ j b, j ≠ i → l.waiting j = some b → b.slot.stop ≤ slot.start

inductive Step (l : Line ι τ) : Line ι τ → Prop
  | stay : Step l l
  | drop (i : ι) : Step l { l with waiting := update l.waiting i none }
  | book (i : ι) (b : Booked ι τ) (hlast : l.Last i b.slot) (hslot : b.slot.start < b.slot.stop)
      (hunawaited : l.Unawaited i) : Step l { l with waiting := update l.waiting i (some b) }
  | give (i : ι) (slot : Slot τ) (hlast : l.Last i slot) (hslot : slot.start < slot.stop)
      (hunawaited : l.Unawaited i) : Step l ⟨some i, slot.stop, update l.waiting i none, l.given ++ [slot]⟩
  | due (i : ι) (b : Booked ι τ) (hwaiting : l.waiting i = some b) (hbehind : b.behind = l.holder) :
      Step l ⟨some i, b.slot.stop, update l.waiting i none, l.given ++ [b.slot]⟩

/-- The terms are apart, and a term that waits starts when the one before it has ended. -/
structure Sound (l : Line ι τ) : Prop where
  nonempty : ∀ i b, l.waiting i = some b → b.slot.start < b.slot.stop
  apart : ∀ i j b b', i ≠ j → l.waiting i = some b → l.waiting j = some b' → b.slot.Apart b'.slot
  chain : l.given.Pairwise fun a b => a.stop ≤ b.start
  bounded : ∀ t ∈ l.given, t.stop ≤ l.stop
  clear : ∀ t ∈ l.given, ∀ i b, l.waiting i = some b → t.Apart b.slot
  live : ∀ i b, l.waiting i = some b → b.behind = l.holder → l.stop ≤ b.slot.start
  follows : ∀ i j b b', i ≠ j → l.waiting i = some b → b.behind = some j → l.waiting j = some b' → b'.slot.stop ≤ b.slot.start

variable {l l' : Line ι τ} {i : ι} {b : Booked ι τ}

omit [LinearOrder τ] in
theorem waiting_of_update_none {j : ι} (h : update l.waiting i none j = some b) : j ≠ i ∧ l.waiting j = some b := by
  by_cases hj : j = i
  · subst hj
    rw [update_self] at h
    cases h
  · rw [update_of_ne hj] at h
    exact ⟨hj, h⟩

omit [LinearOrder τ] in
theorem waiting_of_update_some {j : ι} {b b' : Booked ι τ} (h : update l.waiting i (some b) j = some b') :
    (j = i ∧ b' = b) ∨ (j ≠ i ∧ l.waiting j = some b') := by
  by_cases hj : j = i
  · subst hj
    rw [update_self] at h
    exact .inl ⟨rfl, (Option.some.inj h).symm⟩
  · rw [update_of_ne hj] at h
    exact .inr ⟨hj, h⟩

theorem Sound.drop (h : l.Sound) (i : ι) : Sound { l with waiting := update l.waiting i none } where
  nonempty := fun j b hb => h.nonempty j b (waiting_of_update_none hb).2
  apart := fun j k b b' hjk hb hb' => h.apart j k b b' hjk (waiting_of_update_none hb).2 (waiting_of_update_none hb').2
  chain := h.chain
  bounded := h.bounded
  clear := fun t ht j b hb => h.clear t ht j b (waiting_of_update_none hb).2
  live := fun j b hb => h.live j b (waiting_of_update_none hb).2
  follows := fun j k b b' hjk hb hbehind hb' =>
    h.follows j k b b' hjk (waiting_of_update_none hb).2 hbehind (waiting_of_update_none hb').2

theorem Sound.book (h : l.Sound) (hlast : l.Last i b.slot) (hslot : b.slot.start < b.slot.stop) (hunawaited : l.Unawaited i) :
    Sound { l with waiting := update l.waiting i (some b) } where
  nonempty := fun j b' hb' => by
    obtain ⟨-, rfl⟩ | ⟨-, hb'⟩ := waiting_of_update_some hb'
    · exact hslot
    · exact h.nonempty j b' hb'
  apart := fun j k b₁ b₂ hjk h₁ h₂ => by
    rcases waiting_of_update_some h₁ with ⟨hj, rfl⟩ | ⟨hj, hw₁⟩
    · rcases waiting_of_update_some h₂ with ⟨hk, -⟩ | ⟨hk, hw₂⟩
      · exact absurd (hj.trans hk.symm) hjk
      · exact .inr (hlast.2 k b₂ hk hw₂)
    · rcases waiting_of_update_some h₂ with ⟨-, rfl⟩ | ⟨-, hw₂⟩
      · exact .inl (hlast.2 j b₁ hj hw₁)
      · exact h.apart j k b₁ b₂ hjk hw₁ hw₂
  chain := h.chain
  bounded := h.bounded
  clear := fun t ht j b' hb' => by
    obtain ⟨-, rfl⟩ | ⟨-, hb'⟩ := waiting_of_update_some hb'
    · exact .inl (le_trans (h.bounded t ht) hlast.1)
    · exact h.clear t ht j b' hb'
  live := fun j b' hb' hbehind => by
    obtain ⟨-, rfl⟩ | ⟨-, hb'⟩ := waiting_of_update_some hb'
    · exact hlast.1
    · exact h.live j b' hb' hbehind
  follows := fun j k b₁ b₂ hjk h₁ hbehind h₂ => by
    rcases waiting_of_update_some h₁ with ⟨hj, rfl⟩ | ⟨-, hw₁⟩
    · rcases waiting_of_update_some h₂ with ⟨hk, -⟩ | ⟨hk, hw₂⟩
      · exact absurd (hj.trans hk.symm) hjk
      · exact hlast.2 k b₂ hk hw₂
    · rcases waiting_of_update_some h₂ with ⟨rfl, -⟩ | ⟨-, hw₂⟩
      · exact absurd hbehind (hunawaited j b₁ hw₁)
      · exact h.follows j k b₁ b₂ hjk hw₁ hbehind hw₂

theorem Sound.next (h : l.Sound) {slot : Slot τ} (hstart : l.stop ≤ slot.start) (hslot : slot.start < slot.stop)
    (hclear : ∀ j b, j ≠ i → l.waiting j = some b → slot.Apart b.slot)
    (hfollows : ∀ j b, j ≠ i → l.waiting j = some b → b.behind = some i → slot.stop ≤ b.slot.start) :
    Sound ⟨some i, slot.stop, update l.waiting i none, l.given ++ [slot]⟩ where
  nonempty := (h.drop i).nonempty
  apart := (h.drop i).apart
  chain := by
    rw [pairwise_append]
    refine ⟨h.chain, pairwise_singleton _ _, fun t ht t' ht' => ?_⟩
    rw [mem_singleton.mp ht']
    exact le_trans (h.bounded t ht) hstart
  bounded := fun t ht => by
    rcases mem_append.mp ht with ht | ht
    · exact le_trans (h.bounded t ht) (le_trans hstart (le_of_lt hslot))
    · rw [mem_singleton.mp ht]
  clear := fun t ht j b hb => by
    obtain ⟨hj, hb⟩ := waiting_of_update_none hb
    rcases mem_append.mp ht with ht | ht
    · exact h.clear t ht j b hb
    · rw [mem_singleton.mp ht]
      exact hclear j b hj hb
  live := fun j b hb hbehind => by
    obtain ⟨hj, hb⟩ := waiting_of_update_none hb
    exact hfollows j b hj hb hbehind
  follows := (h.drop i).follows

/-- Every step keeps the terms of a line apart. -/
theorem Sound.step (h : l.Sound) (hstep : l.Step l') : l'.Sound := by
  cases hstep with
  | stay => exact h
  | drop i => exact h.drop i
  | book i b hlast hslot hunawaited => exact h.book hlast hslot hunawaited
  | give i slot hlast hslot hunawaited =>
    refine h.next hlast.1 hslot (fun j b hj hb => .inr (hlast.2 j b hj hb)) fun j b _ hb hbehind => ?_
    exact absurd hbehind (hunawaited j b hb)
  | due i b hwaiting hbehind =>
    refine h.next (h.live i b hwaiting hbehind) (h.nonempty i b hwaiting) (fun j b' hj hb' => ?_)
      fun j b' hj hb' hbehind' => h.follows j i b' b hj hb' hbehind' hwaiting
    exact h.apart i j b b' (Ne.symm hj) hwaiting hb'

end Line

end Foundations
