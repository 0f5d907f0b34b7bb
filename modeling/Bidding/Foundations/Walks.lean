import Mathlib.Order.Basic
import Mathlib.Tactic.Common

/-!
# Walks that count

A walk goes on step by step until it has met a number of places with a property, or until there is no further step. Where the
property can be tested, a binary search finds the place it ends at.
-/

namespace Foundations

open Option

section Walk

variable {α ε : Type} (step : α → Option α) (test : α → Except ε Bool) (left : ε)

/-- The outcome of a walk from a place that has so many places still to meet. -/
inductive Walk : α → ℕ → Except ε α → Prop
  | arrived (a : α) : Walk a 0 (.ok a)
  | leave (a : α) (remaining : ℕ) (h : step a = none) : Walk a (remaining + 1) (.error left)
  | broken (a b : α) (remaining : ℕ) (e : ε) (h : step a = some b) (htest : test b = .error e) :
      Walk a (remaining + 1) (.error e)
  | meet (a b : α) (remaining : ℕ) (outcome : Except ε α) (h : step a = some b) (htest : test b = .ok true)
      (hrest : Walk b remaining outcome) : Walk a (remaining + 1) outcome
  | pass (a b : α) (remaining : ℕ) (outcome : Except ε α) (h : step a = some b) (htest : test b = .ok false)
      (hrest : Walk b (remaining + 1) outcome) : Walk a (remaining + 1) outcome

/-- The number of places with the property among the next ones. -/
def walkCount : ℕ → α → Except ε ℕ
  | 0, _ => .ok 0
  | steps + 1, a =>
    match step a with
    | none => .error left
    | some b =>
      match test b, walkCount steps b with
      | .ok met, .ok count => .ok ((if met then 1 else 0) + count)
      | .error e, _ => .error e
      | _, .error e => .error e

variable {step test left}

theorem Walk.next {a : α} {remaining : ℕ} {outcome : Except ε α} (h : Walk step test left a (remaining + 1) outcome) :
    match step a with
    | none => outcome = .error left
    | some b =>
      match test b with
      | .error e => outcome = .error e
      | .ok true => Walk step test left b remaining outcome
      | .ok false => Walk step test left b (remaining + 1) outcome := by
  cases h with
  | leave _ _ hstep => rw [hstep]
  | broken _ b _ e hstep htest => simp only [hstep, htest]
  | meet _ b _ _ hstep htest hrest => simpa only [hstep, htest] using hrest
  | pass _ b _ _ hstep htest hrest => simpa only [hstep, htest] using hrest

theorem Walk.unique {a : α} {remaining : ℕ} {outcome outcome' : Except ε α}
    (h : Walk step test left a remaining outcome) (h' : Walk step test left a remaining outcome') : outcome = outcome' := by
  induction h with
  | arrived a =>
    cases h'
    rfl
  | leave a remaining hstep =>
    have hnext := h'.next
    simp only [hstep] at hnext
    exact hnext.symm
  | broken a b remaining e hstep htest =>
    have hnext := h'.next
    simp only [hstep, htest] at hnext
    exact hnext.symm
  | meet a b remaining outcome hstep htest _ ih =>
    have hnext := h'.next
    simp only [hstep, htest] at hnext
    exact ih hnext
  | pass a b remaining outcome hstep htest _ ih =>
    have hnext := h'.next
    simp only [hstep, htest] at hnext
    exact ih hnext

/-- A walk goes on where a first one arrives, and ends with its error where that raises. -/
theorem Walk.trans {a : α} {k l : ℕ} {first : Except ε α} {next : α → Except ε α} (h : Walk step test left a k first)
    (h' : ∀ b, first = .ok b → Walk step test left b l (next b)) : Walk step test left a (k + l) (first.bind next) := by
  induction h with
  | arrived a =>
    rw [Nat.zero_add]
    exact h' a rfl
  | leave a remaining hstep =>
    rw [Nat.add_right_comm]
    exact .leave a _ hstep
  | broken a c remaining e hstep htest =>
    rw [Nat.add_right_comm]
    exact .broken a c _ e hstep htest
  | meet a c remaining first hstep htest _ ih =>
    rw [Nat.add_right_comm]
    exact .meet a c _ _ hstep htest (ih h')
  | pass a c remaining first hstep htest _ ih =>
    have hrest := ih h'
    rw [Nat.add_right_comm] at hrest ⊢
    exact .pass a c _ _ hstep htest hrest

end Walk

/-! ## Counting -/

def countUpTo (p : ℕ → Bool) : ℕ → ℕ
  | 0 => 0
  | k + 1 => countUpTo p k + if p (k + 1) then 1 else 0

theorem countUpTo_mono (p : ℕ → Bool) {k k' : ℕ} (h : k ≤ k') : countUpTo p k ≤ countUpTo p k' := by
  induction h with
  | refl => exact Nat.le_refl _
  | step _ ih => exact Nat.le_trans ih (Nat.le_add_right _ _)

section Path

variable {α ε : Type} {step : α → Option α} {test : α → Except ε Bool} {left : ε} {path : ℕ → α} {p : ℕ → Bool}
  {last : ℕ} {k remaining : ℕ}

theorem walk_next {outcome : Except ε α} (hstep : step (path k) = some (path (k + 1)))
    (htest : test (path (k + 1)) = .ok (p (k + 1)))
    (hrest : ∀ {remaining'}, countUpTo p k + remaining + 1 = countUpTo p (k + 1) + remaining' →
      Walk step test left (path (k + 1)) remaining' outcome) : Walk step test left (path k) (remaining + 1) outcome := by
  have hnext : countUpTo p (k + 1) = countUpTo p k + if p (k + 1) then 1 else 0 := rfl
  cases hp : p (k + 1) with
  | true =>
    rw [hp, if_pos rfl] at hnext
    rw [hp] at htest
    exact Walk.meet _ _ _ _ hstep htest (hrest (by omega))
  | false =>
    rw [hp, if_neg Bool.false_ne_true] at hnext
    rw [hp] at htest
    exact Walk.pass _ _ _ _ hstep htest (hrest (by omega))

section

variable (hstep : ∀ i < last, step (path i) = some (path (i + 1)))
include hstep

/-- A walk along a path that still has places to find before its last one. -/
theorem walk_path {outcome : Except ε α} (htest : ∀ i < last, test (path (i + 1)) = .ok (p (i + 1))) (hk : k ≤ last)
    (hmore : ∀ i < last, countUpTo p i < countUpTo p k + remaining)
    (hend : ∀ r, countUpTo p k + remaining = countUpTo p last + r → Walk step test left (path last) r outcome) :
    Walk step test left (path k) remaining outcome := by
  obtain ⟨rest, hrest⟩ : ∃ rest, last = k + rest := ⟨last - k, by omega⟩
  induction rest generalizing k remaining with
  | zero =>
    obtain rfl : last = k := hrest
    exact hend remaining rfl
  | succ rest ih =>
    have hlt : k < last := by omega
    have hmore' := hmore k hlt
    obtain ⟨remaining', rfl⟩ : ∃ r, remaining = r + 1 := ⟨remaining - 1, by omega⟩
    refine walk_next (hstep k hlt) (htest k hlt) fun hnext => ih (by omega) (fun i hi => ?_) (fun r hr => hend r (by omega)) (by omega)
    rw [← hnext]
    exact hmore i hi

theorem walk_reaches (htest : ∀ i < last, test (path (i + 1)) = .ok (p (i + 1)))
    (hfirst : ∀ i < last, countUpTo p i < countUpTo p last) (hk : k ≤ last)
    (h : countUpTo p last = countUpTo p k + remaining) : Walk step test left (path k) remaining (.ok (path last)) := by
  refine walk_path hstep htest hk (fun i hi => h ▸ hfirst i hi) fun r hr => ?_
  obtain rfl : r = 0 := by omega
  exact Walk.arrived _

theorem walk_leaves (hend : step (path last) = none) (htest : ∀ i < last, test (path (i + 1)) = .ok (p (i + 1))) (hk : k ≤ last)
    (h : countUpTo p last < countUpTo p k + remaining) : Walk step test left (path k) remaining (.error left) := by
  refine walk_path hstep htest hk (fun i hi => Nat.lt_of_le_of_lt (countUpTo_mono p (Nat.le_of_lt hi)) h) fun r hr => ?_
  obtain ⟨r', rfl⟩ : ∃ r', r = r' + 1 := ⟨r - 1, by omega⟩
  exact Walk.leave _ _ hend

theorem walkCount_path (htest : ∀ i < last, test (path (i + 1)) = .ok (p (i + 1))) {k steps : ℕ} (hk : k + steps = last) :
    walkCount step test left steps (path k) = .ok (countUpTo p last - countUpTo p k) := by
  induction steps generalizing k with
  | zero =>
    obtain rfl : k = last := hk
    rw [Nat.sub_self]
    rfl
  | succ steps ih =>
    have hmono := countUpTo_mono p (show k + 1 ≤ last by omega)
    have hnext : countUpTo p (k + 1) = countUpTo p k + if p (k + 1) then 1 else 0 := rfl
    unfold walkCount
    rw [hstep k (by omega)]
    dsimp only
    rw [htest k (by omega), ih (by omega)]
    dsimp only
    congr 1
    split at hnext
    · rename_i hp
      rw [if_pos hp]
      omega
    · rename_i hp
      rw [if_neg hp]
      omega

end

end Path

def bisect (p : ℕ → Bool) (low high : ℕ) : ℕ :=
  if low < high then
    if p ((low + high) / 2) then bisect p low ((low + high) / 2) else bisect p ((low + high) / 2 + 1) high
  else low
termination_by high - low

theorem bisect_spec {p : ℕ → Bool} {low high : ℕ} (hmono : ∀ i j, i ≤ j → j ≤ high → p i = true → p j = true)
    (hle : low ≤ high) (hhigh : p high = true) :
    low ≤ bisect p low high ∧ bisect p low high ≤ high ∧ p (bisect p low high) = true ∧
      ∀ i, low ≤ i → i < bisect p low high → p i = false := by
  fun_induction bisect p low high with
  | case1 low high hlt hmiddle ih =>
    obtain ⟨hlow, hupper, hfound, hbefore⟩ := ih (fun i j hij hj => hmono i j hij (by omega)) (by omega) hmiddle
    exact ⟨hlow, by omega, hfound, hbefore⟩
  | case2 low high hlt hmiddle ih =>
    obtain ⟨hlow, hupper, hfound, hbefore⟩ := ih hmono (by omega) hhigh
    refine ⟨by omega, hupper, hfound, fun i hi hi' => ?_⟩
    by_cases hi'' : i ≤ (low + high) / 2
    · rw [Bool.eq_false_iff]
      exact fun hp => hmiddle (hmono i _ hi'' (by omega) hp)
    · exact hbefore i (by omega) hi'
  | case3 low high hnot =>
    obtain rfl : low = high := by omega
    exact ⟨Nat.le_refl _, Nat.le_refl _, hhigh, fun i hi hi' => absurd hi' (by omega)⟩

end Foundations
