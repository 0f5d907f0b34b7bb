import Mathlib.Tactic.Common

/-!
# Repeating a pass until nothing changes

The loop `changed = true; while (changed) { changed = false; … }`, with a bound on the number of passes (`saturate`). A
measure that every changing pass makes smaller shows that the bound is not met (`saturate_stable`).
-/

namespace Foundations

open List

variable {σ : Type}

/-- Run `pass` until it reports no change, at most `fuel` times. -/
def saturate (pass : σ → σ × Bool) : ℕ → σ → σ
  | 0, s => s
  | fuel + 1, s => if (pass s).2 then saturate pass fuel (pass s).1 else (pass s).1

variable (pass : σ → σ × Bool) {s : σ}

theorem saturate_rel (R : σ → σ → Prop) (hrefl : ∀ s, R s s)
    (htrans : ∀ s t u, R s t → R t u → R s u) (hpass : ∀ s, R s (pass s).1) (fuel : ℕ) (s : σ) :
    R s (saturate pass fuel s) := by
  induction fuel generalizing s with
  | zero => exact hrefl s
  | succ fuel ih =>
    unfold saturate
    split
    · exact htrans _ _ _ (hpass s) (ih _)
    · exact hpass s

theorem saturate_inv (P : σ → Prop) (hpass : ∀ s, P s → P (pass s).1) (fuel : ℕ) (hs : P s) : P (saturate pass fuel s) := by
  induction fuel generalizing s with
  | zero => exact hs
  | succ fuel ih =>
    unfold saturate
    split
    · exact ih (hpass s hs)
    · exact hpass s hs

inductive LoopEnds (pass : σ → σ × Bool) : σ → σ → Prop
  | last {s : σ} : (pass s).2 = false → LoopEnds pass s (pass s).1
  | again {s t : σ} : (pass s).2 = true → LoopEnds pass (pass s).1 t → LoopEnds pass s t

theorem saturate_loopEnds (measure : σ → ℕ) (hdec : ∀ s, (pass s).2 = true → measure (pass s).1 < measure s) (fuel : ℕ) (s : σ)
    (hfuel : measure s < fuel) : LoopEnds pass s (saturate pass fuel s) := by
  induction fuel generalizing s with
  | zero => omega
  | succ fuel ih =>
    unfold saturate
    cases h : (pass s).2 with
    | false => exact .last h
    | true =>
      have := hdec s h
      exact .again h (ih (pass s).1 (by omega))

variable {pass} in
theorem LoopEnds.last_of {t : σ} (h : LoopEnds pass s t) (P : σ → Prop)
    (hagain : ∀ s, P s → (pass s).2 = true → P (pass s).1) (hs : P s) : ∃ u, P u ∧ (pass u).2 = false ∧ t = (pass u).1 := by
  induction h with
  | last hidle => exact ⟨_, hs, hidle, rfl⟩
  | again hup _ ih => exact ih (hagain _ hs hup)

theorem saturate_stable (measure : σ → ℕ) (hdec : ∀ s, (pass s).2 = true → measure (pass s).1 < measure s) (fuel : ℕ) (s : σ)
    (hfuel : measure s < fuel) : ∃ t, (pass t).2 = false ∧ saturate pass fuel s = (pass t).1 := by
  obtain ⟨t, -, hidle, heq⟩ :=
    (saturate_loopEnds pass measure hdec fuel s hfuel).last_of (fun _ => True) (fun _ _ _ => trivial) trivial
  exact ⟨t, hidle, heq⟩

variable {α : Type}

variable (f : σ → α → σ) {l : List α}

theorem foldl_inv (P : σ → Prop) (l : List α) (hf : ∀ s, ∀ a ∈ l, P s → P (f s a)) (hs : P s) : P (l.foldl f s) := by
  induction l generalizing s with
  | nil => exact hs
  | cons a l ih =>
    exact ih (fun s b hb => hf s b (mem_cons_of_mem a hb)) (hf s a mem_cons_self hs)

theorem foldlM_inv (f : σ → α → Option σ) (P : σ → Prop) (hf : ∀ s, ∀ a ∈ l, ∀ s', f s a = some s' → P s → P s') {s' : σ}
    (h : l.foldlM f s = some s') (hs : P s) : P s' := by
  induction l generalizing s with
  | nil =>
    obtain rfl : s = s' := by simpa using h
    exact hs
  | cons a l ih =>
    rw [foldlM_cons] at h
    obtain ⟨t, ht, hrest⟩ := Option.bind_eq_some_iff.mp h
    exact ih (fun s b hb => hf s b (mem_cons_of_mem a hb)) hrest (hf s a mem_cons_self t ht hs)

theorem foldl_eq_self (l : List α) (s : σ) (h : ∀ a ∈ l, f s a = s) : l.foldl f s = s :=
  foldl_inv f (· = s) l (fun _ a ha hs => hs ▸ h a ha) rfl

theorem foldl_rel (R : σ → σ → Prop) (hrefl : ∀ s, R s s)
    (htrans : ∀ s t u, R s t → R t u → R s u) (l : List α) (hf : ∀ s, ∀ a ∈ l, R s (f s a)) (s : σ) : R s (l.foldl f s) := by
  induction l generalizing s with
  | nil => exact hrefl s
  | cons a l ih =>
    exact htrans _ _ _ (hf s a mem_cons_self) (ih (fun s b hb => hf s b (mem_cons_of_mem a hb)) (f s a))

/-! ## Steps that raise the flag -/

/-- A step of a pass changes nothing, or it raises the flag and makes the measure smaller. -/
def Raises (measure : σ → ℕ) (acc acc' : σ × Bool) : Prop :=
  acc' = acc ∨ acc'.2 = true ∧ measure acc'.1 < measure acc.1

section Raises

variable {measure : σ → ℕ} {g : σ × Bool → α → σ × Bool} {acc : σ × Bool} {s : σ}

section

variable (hg : ∀ acc, ∀ a ∈ l, Raises measure acc (g acc a))
include hg

theorem foldl_raises (acc : σ × Bool) : Raises measure acc (l.foldl g acc) := by
  refine foldl_rel g (Raises measure) (fun _ => .inl rfl) ?_ l hg acc
  rintro a b c (rfl | ⟨hb, hab⟩) (rfl | ⟨hc, hbc⟩)
  · exact .inl rfl
  · exact .inr ⟨hc, hbc⟩
  · exact .inr ⟨hb, hab⟩
  · exact .inr ⟨hc, Nat.lt_trans hbc hab⟩

/-- Where the flag has not been raised no step changed anything. -/
theorem foldl_quiet (h : (l.foldl g acc).2 = false) : ∀ a ∈ l, g acc a = acc := by
  induction l with
  | nil => exact fun _ ha => by cases ha
  | cons a l ih =>
    have hrest : ∀ acc, ∀ b ∈ l, Raises measure acc (g acc b) := fun acc b hb => hg acc b (mem_cons_of_mem a hb)
    rw [foldl_cons] at h
    have hsame : g acc a = acc := by
      rcases hg acc a mem_cons_self with heq | ⟨hup, -⟩
      · exact heq
      rcases foldl_raises hrest (g acc a) with heq | ⟨hup', -⟩
      · rw [heq, hup] at h
        cases h
      · rw [hup'] at h
        cases h
    rw [hsame] at h
    intro b hb
    rcases mem_cons.mp hb with rfl | hb
    · exact hsame
    · exact ih hrest h b hb

end

theorem Raises.lowers (h : Raises measure (s, false) acc) (hup : acc.2 = true) : measure acc.1 < measure s := by
  rcases h with rfl | ⟨-, hlt⟩
  · cases hup
  · exact hlt

theorem Raises.idle (h : Raises measure (s, false) acc) (hdown : acc.2 = false) : acc = (s, false) := by
  rcases h with heq | ⟨hup, -⟩
  · exact heq
  · rw [hdown] at hup
    cases hup

theorem length_filter_lt {p q : α → Bool} (hle : ∀ a ∈ l, q a = true → p a = true) {a : α} (ha : a ∈ l)
    (hp : p a = true) (hq : q a = false) : (l.filter q).length < (l.filter p).length := by
  have hfilter : l.filter q = (l.filter p).filter q := by
    rw [filter_filter]
    refine filter_congr fun b hb => ?_
    cases hqb : q b with
    | false => rfl
    | true => simp [hle b hb hqb]
  rw [hfilter]
  apply length_filter_lt_length_iff_exists.mpr
  exact ⟨a, mem_filter.mpr ⟨ha, hp⟩, by simp [hq]⟩

end Raises

theorem foldl_reaches (P : σ → Prop) {a : α} (ha : a ∈ l)
    (hreach : ∀ s, P (f s a)) (hkeep : ∀ s b, P s → P (f s b)) (s : σ) : P (l.foldl f s) := by
  obtain ⟨before, after, rfl⟩ := append_of_mem ha
  rw [foldl_append, foldl_cons]
  exact foldl_inv f P after (fun s b _ hs => hkeep s b hs) (hreach _)

theorem foldl_once {κ β : Type} [DecidableEq κ] (f : σ → κ → σ) (view : σ → β) (g : β → β) (k : κ)
    (l : List κ) (hl : l.Nodup) (hself : ∀ s, view (f s k) = g (view s))
    (hother : ∀ s, ∀ k' ∈ l, k' ≠ k → view (f s k') = view s) (s : σ) :
    view (l.foldl f s) = if k ∈ l then g (view s) else view s := by
  induction l generalizing s with
  | nil => rfl
  | cons k' l ih =>
    rw [nodup_cons] at hl
    rw [foldl_cons, ih hl.2 fun s k'' h => hother s k'' (mem_cons_of_mem _ h)]
    by_cases hk : k' = k
    · subst hk
      simp [hl.1, hself]
    · have hmem : k ∈ k' :: l ↔ k ∈ l := by simp [Ne.symm hk]
      simp only [hmem, hother s k' mem_cons_self hk]

end Foundations
