import Mathlib.Data.List.Basic

/-!
# Computations that may fail

A computation of several steps succeeds where each of its steps does.
-/

namespace Foundations

open List

variable {ε α β : Type} {x : Except ε α} {f : α → Except ε β} {b : β} {l : List α} {bs : List β}

theorem bind_eq_ok : x.bind f = .ok b ↔ ∃ a, x = .ok a ∧ f a = .ok b := by
  cases x with
  | error e => simp [Except.bind]
  | ok a => simp [Except.bind]

theorem map_eq_ok {f : α → β} : x.map f = .ok b ↔ ∃ a, x = .ok a ∧ f a = b := by
  cases x with
  | error e => simp [Except.map]
  | ok a => simp [Except.map]

theorem bind_ok (h : (x >>= f) = .ok b) : ∃ a, x = .ok a ∧ f a = .ok b := bind_eq_ok.mp h

theorem foldlM_ok {P : β → Prop} {f : β → α → Except ε β} :
    ∀ {l : List α} {b b' : β}, (∀ b a b', a ∈ l → f b a = .ok b' → P b → P b') → l.foldlM f b = .ok b' → P b → P b'
  | [], b, b', _, h, hb => by
    cases h
    exact hb
  | a :: l, b, b', hstep, h, hb => by
    rw [foldlM_cons] at h
    obtain ⟨next, hnext, h⟩ := bind_ok h
    have hkept := hstep b a next mem_cons_self hnext hb
    exact foldlM_ok (fun b a b' ha => hstep b a b' (mem_cons_of_mem _ ha)) h hkept

/-- A loop that collects answers and passes a state on succeeds exactly if every step does. -/
theorem collect_ok_iff {σ : Type} {loop : List α → σ → Except ε (List β × σ)} {step : α → σ → Except ε (β × σ)}
    {Admits : α → Prop} {f : α → β} {g : σ → α → σ} (hnil : ∀ s, loop [] s = .ok ([], s))
    (hcons : ∀ a rest s, loop (a :: rest) s = (step a s).bind fun x => (loop rest x.2).bind fun y => .ok (x.1 :: y.1, y.2))
    (hstep : ∀ a s x, step a s = .ok x ↔ Admits a ∧ x = (f a, g s a)) (l : List α) (s : σ) (r : List β × σ) :
    loop l s = .ok r ↔ (∀ a ∈ l, Admits a) ∧ r = (l.map f, l.foldl g s) := by
  induction l generalizing s r with
  | nil => simp [hnil, eq_comm]
  | cons a rest ih =>
    rw [hcons, forall_mem_cons, map_cons, foldl_cons]
    constructor
    · intro h
      obtain ⟨x, hx, h⟩ := bind_eq_ok.mp h
      obtain ⟨hfirst, rfl⟩ := (hstep a s x).mp hx
      obtain ⟨y, hy, h⟩ := bind_eq_ok.mp h
      obtain ⟨hrest, rfl⟩ := (ih _ y).mp hy
      cases h
      exact ⟨⟨hfirst, hrest⟩, rfl⟩
    · rintro ⟨⟨hfirst, hrest⟩, rfl⟩
      exact bind_eq_ok.mpr ⟨_, (hstep a s _).mpr ⟨hfirst, rfl⟩, bind_eq_ok.mpr ⟨_, (ih _ _).mpr ⟨hrest, rfl⟩, rfl⟩⟩

theorem forM_ok_iff {f : α → Except ε Unit} : l.forM f = .ok () ↔ ∀ a ∈ l, f a = .ok () := by
  induction l with
  | nil => exact ⟨fun _ a ha => absurd ha not_mem_nil, fun _ => rfl⟩
  | cons a l ih =>
    rw [forall_mem_cons, ← ih]
    show (f a >>= fun _ => l.forM f) = .ok () ↔ _
    constructor
    · intro h
      obtain ⟨_, hhead, htail⟩ := bind_ok h
      exact ⟨hhead, htail⟩
    · rintro ⟨hhead, htail⟩
      exact bind_eq_ok.mpr ⟨(), hhead, htail⟩

theorem mapM_forall₂ {f g : α → Except ε β} {R : β → β → Prop}
    (h : ∀ a ∈ l, ∀ b, f a = .ok b → ∃ b', g a = .ok b' ∧ R b' b) (hl : l.mapM f = .ok bs) :
    ∃ bs', l.mapM g = .ok bs' ∧ List.Forall₂ R bs' bs := by
  induction l generalizing bs with
  | nil =>
    rw [mapM_nil] at hl
    cases hl
    exact ⟨[], mapM_nil, List.Forall₂.nil⟩
  | cons a l ih =>
    rw [mapM_cons] at hl
    obtain ⟨b, hb, hl⟩ := bind_ok hl
    obtain ⟨rest, hrest, hl⟩ := bind_ok hl
    cases hl
    obtain ⟨b', hb', hrel⟩ := h a mem_cons_self b hb
    obtain ⟨rest', hrest', hrels⟩ := ih (fun other hother => h other (mem_cons_of_mem a hother)) hrest
    refine ⟨b' :: rest', ?_, List.Forall₂.cons hrel hrels⟩
    rw [mapM_cons]
    exact bind_eq_ok.mpr ⟨b', hb', bind_eq_ok.mpr ⟨rest', hrest', rfl⟩⟩

end Foundations
