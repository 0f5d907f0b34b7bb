import Mathlib.Data.List.Basic

/-!
# Histories in which every event is justified

A history lists what has happened, the latest event first. A property of an event and of what came before it holds along a
history when it holds at every event (`Each`), so a step has to show it for the event it adds only.
-/

namespace Foundations

variable {α : Type} {P Q : α → List α → Prop} {later history : List α}

def Each (P : α → List α → Prop) : List α → Prop
  | [] => True
  | e :: before => P e before ∧ Each P before

theorem Each.of_append (h : Each P (later ++ history)) : Each P history := by
  induction later with
  | nil => exact h
  | cons e later ih => exact ih h.2

theorem Each.at {before : List α} {e : α} (h : Each P (later ++ e :: before)) : P e before :=
  h.of_append.1

theorem Each.toList_append {e : Option α} (h : Each P history)
    (hnew : ∀ x, e = some x → P x history) : Each P (e.toList ++ history) := by
  cases e with
  | none => exact h
  | some x => exact ⟨hnew x rfl, h⟩

theorem latest_unique {e : α} {later' before before' : List α}
    (h : later ++ e :: before = later' ++ e :: before') (hlater : e ∉ later) (hlater' : e ∉ later') :
    later = later' ∧ before = before' := by
  induction later generalizing later' with
  | nil =>
    cases later' with
    | nil => exact ⟨rfl, (List.cons.inj h).2⟩
    | cons x later' =>
      obtain ⟨rfl, -⟩ := List.cons.inj h
      exact absurd List.mem_cons_self hlater'
  | cons x later ih =>
    cases later' with
    | nil =>
      obtain ⟨rfl, -⟩ := List.cons.inj h
      exact absurd List.mem_cons_self hlater
    | cons x' later' =>
      obtain ⟨rfl, hrest⟩ := List.cons.inj h
      obtain ⟨rfl, rfl⟩ := ih hrest (fun hmem => hlater (List.mem_cons_of_mem x hmem))
        fun hmem => hlater' (List.mem_cons_of_mem x hmem)
      exact ⟨rfl, rfl⟩

end Foundations
