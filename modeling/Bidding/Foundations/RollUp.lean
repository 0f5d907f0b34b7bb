import Mathlib.Data.List.Nodup
import Mathlib.Logic.Relation

/-!
# Rolling values up

The nodes of a list get, one after the other, a value computed from those of their children. If every child in the list
stands before its parents, the values are final and rolling up again changes nothing; else this fails for some values.
-/

namespace Foundations

open List

variable {κ β : Type} [DecidableEq κ]

def rollStep (compute : κ → (κ → β) → β) (values : κ → β) (node : κ) : κ → β :=
  fun k => if k = node then compute node values else values k

def rollUp (compute : κ → (κ → β) → β) (order : List κ) (values : κ → β) : κ → β :=
  order.foldl (rollStep compute) values

/-- The value of a node is computed from those of its children alone; `child c n` says that `c` is a child of `n`. -/
def ReadsChildren (child : κ → κ → Prop) (compute : κ → (κ → β) → β) : Prop :=
  ∀ n v w, (∀ c, child c n → v c = w c) → compute n v = compute n w

variable {compute : κ → (κ → β) → β} {child : κ → κ → Prop} {order : List κ}

theorem rollStep_self (values : κ → β) (node : κ) : rollStep compute values node node = compute node values := by
  simp [rollStep]

theorem rollStep_of_ne (values : κ → β) {node k : κ} (h : k ≠ node) : rollStep compute values node k = values k := by
  simp [rollStep, h]

theorem rollUp_cons (node : κ) (order : List κ) (values : κ → β) :
    rollUp compute (node :: order) values = rollUp compute order (rollStep compute values node) := rfl

theorem rollUp_append (before after : List κ) (values : κ → β) :
    rollUp compute (before ++ after) values = rollUp compute after (rollUp compute before values) := by
  unfold rollUp
  rw [foldl_append]

theorem rollUp_of_not_mem {k : κ} (h : k ∉ order) (values : κ → β) : rollUp compute order values k = values k := by
  induction order generalizing values with
  | nil => rfl
  | cons node order ih =>
    rw [mem_cons, not_or] at h
    rw [rollUp_cons, ih h.2, rollStep_of_ne values h.1]

theorem rollUp_settled (hreads : ReadsChildren child compute) (hself : ∀ n ∈ order, ¬child n n) (hnodup : order.Nodup)
    (hfirst : order.Pairwise fun n later => ¬child later n) (values : κ → β) {n : κ} (hn : n ∈ order) :
    rollUp compute order values n = compute n (rollUp compute order values) := by
  induction order generalizing values with
  | nil => cases hn
  | cons a order ih =>
    rw [nodup_cons] at hnodup
    rw [pairwise_cons] at hfirst
    rw [rollUp_cons]
    rcases mem_cons.mp hn with rfl | hmem
    · rw [rollUp_of_not_mem hnodup.1, rollStep_self]
      apply hreads
      intro c hc
      have hne : c ≠ n := by
        rintro rfl
        exact hself c mem_cons_self hc
      have hnot : c ∉ order := fun h => hfirst.1 c h hc
      rw [rollUp_of_not_mem hnot, rollStep_of_ne values hne]
    · exact ih (fun m hm => hself m (mem_cons_of_mem a hm)) hnodup.2 hfirst.2 _ hmem

/-! ## A parent first -/

/-- A computed value is low if and only if a child is low. -/
def PassesLow (child : κ → κ → Prop) (low : β → Prop) (compute : κ → (κ → β) → β) (order : List κ) : Prop :=
  ∀ n ∈ order, ∀ v, low (compute n v) ↔ ∃ c, child c n ∧ low (v c)

variable {low : β → Prop} {values : κ → β} {parent c : κ}

section

variable (hlow : PassesLow child low compute order)
include hlow

theorem low_of_rollUp {k : κ}
    (h : low (rollUp compute order values k)) : ∃ source, low (values source) ∧ Relation.ReflTransGen child source k := by
  induction order generalizing values with
  | nil => exact ⟨k, h, .refl⟩
  | cons a order ih =>
    rw [rollUp_cons] at h
    obtain ⟨source, hsource, hpath⟩ := ih (fun n hn => hlow n (mem_cons_of_mem a hn)) h
    by_cases heq : source = a
    · subst heq
      rw [rollStep_self, hlow source mem_cons_self] at hsource
      obtain ⟨c, hc, hlowc⟩ := hsource
      exact ⟨c, hlowc, .head hc hpath⟩
    · rw [rollStep_of_ne values heq] at hsource
      exact ⟨source, hsource, hpath⟩

theorem low_below_of_rollUp (hnodup : order.Nodup) {n : κ} (hn : n ∈ order) (h : low (rollUp compute order values n)) :
    ∃ source, low (values source) ∧ Relation.TransGen child source n := by
  obtain ⟨before, after, rfl⟩ := append_of_mem hn
  have hnot : n ∉ after := by
    rw [nodup_append] at hnodup
    exact (nodup_cons.mp hnodup.2.1).1
  rw [rollUp_append, rollUp_cons, rollUp_of_not_mem hnot, rollStep_self, hlow n hn] at h
  obtain ⟨c, hc, hlowc⟩ := h
  obtain ⟨source, hsource, hpath⟩ := low_of_rollUp (fun m hm => hlow m (mem_append_left _ hm)) hlowc
  exact ⟨source, hsource, .tail' hpath hc⟩

theorem low_of_parent_first (hnodup : order.Nodup)
    (hbefore : [parent, c].Sublist order) (hchild : child c parent) (hc : low (values c)) :
    low (rollUp compute order values parent) := by
  have hmem : parent ∈ order := hbefore.subset mem_cons_self
  obtain ⟨before, after, rfl⟩ := append_of_mem hmem
  obtain ⟨-, hafter, hapart⟩ := nodup_append.mp hnodup
  have hnot : parent ∉ after := (nodup_cons.mp hafter).1
  have hcafter : c ∈ after := by
    have hparent : parent ∉ before := fun h => hapart parent h parent mem_cons_self rfl
    have hrest : [parent, c].Sublist (parent :: after) := by
      clear hnodup hapart hlow hmem
      induction before with
      | nil => exact hbefore
      | cons b before ih =>
        rw [mem_cons, not_or] at hparent
        refine ih ?_ hparent.2
        rw [cons_append, sublist_cons_iff] at hbefore
        rcases hbefore with hskip | ⟨rest, heq, -⟩
        · exact hskip
        · rw [List.cons.injEq] at heq
          exact absurd heq.1 hparent.1
    exact (cons_sublist_cons.mp hrest).subset mem_cons_self
  have hcbefore : c ∉ before := fun h => hapart c h c (mem_cons_of_mem parent hcafter) rfl
  rw [rollUp_append, rollUp_cons, rollUp_of_not_mem hnot, rollStep_self, hlow parent hmem]
  exact ⟨c, hchild, by rwa [rollUp_of_not_mem hcbefore]⟩

theorem parent_unsettled (hnodup : order.Nodup)
    (hacyclic : ∀ n, ¬Relation.TransGen child n n) (hunique : ∀ c p q, child c p → child c q → p = q)
    (hbefore : [parent, c].Sublist order) (hchild : child c parent) (hvalues : ∀ k, low (values k) ↔ k = c) :
    low (rollUp compute order values parent) ∧ ∀ d, child d parent → ¬low (rollUp compute order values d) := by
  refine ⟨low_of_parent_first hlow hnodup hbefore hchild ((hvalues c).mpr rfl), fun d hd hlowd => ?_⟩
  by_cases hdc : d = c
  · subst hdc
    have hmem : d ∈ order := hbefore.subset (mem_cons_of_mem _ mem_cons_self)
    obtain ⟨source, hsource, hpath⟩ := low_below_of_rollUp hlow hnodup hmem hlowd
    rw [hvalues] at hsource
    subst hsource
    exact hacyclic source hpath
  · obtain ⟨source, hsource, hpath⟩ := low_of_rollUp hlow hlowd
    rw [hvalues] at hsource
    subst hsource
    rcases Relation.ReflTransGen.cases_head hpath with heq | ⟨p, hp, hrest⟩
    · exact hdc heq.symm
    -- the way up from the child goes through the parent
    have hparent : p = parent := hunique source p parent hp hchild
    rw [hparent] at hrest
    exact hacyclic parent (Relation.TransGen.tail' hrest hd)

end

end Foundations
