import Bidding.Foundations.Saturate
import Mathlib.Data.Set.Finite.Basic
import Mathlib.Logic.Relation
import Mathlib.Order.WellFounded

/-!
# What a set reaches against the references

A set of keys is closed by passing over the nodes until nothing changes; it ends in exactly the keys that are in the set
or reach it (`mem_closure`). References that never leave a list go in circles (`exists_cycle`).
-/

namespace Foundations

open List

variable {κ α : Type} [DecidableEq κ]

def closureStep (key : α → κ) (parents : α → List κ) (acc : List κ × Bool) (node : α) : List κ × Bool :=
  if key node ∈ acc.1 then acc
  else if (parents node).any (· ∈ acc.1) then (acc.1 ++ [key node], true)
  else acc

def closurePass (key : α → κ) (parents : α → List κ) (nodes : List α) (reached : List κ) : List κ × Bool :=
  nodes.foldl (closureStep key parents) (reached, false)

/-- The keys that are in the set, or that a node has which refers to such a key. -/
inductive Reaches (key : α → κ) (parents : α → List κ) (nodes : List α) (start : List κ) : κ → Prop
  | start {k : κ} : k ∈ start → Reaches key parents nodes start k
  | node {node : α} {parent : κ} : node ∈ nodes → parent ∈ parents node →
      Reaches key parents nodes start parent → Reaches key parents nodes start (key node)

variable {key : α → κ} {parents : α → List κ} {nodes : List α} {reached : List κ}

theorem closureStep_cases (acc : List κ × Bool) (node : α) : (closureStep key parents acc node = acc ∧
      (key node ∈ acc.1 ∨ ∀ parent ∈ parents node, parent ∉ acc.1)) ∨
    (closureStep key parents acc node = (acc.1 ++ [key node], true) ∧ key node ∉ acc.1 ∧
      ∃ parent ∈ parents node, parent ∈ acc.1) := by
  unfold closureStep
  by_cases hmem : key node ∈ acc.1
  · exact .inl ⟨if_pos hmem, .inl hmem⟩
  rw [if_neg hmem]
  cases hany : (parents node).any (· ∈ acc.1) with
  | false =>
    refine .inl ⟨by simp, .inr fun parent hp hin => ?_⟩
    simp only [any_eq_false, decide_eq_true_eq] at hany
    exact hany parent hp hin
  | true =>
    simp only [any_eq_true, decide_eq_true_eq] at hany
    exact .inr ⟨by simp, hmem, hany⟩

theorem subset_closurePass (reached : List κ) : ∀ k ∈ reached, k ∈ (closurePass key parents nodes reached).1 := by
  intro k hk
  refine foldl_inv _ (fun acc : List κ × Bool => k ∈ acc.1) nodes (fun acc node _ h => ?_) hk
  rcases @closureStep_cases _ _ _ key parents acc node with ⟨heq, -⟩ | ⟨heq, -⟩
  · rw [heq]
    exact h
  · rw [heq]
    exact mem_append_left _ h

theorem reaches_closurePass {start reached : List κ} (h : ∀ k ∈ reached, Reaches key parents nodes start k) :
    ∀ k ∈ (closurePass key parents nodes reached).1, Reaches key parents nodes start k := by
  refine foldl_inv _ (fun acc : List κ × Bool => ∀ k ∈ acc.1, Reaches key parents nodes start k)
    nodes (fun acc node hnode hacc k hk => ?_) h
  rcases @closureStep_cases _ _ _ key parents acc node with ⟨heq, -⟩ | ⟨heq, -, parent, hp, hin⟩
  · exact hacc k (heq ▸ hk)
  rw [heq, mem_append, mem_singleton] at hk
  rcases hk with hk | rfl
  · exact hacc k hk
  · exact .node hnode hp (hacc parent hin)

def outside (key : α → κ) (nodes : List α) (reached : List κ) : ℕ :=
  (nodes.filter fun node => key node ∉ reached).length

theorem outside_le (reached : List κ) : outside key nodes reached ≤ nodes.length :=
  length_filter_le _ _

theorem raises_closureStep (acc : List κ × Bool) {node : α} (hnode : node ∈ nodes) :
    Raises (outside key nodes) acc (closureStep key parents acc node) := by
  rcases @closureStep_cases _ _ _ key parents acc node with ⟨heq, -⟩ | ⟨heq, hnew, -⟩
  · exact .inl heq
  rw [heq]
  refine .inr ⟨rfl, length_filter_lt (fun other _ hother => ?_) hnode ?_ ?_⟩
  · simp only [mem_append, decide_eq_true_eq, not_or] at hother
    exact decide_eq_true hother.1
  · exact decide_eq_true hnew
  · simp

theorem raises_closurePass (reached : List κ) :
    Raises (outside key nodes) (reached, false) (closurePass key parents nodes reached) :=
  foldl_raises (fun acc _ hnode => raises_closureStep acc hnode) (reached, false)

theorem closurePass_idle (h : (closurePass key parents nodes reached).2 = false) :
    (closurePass key parents nodes reached).1 = reached ∧
      ∀ node ∈ nodes, key node ∈ reached ∨ ∀ parent ∈ parents node, parent ∉ reached := by
  refine ⟨congrArg Prod.fst ((raises_closurePass reached).idle h), fun node hnode => ?_⟩
  have hquiet := foldl_quiet (fun acc _ hnode => raises_closureStep acc hnode) h node hnode
  rcases @closureStep_cases _ _ _ key parents (reached, false) node with ⟨-, hfine⟩ | ⟨heq, -⟩
  · exact hfine
  · rw [heq] at hquiet
    simpa using congrArg Prod.snd hquiet

theorem outside_closurePass_lt (reached : List κ) (h : (closurePass key parents nodes reached).2 = true) :
    outside key nodes (closurePass key parents nodes reached).1 < outside key nodes reached :=
  (raises_closurePass reached).lowers h

theorem closure_ends (start : List κ) : LoopEnds (closurePass key parents nodes) start
    (saturate (closurePass key parents nodes) (nodes.length + 1) start) := by
  apply saturate_loopEnds _ (outside key nodes) outside_closurePass_lt
  have := @outside_le _ _ _ key nodes start
  omega

theorem mem_closure (start : List κ) (k : κ) : k ∈ saturate (closurePass key parents nodes) (nodes.length + 1) start ↔
    Reaches key parents nodes start k := by
  constructor
  · apply saturate_inv (closurePass key parents nodes)
      (fun reached => ∀ k ∈ reached, Reaches key parents nodes start k) (fun reached h => reaches_closurePass h)
    exact fun k hk => .start hk
  · intro h
    obtain ⟨last, hidle, heq⟩ := saturate_stable (closurePass key parents nodes) (outside key nodes)
      outside_closurePass_lt (nodes.length + 1) start (by have := @outside_le _ _ _ key nodes start; omega)
    obtain ⟨hsame, hclosed⟩ := closurePass_idle hidle
    rw [hsame] at heq
    have hstart : ∀ k ∈ start, k ∈ last := by
      rw [← heq]
      exact saturate_rel (closurePass key parents nodes) (fun s t => ∀ k ∈ s, k ∈ t)
        (fun _ _ h => h) (fun _ _ _ h h' k hk => h' k (h k hk)) subset_closurePass _ start
    rw [heq]
    induction h with
    | start hk => exact hstart _ hk
    | @node node parent hnode hparent _ ih =>
      rcases hclosed node hnode with hin | hnone
      · exact hin
      · exact absurd ih (hnone parent hparent)

open Relation

/-- Where every member leads to another one, every member leads to a cycle. -/
theorem exists_cycle {α : Type} {r : α → α → Prop} {l : List α} (h : ∀ x ∈ l, ∃ y ∈ l, r x y) {x : α}
    (hx : x ∈ l) : ∃ y, ReflTransGen r x y ∧ TransGen r y y := by
  by_contra hno
  let later (a b : {y // y ∈ l ∧ ReflTransGen r x y}) := TransGen r b.1 a.1
  have : IsTrans _ later := ⟨fun _ _ _ hab hbc => hbc.trans hab⟩
  have : Std.Irrefl later := ⟨fun a ha => hno ⟨a.1, a.2.2, ha⟩⟩
  have : Finite {y // y ∈ l ∧ ReflTransGen r x y} := (l.finite_toSet.subset fun _ h => h.1).to_subtype
  obtain ⟨⟨y, hy, hpath⟩, -, hlast⟩ :=
    (Finite.wellFounded_of_trans_of_irrefl later).has_min Set.univ ⟨⟨x, hx, .refl⟩, trivial⟩
  obtain ⟨z, hz, hyz⟩ := h y hy
  exact hlast ⟨z, hz, hpath.tail hyz⟩ trivial (.single hyz)

end Foundations
