import Mathlib.Order.MinMax
import Mathlib.Data.List.Basic
import Mathlib.Data.List.TakeWhile

/-!
# Sets kept as ranges

A set of points of a line, kept as a sorted list of ranges `[lower, upper)` that do not touch. A range is
included by merging all ranges it meets; the gaps are the ranges between them.
-/

namespace Foundations

open List

abbrev Span (τ : Type) := τ × τ

variable {τ : Type} [LinearOrder τ]

namespace Ranges

def Covers (ranges : List (Span τ)) (x : τ) : Prop := ∃ r ∈ ranges, r.1 ≤ x ∧ x < r.2

/-- The ranges are sorted, not empty, and do not touch. -/
structure Separated (ranges : List (Span τ)) : Prop where
  nonempty : ∀ r ∈ ranges, r.1 < r.2
  sorted : ranges.Pairwise fun a b => a.2 < b.1

def absorb (lower upper : τ) : List (Span τ) → List (Span τ)
  | [] => [(lower, upper)]
  | r :: rest => if r.1 ≤ upper then absorb (min lower r.1) (max upper r.2) rest else (lower, upper) :: r :: rest

/-- `ranges[i] < (lower, upper)`, as `bisect_left` compares. -/
def less (r : Span τ) (lower upper : τ) : Bool := r.1 < lower || (r.1 = lower && r.2 < upper)

def insert (ranges : List (Span τ)) (lower upper : τ) : List (Span τ) :=
  let before := ranges.takeWhile fun r => less r lower upper
  let after := ranges.dropWhile fun r => less r lower upper
  match before.getLast? with
  | some last =>
    if lower ≤ last.2 then before.dropLast ++ absorb lower upper (last :: after)
    else before ++ absorb lower upper after
  | none => absorb lower upper after

def dropBelow (ranges : List (Span τ)) (floor : τ) : List (Span τ) :=
  (ranges.filter fun r => floor < r.2).map fun r => (max r.1 floor, r.2)

def gaps (start : τ) : List (Span τ) → List (τ × Option τ)
  | [] => [(start, none)]
  | r :: rest => if start < r.1 then (start, some r.1) :: gaps r.2 rest else gaps (max start r.2) rest

/-! ## Merging -/

variable {x : τ}

theorem covers_nil : ¬ Covers ([] : List (Span τ)) x := by
  rintro ⟨r, hr, -⟩
  exact absurd hr not_mem_nil

variable {r : Span τ}

theorem covers_cons {ranges : List (Span τ)} : Covers (r :: ranges) x ↔ (r.1 ≤ x ∧ x < r.2) ∨ Covers ranges x := by
  simp [Covers]

theorem covers_append {ranges ranges' : List (Span τ)} : Covers (ranges ++ ranges') x ↔ Covers ranges x ∨ Covers ranges' x := by
  simp only [Covers, mem_append]
  constructor
  · rintro ⟨r, hr | hr, hx⟩
    · exact .inl ⟨r, hr, hx⟩
    · exact .inr ⟨r, hr, hx⟩
  · rintro (⟨r, hr, hx⟩ | ⟨r, hr, hx⟩)
    · exact ⟨r, .inl hr, hx⟩
    · exact ⟨r, .inr hr, hx⟩

theorem Separated.tail {ranges : List (Span τ)} (h : Separated (r :: ranges)) : Separated ranges :=
  ⟨fun r' hr' => h.nonempty r' (mem_cons_of_mem _ hr'), (pairwise_cons.mp h.sorted).2⟩

variable {lower upper : τ}

theorem union_meets (hr : r.1 ≤ upper) (hl : lower ≤ r.2) :
    (min lower r.1 ≤ x ∧ x < max upper r.2) ↔ (lower ≤ x ∧ x < upper) ∨ (r.1 ≤ x ∧ x < r.2) := by
  rw [min_le_iff, lt_max_iff]
  constructor
  · rintro ⟨hfrom, hto⟩
    rcases hfrom with hfrom | hfrom <;> rcases hto with hto | hto
    · exact .inl ⟨hfrom, hto⟩
    · rcases lt_or_ge x upper with hx | hx
      · exact .inl ⟨hfrom, hx⟩
      · exact .inr ⟨le_trans hr hx, hto⟩
    · rcases lt_or_ge x r.2 with hx | hx
      · exact .inr ⟨hfrom, hx⟩
      · exact .inl ⟨le_trans hl hx, hto⟩
    · exact .inr ⟨hfrom, hto⟩
  · rintro (⟨hfrom, hto⟩ | ⟨hfrom, hto⟩)
    · exact ⟨.inl hfrom, .inl hto⟩
    · exact ⟨.inr hfrom, .inr hto⟩

def Follows (lower : τ) (ranges : List (Span τ)) : Prop := ∀ r ∈ ranges, lower ≤ r.2

variable {ranges : List (Span τ)}

theorem absorb_spec (h : Separated ranges) : ∀ {lower upper : τ}, lower < upper → Follows lower ranges →
    Separated (absorb lower upper ranges) ∧
    (∀ x, Covers (absorb lower upper ranges) x ↔ (lower ≤ x ∧ x < upper) ∨ Covers ranges x) ∧
    ∀ b ∈ absorb lower upper ranges, ∀ a : τ, a < lower → (∀ r ∈ ranges, a < r.1) → a < b.1 := by
  induction ranges with
  | nil =>
    intro lower upper hlt _
    refine ⟨⟨fun r hr => ?_, pairwise_singleton _ _⟩, fun x => ?_, fun b hb a ha _ => ?_⟩
    · rw [mem_singleton.mp hr]
      exact hlt
    · simp [absorb, Covers]
    · rw [mem_singleton.mp hb]
      exact ha
  | cons r rest ih =>
    intro lower upper hlt hfollows
    rw [absorb]
    split
    · rename_i hmeets
      have hlower : lower ≤ r.2 := hfollows r mem_cons_self
      have hnonempty := h.nonempty r mem_cons_self
      obtain ⟨hseparated, hcovers, hfirst⟩ := ih h.tail
        (lt_of_le_of_lt (min_le_left lower r.1) (lt_of_lt_of_le hlt (le_max_left upper r.2)))
        fun r' hr' => le_trans (min_le_left _ _) (hfollows r' (mem_cons_of_mem _ hr'))
      refine ⟨hseparated, fun x => ?_, fun b hb a ha hall => ?_⟩
      · rw [hcovers, union_meets hmeets hlower, covers_cons, or_assoc]
      · refine hfirst b hb a (lt_min ha (hall r mem_cons_self)) fun r' hr' => ?_
        exact hall r' (mem_cons_of_mem _ hr')
    · rename_i hapart
      rw [not_le] at hapart
      refine ⟨⟨fun r' hr' => ?_, ?_⟩, fun x => covers_cons, fun b hb a ha hall => ?_⟩
      · rcases mem_cons.mp hr' with rfl | hr'
        · exact hlt
        · exact h.nonempty r' hr'
      · refine pairwise_cons.mpr ⟨fun r' hr' => ?_, h.sorted⟩
        rcases mem_cons.mp hr' with rfl | hr'
        · exact hapart
        · have hlater := (pairwise_cons.mp h.sorted).1 r' hr'
          exact lt_trans hapart (lt_trans (h.nonempty r mem_cons_self) hlater)
      · rcases mem_cons.mp hb with rfl | hb
        · exact ha
        · exact hall b hb

theorem less_lower (h : less r lower upper = true) : r.1 ≤ lower := by
  rcases Bool.or_eq_true_iff.mp h with h | h
  · exact le_of_lt (of_decide_eq_true h)
  · exact le_of_eq (of_decide_eq_true (Bool.and_eq_true_iff.mp h).1)

theorem lower_of_not_less (h : less r lower upper = false) : lower ≤ r.1 := by
  by_contra hlt
  rw [not_le] at hlt
  simp [less, hlt] at h

theorem follows_of_dropWhile {ranges after : List (Span τ)} (h : Separated after)
    (hafter : ranges.dropWhile (fun r => less r lower upper) = after) : Follows lower after := by
  cases after with
  | nil => exact fun r hr => absurd hr not_mem_nil
  | cons first rest =>
    have hfirst : less first lower upper = false := by
      have hhead := List.head?_dropWhile_not (fun r => less r lower upper) ranges
      rw [hafter] at hhead
      simpa using hhead
    have hends : lower ≤ first.2 :=
      le_trans (lower_of_not_less hfirst) (le_of_lt (h.nonempty first mem_cons_self))
    intro r hr
    rcases mem_cons.mp hr with rfl | hr'
    · exact hends
    · have hlater := (pairwise_cons.mp h.sorted).1 r hr'
      exact le_trans hends (le_trans (le_of_lt hlater) (le_of_lt (h.nonempty r hr)))

theorem append_absorb {front merged : List (Span τ)} (hlt : lower < upper)
    (h : Separated (front ++ merged)) (hmerged : Follows lower merged) (hfront : ∀ r ∈ front, r.2 < lower) :
    Separated (front ++ absorb lower upper merged) ∧
      ∀ x, Covers (front ++ absorb lower upper merged) x ↔
        (lower ≤ x ∧ x < upper) ∨ Covers (front ++ merged) x := by
  obtain ⟨hsortedFront, hsortedMerged, hbetween⟩ := pairwise_append.mp h.sorted
  obtain ⟨hseparated, hcovers, hfirst⟩ := absorb_spec
    ⟨fun r hr => h.nonempty r (mem_append_right _ hr), hsortedMerged⟩ hlt hmerged
  refine ⟨⟨fun r hr => ?_, ?_⟩, fun x => ?_⟩
  · rcases mem_append.mp hr with hr | hr
    · exact h.nonempty r (mem_append_left _ hr)
    · exact hseparated.nonempty r hr
  · exact pairwise_append.mpr ⟨hsortedFront, hseparated.sorted, fun a ha b hb =>
      hfirst b hb a.2 (hfront a ha) (hbetween a ha)⟩
  · rw [covers_append, hcovers, covers_append, or_left_comm]

theorem insert_spec (h : Separated ranges) (hlt : lower < upper) : Separated (insert ranges lower upper) ∧
    ∀ x, Covers (insert ranges lower upper) x ↔ (lower ≤ x ∧ x < upper) ∨ Covers ranges x := by
  have hsplit : ranges.takeWhile (fun r => less r lower upper) ++
      ranges.dropWhile (fun r => less r lower upper) = ranges := takeWhile_append_dropWhile
  have hbefore : ∀ r ∈ ranges.takeWhile fun r => less r lower upper, r.1 ≤ lower :=
    fun r hr => less_lower (mem_takeWhile_imp (p := fun r => less r lower upper) hr)
  have hfollows : ∀ after, Separated after → ranges.dropWhile (fun r => less r lower upper) = after →
      Follows lower after := fun after => follows_of_dropWhile
  unfold insert
  simp only
  generalize ranges.takeWhile (fun r => less r lower upper) = before at hsplit hbefore
  generalize ranges.dropWhile (fun r => less r lower upper) = after at hsplit hfollows
  subst hsplit
  obtain ⟨hsortedBefore, hsortedAfter, -⟩ := pairwise_append.mp h.sorted
  have hafter : Follows lower after :=
    hfollows after ⟨fun r hr => h.nonempty r (mem_append_right _ hr), hsortedAfter⟩ rfl
  cases hlast : before.getLast? with
  | none =>
    obtain rfl := getLast?_eq_none_iff.mp hlast
    exact append_absorb hlt h hafter fun r hr => absurd hr not_mem_nil
  | some last =>
    obtain ⟨front, rfl⟩ := getLast?_eq_some_iff.mp hlast
    have hends : ∀ r ∈ front, r.2 < last.1 := fun r hr =>
      (pairwise_append.mp hsortedBefore).2.2 r hr last (mem_singleton_self last)
    simp only
    split
    · rename_i hmeets
      have hshape : front ++ [last] ++ after = front ++ last :: after := by simp
      rw [dropLast_concat]
      rw [hshape] at h ⊢
      refine append_absorb hlt h (fun r hr => ?_) fun r hr => lt_of_lt_of_le (hends r hr) (hbefore last (by simp))
      rcases mem_cons.mp hr with rfl | hr
      · exact hmeets
      · exact hafter r hr
    · rename_i hapart
      rw [not_le] at hapart
      refine append_absorb hlt h hafter fun r hr => ?_
      rcases mem_append.mp hr with hr | hr
      · exact lt_trans (hends r hr) (lt_trans (h.nonempty last (by simp)) hapart)
      · rw [mem_singleton.mp hr]
        exact hapart

theorem separated_nil : Separated ([] : List (Span τ)) :=
  ⟨fun _ hr => absurd hr not_mem_nil, List.Pairwise.nil⟩

theorem dropBelow_spec (h : Separated ranges) (floor : τ) : Separated (dropBelow ranges floor) ∧
    ∀ x, Covers (dropBelow ranges floor) x ↔ floor ≤ x ∧ Covers ranges x := by
  refine ⟨⟨fun r hr => ?_, ?_⟩, fun x => ⟨?_, ?_⟩⟩
  · obtain ⟨r', hr', rfl⟩ := mem_map.mp hr
    obtain ⟨hmem, hfloor⟩ := mem_filter.mp hr'
    exact max_lt (h.nonempty r' hmem) (of_decide_eq_true hfloor)
  · refine pairwise_map.mpr ((h.sorted.filter _).imp fun hab => ?_)
    exact lt_of_lt_of_le hab (le_max_left _ _)
  · rintro ⟨r, hr, hfrom, hto⟩
    obtain ⟨r', hr', rfl⟩ := mem_map.mp hr
    obtain ⟨hlower, hfloor⟩ := max_le_iff.mp hfrom
    exact ⟨hfloor, r', (mem_filter.mp hr').1, hlower, hto⟩
  · rintro ⟨hfloor, r, hr, hfrom, hto⟩
    refine ⟨(max r.1 floor, r.2), mem_map.mpr ⟨r, mem_filter.mpr ⟨hr, ?_⟩, rfl⟩, ?_, hto⟩
    · exact decide_eq_true (lt_of_le_of_lt hfloor hto)
    · exact max_le hfrom hfloor

def InGap (gap : τ × Option τ) (x : τ) : Prop := gap.1 ≤ x ∧ ∀ upper, gap.2 = some upper → x < upper

theorem mem_gaps (h : Separated ranges) :
    ∀ {start x : τ}, (∃ gap ∈ gaps start ranges, InGap gap x) ↔ start ≤ x ∧ ¬ Covers ranges x := by
  induction ranges with
  | nil => simp [gaps, InGap, covers_nil]
  | cons r rest ih =>
    intro start x
    have hrest : ∀ {y : τ}, y < r.2 → ¬ Covers rest y := by
      rintro y hy ⟨r', hr', hfrom, -⟩
      have hlater := (pairwise_cons.mp h.sorted).1 r' hr'
      exact absurd (lt_of_lt_of_le hlater hfrom) (not_lt.mpr (le_of_lt hy))
    rw [covers_cons, gaps]
    split
    · rename_i hstart
      constructor
      · rintro ⟨gap, hgap, hin⟩
        rcases mem_cons.mp hgap with rfl | hgap
        · have hx : x < r.1 := hin.2 r.1 rfl
          refine ⟨hin.1, not_or.mpr ⟨fun hcov => absurd hcov.1 (not_le.mpr hx), hrest ?_⟩⟩
          exact lt_trans hx (h.nonempty r mem_cons_self)
        · obtain ⟨hfrom, hfree⟩ := (ih h.tail).mp ⟨gap, hgap, hin⟩
          refine ⟨le_trans (le_of_lt hstart) (le_trans (le_of_lt (h.nonempty r mem_cons_self)) hfrom), ?_⟩
          exact not_or.mpr ⟨fun hcov => absurd hcov.2 (not_lt.mpr hfrom), hfree⟩
      · rintro ⟨hfrom, hfree⟩
        obtain ⟨hnotIn, hfree⟩ := not_or.mp hfree
        rcases lt_or_ge x r.1 with hx | hx
        · refine ⟨(start, some r.1), mem_cons_self, hfrom, fun upper hupper => ?_⟩
          cases hupper
          exact hx
        · have hx' : r.2 ≤ x := not_lt.mp fun hlt => hnotIn ⟨hx, hlt⟩
          obtain ⟨gap, hgap, hin⟩ := (ih h.tail).mpr ⟨hx', hfree⟩
          exact ⟨gap, mem_cons_of_mem _ hgap, hin⟩
    · rename_i hstart
      rw [not_lt] at hstart
      rw [ih h.tail, max_le_iff]
      constructor
      · rintro ⟨⟨hfrom, hafter⟩, hfree⟩
        exact ⟨hfrom, not_or.mpr ⟨fun hcov => absurd hcov.2 (not_lt.mpr hafter), hfree⟩⟩
      · rintro ⟨hfrom, hfree⟩
        obtain ⟨hnotIn, hfree⟩ := not_or.mp hfree
        exact ⟨⟨hfrom, not_lt.mp fun hlt => hnotIn ⟨le_trans hstart hfrom, hlt⟩⟩, hfree⟩

theorem gaps_sorted (h : Separated ranges) : ∀ {start : τ}, (∀ gap ∈ gaps start ranges, start ≤ gap.1) ∧
    (gaps start ranges).Pairwise fun a b => ∃ upper, a.2 = some upper ∧ upper ≤ b.1 := by
  induction ranges with
  | nil =>
    intro start
    exact ⟨fun gap hgap => by rw [mem_singleton.mp hgap], pairwise_singleton _ _⟩
  | cons r rest ih =>
    intro start
    rw [gaps]
    split
    · rename_i hstart
      obtain ⟨hfrom, hsorted⟩ := @ih h.tail r.2
      have hlater : ∀ gap ∈ gaps r.2 rest, r.1 ≤ gap.1 := fun gap hgap =>
        le_trans (le_of_lt (h.nonempty r mem_cons_self)) (hfrom gap hgap)
      refine ⟨fun gap hgap => ?_, pairwise_cons.mpr ⟨fun gap hgap => ⟨r.1, rfl, hlater gap hgap⟩, hsorted⟩⟩
      rcases mem_cons.mp hgap with rfl | hgap
      · exact le_refl _
      · exact le_trans (le_of_lt hstart) (hlater gap hgap)
    · obtain ⟨hfrom, hsorted⟩ := @ih h.tail (max start r.2)
      exact ⟨fun gap hgap => le_trans (le_max_left _ _) (hfrom gap hgap), hsorted⟩

theorem Separated.outside (h : Separated (r :: ranges)) (hx : Covers ranges x) : r.2 < x := by
  obtain ⟨r', hr', hle, -⟩ := hx
  exact lt_of_lt_of_le ((pairwise_cons.mp h.sorted).1 r' hr') hle

theorem Separated.bounds (h : Separated (r :: ranges)) : Covers (r :: ranges) r.1 ∧ ¬Covers (r :: ranges) r.2 ∧
    ∀ x, Covers (r :: ranges) x → r.1 ≤ x := by
  have hlt := h.nonempty r mem_cons_self
  refine ⟨covers_cons.mpr (.inl ⟨le_refl _, hlt⟩), fun hx => ?_, fun x hx => ?_⟩
  · rcases covers_cons.mp hx with ⟨-, hself⟩ | hrest
    · exact lt_irrefl _ hself
    · exact lt_irrefl _ (h.outside hrest)
  · rcases covers_cons.mp hx with ⟨hle, -⟩ | hrest
    · exact hle
    · exact le_of_lt (hlt.trans (h.outside hrest))

/-- Separated ranges are told apart by what they cover. -/
theorem Separated.ext {ranges' : List (Span τ)} (h : Separated ranges) (h' : Separated ranges')
    (hcovers : ∀ x, Covers ranges x ↔ Covers ranges' x) : ranges = ranges' := by
  induction ranges generalizing ranges' with
  | nil =>
    cases ranges' with
    | nil => rfl
    | cons r' rest' => exact absurd ((hcovers r'.1).mpr h'.bounds.1) covers_nil
  | cons r rest ih =>
    cases ranges' with
    | nil => exact absurd ((hcovers r.1).mp h.bounds.1) covers_nil
    | cons r' rest' =>
      obtain ⟨hlower, hupper, hfirst⟩ := h.bounds
      obtain ⟨hlower', hupper', hfirst'⟩ := h'.bounds
      have hstart : r.1 = r'.1 := le_antisymm (hfirst _ ((hcovers _).mpr hlower')) (hfirst' _ ((hcovers _).mp hlower))
      have hend : r.2 = r'.2 := by
        have hlt := h.nonempty r mem_cons_self
        have hlt' := h'.nonempty r' mem_cons_self
        apply le_antisymm <;> by_contra hnot <;> rw [not_le] at hnot
        · exact hupper' ((hcovers _).mp (covers_cons.mpr (.inl ⟨hstart ▸ le_of_lt hlt', hnot⟩)))
        · exact hupper ((hcovers _).mpr (covers_cons.mpr (.inl ⟨hstart ▸ le_of_lt hlt, hnot⟩)))
      obtain rfl : r = r' := Prod.ext hstart hend
      congr 1
      refine ih h.tail h'.tail fun x => ?_
      have hx := hcovers x
      rw [covers_cons, covers_cons] at hx
      constructor
      · intro hrest
        exact (hx.mp (.inr hrest)).resolve_left fun hself => lt_asymm hself.2 (h.outside hrest)
      · intro hrest
        exact (hx.mpr (.inr hrest)).resolve_left fun hself => lt_asymm hself.2 (h'.outside hrest)

end Ranges

end Foundations
