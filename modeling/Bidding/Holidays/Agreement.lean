import Mathlib.Tactic.Ring
import Bidding.Holidays.Corrections

/-!
# The arithmetic agrees with the walk

An interval is counted as many working days as a walk over it meets, so the binary search ends where the walk does.
This holds of every calendar that can be read, and of no other.
-/

namespace Bidding.Holidays

open Foundations List

/-! ## Counting an interval -/

def rangeSum (corrections : Dict ℕ ℤ) (first last : ℕ) : ℤ :=
  ((corrections.entries.filter fun entry => first ≤ entry.1 && entry.1 ≤ last).map Prod.snd).sum

def weekSum (first days : ℕ) : ℕ :=
  days / 7 * 5 + ((List.range (days % 7)).map fun offset => if ((first - 1) % 7 + offset) % 7 < 5 then 1 else 0).sum

theorem sum_filter_key {entries : List (ℕ × ℤ)} (hnodup : (entries.map Prod.fst).Nodup) (n : ℕ) :
    ((entries.filter fun entry => entry.1 = n).map Prod.snd).sum = (Dict.lookup n entries).getD 0 := by
  induction entries with
  | nil => rfl
  | cons entry entries ih =>
    rw [map_cons, nodup_cons] at hnodup
    by_cases hkey : entry.1 = n
    · have hrest : entries.filter (fun entry => entry.1 = n) = [] := by
        rw [filter_eq_nil_iff]
        intro other hother hsame
        rw [decide_eq_true_iff] at hsame
        exact hnodup.1 (mem_map.mpr ⟨other, hother, hsame.trans hkey.symm⟩)
      rw [filter_cons_of_pos (by simpa using hkey), hrest]
      simp [Dict.lookup, hkey]
    · rw [filter_cons_of_neg (by simpa using hkey), ih hnodup.2]
      simp [Dict.lookup, hkey]

variable {first : ℕ} {last : ℕ} {day : Day}

theorem rangeSum_succ (c : Dict ℕ ℤ) (h : first ≤ last + 1) :
    rangeSum c first (last + 1) = rangeSum c first last + (c.get? (last + 1)).getD 0 := by
  have hsplit (entries : List (ℕ × ℤ)) :
      ((entries.filter fun entry => first ≤ entry.1 && entry.1 ≤ last + 1).map Prod.snd).sum =
        ((entries.filter fun entry => first ≤ entry.1 && entry.1 ≤ last).map Prod.snd).sum +
          ((entries.filter fun entry => entry.1 = last + 1).map Prod.snd).sum := by
    induction entries with
    | nil => rfl
    | cons entry entries ih =>
      by_cases hlast : entry.1 = last + 1
      · have hlong : (first ≤ entry.1 && entry.1 ≤ last + 1) = true := by simp; omega
        have hshort : (first ≤ entry.1 && entry.1 ≤ last) = false := by simp; omega
        rw [filter_cons, hlong, filter_cons, hshort, filter_cons, decide_eq_true hlast]
        simp only [if_true, Bool.false_eq_true, if_false, map_cons, sum_cons]
        rw [ih]
        ring
      · have hsame : (first ≤ entry.1 && entry.1 ≤ last + 1) = (first ≤ entry.1 && entry.1 ≤ last) := by
          have hbound : entry.1 ≤ last + 1 ↔ entry.1 ≤ last := by omega
          simp [hbound]
        rw [filter_cons, hsame, filter_cons, filter_cons, decide_eq_false hlast]
        cases (decide (first ≤ entry.1) && decide (entry.1 ≤ last)) with
        | true =>
          simp only [if_true, Bool.false_eq_true, if_false, map_cons, sum_cons]
          rw [ih]
          ring
        | false =>
          simp only [Bool.false_eq_true, if_false]
          exact ih
  unfold rangeSum
  rw [hsplit, sum_filter_key c.nodupKeys]
  rfl

theorem rangeSum_empty (c : Dict ℕ ℤ) (h : last < first) : rangeSum c first last = 0 := by
  unfold rangeSum
  rw [filter_eq_nil_iff.mpr]
  · rfl
  · intro entry _ hrange
    rw [Bool.and_eq_true, decide_eq_true_iff, decide_eq_true_iff] at hrange
    omega

theorem weekSum_succ (h : 1 ≤ first) (days : ℕ) :
    weekSum first (days + 1) = weekSum first days + if weekday (first + days) < 5 then 1 else 0 := by
  unfold weekSum weekday
  obtain ⟨f, rfl⟩ : ∃ f, first = f + 1 := ⟨first - 1, by omega⟩
  rw [Nat.add_sub_cancel]
  have hday : (f + 1 + days + 6) % 7 = (f % 7 + days % 7) % 7 := by omega
  rw [hday]
  have hextra : days % 7 < 7 := Nat.mod_lt _ (by decide)
  by_cases hweek : days % 7 = 6
  · -- the last day of a week: five of its days are weekdays
    have hweeks : (days + 1) / 7 = days / 7 + 1 := by omega
    have hnone : (days + 1) % 7 = 0 := by omega
    rw [hweeks, hnone, hweek]
    have hfive : ∀ weekday < 7, ((List.range 6).map fun offset => if (weekday + offset) % 7 < 5 then 1 else 0).sum +
        (if (weekday + 6) % 7 < 5 then 1 else 0) = 5 := by decide
    have hweekday := hfive (f % 7) (Nat.mod_lt _ (by decide))
    rw [range_zero, map_nil, sum_nil]
    omega
  · have hweeks : (days + 1) / 7 = days / 7 := by omega
    have hmore : (days + 1) % 7 = days % 7 + 1 := by omega
    rw [hweeks, hmore, range_succ, map_append, sum_append, map_singleton, sum_singleton]
    omega

def countFrom (w : ℕ → Bool) (first : ℕ) : ℕ → ℕ
  | 0 => 0
  | days + 1 => countFrom w first days + if w (first + days) then 1 else 0

variable (w : ℕ → Bool)

theorem countFrom_succ' (first days : ℕ) :
    countFrom w first (days + 1) = (if w first then 1 else 0) + countFrom w (first + 1) days := by
  induction days with
  | zero =>
    unfold countFrom countFrom
    simp
  | succ days ih =>
    have hleft : countFrom w first (days + 1 + 1) =
        countFrom w first (days + 1) + if w (first + (days + 1)) then 1 else 0 := rfl
    have hright : countFrom w (first + 1) (days + 1) =
        countFrom w (first + 1) days + if w (first + 1 + days) then 1 else 0 := rfl
    have hplace : first + (days + 1) = first + 1 + days := by omega
    rw [hleft, hright, ih, hplace, Nat.add_assoc]

variable {calendar : HolidayCalendar} {c : Dict ℕ ℤ} {forward : Bool} {start : Day} {steps : ℤ} {entry : String × Value} {e : FormulaError} {value : Value}

theorem countWorkingDays_eq (hc : ∀ n, 1 ≤ n → n ≤ maxOrdinal → (c.get? n).getD 0 = correctionAt calendar n)
    {days : ℕ} (hfirst : 1 ≤ first) (hlast : first + days ≤ maxOrdinal) :
    countWorkingDays first (first + days) c = (countFrom (worksAt calendar) first (days + 1) : ℤ) := by
  have hformula : countWorkingDays first (first + days) c =
      (weekSum first (days + 1) : ℤ) + rangeSum c first (first + days) := by
    unfold countWorkingDays
    rw [if_neg (by omega), Nat.add_sub_cancel_left]
    rfl
  rw [hformula]
  clear hformula
  induction days with
  | zero =>
    obtain ⟨f, rfl⟩ : ∃ f, first = f + 1 := ⟨first - 1, by omega⟩
    rw [Nat.add_zero, rangeSum_succ c (Nat.le_refl _), rangeSum_empty c (Nat.lt_succ_self f), weekSum_succ hfirst,
      hc (f + 1) hfirst hlast]
    unfold countFrom countFrom correctionAt correction weekSum
    simp
  | succ days ih =>
    have hcount : countFrom (worksAt calendar) first (days + 1 + 1) =
        countFrom (worksAt calendar) first (days + 1) + if worksAt calendar (first + (days + 1)) then 1 else 0 := rfl
    rw [hcount, weekSum_succ hfirst, ← Nat.add_assoc, rangeSum_succ c (by omega), hc _ (by omega) (by omega)]
    push_cast
    rw [← ih (by omega)]
    unfold correctionAt correction
    rw [Nat.add_assoc first days 1]
    ring

theorem countFrom_eq_countUpTo (origin days : ℕ) :
    countFrom w (origin + 1) days = countUpTo (fun i => w (origin + i)) days := by
  induction days with
  | zero => rfl
  | succ days ih =>
    unfold countFrom countUpTo
    rw [ih, Nat.add_assoc, Nat.add_comm 1 days]

theorem countFrom_eq_countUpTo_back {origin days : ℕ} (h : days ≤ origin) :
    countFrom w (origin - days) days = countUpTo (fun i => w (origin - i)) days := by
  induction days with
  | zero => rfl
  | succ days ih =>
    have hnext : origin - (days + 1) + 1 = origin - days := by omega
    rw [countFrom_succ', hnext, ih (by omega), Nat.add_comm]
    rfl

def worksAtDistance (calendar : HolidayCalendar) (forward : Bool) (origin distance : ℕ) : Bool :=
  worksAt calendar (ordinalAt forward origin distance)

theorem countDistance_eq (hc : ∀ n, 1 ≤ n → n ≤ maxOrdinal → (c.get? n).getD 0 = correctionAt calendar n)
    {origin distance : ℕ} (horigin : 1 ≤ origin) (hlast : origin ≤ maxOrdinal)
    (h : distance ≤ distanceToEnd forward origin) :
    countDistance c forward origin distance = (countUpTo (worksAtDistance calendar forward origin) distance : ℤ) := by
  cases distance with
  | zero =>
    unfold countDistance countWorkingDays
    cases forward with
    | true => rw [if_pos rfl, if_pos (by omega)]; rfl
    | false => rw [if_neg Bool.false_ne_true, if_pos (by omega)]; rfl
  | succ distance =>
    unfold countDistance
    cases forward with
    | true =>
      unfold distanceToEnd at h
      rw [if_pos rfl] at h
      have hend : origin + (distance + 1) = origin + 1 + distance := by omega
      rw [if_pos rfl, hend, countWorkingDays_eq hc (by omega) (by omega), countFrom_eq_countUpTo]
      rfl
    | false =>
      unfold distanceToEnd at h
      rw [if_neg Bool.false_ne_true] at h
      have hend : origin - 1 = origin - (distance + 1) + distance := by omega
      rw [if_neg Bool.false_ne_true, hend, countWorkingDays_eq hc (by omega) (by omega),
        countFrom_eq_countUpTo_back _ (by omega)]
      rfl

def dayAt (forward : Bool) (start : Day) (distance : ℕ) : Day :=
  (Day.ofOrdinal (ordinalAt forward start.ordinal distance)).getD start

theorem dayAt_ordinal {distance : ℕ} (h : distance ≤ distanceToEnd forward start.ordinal) :
    Day.ofOrdinal (ordinalAt forward start.ordinal distance) = some (dayAt forward start distance) ∧
      (dayAt forward start distance).ordinal = ordinalAt forward start.ordinal distance := by
  have hrange : 1 ≤ ordinalAt forward start.ordinal distance ∧ ordinalAt forward start.ordinal distance ≤ maxOrdinal := by
    have := start.pos
    have := start.le
    unfold distanceToEnd at h
    unfold ordinalAt
    cases forward with
    | true => simp only [if_true] at h ⊢; omega
    | false => simp only [Bool.false_eq_true, if_false] at h ⊢; omega
  have hday : Day.ofOrdinal (ordinalAt forward start.ordinal distance) =
      some ⟨ordinalAt forward start.ordinal distance, hrange.1, hrange.2⟩ := by
    unfold Day.ofOrdinal
    rw [dif_pos hrange]
  unfold dayAt
  rw [hday]
  exact ⟨rfl, rfl⟩

theorem dayAt_zero (forward : Bool) (start : Day) : dayAt forward start 0 = start := by
  have hzero : ordinalAt forward start.ordinal 0 = start.ordinal := by cases forward <;> rfl
  unfold dayAt
  rw [hzero, ofOrdinal_ordinal]
  rfl

theorem stepDay_dayAt {distance : ℕ} (h : distance < distanceToEnd forward start.ordinal) :
    stepDay forward (dayAt forward start distance) = some (dayAt forward start (distance + 1)) := by
  rw [← (dayAt_ordinal (Nat.succ_le_of_lt h)).1]
  unfold stepDay
  rw [(dayAt_ordinal (Nat.le_of_lt h)).2]
  unfold ordinalAt
  cases forward with
  | true => rfl
  | false => rfl

theorem stepDay_last (forward : Bool) (start : Day) :
    stepDay forward (dayAt forward start (distanceToEnd forward start.ordinal)) = none := by
  have hpos := start.pos
  have hle := start.le
  unfold stepDay
  rw [(dayAt_ordinal (Nat.le_refl _)).2]
  unfold ordinalAt distanceToEnd Day.ofOrdinal
  cases forward with
  | true =>
    rw [if_pos rfl, if_pos rfl, if_pos rfl, dif_neg]
    omega
  | false =>
    rw [if_neg Bool.false_ne_true, if_neg Bool.false_ne_true, if_neg Bool.false_ne_true, dif_neg]
    omega

section

variable (h : Readable calendar)
include h

theorem isWorkingDay_dayAt {distance : ℕ}
    (hle : distance ≤ distanceToEnd forward start.ordinal) : isWorkingDay calendar (dayAt forward start distance) =
      .ok (worksAtDistance calendar forward start.ordinal distance) := by
  rw [isWorkingDay_of_readable h, (dayAt_ordinal hle).2]
  rfl

/-! ## The arithmetic and the walk -/

theorem addWorkingDays_cases (start : Day) (hsteps : steps ≠ 0) : (addWorkingDays calendar start steps = .error .overflow ∧
      countUpTo (worksAtDistance calendar (decide (0 < steps)) start.ordinal)
        (distanceToEnd (decide (0 < steps)) start.ordinal) < steps.natAbs) ∨
    ∃ low, low ≤ distanceToEnd (decide (0 < steps)) start.ordinal ∧
      addWorkingDays calendar start steps = .ok (dayAt (decide (0 < steps)) start low) ∧
      countUpTo (worksAtDistance calendar (decide (0 < steps)) start.ordinal) low = steps.natAbs ∧
      ∀ i < low, countUpTo (worksAtDistance calendar (decide (0 < steps)) start.ordinal) i < steps.natAbs := by
  obtain ⟨c, hcorrections, hc⟩ := exists_corrections h
  have hcount {distance : ℕ} (hle : distance ≤ distanceToEnd (decide (0 < steps)) start.ordinal) :=
    countDistance_eq hc start.pos start.le hle
  have habs : |steps| = (steps.natAbs : ℤ) := Int.abs_eq_natAbs steps
  unfold addWorkingDays
  rw [if_neg hsteps, hcorrections]
  simp only [bind, Except.bind]
  generalize decide (0 < steps) = forward at hcount ⊢
  rw [hcount (Nat.le_refl _), habs]
  by_cases hfew : countUpTo (worksAtDistance calendar forward start.ordinal) (distanceToEnd forward start.ordinal) <
      steps.natAbs
  · rw [if_pos (by exact_mod_cast hfew)]
    exact Or.inl ⟨rfl, hfew⟩
  · rw [if_neg (by exact_mod_cast hfew)]
    have hpos : 0 < steps.natAbs := Int.natAbs_pos.mpr hsteps
    have hmax : 1 ≤ distanceToEnd forward start.ordinal := by
      by_contra hnot
      have hzero : distanceToEnd forward start.ordinal = 0 := by omega
      rw [hzero] at hfew
      exact hfew hpos
    have henough {distance : ℕ} (hle : distance ≤ distanceToEnd forward start.ordinal) :
        decide ((steps.natAbs : ℤ) ≤ countDistance c forward start.ordinal distance) =
          decide (steps.natAbs ≤ countUpTo (worksAtDistance calendar forward start.ordinal) distance) :=
      decide_eq_decide.mpr (by rw [hcount hle]; exact Nat.cast_le)
    obtain ⟨hlow, hhigh, hfound, hbefore⟩ := @bisect_spec
      (fun distance => decide ((steps.natAbs : ℤ) ≤ countDistance c forward start.ordinal distance)) 1
      (distanceToEnd forward start.ordinal) (fun i j hij hj hi => by
        have hmono := countUpTo_mono (worksAtDistance calendar forward start.ordinal) hij
        rw [henough (Nat.le_trans hij hj), decide_eq_true_iff] at hi
        rw [henough hj, decide_eq_true_iff]
        exact Nat.le_trans hi hmono)
      hmax (by rw [henough (Nat.le_refl _), decide_eq_true_iff]; exact Nat.le_of_not_lt hfew)
    generalize bisect _ 1 _ = low at hlow hhigh hfound hbefore ⊢
    rw [henough hhigh, decide_eq_true_iff] at hfound
    have hless : ∀ i < low, countUpTo (worksAtDistance calendar forward start.ordinal) i < steps.natAbs := by
      intro i hi
      by_cases hfirst : i = 0
      · rw [hfirst]
        exact hpos
      · have hnot := hbefore i (by omega) hi
        rw [henough (by omega), decide_eq_false_iff_not] at hnot
        exact Nat.lt_of_not_le hnot
    have hexact : countUpTo (worksAtDistance calendar forward start.ordinal) low = steps.natAbs := by
      obtain ⟨before, rfl⟩ : ∃ before, low = before + 1 := ⟨low - 1, by omega⟩
      have hprevious := hless before (Nat.lt_succ_self before)
      have hnext : countUpTo (worksAtDistance calendar forward start.ordinal) (before + 1) ≤
          countUpTo (worksAtDistance calendar forward start.ordinal) before + 1 := by
        show _ + (if _ then 1 else 0) ≤ _
        apply Nat.add_le_add_left
        split
        · exact Nat.le_refl 1
        · exact Nat.zero_le 1
      omega
    refine Or.inr ⟨low, hhigh, ?_, hexact, hless⟩
    unfold fromOrdinal
    rw [(dayAt_ordinal hhigh).1]

theorem dayWalk_addWorkingDays (start : Day) (steps : ℤ) :
    DayWalk calendar (decide (0 < steps)) start steps.natAbs (addWorkingDays calendar start steps) := by
  by_cases hsteps : steps = 0
  · subst hsteps
    exact Walk.arrived start
  unfold DayWalk
  rcases addWorkingDays_cases h start hsteps with ⟨hresult, hfew⟩ | ⟨low, hle, hresult, hexact, hless⟩
  · rw [hresult, ← dayAt_zero (decide (0 < steps)) start]
    apply @walk_leaves Day FormulaError _ _ _ _ (worksAtDistance calendar (decide (0 < steps)) start.ordinal)
      (distanceToEnd (decide (0 < steps)) start.ordinal)
    · exact fun i hi => stepDay_dayAt hi
    · exact stepDay_last _ _
    · exact fun i hi => isWorkingDay_dayAt h (Nat.succ_le_of_lt hi)
    · exact Nat.zero_le _
    · exact Nat.lt_of_lt_of_le hfew (Nat.le_add_left _ _)
  · rw [hresult]
    have hwalk := @walk_reaches Day FormulaError (stepDay (decide (0 < steps))) (isWorkingDay calendar) .overflow
      (dayAt (decide (0 < steps)) start) (worksAtDistance calendar (decide (0 < steps)) start.ordinal) low 0
      steps.natAbs (fun i hi => stepDay_dayAt (Nat.lt_of_lt_of_le hi hle))
      (fun i hi => isWorkingDay_dayAt h (Nat.le_trans (Nat.succ_le_of_lt hi) hle))
      (fun i hi => by rw [hexact]; exact hless i hi) (Nat.zero_le _) (by rw [hexact]; exact (Nat.zero_add _).symm)
    rwa [dayAt_zero] at hwalk

theorem diffWorkingDays_eq {distance : ℕ} (hpos : 0 < distance) (hle : distance ≤ distanceToEnd forward start.ordinal) :
    diffWorkingDays calendar start (dayAt forward start distance) =
      .ok (if forward then (countUpTo (worksAtDistance calendar forward start.ordinal) distance : ℤ)
        else -(countUpTo (worksAtDistance calendar forward start.ordinal) distance : ℤ)) := by
  obtain ⟨c, hcorrections, hc⟩ := exists_corrections h
  have hcount := countDistance_eq hc start.pos start.le hle
  obtain ⟨-, hordinal⟩ := dayAt_ordinal hle
  have hne : start ≠ dayAt forward start distance := by
    intro heq
    rw [← heq] at hordinal
    have := start.pos
    unfold ordinalAt at hordinal
    unfold distanceToEnd at hle
    cases forward with
    | true => simp only [if_true] at hordinal; omega
    | false => simp only [Bool.false_eq_true, if_false] at hordinal hle; omega
  unfold diffWorkingDays
  rw [if_neg hne, hcorrections]
  simp only [bind, Except.bind, pure, Except.pure]
  rw [hordinal]
  unfold countDistance at hcount
  unfold ordinalAt
  have := start.pos
  cases forward with
  | true =>
    rw [if_pos rfl] at hcount ⊢
    rw [if_pos (by omega), hcount]
    rfl
  | false =>
    rw [if_neg Bool.false_ne_true] at hcount ⊢
    rw [if_neg (by omega), hcount]
    rfl

theorem walkCount_distance {distance : ℕ} (hle : distance ≤ distanceToEnd forward start.ordinal) :
    walkCount (stepDay forward) (isWorkingDay calendar) .overflow distance start =
      .ok (countUpTo (worksAtDistance calendar forward start.ordinal) distance) := by
  have hcount := @walkCount_path Day FormulaError (stepDay forward) (isWorkingDay calendar) .overflow
    (dayAt forward start) (worksAtDistance calendar forward start.ordinal) distance
    (fun i hi => stepDay_dayAt (Nat.lt_of_lt_of_le hi hle))
    (fun i hi => isWorkingDay_dayAt h (Nat.le_trans (Nat.succ_le_of_lt hi) hle)) 0 distance (Nat.zero_add _)
  rw [dayAt_zero] at hcount
  exact hcount

end

theorem dayAt_of_ordinal {stop : Day} {distance : ℕ}
    (h : ordinalAt forward start.ordinal distance = stop.ordinal) : dayAt forward start distance = stop := by
  unfold dayAt
  rw [h, ofOrdinal_ordinal]
  rfl

theorem diffWorkingDays_eq_dayWalkCount (h : Readable calendar) (start stop : Day) :
    diffWorkingDays calendar start stop = dayWalkCount calendar start stop := by
  have hstart := start.pos
  have hstop := stop.pos
  have hlast := stop.le
  rcases Nat.lt_trichotomy start.ordinal stop.ordinal with hlt | heq | hgt
  · have hle : stop.ordinal - start.ordinal ≤ distanceToEnd true start.ordinal := by
      unfold distanceToEnd
      rw [if_pos rfl]
      omega
    have hday := @dayAt_of_ordinal true start stop (stop.ordinal - start.ordinal) (by
      unfold ordinalAt
      rw [if_pos rfl]
      omega)
    have hdiff := diffWorkingDays_eq h (by omega) hle
    rw [hday] at hdiff
    unfold dayWalkCount
    rw [decide_eq_true hlt]
    dsimp only
    rw [hdiff, if_pos rfl, if_pos rfl, walkCount_distance h hle]
    rfl
  · have hsame : start = stop := by
      rw [← Option.some_inj, ← ofOrdinal_ordinal, ← ofOrdinal_ordinal stop, heq]
    subst hsame
    unfold diffWorkingDays dayWalkCount
    rw [if_pos rfl, decide_eq_false (Nat.lt_irrefl _), Nat.sub_self]
    rfl
  · have hle : start.ordinal - stop.ordinal ≤ distanceToEnd false start.ordinal := by
      unfold distanceToEnd
      rw [if_neg Bool.false_ne_true]
      omega
    have hday := @dayAt_of_ordinal false start stop (start.ordinal - stop.ordinal) (by
      unfold ordinalAt
      rw [if_neg Bool.false_ne_true]
      omega)
    have hdiff := diffWorkingDays_eq h (by omega) hle
    rw [hday] at hdiff
    unfold dayWalkCount
    rw [decide_eq_false (Nat.lt_asymm hgt)]
    dsimp only
    rw [hdiff, if_neg Bool.false_ne_true, if_neg Bool.false_ne_true, walkCount_distance h hle]
    rfl

theorem diffWorkingDays_addWorkingDays (h : Readable calendar)
    (hadd : addWorkingDays calendar start steps = .ok day) : diffWorkingDays calendar start day = .ok steps := by
  by_cases hsteps : steps = 0
  · subst hsteps
    obtain rfl : start = day := Except.ok.inj hadd
    unfold diffWorkingDays
    rw [if_pos rfl]
  · rcases addWorkingDays_cases h start hsteps with ⟨hresult, -⟩ | ⟨low, hle, hresult, hexact, -⟩
    · rw [hadd] at hresult
      cases hresult
    rw [hadd] at hresult
    rw [Except.ok.inj hresult]
    have hpos : 0 < low := by
      apply Nat.pos_of_ne_zero
      intro hzero
      rw [hzero] at hexact
      exact hsteps (Int.natAbs_eq_zero.mp hexact.symm)
    rw [diffWorkingDays_eq h hpos hle, hexact]
    congr 1
    by_cases hforward : 0 < steps
    · rw [decide_eq_true hforward, if_pos rfl]
      omega
    · rw [decide_eq_false hforward, if_neg Bool.false_ne_true]
      omega

/-! ## Calendars that cannot be read -/

theorem foldlM_correctYear_unreadable {entries : List (String × Value)}
    (hmem : entry ∈ entries) (h : ∀ c, correctYear calendar c entry = .error .malformed)
    (hall : ∀ entry ∈ entries, ∀ c e, correctYear calendar c entry = .error e → e = .malformed) (c : Dict ℕ ℤ) :
    entries.foldlM (correctYear calendar) c = .error .malformed := by
  induction entries generalizing c with
  | nil => exact absurd hmem not_mem_nil
  | cons first entries ih =>
    rw [foldlM_cons]
    rw [forall_mem_cons] at hall
    cases hfirst : correctYear calendar c first with
    | error e =>
      rw [hall.1 c e hfirst]
      rfl
    | ok c' =>
      rcases mem_cons.mp hmem with rfl | hlater
      · rw [h c] at hfirst
        cases hfirst
      · exact ih hlater hall.2 c'

theorem setOf_error {value : Option Value} (h : setOf value = .error e) : e = .malformed := by
  unfold setOf at h
  split at h
  · cases h
  split at h
  · cases h
  split at h
  · split at h <;> cases h
    rfl
  · cases h
  · cases h
  · cases h
    rfl

theorem isWorkingDay_error (h : isWorkingDay calendar day = .error e) : e = .malformed := by
  unfold isWorkingDay at h
  split at h
  · cases h
  · rename_i config _
    cases hweekends : yearField "working_weekends" config with
    | error e' =>
      rw [hweekends] at h
      cases h
      exact setOf_error hweekends
    | ok weekends =>
      rw [hweekends] at h
      simp only [bind, Except.bind, pure, Except.pure] at h
      split at h
      · cases h
      split at h
      · cases h
      cases hholidays : yearField "holidays" config with
      | error e' =>
        rw [hholidays] at h
        cases h
        exact setOf_error hholidays
      | ok holidays =>
        rw [hholidays] at h
        cases h
  · cases h
    rfl

theorem correctEntry_error {year : String} (h : correctEntry calendar year c value = .error e) : e = .malformed := by
  unfold correctEntry at h
  split at h
  · split at h
    · cases h
    rename_i day _
    split at h
    · cases h
    cases hworking : isWorkingDay calendar day with
    | error e' =>
      rw [hworking] at h
      cases h
      exact isWorkingDay_error hworking
    | ok working =>
      rw [hworking] at h
      simp only [bind, Except.bind, pure, Except.pure] at h
      split at h <;> cases h
  · cases h

theorem correctYear_error (h : correctYear calendar c entry = .error e) : e = .malformed := by
  unfold correctYear at h
  split at h
  · rename_i config _
    cases hholidays : yearField "holidays" config with
    | error e' =>
      rw [hholidays] at h
      cases h
      exact setOf_error hholidays
    | ok holidays =>
      cases hweekends : yearField "working_weekends" config with
      | error e' =>
        rw [hholidays, hweekends] at h
        cases h
        exact setOf_error hweekends
      | ok weekends =>
        rw [hholidays, hweekends] at h
        simp only [bind, Except.bind] at h
        generalize (holidays ++ weekends).dedup = values at h
        induction values generalizing c with
        | nil => cases h
        | cons value values ih =>
          rw [foldlM_cons] at h
          cases hvalue : correctEntry calendar entry.1 c value with
          | error e' =>
            rw [hvalue] at h
            cases h
            exact correctEntry_error hvalue
          | ok c' =>
            rw [hvalue] at h
            exact ih h
  · cases h

theorem workingDayCorrections_unreadable (h : ¬ListsReadable calendar) :
    workingDayCorrections calendar = .error .malformed := by
  unfold ListsReadable at h
  simp only [not_forall] at h
  obtain ⟨year, config, hconfig, hlists⟩ := h
  apply foldlM_correctYear_unreadable ((Dict.mem_entries_iff calendar _ _).mpr hconfig)
  · intro c
    unfold correctYear
    dsimp only
    cases hholidays : yearField "holidays" config with
    | error e => rw [setOf_error hholidays]; rfl
    | ok holidays =>
      cases hweekends : yearField "working_weekends" config with
      | error e => rw [setOf_error hweekends]; rfl
      | ok weekends =>
        rw [hholidays, hweekends] at hlists
        exact absurd ⟨rfl, rfl⟩ hlists
  · exact fun _ _ _ _ => correctYear_error

theorem addWorkingDays_of_corrections (hc : workingDayCorrections calendar = .ok c) (start : Day)
    (steps : ℤ) : addWorkingDays calendar start steps ≠ .error .malformed := by
  unfold addWorkingDays
  rw [hc]
  simp only [bind, Except.bind]
  split
  · exact fun h => by cases h
  split
  · exact fun h => by cases h
  · unfold fromOrdinal
    split <;> exact fun h => by cases h

theorem agreesWithWalk_of_readable (h : Readable calendar) : AgreesWithWalk calendar where
  added := dayWalk_addWorkingDays h
  subtracted := diffWorkingDays_eq_dayWalkCount h
  roundTrip := fun _ _ _ hadd => diffWorkingDays_addWorkingDays h hadd

theorem listsReadable_of_agrees (h : AgreesWithWalk calendar) : ListsReadable calendar := by
  by_contra hlists
  have hlast : 1 ≤ maxOrdinal := by decide
  have hadd : addWorkingDays calendar ⟨maxOrdinal, hlast, Nat.le_refl _⟩ 1 = .error .malformed := by
    unfold addWorkingDays
    rw [if_neg one_ne_zero, workingDayCorrections_unreadable hlists]
    rfl
  have hwalk := h.added ⟨maxOrdinal, hlast, Nat.le_refl _⟩ 1
  rw [hadd] at hwalk
  have hleave : DayWalk calendar (decide ((0 : ℤ) < 1)) ⟨maxOrdinal, hlast, Nat.le_refl _⟩ 1 (.error .overflow) := by
    apply Walk.leave
    unfold stepDay Day.ofOrdinal
    rw [if_pos (by decide), dif_neg]
    exact fun hle => Nat.not_succ_le_self maxOrdinal hle.2
  cases hwalk.unique hleave

theorem objects_of_agrees (h : AgreesWithWalk calendar) (day : Day)
    (hvalue : calendar.get? (toString day.year) = some value) : ∃ config, value = .obj config := by
  obtain ⟨c, hc, -⟩ := workingDayCorrections_spec (listsReadable_of_agrees h)
  obtain ⟨hpos, hbound, -, -⟩ := day.year_spec
  -- the first two days of the year
  have hyear := daysBeforeYear_succ hpos
  have hlong : 365 ≤ (monthLengths day.year).sum := by
    rw [sum_monthLengths]
    split <;> omega
  have hrange : daysBeforeYear (day.year + 1) ≤ maxOrdinal := by
    rw [← daysBeforeYear_last]
    exact daysBeforeYear_mono (by omega) (by omega)
  have hsecond : Day.ofOrdinal (daysBeforeYear day.year + 2) =
      some ⟨daysBeforeYear day.year + 2, by omega, by omega⟩ := dif_pos ⟨by omega, by omega⟩
  have hsame : (⟨daysBeforeYear day.year + 2, by omega, by omega⟩ : Day).year = day.year :=
    yearOf_eq hpos (Nat.lt_add_of_pos_right (Nat.succ_pos 1))
      (show daysBeforeYear day.year + 2 ≤ daysBeforeYear (day.year + 1) by omega)
  by_contra hnone
  have htest : isWorkingDay calendar ⟨daysBeforeYear day.year + 2, by omega, by omega⟩ = .error .malformed := by
    unfold isWorkingDay
    rw [hsame, hvalue]
    cases value with
    | obj config => exact absurd ⟨config, rfl⟩ hnone
    | _ => rfl
  have hbroken : DayWalk calendar (decide ((0 : ℤ) < 1)) ⟨daysBeforeYear day.year + 1, by omega, by omega⟩ 1
      (.error .malformed) := Walk.broken _ _ _ _ hsecond htest
  have hwalk := h.added ⟨daysBeforeYear day.year + 1, by omega, by omega⟩ 1
  exact addWorkingDays_of_corrections hc _ _ (hwalk.unique hbroken)

/-- The arithmetic of working days agrees with the walk in the calendars that can be read, and in no others. -/
theorem agreesWithWalk_iff (calendar : HolidayCalendar) : AgreesWithWalk calendar ↔ Readable calendar := by
  constructor
  · intro h
    exact ⟨fun day _ hvalue => objects_of_agrees h day hvalue, listsReadable_of_agrees h⟩
  · exact agreesWithWalk_of_readable

def nullYear : HolidayCalendar := Dict.empty.set "2024" .null

def thursday : Day := ⟨738889, by decide, by decide⟩

/-- From the Thursday a step leads to a working day, which the walk cannot tell of the null year. -/
theorem nullYear_not_agrees : ¬AgreesWithWalk nullYear := by
  intro h
  have hvalue : nullYear.get? (toString thursday.year) = some .null := by
    have hyear : thursday.year = 2024 := by decide
    rw [hyear]
    rfl
  obtain ⟨config, hconfig⟩ := objects_of_agrees h thursday hvalue
  cases hconfig

/-- Working days are added in one go or one part after the other, forward or backward, and where the first part raises the sum
raises the same. -/
theorem addWorkingDays_add (h : Readable calendar) (start : Day) {first second : ℤ}
    (hsigns : 0 ≤ first ∧ 0 ≤ second ∨ first ≤ 0 ∧ second ≤ 0) :
    (addWorkingDays calendar start first).bind (addWorkingDays calendar · second) =
      addWorkingDays calendar start (first + second) := by
  by_cases hfirst : first = 0
  · subst hfirst
    rw [zero_add]
    rfl
  by_cases hsecond : second = 0
  · subst hsecond
    rw [add_zero]
    cases addWorkingDays calendar start first with
    | error e => rfl
    | ok middle => rfl
  have hwalk := dayWalk_addWorkingDays h start (first + second)
  have hforward : decide (0 < second) = decide (0 < first) ∧ decide (0 < first + second) = decide (0 < first) := by
    constructor <;> apply decide_eq_decide.mpr <;> omega
  rw [hforward.2, show (first + second).natAbs = first.natAbs + second.natAbs by omega] at hwalk
  refine (Walk.trans (dayWalk_addWorkingDays h start first) fun middle _ => ?_).unique hwalk
  have hafter := dayWalk_addWorkingDays h middle second
  rwa [hforward.1] at hafter

/-- A Friday off, and a Saturday worked instead. -/
def bridgedYear : HolidayCalendar :=
  Dict.empty.set "2024" (.obj [("holidays", .arr [.str "2024-01-05"]), ("working_weekends", .arr [.str "2024-01-06"])])

theorem addWorkingDays_add_thursday :
    (addWorkingDays bridgedYear thursday 2).bind (addWorkingDays bridgedYear · 3) =
      addWorkingDays bridgedYear thursday (2 + 3) := by
  have hyear {year value} (h : bridgedYear.get? year = some value) : value =
      .obj [("holidays", .arr [.str "2024-01-05"]), ("working_weekends", .arr [.str "2024-01-06"])] := by
    have hmem := (Dict.mem_entries_iff _ _ _).mpr h
    exact (Prod.mk.inj (mem_singleton.mp hmem)).2
  refine addWorkingDays_add ⟨fun _ _ hvalue => ⟨_, hyear hvalue⟩, fun _ config hconfig => ?_⟩ thursday (.inl (by decide))
  cases hyear hconfig
  exact ⟨by decide, by decide⟩

end Bidding.Holidays
