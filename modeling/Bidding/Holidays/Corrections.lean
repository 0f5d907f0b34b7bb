import Bidding.Holidays.WorkingDays

/-!
# The corrections of a calendar

The corrections are the days on which the calendar differs from the week, each with its difference. So the count of
an interval by the formula is the number of its working days.
-/

namespace Bidding.Holidays

open Foundations List

def worksAt (calendar : HolidayCalendar) (n : ℕ) : Bool :=
  match Day.ofOrdinal n with
  | some day => (isWorkingDay calendar day).toOption.getD false
  | none => false

theorem ofOrdinal_ordinal (day : Day) : Day.ofOrdinal day.ordinal = some day := by
  unfold Day.ofOrdinal
  rw [dif_pos ⟨day.pos, day.le⟩]

variable {calendar : HolidayCalendar} {day : Day} {config : List (String × Value)} {holidays weekends : List Value} {year : String}

def ListsReadable (calendar : HolidayCalendar) : Prop :=
  ∀ year config, calendar.get? year = some (.obj config) →
    (yearField "holidays" config).isOk = true ∧ (yearField "working_weekends" config).isOk = true

theorem exists_ok_of_isOk {α ε : Type} {x : Except ε α} (h : x.isOk = true) : ∃ a, x = .ok a := by
  cases x with
  | error e => cases h
  | ok a => exact ⟨a, rfl⟩

theorem isWorkingDay_of_object (hconfig : calendar.get? (toString day.year) = some (.obj config))
    (hholidays : yearField "holidays" config = .ok holidays) (hweekends : yearField "working_weekends" config = .ok weekends) :
    isWorkingDay calendar day = .ok (decide (.str day.isoformat ∈ weekends) ||
      decide (weekday day.ordinal < 5) && decide (.str day.isoformat ∉ holidays)) := by
  unfold isWorkingDay
  rw [hconfig]
  dsimp only
  rw [hweekends, hholidays]
  simp only [bind, Except.bind, pure, Except.pure]
  by_cases hweekend : Value.str day.isoformat ∈ weekends
  · rw [if_pos hweekend]
    simp [hweekend]
  rw [if_neg hweekend]
  by_cases hrest : 5 ≤ weekday day.ordinal
  · rw [if_pos hrest]
    simp [hweekend, Nat.not_lt.mpr hrest]
  · rw [if_neg hrest]
    simp [hweekend, Nat.lt_of_not_le hrest]

theorem worksAt_of_ok {b : Bool} (h : isWorkingDay calendar day = .ok b) : worksAt calendar day.ordinal = b := by
  unfold worksAt
  rw [ofOrdinal_ordinal]
  dsimp only
  rw [h]
  rfl

theorem isWorkingDay_of_readable (h : Readable calendar) (day : Day) :
    isWorkingDay calendar day = .ok (worksAt calendar day.ordinal) := by
  have hok : ∃ b, isWorkingDay calendar day = .ok b := by
    cases hyear : calendar.get? (toString day.year) with
    | none =>
      refine ⟨decide (weekday day.ordinal < 5), ?_⟩
      unfold isWorkingDay
      rw [hyear]
    | some value =>
      obtain ⟨config, rfl⟩ := h.objects day value hyear
      obtain ⟨hholidays, hweekends⟩ := h.lists _ config hyear
      obtain ⟨holidays, hholidays⟩ := exists_ok_of_isOk hholidays
      obtain ⟨weekends, hweekends⟩ := exists_ok_of_isOk hweekends
      exact ⟨_, isWorkingDay_of_object hyear hholidays hweekends⟩
  obtain ⟨b, hb⟩ := hok
  rw [worksAt_of_ok hb]
  exact hb

/-! ## The loop over the calendar -/

def correctionAt (calendar : HolidayCalendar) (n : ℕ) : ℤ := correction (worksAt calendar n) n

def ListedDay (calendar : HolidayCalendar) (day : Day) : Prop :=
  ∃ config holidays weekends, calendar.get? (toString day.year) = some (.obj config) ∧
    yearField "holidays" config = .ok holidays ∧ yearField "working_weekends" config = .ok weekends ∧
      .str day.isoformat ∈ holidays ++ weekends

/-- The corrections that are there are right, and those from before are kept. -/
structure Corrected (calendar : HolidayCalendar) (before after : Dict ℕ ℤ) : Prop where
  right : (∀ n v, before.get? n = some v → v = correctionAt calendar n) →
    ∀ n v, after.get? n = some v → v = correctionAt calendar n
  kept : ∀ n, (before.get? n).isSome = true → (after.get? n).isSome = true

theorem Corrected.refl (c : Dict ℕ ℤ) : Corrected calendar c c := ⟨fun h => h, fun _ h => h⟩

theorem Corrected.trans {c c' c'' : Dict ℕ ℤ} (h : Corrected calendar c c') (h' : Corrected calendar c' c'') :
    Corrected calendar c c'' :=
  ⟨fun hright => h'.right (h.right hright), fun n hn => h'.kept n (h.kept n hn)⟩

theorem correctEntry_spec
    (hconfig : calendar.get? year = some (.obj config)) (hholidays : yearField "holidays" config = .ok holidays)
    (hweekends : yearField "working_weekends" config = .ok weekends) (c : Dict ℕ ℤ) (value : Value) :
    ∃ c', correctEntry calendar year c value = .ok c' ∧ Corrected calendar c c' ∧
      ∀ day : Day, value = .str day.isoformat → toString day.year = year → correctionAt calendar day.ordinal ≠ 0 →
        (c'.get? day.ordinal).isSome = true := by
  cases value with
  | str text =>
    unfold correctEntry
    dsimp only
    cases hparse : Day.fromIsoformat text with
    | none =>
      refine ⟨c, rfl, Corrected.refl c, fun day hday => ?_⟩
      rw [Value.str.inj hday, Day.fromIsoformat_isoformat] at hparse
      cases hparse
    | some day =>
      dsimp only
      by_cases hskip : day.isoformat ≠ text ∨ toString day.year ≠ year
      · rw [if_pos hskip]
        refine ⟨c, rfl, Corrected.refl c, fun day' hday' hyear' => ?_⟩
        rw [Value.str.inj hday', Day.fromIsoformat_isoformat] at hparse
        cases hparse
        rcases hskip with htext | hyear
        · exact absurd (Value.str.inj hday').symm htext
        · exact absurd hyear' hyear
      · rw [if_neg hskip]
        rw [not_or, not_not, not_not] at hskip
        obtain ⟨htext, hyear⟩ := hskip
        have hworking := isWorkingDay_of_object (hyear ▸ hconfig) hholidays hweekends
        have hworks := worksAt_of_ok hworking
        rw [← hworks] at hworking
        rw [hworking]
        simp only [bind, Except.bind, pure, Except.pure]
        by_cases hzero : correction (worksAt calendar day.ordinal) day.ordinal = 0
        · rw [if_neg (not_not.mpr hzero)]
          refine ⟨c, rfl, Corrected.refl c, fun day' hday' _ hnonzero => ?_⟩
          rw [← htext] at hday'
          rw [← Day.isoformat_injective (Value.str.inj hday')] at hnonzero
          exact absurd hzero hnonzero
        · rw [if_pos hzero]
          refine ⟨_, rfl, ⟨fun hright n v hv => ?_, fun n hn => ?_⟩, fun day' hday' _ _ => ?_⟩
          · rw [Dict.get?_set] at hv
            split at hv
            · rename_i heq
              subst heq
              exact (Option.some.inj hv).symm
            · exact hright n v hv
          · rw [Dict.get?_set]
            split
            · rfl
            · exact hn
          · rw [← htext] at hday'
            rw [← Day.isoformat_injective (Value.str.inj hday'), Dict.get?_set, if_pos rfl]
            rfl
  | _ => exact ⟨c, rfl, Corrected.refl c, fun day hday => by cases hday⟩

theorem foldlM_correctEntry
    (hconfig : calendar.get? year = some (.obj config)) (hholidays : yearField "holidays" config = .ok holidays)
    (hweekends : yearField "working_weekends" config = .ok weekends) (values : List Value) (c : Dict ℕ ℤ) :
    ∃ c', values.foldlM (correctEntry calendar year) c = .ok c' ∧ Corrected calendar c c' ∧
      ∀ day : Day, .str day.isoformat ∈ values → toString day.year = year → correctionAt calendar day.ordinal ≠ 0 →
        (c'.get? day.ordinal).isSome = true := by
  induction values generalizing c with
  | nil => exact ⟨c, rfl, Corrected.refl c, fun day hday => absurd hday not_mem_nil⟩
  | cons value values ih =>
    obtain ⟨c', hc', hcorrected, hadded⟩ := correctEntry_spec hconfig hholidays hweekends c value
    obtain ⟨c'', hc'', hcorrected', hadded'⟩ := ih c'
    refine ⟨c'', ?_, hcorrected.trans hcorrected', fun day hday hyear hnonzero => ?_⟩
    · rw [foldlM_cons, hc']
      exact hc''
    · rcases mem_cons.mp hday with heq | hlater
      · exact hcorrected'.kept _ (hadded day heq.symm hyear hnonzero)
      · exact hadded' day hlater hyear hnonzero

theorem foldlM_correctYear (hlists : ListsReadable calendar) (entries : List (String × Value))
    (hentries : ∀ entry ∈ entries, calendar.get? entry.1 = some entry.2) (c : Dict ℕ ℤ) :
    ∃ c', entries.foldlM (correctYear calendar) c = .ok c' ∧ Corrected calendar c c' ∧
      ∀ day : Day, ListedDay calendar day → toString day.year ∈ entries.map Prod.fst →
        correctionAt calendar day.ordinal ≠ 0 → (c'.get? day.ordinal).isSome = true := by
  induction entries generalizing c with
  | nil => exact ⟨c, rfl, Corrected.refl c, fun day _ hday => absurd hday not_mem_nil⟩
  | cons entry entries ih =>
    rw [forall_mem_cons] at hentries
    have hyear : ∃ c', correctYear calendar c entry = .ok c' ∧ Corrected calendar c c' ∧
        ∀ day : Day, ListedDay calendar day → toString day.year = entry.1 →
          correctionAt calendar day.ordinal ≠ 0 → (c'.get? day.ordinal).isSome = true := by
      unfold correctYear
      cases hvalue : entry.2 with
      | obj config =>
        have hconfig := hentries.1
        rw [hvalue] at hconfig
        obtain ⟨hholidays, hweekends⟩ := hlists _ _ hconfig
        obtain ⟨holidays, hholidays⟩ := exists_ok_of_isOk hholidays
        obtain ⟨weekends, hweekends⟩ := exists_ok_of_isOk hweekends
        obtain ⟨c', hc', hcorrected, hadded⟩ :=
          foldlM_correctEntry hconfig hholidays hweekends (holidays ++ weekends).dedup c
        refine ⟨c', ?_, hcorrected, fun day hlisted hday hnonzero => ?_⟩
        · dsimp only
          rw [hholidays, hweekends]
          exact hc'
        · obtain ⟨config', holidays', weekends', hconfig', hholidays', hweekends', hmem⟩ := hlisted
          rw [hday, hconfig] at hconfig'
          obtain rfl := Value.obj.inj (Option.some.inj hconfig')
          rw [hholidays] at hholidays'
          rw [hweekends] at hweekends'
          cases hholidays'
          cases hweekends'
          exact hadded day (mem_dedup.mpr hmem) hday hnonzero
      | _ =>
        refine ⟨c, rfl, Corrected.refl c, fun day hlisted hday => ?_⟩
        obtain ⟨config', -, -, hconfig', -, -, -⟩ := hlisted
        rw [hday, hentries.1, hvalue] at hconfig'
        cases hconfig'
    obtain ⟨c', hc', hcorrected, hadded⟩ := hyear
    obtain ⟨c'', hc'', hcorrected', hadded'⟩ := ih hentries.2 c'
    refine ⟨c'', ?_, hcorrected.trans hcorrected', fun day hlisted hday hnonzero => ?_⟩
    · rw [foldlM_cons, hc']
      exact hc''
    · rcases mem_cons.mp hday with heq | hlater
      · exact hcorrected'.kept _ (hadded day hlisted heq hnonzero)
      · exact hadded' day hlisted hlater hnonzero

theorem workingDayCorrections_spec (hlists : ListsReadable calendar) :
    ∃ c, workingDayCorrections calendar = .ok c ∧ (∀ n v, c.get? n = some v → v = correctionAt calendar n) ∧
      ∀ day : Day, ListedDay calendar day → correctionAt calendar day.ordinal ≠ 0 → (c.get? day.ordinal).isSome = true := by
  obtain ⟨c, hc, hcorrected, hadded⟩ := foldlM_correctYear hlists calendar.entries
    (fun entry hentry => (Dict.mem_entries_iff calendar entry.1 entry.2).mp hentry) Dict.empty
  have hempty (n : ℕ) (v : ℤ) (h : (Dict.empty : Dict ℕ ℤ).get? n = some v) : v = correctionAt calendar n := by
    exact absurd h (by simp [Dict.empty, Dict.get?, Dict.lookup])
  refine ⟨c, hc, hcorrected.right hempty, fun day hlisted => hadded day hlisted ?_⟩
  obtain ⟨config, -, -, hconfig, -, -, -⟩ := hlisted
  exact mem_map.mpr ⟨_, (Dict.mem_entries_iff calendar _ _).mpr hconfig, rfl⟩

theorem listedDay_of_correction (h : Readable calendar) (hnonzero : correctionAt calendar day.ordinal ≠ 0) :
    ListedDay calendar day := by
  have hworking := isWorkingDay_of_readable h day
  by_contra hunlisted
  apply hnonzero
  have hweek : worksAt calendar day.ordinal = decide (weekday day.ordinal < 5) := by
    cases hyear : calendar.get? (toString day.year) with
    | none =>
      apply worksAt_of_ok
      unfold isWorkingDay
      rw [hyear]
    | some value =>
      obtain ⟨config, rfl⟩ := h.objects day value hyear
      obtain ⟨hholidays, hweekends⟩ := h.lists _ config hyear
      obtain ⟨holidays, hholidays⟩ := exists_ok_of_isOk hholidays
      obtain ⟨weekends, hweekends⟩ := exists_ok_of_isOk hweekends
      have hfresh : Value.str day.isoformat ∉ holidays ++ weekends := fun hmem =>
        hunlisted ⟨config, holidays, weekends, hyear, hholidays, hweekends, hmem⟩
      rw [mem_append, not_or] at hfresh
      rw [worksAt_of_ok (isWorkingDay_of_object hyear hholidays hweekends)]
      simp [hfresh.1, hfresh.2]
  unfold correctionAt correction
  rw [hweek]
  simp

theorem exists_corrections (h : Readable calendar) : ∃ c, workingDayCorrections calendar = .ok c ∧
    ∀ n, 1 ≤ n → n ≤ maxOrdinal → (c.get? n).getD 0 = correctionAt calendar n := by
  obtain ⟨c, hc, hright, hadded⟩ := workingDayCorrections_spec h.lists
  refine ⟨c, hc, fun n hpos hle => ?_⟩
  cases hget : c.get? n with
  | some v => exact hright n v hget
  | none =>
    by_contra hnonzero
    have hday : (⟨n, hpos, hle⟩ : Day).ordinal = n := rfl
    have hsome := hadded ⟨n, hpos, hle⟩ (listedDay_of_correction h (Ne.symm hnonzero)) (Ne.symm hnonzero)
    rw [hday, hget] at hsome
    cases hsome

end Bidding.Holidays
