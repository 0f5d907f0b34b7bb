import Mathlib.Data.List.Dedup
import Bidding.Foundations.Json
import Bidding.Foundations.Dates
import Bidding.Foundations.Walks

/-!
# Working days

A working day is a weekday that is no holiday, or a day that is listed as working. Days are added by a binary search: the
weekdays of an interval are counted by a formula and corrected by the days on which the calendar differs from the week.
-/

namespace Bidding.Holidays

open Foundations

/-- What an evaluation fails with: a date out of range, or a calendar that cannot be read. -/
inductive FormulaError where
  | overflow
  | malformed
  deriving DecidableEq

/-- `holidays_data`, by year; what is no object has no years. -/
abbrev HolidayCalendar := Dict String Value

def falsy : Value → Bool
  | .null | .bool false | .num 0 | .str "" | .arr [] | .obj [] => true
  | _ => false

def hashable : Value → Bool
  | .arr _ | .obj _ => false
  | _ => true

/-- `set(value or [])`. -/
def setOf (value : Option Value) : Except FormulaError (List Value) :=
  match value with
  | none => .ok []
  | some value =>
    if falsy value then .ok []
    else
      match value with
      | .arr xs => if xs.all hashable then .ok xs else .error .malformed
      | .str text => .ok (text.toList.map fun c => .str (String.singleton c))
      | .obj fields => .ok (fields.map fun field => .str field.1)
      | _ => .error .malformed

def yearField (name : String) (config : List (String × Value)) : Except FormulaError (List Value) :=
  setOf (Dict.lookup name config)

variable (calendar : HolidayCalendar)

def isWorkingDay (day : Day) : Except FormulaError Bool :=
  match calendar.get? (toString day.year) with
  | none => .ok (decide (weekday day.ordinal < 5))
  | some (.obj config) => do
    let weekends ← yearField "working_weekends" config
    if .str day.isoformat ∈ weekends then return true
    if 5 ≤ weekday day.ordinal then return false
    let holidays ← yearField "holidays" config
    return decide (.str day.isoformat ∉ holidays)
  | some _ => .error .malformed

def correction (working : Bool) (n : ℕ) : ℤ := (if working then 1 else 0) - if weekday n < 5 then 1 else 0

/-- An entry of a year in `_working_day_corrections`. -/
def correctEntry (year : String) (corrections : Dict ℕ ℤ) (value : Value) : Except FormulaError (Dict ℕ ℤ) :=
  match value with
  | .str text =>
    match Day.fromIsoformat text with
    | none => .ok corrections
    | some day =>
      if day.isoformat ≠ text ∨ toString day.year ≠ year then .ok corrections
      else do
        let working ← isWorkingDay calendar day
        if correction working day.ordinal ≠ 0 then return corrections.set day.ordinal (correction working day.ordinal)
        return corrections
  | _ => .ok corrections

/-- A year in `_working_day_corrections`. -/
def correctYear (corrections : Dict ℕ ℤ) (entry : String × Value) : Except FormulaError (Dict ℕ ℤ) :=
  match entry.2 with
  | .obj config => do
    let holidays ← yearField "holidays" config
    let weekends ← yearField "working_weekends" config
    (holidays ++ weekends).dedup.foldlM (correctEntry calendar entry.1) corrections
  | _ => .ok corrections

def workingDayCorrections : Except FormulaError (Dict ℕ ℤ) :=
  calendar.entries.foldlM (correctYear calendar) Dict.empty

def countWorkingDays (first last : ℕ) (corrections : Dict ℕ ℤ) : ℤ :=
  if last < first then 0
  else
    let days := last - first + 1
    let total := days / 7 * 5 +
      ((List.range (days % 7)).map fun offset => if ((first - 1) % 7 + offset) % 7 < 5 then 1 else 0).sum
    total + ((corrections.entries.filter fun entry => first ≤ entry.1 && entry.1 ≤ last).map Prod.snd).sum

variable (forward : Bool)

def distanceToEnd (origin : ℕ) : ℕ := if forward then maxOrdinal - origin else origin - 1

def countDistance (corrections : Dict ℕ ℤ) (forward : Bool) (origin distance : ℕ) : ℤ :=
  if forward then countWorkingDays (origin + 1) (origin + distance) corrections
  else countWorkingDays (origin - distance) (origin - 1) corrections

def ordinalAt (origin distance : ℕ) : ℕ := if forward then origin + distance else origin - distance

def fromOrdinal (n : ℕ) : Except FormulaError Day :=
  match Day.ofOrdinal n with
  | some day => .ok day
  | none => .error .overflow

def addWorkingDays (start : Day) (steps : ℤ) : Except FormulaError Day :=
  if steps = 0 then .ok start
  else do
    let forward := decide (0 < steps)
    let maximum := distanceToEnd forward start.ordinal
    let corrections ← workingDayCorrections calendar
    if countDistance corrections forward start.ordinal maximum < |steps| then throw .overflow
    let low := bisect (fun distance => decide (|steps| ≤ countDistance corrections forward start.ordinal distance)) 1 maximum
    fromOrdinal (ordinalAt forward start.ordinal low)

def diffWorkingDays (start stop : Day) : Except FormulaError ℤ :=
  if start = stop then .ok 0
  else do
    let corrections ← workingDayCorrections calendar
    if start.ordinal < stop.ordinal then return countWorkingDays (start.ordinal + 1) stop.ordinal corrections
    return -countWorkingDays stop.ordinal (start.ordinal - 1) corrections

def stepDay (day : Day) : Option Day :=
  if forward then Day.ofOrdinal (day.ordinal + 1) else Day.ofOrdinal (day.ordinal - 1)

def DayWalk : Day → ℕ → Except FormulaError Day → Prop :=
  Walk (stepDay forward) (isWorkingDay calendar) .overflow

def dayWalkCount (calendar : HolidayCalendar) (start stop : Day) : Except FormulaError ℤ :=
  let forward := decide (start.ordinal < stop.ordinal)
  let days := if forward then stop.ordinal - start.ordinal else start.ordinal - stop.ordinal
  (walkCount (stepDay forward) (isWorkingDay calendar) .overflow days start).map fun count : ℕ =>
    if forward then (count : ℤ) else -(count : ℤ)

/-- The arithmetic of working days agrees with the walk. -/
structure AgreesWithWalk (calendar : HolidayCalendar) : Prop where
  added : ∀ start steps, DayWalk calendar (decide (0 < steps)) start steps.natAbs (addWorkingDays calendar start steps)
  subtracted : ∀ start stop, diffWorkingDays calendar start stop = dayWalkCount calendar start stop
  roundTrip : ∀ start steps day, addWorkingDays calendar start steps = .ok day → diffWorkingDays calendar start day = .ok steps

/-- A calendar that can be read: its years are objects, and their lists are lists of values. -/
structure Readable (calendar : HolidayCalendar) : Prop where
  objects : ∀ day : Day, ∀ value, calendar.get? (toString day.year) = some value → ∃ config, value = .obj config
  lists : ∀ year config, calendar.get? year = some (.obj config) →
    (yearField "holidays" config).isOk = true ∧ (yearField "working_weekends" config).isOk = true

end Bidding.Holidays
