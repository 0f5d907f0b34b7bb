import Bidding.Foundations.ContentLines
import Bidding.Foundations.Dates

/-!
# The calendar export of deadlines

Each dated deadline becomes an event of a calendar text. Codes, names, labels and details are escaped and their lines
are folded at 74 octets; the link of an event is folded, but not escaped.
-/

namespace Bidding.Deadlines

open Foundations

/-- A row of `normalize_deadline_item`, as far as the calendar reads it. -/
structure DeadlineItem where
  id : List Char
  code : List Char
  name : List Char
  label : List Char
  detail : List Char
  dueDate : Option Day
  route : List Char

structure Timestamp where
  day : Day
  second : ℕ
  lt : second < 86400

inductive CalendarError where
  | overflow
  deriving DecidableEq

def icsMaxEvents : ℕ := 500

/-- `text.replace(c, new)` for a character. -/
def replaceChar (c : Char) (new text : List Char) : List Char := text.flatMap fun d => if d = c then new else [d]

/-- `text.replace("\r\n", new)`. -/
def replaceCrlf (new : List Char) : List Char → List Char
  | [] => []
  | '\r' :: '\n' :: rest => new ++ replaceCrlf new rest
  | c :: rest => c :: replaceCrlf new rest

def icsEscape (value : List Char) : List Char :=
  replaceChar '\n' ['\\', 'n'] (replaceCrlf ['\\', 'n']
      (replaceChar ',' ['\\', ','] (replaceChar ';' ['\\', ';'] (replaceChar '\\' ['\\', '\\'] value))))

/-- A character in the loop of `_ics_fold`. -/
def foldStep (state : List (List Char) × List Char) (c : Char) : List (List Char) × List Char :=
  if 74 < octets state.2 + c.utf8Size then (state.1 ++ [state.2], [c]) else (state.1, state.2 ++ [c])

/-- The pieces of `_ics_fold`. -/
def icsPieces (line : List Char) : List (List Char) :=
  if octets line ≤ 75 then [line]
  else (line.foldl foldStep ([], [])).1 ++ [(line.foldl foldStep ([], [])).2]

def icsFold (line : List Char) : List Char := foldedText (icsPieces line)

/-- `%Y%m%d` of a day. -/
def dayDigits (day : Day) : List Char := fourDigits day.year ++ twoDigits day.monthDay.1 ++ twoDigits day.monthDay.2

/-- `%Y%m%dT%H%M%SZ` of a moment. -/
def stampText (now : Timestamp) : List Char :=
  dayDigits now.day ++ ['T'] ++ twoDigits (now.second / 3600) ++ twoDigits (now.second / 60 % 60) ++
    twoDigits (now.second % 60) ++ ['Z']

def nextDay (day : Day) : Except CalendarError Day :=
  match Day.ofOrdinal (day.ordinal + 1) with
  | some next => .ok next
  | none => .error .overflow

def summaryOf (item : DeadlineItem) : List Char :=
  if item.code = [] then item.label else '[' :: item.code ++ "] ".toList ++ item.label

def descriptionOf (item : DeadlineItem) : List Char :=
  if item.detail = [] then item.name
  else if item.name = [] then item.detail else item.name ++ " - ".toList ++ item.detail

def beginEvent : List Char := "BEGIN:VEVENT".toList

def hexDigit (digit : Fin 16) : Char := Nat.digitChar digit

section Calendar

-- the hexadecimal digits of a SHA-256 digest
variable (sha256 : List Char → List (Fin 16))

def eventUid (item : DeadlineItem) (start : Day) : List Char :=
  ((sha256 (item.id ++ ['|'] ++ start.isoformat.toList)).take 32).map hexDigit

def eventLines (publicUrl : List Char) (now : Timestamp) (item : DeadlineItem) (start : Day) :
    Except CalendarError (List (List Char)) := do
  let stop ← nextDay start
  return [beginEvent, "UID:".toList ++ eventUid sha256 item start ++ "@biddingflow".toList,
    "DTSTAMP:".toList ++ stampText now, "DTSTART;VALUE=DATE:".toList ++ dayDigits start,
    "DTEND;VALUE=DATE:".toList ++ dayDigits stop, icsFold ("SUMMARY:".toList ++ icsEscape (summaryOf item)),
    icsFold ("DESCRIPTION:".toList ++ icsEscape (descriptionOf item))] ++
    (if publicUrl = [] then [] else [icsFold ("URL:".toList ++ publicUrl ++ item.route)]) ++
    ["BEGIN:VALARM".toList, "TRIGGER:-P1D".toList, "ACTION:DISPLAY".toList,
      icsFold ("DESCRIPTION:".toList ++ icsEscape (summaryOf item)), "END:VALARM".toList, "END:VEVENT".toList]

def calendarHead : List (List Char) :=
  ["BEGIN:VCALENDAR".toList, "VERSION:2.0".toList, "PRODID:-//BiddingFlow//Deadline Center//VI".toList,
    "CALSCALE:GREGORIAN".toList, "X-WR-CALNAME:BiddingFlow - Hạn chót".toList]

/-- An item in the loop of `build_deadline_calendar`. -/
def addEvent (publicUrl : List Char) (now : Timestamp) (lines : List (List Char)) (item : DeadlineItem) :
    Except CalendarError (List (List Char)) :=
  match item.dueDate with
  | none => .ok lines
  | some start => (eventLines sha256 publicUrl now item start).map fun event => lines ++ event

variable (items : List DeadlineItem)

variable (publicUrl : List Char)

variable (now : Timestamp)

def buildDeadlineCalendar : Except CalendarError (List Char) := do
  let lines ← (items.take icsMaxEvents).foldlM (addEvent sha256 publicUrl now) calendarHead
  return List.intercalate crlf (lines ++ ["END:VCALENDAR".toList]) ++ crlf

def calendarEvents : List (DeadlineItem × Day × Day) :=
  (items.take icsMaxEvents).filterMap fun item =>
    item.dueDate.bind fun start => (Day.ofOrdinal (start.ordinal + 1)).map fun stop => (item, start, stop)

/-- The content lines of an event. -/
def eventContent (event : DeadlineItem × Day × Day) : List (List Char) :=
  [beginEvent, "UID:".toList ++ eventUid sha256 event.1 event.2.1 ++ "@biddingflow".toList,
    "DTSTAMP:".toList ++ stampText now, "DTSTART;VALUE=DATE:".toList ++ dayDigits event.2.1,
    "DTEND;VALUE=DATE:".toList ++ dayDigits event.2.2, "SUMMARY:".toList ++ icsEscape (summaryOf event.1),
    "DESCRIPTION:".toList ++ icsEscape (descriptionOf event.1)] ++
    (if publicUrl = [] then [] else ["URL:".toList ++ publicUrl ++ event.1.route]) ++
    ["BEGIN:VALARM".toList, "TRIGGER:-P1D".toList, "ACTION:DISPLAY".toList,
      "DESCRIPTION:".toList ++ icsEscape (summaryOf event.1), "END:VALARM".toList, "END:VEVENT".toList]

def contentLines : List (List Char) :=
  calendarHead ++ (calendarEvents items).flatMap (eventContent sha256 publicUrl now) ++ ["END:VCALENDAR".toList]

def icsUnescape : List Char → List Char
  | [] => []
  | '\\' :: c :: rest => (if c = 'n' ∨ c = 'N' then '\n' else c) :: icsUnescape rest
  | c :: rest => c :: icsUnescape rest

def normalizeBreaks (text : List Char) : List Char := replaceCrlf ['\n'] text

/-- A calendar text says what was intended: its physical lines are short, its content lines are the intended ones,
which no text has broken, its texts can be read back, and it has an event for every listed dated item. -/
structure CalendarIntact (items : List DeadlineItem) (publicUrl : List Char) (now : Timestamp) (out : List Char) : Prop where
  short : ∀ line ∈ splitCrlf out, octets line ≤ 75
  unfolded : splitCrlf (unfoldText out) = contentLines sha256 items publicUrl now ++ [[]]
  unbroken : ∀ line ∈ contentLines sha256 items publicUrl now, Unbroken line
  texts : ∀ item ∈ items, icsUnescape (icsEscape (summaryOf item)) = normalizeBreaks (summaryOf item) ∧
    icsUnescape (icsEscape (descriptionOf item)) = normalizeBreaks (descriptionOf item)
  events : (splitCrlf (unfoldText out)).count beginEvent =
    ((items.take icsMaxEvents).filter fun item => item.dueDate.isSome).length

def ExportIntact : Prop :=
  ∃ out, buildDeadlineCalendar sha256 items publicUrl now = .ok out ∧
    CalendarIntact sha256 items publicUrl now out

end Calendar

end Bidding.Deadlines
