import Bidding.Deadlines.Calendar

/-!
# The export cannot be broken by text

Escaping leaves no line feed and can be undone, and folding cuts a line into pieces that an unfolding reader joins again,
provided no link holds a line break and no day is the last one.
-/

namespace Bidding.Deadlines

open Foundations List
open Option hiding map_id map_map

/-! ## Escaping -/

def escapeChar (c : Char) : List Char := if c = '\\' ∨ c = ';' ∨ c = ',' then ['\\', c] else [c]

def escapeOnce : List Char → List Char
  | [] => []
  | '\r' :: '\n' :: rest => '\\' :: 'n' :: escapeOnce rest
  | c :: rest => (if c = '\n' then ['\\', 'n'] else escapeChar c) ++ escapeOnce rest

variable (text : List Char) {c : Char} {rest : List Char} {state : List (List Char) × List Char} {line : List Char}

theorem flatMap_escapeChar : replaceChar ',' ['\\', ','] (replaceChar ';' ['\\', ';'] (replaceChar '\\' ['\\', '\\'] text)) =
    text.flatMap escapeChar := by
  induction text with
  | nil => rfl
  | cons c text ih =>
    unfold replaceChar at ih ⊢
    rw [flatMap_cons, flatMap_append, flatMap_append, ih, flatMap_cons]
    congr 1
    unfold escapeChar
    by_cases hslash : c = '\\'
    · subst hslash
      rfl
    rw [if_neg hslash, flatMap_singleton]
    by_cases hsemi : c = ';'
    · subst hsemi
      rfl
    · rw [if_neg hsemi, flatMap_singleton]
      by_cases hcomma : c = ','
      · subst hcomma
        rfl
      · simp [hslash, hsemi, hcomma]

theorem replaceCrlf_cons {new : List Char} (h : c = '\r' → rest.head? ≠ some '\n') :
    replaceCrlf new (c :: rest) = c :: replaceCrlf new rest := by
  conv_lhs => unfold replaceCrlf
  split
  · rename_i heq
    cases heq
  · rename_i heq
    obtain ⟨rfl, rfl⟩ := List.cons.inj heq
    exact absurd rfl (h rfl)
  · rename_i heq
    obtain ⟨rfl, rfl⟩ := List.cons.inj heq
    rfl

theorem head?_of_no_break (h : ∀ rest', c = '\r' → rest = '\n' :: rest' → False) : c = '\r' → rest.head? ≠ some '\n' := by
  intro hc hhead
  cases rest with
  | nil => cases hhead
  | cons c' rest' => exact h rest' hc (by rw [some.inj hhead])

theorem escapeChar_cases (c : Char) : (escapeChar c = ['\\', c] ∧ (c = '\\' ∨ c = ';' ∨ c = ',')) ∨
    (escapeChar c = [c] ∧ ¬(c = '\\' ∨ c = ';' ∨ c = ',')) := by
  unfold escapeChar
  by_cases hc : c = '\\' ∨ c = ';' ∨ c = ','
  · rw [if_pos hc]
    exact Or.inl ⟨rfl, hc⟩
  · rw [if_neg hc]
    exact Or.inr ⟨rfl, hc⟩

theorem head?_flatMap_escapeChar {text : List Char} (h : text.head? ≠ some '\n') :
    (text.flatMap escapeChar).head? ≠ some '\n' := by
  cases text with
  | nil => exact fun hhead => by cases hhead
  | cons c text =>
    rw [flatMap_cons]
    rcases escapeChar_cases c with ⟨hescape, -⟩ | ⟨hescape, -⟩
    · rw [hescape]
      exact fun hhead => by cases hhead
    · rw [hescape]
      exact h

theorem icsEscape_eq : icsEscape text = escapeOnce text := by
  unfold icsEscape
  rw [flatMap_escapeChar]
  fun_induction escapeOnce text with
  | case1 => rfl
  | case2 rest ih =>
    show replaceChar '\n' ['\\', 'n'] ('\\' :: 'n' :: replaceCrlf ['\\', 'n'] (rest.flatMap escapeChar)) = _
    rw [← ih]
    rfl
  | case3 c rest hbreak ih =>
    rw [flatMap_cons]
    rcases escapeChar_cases c with ⟨hescape, hc⟩ | ⟨hescape, hc⟩
    · have hlf : c ≠ '\n' := by rintro rfl; revert hc; decide
      have hcr : c ≠ '\r' := by rintro rfl; revert hc; decide
      have hslash : '\\' = '\r' → (c :: rest.flatMap escapeChar).head? ≠ some '\n' := fun h => absurd h (by decide)
      have hsame : replaceChar '\n' ['\\', 'n'] (c :: replaceCrlf ['\\', 'n'] (rest.flatMap escapeChar)) =
          c :: replaceChar '\n' ['\\', 'n'] (replaceCrlf ['\\', 'n'] (rest.flatMap escapeChar)) := by
        unfold replaceChar
        rw [flatMap_cons, if_neg hlf, singleton_append]
      rw [if_neg hlf, hescape, ← ih]
      show replaceChar _ _ (replaceCrlf _ ('\\' :: c :: rest.flatMap escapeChar)) = _
      rw [replaceCrlf_cons hslash, replaceCrlf_cons fun hcr' => absurd hcr' hcr]
      exact congrArg (List.cons '\\') hsame
    · rw [hescape, ← ih]
      have hnext : c = '\r' → (rest.flatMap escapeChar).head? ≠ some '\n' := by
        intro hcr
        apply head?_flatMap_escapeChar
        exact head?_of_no_break hbreak hcr
      rw [singleton_append, replaceCrlf_cons hnext]
      unfold replaceChar
      rw [flatMap_cons]

theorem lf_not_mem_icsEscape : '\n' ∉ icsEscape text := by
  rw [icsEscape_eq]
  fun_induction escapeOnce text with
  | case1 => exact not_mem_nil
  | case2 rest ih => simpa using ih
  | case3 c rest _ ih =>
    rw [mem_append, not_or]
    refine ⟨?_, ih⟩
    by_cases hlf : c = '\n'
    · rw [if_pos hlf]
      decide
    rw [if_neg hlf]
    rcases escapeChar_cases c with ⟨hescape, -⟩ | ⟨hescape, -⟩
    · rw [hescape]
      simp [Ne.symm hlf]
    · rw [hescape]
      simp [Ne.symm hlf]

theorem icsUnescape_icsEscape : icsUnescape (icsEscape text) = normalizeBreaks text := by
  rw [icsEscape_eq]
  unfold normalizeBreaks
  fun_induction escapeOnce text with
  | case1 => rfl
  | case2 rest ih =>
    show '\n' :: icsUnescape (escapeOnce rest) = '\n' :: replaceCrlf ['\n'] rest
    rw [ih]
  | case3 c rest hbreak ih =>
    rw [replaceCrlf_cons (head?_of_no_break hbreak), ← ih]
    by_cases hlf : c = '\n'
    · rw [if_pos hlf, hlf]
      rfl
    rw [if_neg hlf]
    rcases escapeChar_cases c with ⟨hescape, hc⟩ | ⟨hescape, hc⟩
    · have hn : ¬(c = 'n' ∨ c = 'N') := by
        rintro (rfl | rfl)
        · revert hc
          decide
        · revert hc
          decide
      rw [hescape]
      show (if c = 'n' ∨ c = 'N' then '\n' else c) :: icsUnescape (escapeOnce rest) = _
      rw [if_neg hn]
    · rw [hescape, singleton_append]
      conv_lhs => unfold icsUnescape
      split
      · rename_i heq
        cases heq
      · rename_i heq
        obtain ⟨rfl, -⟩ := List.cons.inj heq
        exact absurd (Or.inl rfl) hc
      · rename_i heq
        obtain ⟨rfl, rfl⟩ := List.cons.inj heq
        rfl

/-! ## Folding -/

theorem octets_append (text text' : List Char) : octets (text ++ text') = octets text + octets text' := by
  unfold octets
  rw [map_append, sum_append]

theorem octets_singleton (c : Char) : octets [c] = c.utf8Size := by
  unfold octets
  rw [map_singleton, sum_singleton]

/-- What the loop of a fold has cut off, and what it holds. -/
structure Cut (state : List (List Char) × List Char) (line : List Char) : Prop where
  whole : state.1.flatten ++ state.2 = line
  parts : ∀ part ∈ state.1, octets part ≤ 74
  current : octets state.2 ≤ 74

/-- A character comes after the others, and every part stays within its octets. -/
theorem Cut.step (h : Cut state line) (c : Char) : Cut (foldStep state c) (line ++ [c]) := by
  have hsize : c.utf8Size ≤ 4 := c.utf8Size_le_four
  unfold foldStep
  by_cases hlong : 74 < octets state.2 + c.utf8Size
  · rw [if_pos hlong]
    refine ⟨?_, ?_, ?_⟩
    · rw [flatten_append, flatten_singleton, h.whole]
    · intro part hpart
      rcases mem_append.mp hpart with hearlier | hnew
      · exact h.parts part hearlier
      · rw [mem_singleton.mp hnew]
        exact h.current
    · rw [octets_singleton]
      omega
  · rw [if_neg hlong]
    refine ⟨?_, h.parts, ?_⟩
    · rw [← h.whole, append_assoc]
    · rw [octets_append, octets_singleton]
      omega

theorem cut_foldl (h : Cut state line) (rest : List Char) : Cut (rest.foldl foldStep state) (line ++ rest) := by
  induction rest generalizing state line with
  | nil =>
    rw [append_nil]
    exact h
  | cons c rest ih =>
    have hnext := ih (h.step c)
    rw [append_assoc] at hnext
    exact hnext

theorem cut_all (line : List Char) : Cut (line.foldl foldStep ([], [])) line :=
  cut_foldl ⟨rfl, fun _ hpart => absurd hpart not_mem_nil, Nat.zero_le _⟩ line

theorem flatten_icsPieces (line : List Char) : (icsPieces line).flatten = line := by
  unfold icsPieces
  split
  · exact flatten_singleton
  · rw [flatten_append, flatten_singleton, (cut_all line).whole]

theorem icsPieces_ne_nil (line : List Char) : icsPieces line ≠ [] := by
  unfold icsPieces
  split
  · exact cons_ne_nil _ _
  · exact append_ne_nil_of_right_ne_nil _ (cons_ne_nil _ _)

theorem octets_physicalLines {part : List Char} (h : part ∈ physicalLines (icsPieces line)) : octets part ≤ 75 := by
  have hphysical : ∀ pieces : List (List Char), (∀ piece ∈ pieces, octets piece ≤ 74) →
      ∀ part ∈ physicalLines pieces, octets part ≤ 75 := by
    intro pieces hpieces part hpart
    cases pieces with
    | nil => exact absurd hpart not_mem_nil
    | cons piece pieces =>
      rw [forall_mem_cons] at hpieces
      rcases mem_cons.mp hpart with rfl | hlater
      · exact Nat.le_succ_of_le hpieces.1
      obtain ⟨piece', hpiece', rfl⟩ := mem_map.mp hlater
      have hblank : octets (' ' :: piece') = 1 + octets piece' := octets_append [' '] piece'
      have hbound := hpieces.2 piece' hpiece'
      omega
  unfold icsPieces at h
  split at h
  · rename_i hshort
    obtain rfl := mem_singleton.mp h
    exact hshort
  · apply hphysical _ _ part h
    intro piece hpiece
    rcases mem_append.mp hpiece with hearlier | hlast
    · exact (cut_all line).parts piece hearlier
    · rw [mem_singleton.mp hlast]
      exact (cut_all line).current

theorem icsFold_short (h : octets line ≤ 75) : icsFold line = line := by
  unfold icsFold icsPieces
  rw [if_pos h]
  exact intercalate_singleton

/-! ## Lines of digits -/

theorem octets_of_digits {text : List Char} (h : ∀ c ∈ text, c.utf8Size = 1) : octets text = text.length := by
  induction text with
  | nil => rfl
  | cons c text ih =>
    rw [forall_mem_cons] at h
    have hcons : octets (c :: text) = octets [c] + octets text := octets_append [c] text
    rw [hcons, octets_singleton, h.1, ih h.2, length_cons, Nat.add_comm]

theorem digitChar_plain {n : ℕ} (h : n < 16) : (Nat.digitChar n).utf8Size = 1 ∧ Nat.digitChar n ≠ '\n' := by
  interval_cases n <;> decide

def Plain : Prop := ∀ c ∈ text, c.utf8Size = 1 ∧ c ≠ '\n'

theorem plain_of_all {text : List Char} (h : (text.all fun c => c.utf8Size == 1 && c != '\n') = true) : Plain text := by
  intro c hc
  have hplain := all_eq_true.mp h c hc
  rw [Bool.and_eq_true, beq_iff_eq, bne_iff_ne] at hplain
  exact hplain

theorem Plain.append {text text' : List Char} (h : Plain text) (h' : Plain text') : Plain (text ++ text') := by
  intro c hc
  rcases mem_append.mp hc with hleft | hright
  · exact h c hleft
  · exact h' c hright

theorem Plain.octets {text : List Char} (h : Plain text) : octets text = text.length :=
  octets_of_digits fun c hc => (h c hc).1

theorem Plain.not_mem {text : List Char} (h : Plain text) : '\n' ∉ text := fun hmem => (h _ hmem).2 rfl

theorem plain_twoDigits (n : ℕ) : Plain (twoDigits n) := by
  intro c hc
  have htens : n / 10 % 10 < 16 := by omega
  have hones : n % 10 < 16 := by omega
  rcases mem_cons.mp hc with rfl | hlast
  · exact digitChar_plain htens
  · rw [mem_singleton.mp hlast]
    exact digitChar_plain hones

theorem plain_fourDigits (n : ℕ) : Plain (fourDigits n) := (plain_twoDigits _).append (plain_twoDigits _)

theorem plain_dayDigits (day : Day) : Plain (dayDigits day) :=
  ((plain_fourDigits _).append (plain_twoDigits _)).append (plain_twoDigits _)

theorem plain_singleton (h : c.utf8Size = 1 ∧ c ≠ '\n') : Plain [c] := fun d hd => by
  rw [mem_singleton.mp hd]
  exact h

theorem plain_stampText (now : Timestamp) : Plain (stampText now) :=
  (((((plain_dayDigits _).append (plain_singleton (by decide))).append (plain_twoDigits _)).append
    (plain_twoDigits _)).append (plain_twoDigits _)).append (plain_singleton (by decide))

theorem length_dayDigits (day : Day) : (dayDigits day).length = 8 := rfl

theorem length_stampText (now : Timestamp) : (stampText now).length = 16 := rfl

section Calendar

variable {sha256 : List Char → List (Fin 16)}

variable (item : DeadlineItem) {start : Day}

theorem plain_eventUid (start : Day) : Plain (eventUid sha256 item start) := by
  intro c hc
  obtain ⟨digit, -, rfl⟩ := mem_map.mp hc
  exact digitChar_plain digit.isLt

theorem length_eventUid_le (start : Day) : (eventUid sha256 item start).length ≤ 32 := by
  unfold eventUid
  rw [length_map]
  exact length_take_le _ _

theorem eventLines_eq {stop : Day} (h : nextDay start = .ok stop) (publicUrl : List Char) (now : Timestamp)
    (item : DeadlineItem) : eventLines sha256 publicUrl now item start =
      .ok ((eventContent sha256 publicUrl now (item, start, stop)).map icsFold) := by
  have huid : octets ("UID:".toList ++ eventUid sha256 item start ++ "@biddingflow".toList) ≤ 75 := by
    have hlength := @length_eventUid_le sha256 item start
    have hfirst : octets "UID:".toList = 4 := by decide
    have hlast : octets "@biddingflow".toList = 12 := by decide
    rw [octets_append, octets_append, (plain_eventUid item start).octets, hfirst, hlast]
    omega
  have hstamp : octets ("DTSTAMP:".toList ++ stampText now) ≤ 75 := by
    have hfirst : octets "DTSTAMP:".toList = 8 := by decide
    rw [octets_append, (plain_stampText now).octets, length_stampText, hfirst]
    decide
  have hstart : octets ("DTSTART;VALUE=DATE:".toList ++ dayDigits start) ≤ 75 := by
    have hfirst : octets "DTSTART;VALUE=DATE:".toList = 19 := by decide
    rw [octets_append, (plain_dayDigits start).octets, length_dayDigits, hfirst]
    decide
  have hstop : octets ("DTEND;VALUE=DATE:".toList ++ dayDigits stop) ≤ 75 := by
    have hfirst : octets "DTEND;VALUE=DATE:".toList = 17 := by decide
    rw [octets_append, (plain_dayDigits stop).octets, length_dayDigits, hfirst]
    decide
  have hurl : (if publicUrl = [] then [] else ["URL:".toList ++ publicUrl ++ item.route]).map icsFold =
      if publicUrl = [] then [] else [icsFold ("URL:".toList ++ publicUrl ++ item.route)] := by
    split <;> rfl
  unfold eventLines eventContent
  rw [h, map_append, map_append, hurl]
  simp only [bind, Except.bind, pure, Except.pure, map_cons, map_nil]
  rw [icsFold_short huid, icsFold_short hstamp, icsFold_short hstart, icsFold_short hstop,
    @icsFold_short beginEvent (by decide), @icsFold_short "BEGIN:VALARM".toList (by decide),
    @icsFold_short "TRIGGER:-P1D".toList (by decide), @icsFold_short "ACTION:DISPLAY".toList (by decide),
    @icsFold_short "END:VALARM".toList (by decide), @icsFold_short "END:VEVENT".toList (by decide)]

def eventOf : Option (DeadlineItem × Day × Day) :=
  item.dueDate.bind fun start => (Day.ofOrdinal (start.ordinal + 1)).map fun stop => (item, start, stop)

variable (publicUrl : List Char)

variable (now : Timestamp)

theorem foldlM_addEvent (items : List DeadlineItem)
    (h : ∀ item ∈ items, ∀ start, item.dueDate = some start → start.ordinal < maxOrdinal) (lines : List (List Char)) :
    items.foldlM (addEvent sha256 publicUrl now) lines =
      .ok (lines ++ ((items.filterMap eventOf).flatMap (eventContent sha256 publicUrl now)).map icsFold) := by
  induction items generalizing lines with
  | nil => exact congrArg Except.ok (append_nil lines).symm
  | cons item items ih =>
    rw [forall_mem_cons] at h
    rw [foldlM_cons]
    cases hdue : item.dueDate with
    | none =>
      have hadd : addEvent sha256 publicUrl now lines item = .ok lines := by
        unfold addEvent
        rw [hdue]
      have hevent : eventOf item = none := by
        unfold eventOf
        rw [hdue]
        rfl
      rw [hadd, filterMap_cons_none hevent]
      exact ih h.2 lines
    | some start =>
      have hlast := h.1 start hdue
      have hnext : Day.ofOrdinal (start.ordinal + 1) = some ⟨start.ordinal + 1, by omega, hlast⟩ :=
        dif_pos ⟨by omega, hlast⟩
      have hday : nextDay start = .ok ⟨start.ordinal + 1, by omega, hlast⟩ := by
        unfold nextDay
        rw [hnext]
      have hadd : addEvent sha256 publicUrl now lines item = .ok (lines ++
          (eventContent sha256 publicUrl now (item, start, ⟨start.ordinal + 1, by omega, hlast⟩)).map icsFold) := by
        unfold addEvent
        rw [hdue]
        dsimp only
        rw [eventLines_eq hday]
        rfl
      have hevent : eventOf item = some (item, start, ⟨start.ordinal + 1, by omega, hlast⟩) := by
        unfold eventOf
        rw [hdue, bind_some, hnext, map_some]
      rw [hadd, filterMap_cons_some hevent, flatMap_cons, map_append, ← append_assoc]
      exact ih h.2 _

theorem foldlM_addEvent_last {items : List DeadlineItem} {item : DeadlineItem}
    (hmem : item ∈ items) (hdue : item.dueDate = some start) (hlast : ¬start.ordinal < maxOrdinal)
    (lines : List (List Char)) : items.foldlM (addEvent sha256 publicUrl now) lines = .error .overflow := by
  have hstuck (lines : List (List Char)) : addEvent sha256 publicUrl now lines item = .error .overflow := by
    have hday : nextDay start = .error .overflow := by
      unfold nextDay Day.ofOrdinal
      rw [dif_neg (by omega)]
    unfold addEvent
    rw [hdue]
    dsimp only
    unfold eventLines
    rw [hday]
    rfl
  induction items generalizing lines with
  | nil => exact absurd hmem not_mem_nil
  | cons first items ih =>
    rw [foldlM_cons]
    rcases mem_cons.mp hmem with rfl | hlater
    · rw [hstuck]
      rfl
    · cases hfirst : addEvent sha256 publicUrl now lines first with
      | ok lines' => exact ih hlater lines'
      | error e => rfl

variable {items : List DeadlineItem} {first : List Char}

theorem buildDeadlineCalendar_eq
    (h : ∀ item ∈ items.take icsMaxEvents, ∀ start, item.dueDate = some start → start.ordinal < maxOrdinal) :
    buildDeadlineCalendar sha256 items publicUrl now =
      .ok (foldedLines ((contentLines sha256 items publicUrl now).map icsPieces)) := by
  have hhead : calendarHead = calendarHead.map icsFold := by decide
  have hlast : ["END:VCALENDAR".toList] = ["END:VCALENDAR".toList].map icsFold := by decide
  have hlines : calendarHead ++ ((calendarEvents items).flatMap (eventContent sha256 publicUrl now)).map icsFold ++
      ["END:VCALENDAR".toList] = (contentLines sha256 items publicUrl now).map icsFold := by
    unfold contentLines
    rw [map_append, map_append, ← hhead, ← hlast]
  unfold buildDeadlineCalendar
  rw [foldlM_addEvent publicUrl now _ h calendarHead]
  show Except.ok (List.intercalate crlf (calendarHead ++ _ ++ _) ++ crlf) = _
  have hevents : (items.take icsMaxEvents).filterMap eventOf = calendarEvents items := rfl
  rw [hevents, hlines, intercalate_crlf, flatMap_map]
  · unfold foldedLines
    rw [flatMap_map]
    rfl
  · rw [← hlines]
    exact append_ne_nil_of_right_ne_nil _ (cons_ne_nil _ _)

/-! ## The content lines -/

theorem startsLine_named (h : first ≠ [] ∧ StartsLine first) (text : List Char) :
    StartsLine (first ++ text) := h.2.append h.1 text

variable {publicUrl : List Char}

variable {now : Timestamp}

variable {event : DeadlineItem × Day × Day} {out : List Char}

theorem startsLine_of_mem_eventContent (h : line ∈ eventContent sha256 publicUrl now event) : StartsLine line := by
  unfold eventContent at h
  rw [mem_append, mem_append] at h
  rcases h with (hfirst | hurl) | hlast
  · simp only [mem_cons, not_mem_nil, or_false] at hfirst
    rcases hfirst with rfl | rfl | rfl | rfl | rfl | rfl | rfl
    · decide
    · rw [append_assoc]
      exact startsLine_named (by decide) _
    · exact startsLine_named (by decide) _
    · exact startsLine_named (by decide) _
    · exact startsLine_named (by decide) _
    · exact startsLine_named (by decide) _
    · exact startsLine_named (by decide) _
  · split at hurl
    · exact absurd hurl not_mem_nil
    · rw [mem_singleton.mp hurl, append_assoc]
      exact startsLine_named (by decide) _
  · simp only [mem_cons, not_mem_nil, or_false] at hlast
    rcases hlast with rfl | rfl | rfl | rfl | rfl | rfl
    · decide
    · decide
    · decide
    · exact startsLine_named (by decide) _
    · decide
    · decide

theorem unbroken_escaped (hfirst : '\n' ∉ first) (text : List Char) : Unbroken (first ++ icsEscape text) := by
  apply unbroken_of_not_mem
  rw [mem_append, not_or]
  exact ⟨hfirst, lf_not_mem_icsEscape text⟩

theorem unbroken_plain {text : List Char} (hfirst : '\n' ∉ first) (h : Plain text) : Unbroken (first ++ text) := by
  apply unbroken_of_not_mem
  rw [mem_append, not_or]
  exact ⟨hfirst, h.not_mem⟩

theorem unbroken_of_mem_eventContent (hurl : publicUrl = [] ∨ Unbroken (publicUrl ++ event.1.route))
    (h : line ∈ eventContent sha256 publicUrl now event) : Unbroken line := by
  unfold eventContent at h
  rw [mem_append, mem_append] at h
  rcases h with (hfirst | hlink) | hlast
  · simp only [mem_cons, not_mem_nil, or_false] at hfirst
    rcases hfirst with rfl | rfl | rfl | rfl | rfl | rfl | rfl
    · exact unbroken_of_not_mem (by decide)
    · rw [append_assoc]
      exact unbroken_plain (by decide) ((plain_eventUid _ _).append (plain_of_all (by decide)))
    · exact unbroken_plain (by decide) (plain_stampText now)
    · exact unbroken_plain (by decide) (plain_dayDigits _)
    · exact unbroken_plain (by decide) (plain_dayDigits _)
    · exact unbroken_escaped (by decide) _
    · exact unbroken_escaped (by decide) _
  · split at hlink
    · exact absurd hlink not_mem_nil
    · rename_i hpublic
      rw [mem_singleton.mp hlink, append_assoc]
      exact unbroken_append (by decide) (hurl.resolve_left hpublic)
  · simp only [mem_cons, not_mem_nil, or_false] at hlast
    rcases hlast with rfl | rfl | rfl | rfl | rfl | rfl
    · exact unbroken_of_not_mem (by decide)
    · exact unbroken_of_not_mem (by decide)
    · exact unbroken_of_not_mem (by decide)
    · exact unbroken_escaped (by decide) _
    · exact unbroken_of_not_mem (by decide)
    · exact unbroken_of_not_mem (by decide)

theorem url_mem_eventContent (hpublic : publicUrl ≠ []) (now : Timestamp) (event : DeadlineItem × Day × Day) :
    "URL:".toList ++ publicUrl ++ event.1.route ∈ eventContent sha256 publicUrl now event := by
  unfold eventContent
  rw [if_neg hpublic]
  apply mem_append_left
  apply mem_append_right
  exact mem_singleton_self _

theorem count_eventContent (event : DeadlineItem × Day × Day) :
    (eventContent sha256 publicUrl now event).count beginEvent = 1 := by
  have hother {first : List Char} (h : first ≠ [] ∧ first.head? ≠ beginEvent.head?) (text : List Char) :
      first ++ text ≠ beginEvent := by
    intro heq
    rw [← heq, head?_append_of_ne_nil _ h.1] at h
    exact h.2 rfl
  unfold eventContent
  rw [count_append, count_append]
  have hfirst : ([beginEvent, "UID:".toList ++ eventUid sha256 event.1 event.2.1 ++ "@biddingflow".toList,
      "DTSTAMP:".toList ++ stampText now, "DTSTART;VALUE=DATE:".toList ++ dayDigits event.2.1,
      "DTEND;VALUE=DATE:".toList ++ dayDigits event.2.2, "SUMMARY:".toList ++ icsEscape (summaryOf event.1),
      "DESCRIPTION:".toList ++ icsEscape (descriptionOf event.1)]).count beginEvent = 1 := by
    rw [count_cons_self, append_assoc, count_cons_of_ne (hother (by decide) _),
      count_cons_of_ne (hother (by decide) _),
      count_cons_of_ne (hother (by decide) _), count_cons_of_ne (hother (by decide) _),
      count_cons_of_ne (hother (by decide) _), count_cons_of_ne (hother (by decide) _), count_nil]
  have hlink : (if publicUrl = [] then [] else ["URL:".toList ++ publicUrl ++ event.1.route]).count beginEvent = 0 := by
    split
    · rfl
    · rw [append_assoc, count_cons_of_ne (hother (by decide) _), count_nil]
  have hlast : (["BEGIN:VALARM".toList, "TRIGGER:-P1D".toList, "ACTION:DISPLAY".toList,
      "DESCRIPTION:".toList ++ icsEscape (summaryOf event.1), "END:VALARM".toList,
      "END:VEVENT".toList]).count beginEvent = 0 := by
    rw [count_cons_of_ne (by decide), count_cons_of_ne (by decide), count_cons_of_ne (by decide),
      count_cons_of_ne (hother (by decide) _), count_cons_of_ne (by decide),
      count_cons_of_ne (by decide), count_nil]
  rw [hfirst, hlink, hlast]

theorem count_flatMap_eventContent (events : List (DeadlineItem × Day × Day)) :
    (events.flatMap (eventContent sha256 publicUrl now)).count beginEvent = events.length := by
  induction events with
  | nil => rfl
  | cons event events ih =>
    rw [flatMap_cons, count_append, count_eventContent, ih, length_cons, Nat.add_comm]

theorem count_contentLines (items : List DeadlineItem) (publicUrl : List Char) (now : Timestamp) :
    (contentLines sha256 items publicUrl now ++ [[]]).count beginEvent = (calendarEvents items).length := by
  have hhead : calendarHead.count beginEvent = 0 := by decide
  have hlast : ["END:VCALENDAR".toList].count beginEvent = 0 := by decide
  have hend : ([[]] : List (List Char)).count beginEvent = 0 := by decide
  unfold contentLines
  rw [count_append, count_append, count_append, hhead, hlast, hend, count_flatMap_eventContent, Nat.zero_add]
  rfl

theorem length_calendarEvents
    (h : ∀ item ∈ items.take icsMaxEvents, ∀ start, item.dueDate = some start → start.ordinal < maxOrdinal) :
    (calendarEvents items).length = ((items.take icsMaxEvents).filter fun item => item.dueDate.isSome).length := by
  unfold calendarEvents
  generalize items.take icsMaxEvents = listed at h ⊢
  induction listed with
  | nil => rfl
  | cons item listed ih =>
    rw [forall_mem_cons] at h
    cases hdue : item.dueDate with
    | none => rw [filterMap_cons_none (by rw [hdue]; rfl), filter_cons_of_neg (by rw [hdue]; decide), ih h.2]
    | some start =>
      have hnext : Day.ofOrdinal (start.ordinal + 1) = some ⟨start.ordinal + 1, by omega, h.1 start hdue⟩ :=
        dif_pos ⟨by omega, h.1 start hdue⟩
      rw [filterMap_cons_some (by rw [hdue, bind_some, hnext]; rfl),
        filter_cons_of_pos (by rw [hdue]; rfl), length_cons, length_cons, ih h.2]

theorem mem_calendarEvents {item : DeadlineItem}
    (hmem : item ∈ items.take icsMaxEvents) (hdue : item.dueDate = some start) (hlast : start.ordinal < maxOrdinal) :
    ∃ stop, (item, start, stop) ∈ calendarEvents items := by
  refine ⟨⟨start.ordinal + 1, by omega, hlast⟩, mem_filterMap.mpr ⟨item, hmem, ?_⟩⟩
  have hnext : Day.ofOrdinal (start.ordinal + 1) = some ⟨start.ordinal + 1, by omega, hlast⟩ := dif_pos ⟨by omega, hlast⟩
  rw [hdue, bind_some, hnext, map_some]

theorem item_of_mem_calendarEvents
    (h : event ∈ calendarEvents items) : event.1 ∈ items.take icsMaxEvents ∧ event.1.dueDate.isSome = true := by
  obtain ⟨item, hmem, hevent⟩ := mem_filterMap.mp h
  obtain ⟨start, hdue, hstop⟩ := bind_eq_some_iff.mp hevent
  obtain ⟨stop, -, rfl⟩ := map_eq_some_iff.mp hstop
  exact ⟨hmem, by rw [hdue]; rfl⟩

/-! ## The export -/

def LinksUnbroken (items : List DeadlineItem) (publicUrl : List Char) : Prop :=
  publicUrl = [] ∨
    ∀ item ∈ items.take icsMaxEvents, item.dueDate.isSome = true → Unbroken (publicUrl ++ item.route)

def DueBeforeLast (items : List DeadlineItem) : Prop :=
  ∀ item ∈ items.take icsMaxEvents, ∀ start, item.dueDate = some start → start.ordinal < maxOrdinal

theorem unbroken_contentLines (h : LinksUnbroken items publicUrl)
    (now : Timestamp) : ∀ line ∈ contentLines sha256 items publicUrl now, Unbroken line := by
  intro line hline
  unfold contentLines at hline
  rw [mem_append, mem_append] at hline
  rcases hline with (hhead | hevent) | hlast
  · have hplain : ∀ line ∈ calendarHead, '\n' ∉ line := by decide
    exact unbroken_of_not_mem (hplain line hhead)
  · obtain ⟨event, hmem, hline⟩ := mem_flatMap.mp hevent
    obtain ⟨hitem, hdated⟩ := item_of_mem_calendarEvents hmem
    exact unbroken_of_mem_eventContent (h.imp_right fun hlinks => hlinks event.1 hitem hdated) hline
  · rw [mem_singleton.mp hlast]
    exact unbroken_of_not_mem (by decide)

theorem startsLine_contentLines : ∀ line ∈ contentLines sha256 items publicUrl now, StartsLine line := by
  intro line hline
  unfold contentLines at hline
  rw [mem_append, mem_append] at hline
  rcases hline with (hhead | hevent) | hlast
  · revert line
    decide
  · obtain ⟨event, -, hline⟩ := mem_flatMap.mp hevent
    exact startsLine_of_mem_eventContent hline
  · rw [mem_singleton.mp hlast]
    decide

theorem calendarIntact_of_links (hdue : DueBeforeLast items)
    (hlinks : LinksUnbroken items publicUrl) (now : Timestamp) : CalendarIntact sha256 items publicUrl now
      (foldedLines ((contentLines sha256 items publicUrl now).map icsPieces)) := by
  have hpieces : ∀ pieces ∈ (contentLines sha256 items publicUrl now).map icsPieces, LinePieces pieces := by
    intro pieces hmem
    obtain ⟨line, hline, rfl⟩ := mem_map.mp hmem
    exact ⟨icsPieces_ne_nil line, by rw [flatten_icsPieces]; exact startsLine_contentLines line hline⟩
  have hunbroken : ∀ pieces ∈ (contentLines sha256 items publicUrl now).map icsPieces, Unbroken pieces.flatten := by
    intro pieces hmem
    obtain ⟨line, hline, rfl⟩ := mem_map.mp hmem
    rw [flatten_icsPieces]
    exact unbroken_contentLines hlinks now line hline
  have hunfolded : splitCrlf (unfoldText (foldedLines ((contentLines sha256 items publicUrl now).map icsPieces))) =
      contentLines sha256 items publicUrl now ++ [[]] := by
    rw [splitCrlf_unfoldText_foldedLines hpieces hunbroken, map_map]
    have hsame : List.flatten ∘ icsPieces = id := funext flatten_icsPieces
    rw [hsame, map_id]
  refine ⟨?_, hunfolded, unbroken_contentLines hlinks now, fun item _ => ?_, ?_⟩
  · intro line hline
    rw [splitCrlf_foldedLines (fun pieces hmem => (hpieces pieces hmem).nonempty) hunbroken, mem_append] at hline
    rcases hline with hphysical | hlast
    · obtain ⟨pieces, hmem, hpart⟩ := mem_flatMap.mp hphysical
      obtain ⟨content, -, rfl⟩ := mem_map.mp hmem
      exact octets_physicalLines hpart
    · rw [mem_singleton.mp hlast]
      exact Nat.zero_le _
  · exact ⟨icsUnescape_icsEscape _, icsUnescape_icsEscape _⟩
  · rw [hunfolded, count_contentLines, length_calendarEvents hdue]

theorem dueBeforeLast_of_ok (h : buildDeadlineCalendar sha256 items publicUrl now = .ok out) : DueBeforeLast items := by
  intro item hmem start hdue
  by_contra hlast
  unfold buildDeadlineCalendar at h
  rw [foldlM_addEvent_last publicUrl now hmem hdue hlast] at h
  cases h

theorem linksUnbroken_of_intact (hdue : DueBeforeLast items) (h : CalendarIntact sha256 items publicUrl now out) :
    LinksUnbroken items publicUrl := by
  by_cases hpublic : publicUrl = []
  · exact Or.inl hpublic
  refine Or.inr fun item hmem hdated => ?_
  obtain ⟨start, hstart⟩ := isSome_iff_exists.mp hdated
  obtain ⟨stop, hevent⟩ := mem_calendarEvents hmem hstart (hdue item hmem start hstart)
  have hline := @url_mem_eventContent sha256 publicUrl hpublic now (item, start, stop)
  have hunbroken := h.unbroken ("URL:".toList ++ publicUrl ++ item.route) (by
    unfold contentLines
    apply mem_append_left
    apply mem_append_right
    exact mem_flatMap.mpr ⟨_, hevent, hline⟩)
  rw [append_assoc] at hunbroken
  exact hunbroken.of_part (suffix_append _ _).isInfix

end Calendar

/-- The export of some deadlines is intact where no listed item is due on the last day and no link holds a line
break. -/
theorem exportIntact_iff (sha256 : List Char → List (Fin 16)) (items : List DeadlineItem) (publicUrl : List Char)
    (now : Timestamp) : ExportIntact sha256 items publicUrl now ↔ DueBeforeLast items ∧ LinksUnbroken items publicUrl := by
  constructor
  · rintro ⟨out, hout, hintact⟩
    have hdue := dueBeforeLast_of_ok hout
    exact ⟨hdue, linksUnbroken_of_intact hdue hintact⟩
  · rintro ⟨hdue, hlinks⟩
    exact ⟨_, buildDeadlineCalendar_eq publicUrl now hdue, calendarIntact_of_links hdue hlinks now⟩

def brokenLink : DeadlineItem where
  id := "package:g\r\nEND:VEVENT:closingSoon".toList
  code := "IB2600000001".toList
  name := "Mua sắm".toList
  label := "Sắp đóng thầu".toList
  detail := []
  dueDate := Day.fromIsoformat "2026-11-03"
  route := "/goi-thau-chi-tiet/g\r\nEND:VEVENT".toList

def brokenLinkDigest : List Char → List (Fin 16) := fun _ =>
  [1, 6, 1, 4, 7, 0, 7, 5, 13, 13, 15, 5, 14, 9, 8, 1, 15, 10, 7, 1, 4, 13, 15, 3, 5, 10, 15, 4, 6, 11, 14, 13,
    8, 1, 14, 15, 7, 5, 9, 1, 10, 7, 8, 14, 1, 10, 13, 0, 1, 14, 0, 7, 3, 3, 7, 5, 6, 6, 9, 9, 9, 15, 3, 11]

def epoch : Timestamp := ⟨⟨719163, by decide, by decide⟩, 0, by decide⟩

/-- The link of the deadline ends its line. -/
theorem brokenLink_not_exportIntact : ¬ExportIntact brokenLinkDigest [brokenLink] "https://example.test".toList epoch := by
  rintro ⟨out, hout, hintact⟩
  have hlinks := linksUnbroken_of_intact (dueBeforeLast_of_ok hout) hintact
  rcases hlinks with hpublic | hlinks
  · revert hpublic
    decide
  · apply hlinks brokenLink (mem_singleton_self _) (by decide)
    decide

end Bidding.Deadlines
