import Mathlib.Algebra.Order.Ring.Int
import Mathlib.Algebra.Order.BigOperators.Group.List
import Bidding.Foundations.Transactions

/-!
# The token quota of a day

The counters of a day are kept in one row for each organization and user, the reservations in rows of their own. What is
reserved is what the open reservations hold, and what is used was settled or recorded (`Conserved`).
-/

namespace Bidding.Ai

open Foundations Discipline List
open Option

structure UsageKey where
  usageDate : String
  organizationId : String
  userId : String
  deriving DecidableEq

/-- A row of `ai_usage_daily`. -/
structure Usage where
  inputTokens : ℤ
  outputTokens : ℤ
  reservedTokens : ℤ
  toolCallCount : ℤ

inductive ReservationStatus where
  | reserved
  | settled
  | released
  deriving DecidableEq

/-- A row of `ai_token_reservations`. -/
structure Reservation where
  key : UsageKey
  reservedTokens : ℕ
  status : ReservationStatus
  actualInputTokens : ℕ
  actualOutputTokens : ℕ

/-- The object `reserve_tokens` makes under a new UUID, and the others are called with. -/
structure TokenReservation where
  key : UsageKey
  reservedTokens : ℕ

inductive Key where
  | usage (key : UsageKey)
  | reservation (id : String)
  deriving DecidableEq

def Row : Key → Type
  | .usage _ => Usage
  | .reservation _ => Reservation

abbrev Rows := ∀ k : Key, Option (Row k)

inductive Event where
  | recorded (key : UsageKey) (input output : ℕ)
  | granted (id : String) (limit : ℤ)
  | closed (id : String) (actual : Option (ℕ × ℕ))

/-- The defaults of the columns. -/
def Usage.empty : Usage := ⟨0, 0, 0, 0⟩

def Rows.usage (c : Rows) (key : UsageKey) : Usage := (c (.usage key) : Option Usage).getD .empty

def Rows.reservation (c : Rows) (id : String) : Option Reservation := c (.reservation id)

def Usage.total (u : Usage) : ℤ := u.inputTokens + u.outputTokens + u.reservedTokens

def setUsage (key : UsageKey) (u : Usage) : Statement Row := .set (.usage key) (some u : Option Usage)

def setReservation (id : String) (r : Reservation) : Statement Row :=
  .set (.reservation id) (some r : Option Reservation)

def Usage.record (u : Usage) (input output toolCalls : ℕ) : Usage :=
  { u with
    inputTokens := u.inputTokens + input, outputTokens := u.outputTokens + output
    toolCallCount := u.toolCallCount + toolCalls }

/-- `record_tokens`; a missing or negative number counts as zero. -/
def recordTokens (key : UsageKey) (inputTokens outputTokens toolCalls : ℤ) : Script Row Unit Event :=
  .attempt (fun view _ => some (setUsage key
    ((Rows.usage view key).record inputTokens.toNat outputTokens.toNat toolCalls.toNat)))
    (.commit (.recorded key inputTokens.toNat outputTokens.toNat))

def Usage.reserve (u : Usage) (amount : ℕ) : Usage := { u with reservedTokens := u.reservedTokens + amount }

def TokenReservation.opened (r : TokenReservation) : Reservation := ⟨r.key, r.reservedTokens, .reserved, 0, 0⟩

variable (objects : String → TokenReservation)

/-- `reserve_tokens` of the object with this UUID. The row of a new day starts with zeros, so one condition
covers the insert and the update. -/
def reserveTokens (id : String) (dailyTokenLimit : ℤ) : Script Row Unit Event :=
  .attempt (fun view _ =>
    let used := Rows.usage view (objects id).key
    if (objects id).reservedTokens ≤ dailyTokenLimit ∧ used.total + (objects id).reservedTokens ≤ dailyTokenLimit then
      some (setUsage (objects id).key (used.reserve (objects id).reservedTokens))
    else none) <|
  -- the UUID is the primary key
  .attempt (fun view _ =>
    if (Rows.reservation view id).isNone then
      some (setReservation id (objects id).opened)
    else none)
    (.commit (.granted id dailyTokenLimit))

def Reservation.close (r : Reservation) (actual : Option (ℕ × ℕ)) : Reservation :=
  match actual with
  | some tokens => { r with status := .settled, actualInputTokens := tokens.1, actualOutputTokens := tokens.2 }
  | none => { r with status := .released }

def Usage.close (u : Usage) (amount : ℕ) (actual : Option (ℕ × ℕ)) : Usage :=
  { u with
    reservedTokens := u.reservedTokens - amount
    inputTokens := u.inputTokens + ((actual.map Prod.fst).getD 0 : ℕ)
    outputTokens := u.outputTokens + ((actual.map Prod.snd).getD 0 : ℕ) }

/-- What `settle_token_reservation` and `release_token_reservation` have in common. -/
def closeReservation (id : String) (actual : Option (ℕ × ℕ)) : Script Row Unit Event :=
  .select (.reservation id) fun view _ =>
    if (Rows.reservation view id).map Reservation.status ≠ some .reserved then .refuse
    else
      .attempt (fun view _ =>
        if (view (.usage (objects id).key)).isSome ∧
            (objects id).reservedTokens ≤ (Rows.usage view (objects id).key).reservedTokens then
          some (setUsage (objects id).key ((Rows.usage view (objects id).key).close (objects id).reservedTokens actual))
        else none) <|
      .attempt (fun view _ => (Rows.reservation view id).map fun row => setReservation id (row.close actual))
        (.commit (.closed id actual))

def settleTokenReservation (id : String) (actualInput actualOutput : ℤ) : Script Row Unit Event :=
  closeReservation objects id (some (actualInput.toNat, actualOutput.toNat))

def releaseTokenReservation (id : String) : Script Row Unit Event := closeReservation objects id none

/-- The operations. -/
inductive Operation : Script Row Unit Event → Prop
  | record (key : UsageKey) (inputTokens outputTokens toolCalls : ℤ) :
      Operation (recordTokens key inputTokens outputTokens toolCalls)
  | reserve (id : String) (dailyTokenLimit : ℤ) : Operation (reserveTokens objects id dailyTokenLimit)
  | settle (id : String) (actualInput actualOutput : ℤ) : Operation (settleTokenReservation objects id actualInput actualOutput)
  | release (id : String) : Operation (releaseTokenReservation objects id)

abbrev World (ι : Type) := Shared ι Row Event

/-! ### What a transaction has done when it commits -/

variable {ι : Type} [DecidableEq ι]

def Done (s : World ι) (i : ι) : Event → Prop
  | .recorded key input output => ∃ toolCalls,
      Wrote s i [⟨.usage key, some ((Rows.usage s.tables.committed key).record input output toolCalls)⟩]
  | .granted id limit => Rows.reservation s.tables.committed id = none ∧
      (Rows.usage s.tables.committed (objects id).key).total + (objects id).reservedTokens ≤ limit ∧
      Wrote s i [⟨.reservation id, some (objects id).opened⟩,
        ⟨.usage (objects id).key, some ((Rows.usage s.tables.committed (objects id).key).reserve (objects id).reservedTokens)⟩]
  | .closed id actual => ∃ row, Rows.reservation s.tables.committed id = some row ∧ row.status = .reserved ∧
      Wrote s i [⟨.reservation id, some (row.close actual)⟩,
        ⟨.usage (objects id).key, some ((Rows.usage s.tables.committed (objects id).key).close
          (objects id).reservedTokens actual)⟩]

def discipline : Discipline ι Row Unit Event where
  guard := id
  Settled := fun _ => True
  Rely := fun _ _ _ => True
  Meets := fun _ _ _ => True
  Post := Done objects

theorem lawful : (discipline (ι := ι) objects).Lawful :=
  ⟨fun _ => trivial, fun _ _ _ _ => trivial, fun _ _ _ _ _ => trivial⟩

theorem usage_congr {c c' : Rows} {key : UsageKey} (h : c (.usage key) = c' (.usage key)) :
    c.usage key = c'.usage key := congrArg (fun row : Option Usage => row.getD .empty) h

section Valid

variable {objects}

theorem valid_recordTokens (key : UsageKey) (inputTokens outputTokens toolCalls : ℤ) :
    (discipline (ι := ι) objects).Valid (recordTokens key inputTokens outputTokens toolCalls) fun s i =>
      ∀ k, s.tables.written i k = none := by
  refine valid_begin fun c₀ => valid_attempt .trivial fun c view now st _ _ hsees hst => ?_
  obtain rfl := hsees.eq
  cases hst
  refine ⟨_, puts_set view _ _, by simp, fun _ _ => .inl rfl, valid_commit fun s i _ hknows _ _ => ?_⟩
  have hsame := usage_congr (hknows.agrees (.usage key) (.inl (by simp)))
  exact ⟨_, by rw [hsame]; exact hknows.wrote⟩

theorem valid_reserveTokens (id : String) (limit : ℤ) :
    (discipline (ι := ι) objects).Valid (reserveTokens objects id limit) fun s i =>
      ∀ k, s.tables.written i k = none := by
  refine valid_begin fun c₀ => valid_attempt .trivial fun c view now st _ _ hsees hst => ?_
  obtain rfl := hsees.eq
  dsimp only at hst
  split at hst
  · rename_i hadmitted
    cases hst
    refine ⟨_, puts_set view _ _, by simp, fun _ _ => .inl rfl, ?_⟩
    refine valid_attempt .trivial fun c' view' now' st' _ hagrees hsees' hst' => ?_
    have hview : view' (.reservation id) = c' (.reservation id) := hsees'.2 _ (by simp)
    split at hst'
    · rename_i hfresh
      cases hst'
      refine ⟨_, puts_set view' _ _, by simp, fun _ _ => .inl rfl, valid_commit fun s i _ hknows _ _ => ?_⟩
      have hreservation := hknows.agrees (.reservation id) (.inl (by simp))
      have hsame : Rows.usage s.tables.committed (objects id).key = Rows.usage view (objects id).key :=
        usage_congr ((hknows.agrees _ (.inl (by simp))).trans (hagrees _ (.inl (by simp))))
      refine ⟨hreservation.trans (hview.symm.trans (isNone_iff_eq_none.mp hfresh)), ?_, ?_⟩
      · rw [hsame]
        exact hadmitted.2
      · rw [hsame]
        exact hknows.wrote
    · cases hst'
  · cases hst

theorem valid_closeReservation (id : String) (actual : Option (ℕ × ℕ)) :
    (discipline (ι := ι) objects).Valid (closeReservation objects id actual) fun s i =>
      ∀ k, s.tables.written i k = none := by
  refine valid_begin fun c₀ => valid_select .trivial fun c view now _ _ hsees => ?_
  obtain rfl := hsees.eq
  refine valid_unless fun hopen => valid_attempt .trivial fun c view' now st _ hagrees hsees hst => ?_
  obtain rfl := hsees.eq
  rw [not_not] at hopen
  split at hst
  · cases hst
    refine ⟨_, puts_set view' _ _, by simp, fun _ _ => .inl rfl, ?_⟩
    refine valid_attempt .trivial fun c' view'' now' st' _ hagrees' hsees' hst' => ?_
    obtain ⟨row, hrow, hst'⟩ := map_eq_some_iff.mp hst'
    cases hst'
    refine ⟨_, puts_set view'' _ _, by simp, fun _ _ => .inl rfl, valid_commit fun s i _ hknows _ _ => ?_⟩
    -- the row was locked by the SELECT and is the one that was found open
    have hview : view'' (.reservation id) = c' (.reservation id) := hsees'.2 _ (by simp)
    have hlocked : c' (.reservation id) = view (.reservation id) :=
      (hagrees' _ (.inl (by simp))).trans (hagrees _ (.inl (by simp)))
    have hcommitted := hknows.agrees (.reservation id) (.inl (by simp))
    have hsame : Rows.usage s.tables.committed (objects id).key = Rows.usage view' (objects id).key :=
      usage_congr ((hknows.agrees _ (.inl (by simp))).trans (hagrees' _ (.inl (by simp))))
    refine ⟨row, hcommitted.trans (hview.symm.trans hrow), ?_, ?_⟩
    · have hfound : Rows.reservation view id = some row := hlocked.symm.trans (hview.symm.trans hrow)
      rw [hfound] at hopen
      exact some.inj hopen
    · rw [hsame]
      exact hknows.wrote
  · cases hst

theorem valid_of_operation {script : Script Row Unit Event} (h : Operation objects script) :
    (discipline (ι := ι) objects).Valid script fun s i => ∀ k, s.tables.written i k = none := by
  cases h with
  | record key inputTokens outputTokens toolCalls => exact valid_recordTokens key inputTokens outputTokens toolCalls
  | reserve id limit => exact valid_reserveTokens id limit
  | settle id actualInput actualOutput => exact valid_closeReservation id _
  | release id => exact valid_closeReservation id none

end Valid

/-! ### What is conserved -/

inductive Part where
  | reserved
  | input
  | output

def Usage.part (u : Usage) : Part → ℤ
  | .reserved => u.reservedTokens
  | .input => u.inputTokens
  | .output => u.outputTokens

/-- What a reservation adds to the counters: an open one what it holds, a settled one what was used. -/
def Reservation.part (r : Reservation) : Part → ℕ
  | .reserved => if r.status = .reserved then r.reservedTokens else 0
  | .input => if r.status = .settled then r.actualInputTokens else 0
  | .output => if r.status = .settled then r.actualOutputTokens else 0

/-- What the reservation with this UUID adds to a counter of a row. -/
def Rows.part (c : Rows) (key : UsageKey) (part : Part) (id : String) : ℕ :=
  match c.reservation id with
  | some r => if r.key = key then r.part part else 0
  | none => 0

namespace Event

def part (key : UsageKey) : Part → Event → ℕ
  | .input, .recorded key' input _ => if key' = key then input else 0
  | .output, .recorded key' _ output => if key' = key then output else 0
  | _, _ => 0

def grants : Event → Option String
  | .granted id _ => some id
  | _ => none

def closes : Event → Option String
  | .closed id _ => some id
  | _ => none

end Event

/-- The counters are the sums of what was reserved and recorded, and a reservation is closed once. -/
structure Conserved (c : Rows) (history : List Event) : Prop where
  grants : (history.filterMap Event.grants).Nodup
  rows : ∀ id, id ∈ history.filterMap Event.grants ↔ (c.reservation id).isSome
  objects : ∀ id row, c.reservation id = some row →
    row.key = (objects id).key ∧ row.reservedTokens = (objects id).reservedTokens
  closes : (history.filterMap Event.closes).Nodup
  closed : ∀ id ∈ history.filterMap Event.closes, ∃ row, c.reservation id = some row ∧ row.status ≠ .reserved
  counters : ∀ key part, (c.usage key).part part =
    (((history.filterMap Event.grants).map (c.part key part)).sum + (history.map (Event.part key part)).sum : ℕ)

theorem sum_map_change {α : Type} [DecidableEq α] {l : List α} (hnodup : l.Nodup) {a : α} (ha : a ∈ l) {f g : α → ℕ}
    (hsame : ∀ b, b ≠ a → f b = g b) : (l.map f).sum + g a = (l.map g).sum + f a := by
  have hrest : (l.erase a).map f = (l.erase a).map g :=
    map_congr_left fun b hb => hsame b ((hnodup.mem_erase_iff.mp hb).1)
  rw [← sum_map_erase f ha, ← sum_map_erase g ha, hrest]
  omega

section Commits

variable {objects} {c c' : Rows} {history : List Event} {key : UsageKey} {id : String}

theorem part_congr (h : c'.reservation id = c.reservation id) (part : Part) : c'.part key part id = c.part key part id := by
  unfold Rows.part
  rw [h]

theorem map_part_congr {ids : List String} (h : ∀ id ∈ ids, c'.reservation id = c.reservation id) {part : Part} :
    ids.map (c'.part key part) = ids.map (c.part key part) :=
  map_congr_left fun id hid => part_congr (h id hid) part

/-- What changes is one row of the day. -/
def Counted (c c' : Rows) (key : UsageKey) (u : Usage) : Prop :=
  c'.usage key = u ∧ ∀ key', key' ≠ key → c'.usage key' = c.usage key'

section

variable (h : Conserved objects c history)
include h

theorem Conserved.record {input output toolCalls : ℕ}
    (hcounted : Counted c c' key ((c.usage key).record input output toolCalls))
    (hkept : ∀ id, c'.reservation id = c.reservation id) : Conserved objects c' (.recorded key input output :: history) := by
  refine ⟨h.grants, fun id => by rw [hkept]; exact h.rows id, fun id row => by rw [hkept]; exact h.objects id row,
    h.closes, fun id => by rw [hkept]; exact h.closed id, fun key' part => ?_⟩
  have hcounters := h.counters key' part
  simp only [filterMap_cons, Event.grants, map_cons, sum_cons, map_part_congr fun id _ => hkept id]
  by_cases hkey : key' = key
  · subst hkey
    rw [hcounted.1]
    cases part <;> simp only [Usage.part, Usage.record, Event.part, if_true] at hcounters ⊢ <;> omega
  · rw [hcounted.2 key' hkey]
    cases part <;> simp only [Event.part, if_neg (Ne.symm hkey)] <;> omega

theorem Conserved.grant {limit : ℤ} (hnew : c.reservation id = none)
    (hcounted : Counted c c' (objects id).key ((c.usage (objects id).key).reserve (objects id).reservedTokens))
    (hrow : c'.reservation id = some (objects id).opened) (hkept : ∀ id', id' ≠ id → c'.reservation id' = c.reservation id') :
    Conserved objects c' (.granted id limit :: history) := by
  have hfresh : id ∉ history.filterMap Event.grants := by
    rw [h.rows, hnew]
    exact Bool.false_ne_true
  have hsame : ∀ id' ∈ history.filterMap Event.grants, c'.reservation id' = c.reservation id' :=
    fun id' hid' => hkept id' (ne_of_mem_of_not_mem hid' hfresh)
  refine ⟨nodup_cons.mpr ⟨hfresh, h.grants⟩, fun id' => ?_, fun id' row => ?_, h.closes, fun id' hid' => ?_,
    fun key' part => ?_⟩
  · have hrows := h.rows id'
    grind [Event.grants]
  · have hobjects := h.objects id' row
    grind [TokenReservation.opened]
  · have hclosed := h.closed id' hid'
    grind [Event.closes]
  · have hcounters := h.counters key' part
    have hpart : c'.part key' part id = if (objects id).key = key' then (objects id).opened.part part else 0 := by
      unfold Rows.part
      rw [hrow]
      rfl
    have hevent : Event.part key' part (.granted id limit) = 0 := by cases part <;> rfl
    simp only [filterMap_cons, Event.grants, map_cons, sum_cons, map_part_congr hsame, hpart, hevent]
    by_cases hkey : key' = (objects id).key
    · subst hkey
      rw [hcounted.1, if_pos rfl]
      cases part <;> simp [Usage.part, Usage.reserve, Reservation.part, TokenReservation.opened] at hcounters ⊢ <;> omega
    · rw [hcounted.2 key' hkey, if_neg (Ne.symm hkey)]
      omega

theorem Conserved.close {actual : Option (ℕ × ℕ)} {row : Reservation}
    (hold : c.reservation id = some row) (hopen : row.status = .reserved)
    (hcounted : Counted c c' (objects id).key ((c.usage (objects id).key).close (objects id).reservedTokens actual))
    (hrow : c'.reservation id = some (row.close actual)) (hkept : ∀ id', id' ≠ id → c'.reservation id' = c.reservation id') :
    Conserved objects c' (.closed id actual :: history) := by
  have hobject := h.objects id row hold
  have hclose : (row.close actual).key = row.key ∧ (row.close actual).reservedTokens = row.reservedTokens ∧
      (row.close actual).status ≠ .reserved := by
    cases actual <;> simp [Reservation.close]
  have hgranted : id ∈ history.filterMap Event.grants := by
    rw [h.rows, hold]
    rfl
  refine ⟨h.grants, fun id' => ?_, fun id' row' => ?_, nodup_cons.mpr ⟨fun hid => ?_, h.closes⟩,
    fun id' hid' => ?_, fun key' part => ?_⟩
  · change id' ∈ history.filterMap Event.grants ↔ _
    by_cases hid : id' = id
    · simp only [hid, hrow, hgranted, isSome_some]
    · rw [hkept id' hid]
      exact h.rows id'
  · have hobjects := h.objects id' row'
    grind
  · have hclosed := h.closed id hid
    grind
  · have hclosed := h.closed id'
    grind [Event.closes]
  · have hcounters := h.counters key' part
    have hother : ∀ id', id' ≠ id → c'.part key' part id' = c.part key' part id' :=
      fun id' hid' => part_congr (hkept id' hid') part
    have hchange := sum_map_change h.grants hgranted hother
    have hevent : Event.part key' part (.closed id actual) = 0 := by cases part <;> rfl
    have hbefore : c.part key' part id = if row.key = key' then row.part part else 0 := by
      unfold Rows.part
      rw [hold]
    have hafter : c'.part key' part id = if row.key = key' then (row.close actual).part part else 0 := by
      unfold Rows.part
      rw [hrow, ← hclose.1]
    simp only [filterMap_cons, Event.grants, map_cons, sum_cons, hevent]
    rw [hbefore, hafter, hobject.1] at hchange
    generalize ((history.filterMap Event.grants).map (c.part key' part)).sum = before at hchange hcounters
    generalize ((history.filterMap Event.grants).map (c'.part key' part)).sum = after at hchange ⊢
    by_cases hkey : key' = (objects id).key
    · subst hkey
      rw [if_pos rfl, if_pos rfl] at hchange
      rw [hcounted.1]
      cases part <;> cases actual <;>
        simp [Usage.part, Usage.close, Reservation.part, Reservation.close, hopen, hobject.2] at hchange hcounters ⊢ <;>
        omega
    · rw [if_neg (Ne.symm hkey), if_neg (Ne.symm hkey)] at hchange
      rw [hcounted.2 key' hkey]
      omega

end

theorem counted_of_sees {rows : List (Σ k, Option (Row k))} (h : Sees rows c c') {u : Usage}
    (hmem : ⟨.usage key, some u⟩ ∈ rows) (hother : ∀ key', key' ≠ key → Key.usage key' ∉ rows.map Sigma.fst) :
    Counted c c' key u :=
  ⟨congrArg (fun row : Option Usage => row.getD .empty) (h.1 _ hmem), fun key' hkey =>
    usage_congr (h.2 _ (hother key' hkey))⟩

/-- What a commit grants, records or closes is in the counters, and no reservation is closed twice. -/
theorem conserved_commit {s : World ι} {i : ι} {e : Event} (h : Conserved objects s.tables.committed history)
    (hdone : Done objects s i e) : Conserved objects (s.tables.commit i).committed (e :: history) := by
  cases e with
  | recorded key input output =>
    obtain ⟨_, hwrote⟩ := hdone
    have hsees := hwrote.sees
    exact h.record (counted_of_sees hsees mem_cons_self fun key' hkey => by simp [hkey]) fun id => hsees.2 _ (by simp)
  | granted id limit =>
    obtain ⟨hnew, -, hwrote⟩ := hdone
    have hsees := hwrote.sees
    exact h.grant hnew (counted_of_sees hsees (by simp) fun key' hkey => by simp [hkey])
      (hsees.1 _ mem_cons_self) fun id' hid => hsees.2 _ (by simp [hid])
  | closed id actual =>
    obtain ⟨row, hold, hopen, hwrote⟩ := hdone
    have hsees := hwrote.sees
    exact h.close hold hopen (counted_of_sees hsees (by simp) fun key' hkey => by simp [hkey])
      (hsees.1 _ mem_cons_self) fun id' hid => hsees.2 _ (by simp [hid])

end Commits

/-- No row, and no transaction that has written one. -/
structure World.Start (s : World ι) : Prop where
  history : s.history = []
  committed : ∀ k, s.tables.committed k = none
  written : ∀ i k, s.tables.written i k = none

section Runs

variable {objects} {start s : World ι} {task : ι → Option (Script Row Unit Event)}

omit [DecidableEq ι] in
theorem conserved_start (h : start.Start) : Conserved objects start.tables.committed start.history := by
  have hnone : ∀ id, Rows.reservation start.tables.committed id = none := fun id => h.committed (.reservation id)
  have husage : ∀ key, Rows.usage start.tables.committed key = .empty := fun key => by
    unfold Rows.usage
    rw [h.committed]
    rfl
  rw [h.history]
  refine ⟨nodup_nil, fun id => ?_, fun id row hrow => ?_, nodup_nil, fun id hid => absurd hid not_mem_nil,
    fun key part => ?_⟩
  · rw [hnone]
    simp
  · rw [hnone] at hrow
    cases hrow
  · rw [husage]
    cases part <;> rfl

theorem reached_sound (h : (Script.program fun _ => Operation objects).Reached start s task) (hstart : start.Start) :
    (discipline objects).Sound s task ∧ Conserved objects s.tables.committed s.history := by
  induction h with
  | start => exact ⟨.initial trivial hstart.written, conserved_start hstart⟩
  | step _ hstep ih =>
    obtain ⟨hsound, hconserved⟩ := ih
    have hsound' := (Sound.within (lawful objects) (fun _ _ => valid_of_operation) (fun _ => trivial)
      (fun _ _ _ _ _ => trivial) (fun _ _ _ _ => trivial) hsound
      ((Program.Within.refl.step hstep).mono fun _ _ _ _ _ _ _ => trivial) : _ ∧ True).1
    refine ⟨hsound', ?_⟩
    cases hstep with
    | advance seconds => exact hconserved
    | start i t hidle hstarts => exact hconserved
    | statement i request t hnext hready =>
      rw [show _ = _ from Tables.committed_exec request]
      exact hconserved
    | commit i e hfinish => exact conserved_commit hconserved (hsound.post (commit_of_finish hfinish) trivial)
    | abort i => exact hconserved

end Runs

def sampleWorld : World Unit := ⟨⟨fun _ => none, fun _ _ => none, fun _ => none⟩, 0, []⟩

def sampleObjects (_ : String) : TokenReservation := ⟨⟨"2026-01-31", "org", "user"⟩, 7⟩

/-- Two reservations, one settled above what it reserved and one released; then a third. -/
def sampleScripts : List (Script Row Unit Event) :=
  [reserveTokens sampleObjects "id" 20, reserveTokens sampleObjects "other" 20, settleTokenReservation sampleObjects "id" 5 4,
    releaseTokenReservation sampleObjects "other", reserveTokens sampleObjects "third" 20]

theorem reached_sampleScripts : ∃ s : World Unit,
    (Script.program fun _ => Operation sampleObjects).Reached sampleWorld s (fun _ => none) ∧
    Rows.usage s.tables.committed (sampleObjects "id").key = ⟨5, 4, 7, 0⟩ ∧
    s.history = [.granted "third" 20, .closed "other" none, .closed "id" (some (5, 4)), .granted "other" 20, .granted "id" 20] := by
  have hstarts : ∀ script ∈ sampleScripts, Operation sampleObjects script := by
    simp only [sampleScripts, mem_cons, not_mem_nil, or_false, forall_eq_or_imp, forall_eq]
    exact ⟨.reserve "id" 20, .reserve "other" 20, .settle "id" 5 4, .release "other", .reserve "third" 20⟩
  have hstart : (Script.program fun _ => Operation sampleObjects).Reached sampleWorld sampleWorld fun _ => none := .start
  have hserial : Script.serial 0 sampleScripts sampleWorld.tables.committed = some (_, _) := rfl
  obtain ⟨s, hreached, hcommitted, hhistory⟩ := reached_serial ⟨fun _ => rfl, fun _ _ => rfl⟩ () hstart hstarts
    hserial
  exact ⟨s, hreached, by rw [hcommitted]; rfl, hhistory⟩

section Limit

/-- What an event adds to the counters of a row beyond what was reserved for it. -/
def Event.excess (key : UsageKey) : Event → ℕ
  | .recorded key' input output => if key' = key then input + output else 0
  | .closed id (some tokens) => if (objects id).key = key then tokens.1 + tokens.2 - (objects id).reservedTokens else 0
  | _ => 0

def Within (key : UsageKey) (limit : ℤ) (c : Rows) (history : List Event) : Prop :=
  (∀ id limit', .granted id limit' ∈ history → (objects id).key = key → limit' ≤ limit) →
    (c.usage key).total ≤ limit + (history.map (Event.excess objects key)).sum

variable {objects} {start s : World ι} {task : ι → Option (Script Row Unit Event)} {key : UsageKey} {limit : ℤ}

/-- A commit raises the total over the limit only by what is recorded, or settled above what was reserved. -/
theorem within_commit {i : ι} {e : Event} (h : Within objects key limit s.tables.committed s.history)
    (hdone : Done objects s i e) : Within objects key limit (s.tables.commit i).committed (e :: s.history) := by
  intro hlimits
  have hbefore := h fun id limit' hgranted => hlimits id limit' (mem_cons_of_mem e hgranted)
  rw [map_cons, sum_cons]
  generalize (s.history.map (Event.excess objects key)).sum = sum at hbefore ⊢
  obtain ⟨key', u, hcounted, htotal⟩ : ∃ key' u, Counted s.tables.committed (s.tables.commit i).committed key' u ∧
      (key' = key → u.total ≤ limit + (e.excess objects key + sum : ℕ)) := by
    cases e with
    | recorded key' input output =>
      obtain ⟨_, hwrote⟩ := hdone
      refine ⟨key', _, counted_of_sees hwrote.sees mem_cons_self fun _ hkey => by simp [hkey], ?_⟩
      rintro rfl
      simp [Event.excess, Usage.total, Usage.record] at hbefore ⊢
      omega
    | granted id limit' =>
      obtain ⟨-, hwithin, hwrote⟩ := hdone
      refine ⟨_, _, counted_of_sees hwrote.sees (mem_cons_of_mem _ mem_cons_self) fun _ hkey => by simp [hkey], ?_⟩
      intro hkey
      have hlimit := hlimits id limit' mem_cons_self hkey
      simp [Usage.total, Usage.reserve] at hwithin ⊢
      omega
    | closed id actual =>
      obtain ⟨row, -, -, hwrote⟩ := hdone
      refine ⟨_, _, counted_of_sees hwrote.sees (mem_cons_of_mem _ mem_cons_self) fun _ hkey => by simp [hkey], ?_⟩
      rintro rfl
      cases actual <;> simp [Event.excess, Usage.total, Usage.close] at hbefore ⊢ <;> omega
  by_cases hkey : key' = key
  · rw [← hkey, hcounted.1, hkey]
    exact htotal hkey
  · rw [hcounted.2 key (Ne.symm hkey)]
    omega

/-- A row gets above the limits it was granted under by no more than what was recorded without a reservation, or settled
above one. -/
theorem total_within (h : (Script.program fun _ => Operation objects).Reached start s task) (hstart : start.Start)
    (key : UsageKey) (hlimit : 0 ≤ limit) : Within objects key limit s.tables.committed s.history := by
  induction h with
  | start =>
    intro _
    rw [hstart.history, Rows.usage, hstart.committed]
    change Usage.empty.total ≤ _
    simpa [Usage.total, Usage.empty] using hlimit
  | step hreached hstep ih =>
    cases hstep with
    | statement i request t hnext hready =>
      rw [show _ = _ from Tables.committed_exec request]
      exact ih
    | commit i e hfinish => exact within_commit ih ((reached_sound hreached hstart).1.post (commit_of_finish hfinish) trivial)
    | _ => exact ih

theorem total_within_sample : ∃ s : World Unit,
    s.history = [.granted "third" 20, .closed "other" none, .closed "id" (some (5, 4)), .granted "other" 20, .granted "id" 20] ∧
    Within sampleObjects (sampleObjects "id").key 20 s.tables.committed s.history := by
  obtain ⟨s, hreached, -, hhistory⟩ := reached_sampleScripts
  exact ⟨s, hhistory, total_within hreached ⟨rfl, fun _ => rfl, fun _ _ => rfl⟩ _ (by decide)⟩

end Limit

end Bidding.Ai
