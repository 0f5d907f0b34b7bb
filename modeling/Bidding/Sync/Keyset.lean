import Bidding.Foundations.Collation
import Bidding.Foundations.Paging
import Bidding.Sync.Cursor

/-!
# Pages of a table

A list of records is read in pages, by offset or by keyset cursor. What the condition of the query
keeps is a predicate on rows, and rows are handed out as they are; the order the database compares
texts by, the signature and the type of other columns are parameters.
-/

namespace Bidding.Keyset

open Foundations List
open Option hiding filter_filter min_eq_left

variable {ν : Type} [LinearOrder ν]

/-! ## Rows and queries -/

/-- A row: its id, its text columns and its other columns, `none` where it is NULL. -/
structure Row (ν : Type) where
  id : String
  texts : String → Option String
  others : String → Option ν

structure Table (ν : Type) where
  rows : List (Row ν)
  primaryKey : (rows.map Row.id).Nodup

def Row.text (r : Row ν) (column : String) : Option String :=
  if column = "id" then some r.id else r.texts column

/-- `COALESCE(column, '')`. -/
def Row.coalesced (r : Row ν) (column : String) : String := (r.text column).getD ""

def Direction.order (collation : Collation) : Direction → Collation
  | .asc => collation
  | .desc => ⟨LinearOrder.lift' (fun s : String => OrderDual.toDual (s : Collated collation))
      fun _ _ h => OrderDual.toDual_inj.mp h⟩

/-- What a server reads pages with: the signature, the order of texts, and what `str` writes for
lists and dictionaries. -/
structure Server where
  hmac : String → List Char → Digest
  containerText : Value → String
  collation : Collation

/-- A session token: `verify_session` has found one. -/
abbrev SessionToken := { token : String // token ≠ "" }

/-- What the pages of one list have in common. -/
structure Query (ν : Type) where
  tableName : String
  /-- The sort column. -/
  column : String
  direction : Direction
  /-- `column_declaration.startswith("TEXT")`. -/
  isTextSort : Bool
  /-- The conditions of the query, the visibility of the rows among them. -/
  keeps : Row ν → Bool
  /-- `pageSize` of the request. -/
  requestedSize : Int
  session : SessionToken

/-- `max(1, min(200, int(page_size_raw)))`. -/
def Query.pageSize (q : Query ν) : ℕ := (max 1 (min 200 q.requestedSize)).toNat

omit [LinearOrder ν] in
theorem Query.pageSize_pos (q : Query ν) : 0 < q.pageSize := by
  unfold Query.pageSize
  omega

/-- The parameters of one request: `pagination`, `cursor`, `includeTotal` and `page`. -/
structure Params where
  /-- `pagination.strip().lower() == "cursor"`. -/
  cursorRequested : Bool
  cursor : String
  includeTotal : Bool
  page : ℕ

def Query.isKeyset (q : Query ν) : Bool := q.column = "id" || q.isTextSort

section

variable (server : Server) (q : Query ν) (table : Table ν)

abbrev Compared := Collated (q.direction.order server.collation)

def compared (text : String) : Compared server q := text

/-- The `ORDER BY`: `a` comes before `b`. -/
def before (a b : Row ν) : Prop :=
  if q.isKeyset then
    compared server q (a.coalesced q.column) < compared server q (b.coalesced q.column) ∨
      a.coalesced q.column = b.coalesced q.column ∧
        (q.column = "id" ∨ compared server q a.id ≤ compared server q b.id)
  else
    match a.others q.column, b.others q.column with
    | some x, some y =>
      (if q.direction = .asc then x < y else y < x) ∨
        x = y ∧ compared server q a.id ≤ compared server q b.id
    | some _, none => True
    | none, some _ => False
    | none, none => compared server q a.id ≤ compared server q b.id

instance : DecidableRel (before server q) := by
  intro a b
  unfold before
  split
  · infer_instance
  · split <;> infer_instance

/-- The condition that resumes after a value and an id. -/
def resumes (marker : String × String) (r : Row ν) : Bool :=
  compared server q marker.1 < compared server q (r.coalesced q.column) ||
    r.coalesced q.column = marker.1 && compared server q marker.2 < compared server q r.id

/-- `SELECT * … WHERE … ORDER BY …`. -/
def select (condition : Row ν → Bool) : List (Row ν) :=
  (table.rows.filter condition).insertionSort (before server q)

def unpaged : List (Row ν) := select server q table q.keeps

/-- `_fetch_page_rows(…)`: the mode, the rows and the count; `none` is the refused cursor. -/
def fetchPageRows (params : Params) : Option (Bool × List (Row ν) × Option ℕ) :=
  let cursorMode := params.cursorRequested && q.isKeyset
  let total := if !cursorMode || params.includeTotal then
    some (table.rows.countP q.keeps) else none
  let rawCursor := pyStrip params.cursor
  if cursorMode then
    if rawCursor = "" then
      some (true, (select server q table q.keeps).take (q.pageSize + 1), total)
    else
      match decodeKeysetCursor server.hmac server.containerText rawCursor q.tableName q.column q.direction q.session.val with
      | none => none
      | some marker =>
        some (true, (select server q table fun r => q.keeps r && resumes server q marker r).take (q.pageSize + 1), total)
  else
    some (false, ((select server q table q.keeps).drop ((params.page - 1) * q.pageSize)).take q.pageSize, total)

/-- `_serialize_page_items(…)`: the items, the next cursor and whether there is more; the outer
`none` is the error of the encoder. -/
def serializePageItems (cursorMode : Bool) (rows : List (Row ν)) : Option (List (Row ν) × Option String × Bool) :=
  let hasMore := cursorMode && q.pageSize < rows.length
  let rows := if hasMore then rows.take q.pageSize else rows
  match rows.getLast? with
  | some last =>
    if cursorMode && hasMore then
      (encodeKeysetCursor server.hmac q.tableName q.column q.direction (last.text q.column) last.id
        q.session.val).map fun cursor => (rows, some cursor, hasMore)
    else some (rows, none, hasMore)
  | none => some (rows, none, hasMore)

structure Page (ν : Type) where
  items : List (Row ν)
  totalItems : Option ℕ
  nextCursor : Option String
  hasMore : Bool

/-- `_paginate_records_blocking(request)` for a readable table; `none` is an error response. -/
def paginateRecords (params : Params) : Option (Page ν) := do
  let (cursorMode, rows, totalItems) ← fetchPageRows server q table params
  let (items, nextCursor, hasMore) ← serializePageItems server q cursorMode rows
  return ⟨items, totalItems, nextCursor, hasMore⟩

def follow (includeTotal : Bool) : ℕ → String → Option (List (Row ν))
  | 0, _ => none
  | fuel + 1, cursor => do
    let page ← paginateRecords server q table
      { cursorRequested := true, cursor, includeTotal, page := 1 }
    match page.nextCursor with
    | none => return page.items
    | some next => return page.items ++ (← follow includeTotal fuel next)

def Complete (includeTotal : Bool) : Prop :=
  ∃ fuel, follow server q table includeTotal fuel "" = some (unpaged server q table)

end

def Query.cursorFits (q : Query ν) (r : Row ν) : Prop :=
  r.id ≠ "" ∧ asciiLength q.tableName + asciiLength q.column + asciiLength q.direction.text +
    asciiLength (r.coalesced q.column) + asciiLength r.id ≤ 1439

/-- Every row that ends a page before the last one fits a cursor; columns that have no cursors
give one page. -/
def Resumable (server : Server) (q : Query ν) (table : Table ν) : Prop :=
  if q.isKeyset then
    ∀ k r, 0 < k → k * q.pageSize < (unpaged server q table).length →
      (unpaged server q table)[k * q.pageSize - 1]? = some r → q.cursorFits r
  else (unpaged server q table).length ≤ q.pageSize

/-! ## The order -/

section

variable {server : Server} {q : Query ν} {table : Table ν}

def orderKey (server : Server) (q : Query ν) (r : Row ν) : Compared server q ×ₗ Compared server q :=
  toLex (compared server q (r.coalesced q.column), compared server q r.id)

def markerKey (server : Server) (q : Query ν) (marker : String × String) : Compared server q ×ₗ Compared server q :=
  toLex (compared server q marker.1, compared server q marker.2)

theorem before_iff (hkeyset : q.isKeyset = true) (a b : Row ν) :
    before server q a b ↔ orderKey server q a ≤ orderKey server q b := by
  unfold before orderKey
  rw [if_pos hkeyset, Prod.Lex.toLex_le_toLex]
  by_cases hid : q.column = "id"
  · -- the second component repeats the first
    simp only [hid, true_or, and_true]
    constructor
    · rintro (h | h)
      · exact .inl h
      · exact .inr ⟨h, le_of_eq (congrArg _ h)⟩
    · rintro (h | h)
      · exact .inl h
      · exact .inr h.1
  · simp only [hid, false_or]
    rfl

omit [LinearOrder ν] in
theorem resumes_iff (marker : String × String) (r : Row ν) :
    resumes server q marker r = true ↔ markerKey server q marker < orderKey server q r := by
  unfold resumes markerKey orderKey
  rw [Prod.Lex.toLex_lt_toLex]
  simp only [Bool.or_eq_true, Bool.and_eq_true, decide_eq_true_eq]
  constructor
  · rintro (h | h)
    · exact .inl h
    · exact .inr ⟨congrArg _ h.1.symm, h.2⟩
  · rintro (h | h)
    · exact .inl h
    · exact .inr ⟨h.1.symm, h.2⟩

omit [LinearOrder ν] in
theorem orderKey_injOn {a b : Row ν} (h : orderKey server q a = orderKey server q b) : a.id = b.id :=
  congrArg (fun key => (ofLex key).2) h

theorem pairwise_select (hkeyset : q.isKeyset = true) (condition : Row ν → Bool) :
    (select server q table condition).Pairwise fun a b =>
      orderKey server q a < orderKey server q b := by
  have hperm := perm_insertionSort (before server q) (table.rows.filter condition)
  have hids : ((select server q table condition).map Row.id).Nodup := by
    refine (hperm.map Row.id).nodup_iff.mpr ?_
    exact table.primaryKey.sublist (filter_sublist.map Row.id)
  have htotal : Std.Total (before server q) :=
    ⟨fun a b => by
      rw [before_iff hkeyset, before_iff hkeyset]
      exact le_total _ _⟩
  have htrans : IsTrans (Row ν) (before server q) :=
    ⟨fun a b c hab hbc => by
      rw [before_iff hkeyset] at hab hbc ⊢
      exact hab.trans hbc⟩
  have hsorted := pairwise_insertionSort (before server q) (table.rows.filter condition)
  have hdistinct : (select server q table condition).Pairwise fun a b => a.id ≠ b.id :=
    pairwise_map.mp hids
  refine (hsorted.and hdistinct).imp fun {a b} hab => ?_
  exact lt_of_le_of_ne ((before_iff hkeyset a b).mp hab.1) fun h => hab.2 (orderKey_injOn h)

theorem select_resumes (hkeyset : q.isKeyset = true) (marker : String × String) :
    select server q table (fun r => q.keeps r && resumes server q marker r) =
      Paging.beyond (orderKey server q) (unpaged server q table) (markerKey server q marker) := by
  have hleft : (select server q table fun r => q.keeps r && resumes server q marker r).Pairwise
      fun a b => orderKey server q a < orderKey server q b := pairwise_select hkeyset _
  have hright : (Paging.beyond (orderKey server q) (unpaged server q table)
      (markerKey server q marker)).Pairwise fun a b => orderKey server q a < orderKey server q b :=
    (pairwise_select hkeyset q.keeps).filter _
  refine List.Perm.eq_of_pairwise (fun a b _ _ hab hba => absurd hab hba.asymm) hleft hright ?_
  refine (perm_insertionSort _ _).trans ?_
  have hfilter : table.rows.filter (fun r => q.keeps r && resumes server q marker r) =
      (table.rows.filter q.keeps).filter fun r =>
        decide (markerKey server q marker < orderKey server q r) := by
    rw [filter_filter]
    apply filter_congr
    intro r _
    have : resumes server q marker r =
        decide (markerKey server q marker < orderKey server q r) := by
      rw [Bool.eq_iff_iff, resumes_iff, decide_eq_true_eq]
    rw [this, Bool.and_comm]
  rw [hfilter]
  exact ((perm_insertionSort _ _).symm.filter _)

/-! ## One page -/

def pageParams (includeTotal : Bool) (cursor : String) : Params :=
  { cursorRequested := true, cursor, includeTotal, page := 1 }

/-- A request with the cursor fetches the first of `rest` and looks one further. -/
def Opens (server : Server) (q : Query ν) (table : Table ν) (includeTotal : Bool) (cursor : String)
    (rest : List (Row ν)) : Prop :=
  fetchPageRows server q table (pageParams includeTotal cursor) = some (true, rest.take (q.pageSize + 1),
      if includeTotal then some (table.rows.countP q.keeps) else none)

variable {includeTotal : Bool} {last : Row ν}

theorem opens_first (hkeyset : q.isKeyset = true) : Opens server q table includeTotal "" (unpaged server q table) := by
  have hstrip : pyStrip "" = "" := by decide
  simp only [Opens, fetchPageRows, pageParams, hkeyset, Bool.and_true, if_true, hstrip, Bool.not_true, Bool.false_or]
  rfl

theorem fetchPageRows_cursor (hkeyset : q.isKeyset = true) {front rest : List (Row ν)}
    {cursor : String} (hsplit : unpaged server q table = front ++ last :: rest)
    (hcursor : encodeKeysetCursor server.hmac q.tableName q.column q.direction
      (last.text q.column) last.id q.session.val = some cursor) :
    (q.cursorFits last → Opens server q table includeTotal cursor rest) ∧
      (¬q.cursorFits last → fetchPageRows server q table (pageParams includeTotal cursor) = none) := by
  have hdecode := @decodeKeysetCursor_encode server.hmac server.containerText _ _ _ _ q.tableName q.column _ _ _
    q.direction hcursor
  obtain ⟨hstrip, hne⟩ := pyStrip_cursor hcursor
  simp only [true_and] at hdecode
  constructor
  · intro hfits
    have hread : last.id ≠ "" ∧ asciiLength q.tableName + asciiLength q.column +
        asciiLength q.direction.text + asciiLength ((last.text q.column).getD "") + asciiLength last.id ≤ 1439 := hfits
    rw [if_pos hread] at hdecode
    have hbeyond : Paging.beyond (orderKey server q) (unpaged server q table)
        (markerKey server q ((last.text q.column).getD "", last.id)) = rest :=
      Paging.beyond_row (pairwise_select hkeyset q.keeps) hsplit
    simp only [Opens, fetchPageRows, pageParams, hkeyset, Bool.and_true, if_true, hstrip, hne,
      if_false, hdecode, select_resumes hkeyset, hbeyond, Bool.not_true, Bool.false_or]
  · intro hfits
    have hnone : ¬(last.id ≠ "" ∧ asciiLength q.tableName + asciiLength q.column +
        asciiLength q.direction.text + asciiLength ((last.text q.column).getD "") + asciiLength last.id ≤ 1439) := hfits
    rw [if_neg hnone] at hdecode
    simp only [fetchPageRows, pageParams, hkeyset, Bool.and_true, if_true, hstrip, hne, if_false, hdecode]

def countedTotal (q : Query ν) (table : Table ν) (includeTotal : Bool) : Option ℕ :=
  if includeTotal then some (table.rows.countP q.keeps) else none

variable {cursor : String}

variable {rest : List (Row ν)}

section

variable (hopens : Opens server q table includeTotal cursor rest)
include hopens

theorem paginateRecords_last (hshort : rest.length ≤ q.pageSize) :
    paginateRecords server q table (pageParams includeTotal cursor) =
      some ⟨rest, countedTotal q table includeTotal, none, false⟩ := by
  have hrows : rest.take (q.pageSize + 1) = rest := take_of_length_le (by omega)
  have hserialized : serializePageItems server q true rest = some (rest, none, false) := by
    have hmore : ¬q.pageSize < rest.length := by omega
    simp only [serializePageItems, hmore, decide_false, Bool.and_false, Bool.false_eq_true, if_false]
    cases rest.getLast? <;> rfl
  unfold Opens at hopens
  unfold paginateRecords
  rw [hopens, hrows]
  simp only [bind_eq_bind, bind_some, hserialized]
  rfl

theorem paginateRecords_more (hlong : q.pageSize < rest.length) : ∃ last next, (rest.take q.pageSize).getLast? = some last ∧
    encodeKeysetCursor server.hmac q.tableName q.column q.direction (last.text q.column) last.id q.session.val = some next ∧
    paginateRecords server q table (pageParams includeTotal cursor) =
      some ⟨rest.take q.pageSize, countedTotal q table includeTotal, some next, true⟩ := by
  have hpos := q.pageSize_pos
  have hlength : (rest.take (q.pageSize + 1)).length = q.pageSize + 1 := by
    rw [length_take]
    omega
  have hne : rest.take q.pageSize ≠ [] := by
    apply ne_nil_of_length_pos
    rw [length_take]
    omega
  have hlast := getLast?_eq_some_getLast hne
  generalize (rest.take q.pageSize).getLast hne = last at hlast
  obtain ⟨next, hnext⟩ : ∃ next, encodeKeysetCursor server.hmac q.tableName q.column q.direction
      (last.text q.column) last.id q.session.val = some next :=
    ⟨_, encodeKeysetCursor_eq q.session.property⟩
  refine ⟨last, next, hlast, hnext, ?_⟩
  have hserialized : serializePageItems server q true (rest.take (q.pageSize + 1)) =
      some (rest.take q.pageSize, some next, true) := by
    have hmore : q.pageSize < (rest.take (q.pageSize + 1)).length := by omega
    have htake : (rest.take (q.pageSize + 1)).take q.pageSize = rest.take q.pageSize := by
      rw [take_take, min_eq_left (by omega)]
    simp only [serializePageItems, hmore, decide_true, Bool.and_true, if_true, htake, hlast, hnext, map_some]
  unfold Opens at hopens
  unfold paginateRecords
  rw [hopens]
  simp only [bind_eq_bind, bind_some, hserialized]
  rfl

/-! ## The walk -/

theorem follow_last (hshort : rest.length ≤ q.pageSize)
    (fuel : ℕ) : follow server q table includeTotal (fuel + 1) cursor = some rest := by
  have hpage := paginateRecords_last hopens hshort
  unfold pageParams at hpage
  simp only [follow, hpage, bind_eq_bind, bind_some]
  rfl

end

theorem follow_more {cursor next : String} {items : List (Row ν)} {total : Option ℕ}
    (hpage : paginateRecords server q table (pageParams includeTotal cursor) =
      some ⟨items, total, some next, true⟩) (fuel : ℕ) : follow server q table includeTotal (fuel + 1) cursor =
      (follow server q table includeTotal fuel next).map (items ++ ·) := by
  unfold pageParams at hpage
  simp only [follow, hpage, bind_eq_bind, bind_some]
  cases follow server q table includeTotal fuel next <;> rfl

theorem follow_refused (hrefused : fetchPageRows server q table (pageParams includeTotal cursor) = none) (fuel : ℕ) :
    follow server q table includeTotal fuel cursor = none := by
  unfold pageParams at hrefused
  cases fuel with
  | zero => rfl
  | succ fuel => simp only [follow, paginateRecords, hrefused, bind_eq_bind, bind_none]

def EdgesFit (q : Query ν) (rest : List (Row ν)) : Prop :=
  ∀ k r, 0 < k → k * q.pageSize < rest.length → rest[k * q.pageSize - 1]? = some r → q.cursorFits r

omit [LinearOrder ν] in
theorem edgesFit_iff (hlong : q.pageSize < rest.length) (hlast : (rest.take q.pageSize).getLast? = some last) :
    EdgesFit q rest ↔ q.cursorFits last ∧ EdgesFit q (rest.drop q.pageSize) := by
  have hpos := q.pageSize_pos
  have hedge : rest[q.pageSize - 1]? = some last := by
    rw [getLast?_eq_getElem?, length_take, min_eq_left (by omega), getElem?_take_of_lt (by omega)] at hlast
    exact hlast
  have hshift : ∀ k, 0 < k → (rest.drop q.pageSize)[k * q.pageSize - 1]? = rest[(k + 1) * q.pageSize - 1]? := by
    intro k hk
    have hmul : q.pageSize ≤ k * q.pageSize := Nat.le_mul_of_pos_left _ hk
    rw [getElem?_drop, Nat.succ_mul]
    congr 1
    omega
  constructor
  · intro h
    refine ⟨h 1 last (by omega) (by omega) (by rw [Nat.one_mul]; exact hedge), ?_⟩
    intro k r hk hlength hr
    rw [hshift k hk] at hr
    rw [length_drop] at hlength
    exact h (k + 1) r (by omega) (by rw [Nat.succ_mul]; omega) hr
  · rintro ⟨hfits, h⟩ k r hk hlength hr
    by_cases hfirst : k = 1
    · rw [hfirst, Nat.one_mul, hedge] at hr
      rw [← some.inj hr]
      exact hfits
    · obtain ⟨k, rfl⟩ : ∃ m, k = m + 1 := ⟨k - 1, by omega⟩
      rw [← hshift k (by omega)] at hr
      refine h k r (by omega) ?_ hr
      rw [length_drop]
      rw [Nat.succ_mul] at hlength
      omega

/-- From any place that has been reached, the walk yields all the rows left if and only if the rows
that end its pages fit their cursors. By induction on what is left. -/
theorem follow_iff (hkeyset : q.isKeyset = true) (front rest : List (Row ν)) (cursor : String)
    (hsplit : unpaged server q table = front ++ rest) (hopens : Opens server q table includeTotal cursor rest) :
    (∃ fuel, follow server q table includeTotal fuel cursor = some rest) ↔ EdgesFit q rest := by
  by_cases hlong : q.pageSize < rest.length
  · obtain ⟨last, next, hlast, hnext, hpage⟩ := paginateRecords_more hopens hlong
    have hrow : unpaged server q table = (front ++ (rest.take q.pageSize).dropLast) ++ last :: rest.drop q.pageSize := by
      have htake : (rest.take q.pageSize).dropLast ++ [last] = rest.take q.pageSize :=
        dropLast_append_getLast? last hlast
      calc unpaged server q table = front ++ (rest.take q.pageSize ++ rest.drop q.pageSize) := by
            rw [hsplit, take_append_drop]
        _ = _ := by
            rw [← htake]
            simp
    obtain ⟨hfetch, hrefuse⟩ : (q.cursorFits last → Opens server q table includeTotal next (rest.drop q.pageSize)) ∧
          (¬q.cursorFits last → fetchPageRows server q table (pageParams includeTotal next) = none) :=
      fetchPageRows_cursor hkeyset hrow hnext
    rw [edgesFit_iff hlong hlast]
    have hsucc : (∃ fuel, follow server q table includeTotal fuel cursor = some rest) ↔
        ∃ fuel, follow server q table includeTotal fuel next = some (rest.drop q.pageSize) := by
      constructor
      · rintro ⟨fuel, hfuel⟩
        cases fuel with
        | zero => cases hfuel
        | succ fuel =>
          rw [follow_more hpage] at hfuel
          obtain ⟨out, hout, hall⟩ := map_eq_some_iff.mp hfuel
          refine ⟨fuel, ?_⟩
          rw [hout]
          have := hall.trans (take_append_drop q.pageSize rest).symm
          exact congrArg some (append_cancel_left this)
      · rintro ⟨fuel, hfuel⟩
        refine ⟨fuel + 1, ?_⟩
        rw [follow_more hpage, hfuel, map_some, take_append_drop]
    rw [hsucc]
    by_cases hfits : q.cursorFits last
    · have hpos := q.pageSize_pos
      rw [follow_iff hkeyset (front ++ rest.take q.pageSize) (rest.drop q.pageSize) next
        (by rw [hsplit, append_assoc, take_append_drop]) (hfetch hfits)]
      simp only [hfits, true_and]
    · simp only [hfits, false_and, iff_false, not_exists]
      intro fuel hfuel
      rw [follow_refused (hrefuse hfits)] at hfuel
      cases hfuel
  · constructor
    · intro _ k r hk hlength
      have := Nat.le_mul_of_pos_left q.pageSize hk
      omega
    · intro _
      exact ⟨1, follow_last hopens (by omega) 0⟩
termination_by rest.length
decreasing_by
  rw [length_drop]
  omega

theorem complete_iff (hkeyset : q.isKeyset = true) :
    Complete server q table includeTotal ↔ EdgesFit q (unpaged server q table) :=
  follow_iff hkeyset [] (unpaged server q table) "" (nil_append _).symm (opens_first hkeyset)

theorem follow_offset (hkeyset : q.isKeyset = false) (fuel : ℕ) : follow server q table includeTotal (fuel + 1) "" =
    some ((unpaged server q table).take q.pageSize) := by
  have hserialized : ∀ rows : List (Row ν), serializePageItems server q false rows = some (rows, none, false) := by
    intro rows
    simp only [serializePageItems, Bool.false_and, Bool.false_eq_true, if_false]
    cases rows.getLast? <;> rfl
  simp only [follow, paginateRecords, fetchPageRows, hkeyset, Bool.and_false, Bool.false_eq_true,
    if_false, Nat.sub_self, Nat.zero_mul, drop_zero, bind_eq_bind, bind_some, hserialized]
  rfl

theorem paginateRecords_refused (hkeyset : q.isKeyset = true) (hstrip : pyStrip cursor = cursor) (hne : cursor ≠ "")
    (hdecode : decodeKeysetCursor server.hmac server.containerText cursor q.tableName q.column
      q.direction q.session.val = none) : paginateRecords server q table (pageParams includeTotal cursor) = none := by
  simp only [paginateRecords, fetchPageRows, pageParams, hkeyset, Bool.and_true, if_true, hstrip,
    hne, if_false, hdecode, bind_eq_bind, bind_none]

end

/-- Following the cursors yields the rows of the unpaged query, each once and in order, exactly when every row that ends a page
before the last fits its cursor (for a column without cursors: when there is one page). A page asked for with a cursor of
another table, column or direction is refused. -/
theorem keyset_pages (server : Server) (q : Query ν) (table : Table ν) (includeTotal : Bool) :
    (Complete server q table includeTotal ↔ Resumable server q table) ∧
      ∀ (tableName column : String) (direction : Direction) (stored : Option String) (recordId cursor : String),
        (q.tableName, q.column, q.direction) ≠ (tableName, column, direction) →
        encodeKeysetCursor server.hmac tableName column direction stored recordId q.session.val = some cursor →
        decodeKeysetCursor server.hmac server.containerText cursor q.tableName q.column q.direction q.session.val = none ∧
          (q.isKeyset = true → paginateRecords server q table (pageParams includeTotal cursor) = none) := by
  constructor
  · unfold Complete Resumable
    by_cases hkeyset : q.isKeyset = true
    · rw [if_pos hkeyset]
      exact complete_iff hkeyset
    rw [if_neg hkeyset]
    rw [Bool.not_eq_true] at hkeyset
    constructor
    · rintro ⟨fuel, hfuel⟩
      cases fuel with
      | zero => cases hfuel
      | succ fuel =>
        rw [follow_offset hkeyset] at hfuel
        have hlength := congrArg List.length (some.inj hfuel)
        rw [length_take] at hlength
        omega
    · intro hshort
      refine ⟨1, ?_⟩
      rw [follow_offset hkeyset, take_of_length_le hshort]
  · intro tableName column direction stored recordId cursor hother hcursor
    have hdecode : decodeKeysetCursor server.hmac server.containerText cursor q.tableName q.column
        q.direction q.session.val = none := by
      rw [decodeKeysetCursor_encode _ _ _ hcursor, if_neg fun h => hother h.1]
    obtain ⟨hstrip, hne⟩ := pyStrip_cursor hcursor
    exact ⟨hdecode, fun hkeyset => paginateRecords_refused hkeyset hstrip hne hdecode⟩

theorem asciiLength_replicate (n : ℕ) (c : Char) : asciiLength (String.ofList (List.replicate n c)) = n * asciiWidth c := by
  simp [asciiLength]

def longName : String := String.ofList (List.replicate 400 'ế')

theorem longName_long : 1439 < asciiLength longName := by
  have hwidth : asciiWidth 'ế' = 6 := by decide
  calc 1439 < 400 * 6 := by omega
    _ = 400 * asciiWidth 'ế' := by rw [hwidth]
    _ = asciiLength longName := (asciiLength_replicate 400 'ế').symm

omit [LinearOrder ν] in
theorem not_cursorFits {q : Query ν} {r : Row ν} (h : 1439 < asciiLength (r.coalesced q.column)) : ¬q.cursorFits r := by
  rintro ⟨-, hle⟩
  omega

def twoPlans : Table ℕ where
  rows := [⟨"KH1", fun _ => some longName, fun _ => none⟩, ⟨"KH2", fun _ => some longName, fun _ => none⟩]
  primaryKey := by decide

def plansByName : Query ℕ where
  tableName := "ke_hoach_lcnt"
  column := "ten_ke_hoach"
  direction := .asc
  isTextSort := true
  keeps := fun _ => true
  requestedSize := 1
  session := ⟨"token", by decide⟩

def plainServer : Server where
  hmac := fun _ _ => ⟨List.replicate 32 0, by decide⟩
  containerText := fun _ => ""
  collation := Collation.codePoints

/-- The first page of the plans names a cursor that the second request is refused for. -/
theorem longName_incomplete : plansByName.isKeyset = true ∧ ¬Complete plainServer plansByName twoPlans false := by
  refine ⟨rfl, fun hcomplete => ?_⟩
  have hfit := (complete_iff rfl).mp hcomplete
  have hperm : (unpaged plainServer plansByName twoPlans).Perm twoPlans.rows :=
    perm_insertionSort _ _
  generalize unpaged plainServer plansByName twoPlans = rows at hfit hperm
  have hlength : rows.length = 2 := hperm.length_eq
  have hsize : plansByName.pageSize = 1 := by decide
  obtain ⟨r, hr⟩ : ∃ r, rows[0]? = some r := ⟨_, getElem?_eq_getElem (by omega)⟩
  have hzero : 1 * plansByName.pageSize - 1 = 0 := by rw [hsize]
  have hedge := hfit 1 r (by omega) (by omega) (by rw [hzero]; exact hr)
  have hname : r.coalesced plansByName.column = longName := by
    have hmem := hperm.mem_iff.mp (mem_of_getElem? hr)
    have htexts : r.texts = fun _ => some longName := by
      rcases mem_cons.mp hmem with rfl | hmem
      · rfl
      · rw [mem_singleton.mp hmem]
    simp [Row.coalesced, Row.text, htexts, plansByName]
  refine not_cursorFits ?_ hedge
  rw [hname]
  exact longName_long

end Bidding.Keyset
