import Bidding.Outbox.Sent
import Bidding.Tables.Lineage

/-!
# The pages of a table under the pending edits

The pending edits are laid over each page by itself. Here the pages are put together again: what they list
between them, and the number of records each of them states, against the pending edits over the whole result.
-/

namespace Bidding.Tables

open Foundations List

section Page

variable {normalize : Record → Record} {matchesQuery : Record → Bool} {edits : PendingEdits} {items rows : List Record}
  {record : Record}
  {α β : Type}
  {isFirstPage : Bool} {l : List α} {key : α → β}

/-- The pending records a page shows: on the first page all that match, on a later one those it has a row for. -/
def shownPending (normalize : Record → Record) (matchesQuery : Record → Bool) (edits : PendingEdits)
    (isFirstPage : Bool) (rows : List Record) : List Record :=
  (matchingPending normalize matchesQuery edits).filter fun record =>
    (rows.filterMap (survivor normalize matchesQuery edits)).any
      (fun row => pendingRecordRoot row = pendingRecordRoot record) || isFirstPage

def pageRecords (normalize : Record → Record) (matchesQuery : Record → Bool) (edits : PendingEdits)
    (isFirstPage : Bool) (rows : List Record) : List Record :=
  rows.filterMap (keptRow normalize matchesQuery edits) ++
    (shownPending normalize matchesQuery edits isFirstPage rows).map (pendingOver normalize matchesQuery edits rows)

theorem mem_pendingRecords (h : record ∈ pendingRecords normalize edits) :
    (∃ upsert ∈ edits.upserts, normalize upsert = record) ∧ idText record ≠ "" ∧ idText record ∉ edits.deletes := by
  obtain ⟨hlatest, hlive⟩ := mem_filter.mp h
  exact ⟨mem_map.mp (mem_of_mem_latest hlatest), of_decide_eq_true hlive⟩

theorem nodup_roots_pending : ((pendingRecords normalize edits).map pendingRecordRoot).Nodup :=
  (filter_sublist.map pendingRecordRoot).nodup (nodup_roots_latest edits.upserts)

theorem nodup_ids_pending (h : edits.Sound normalize rows) : ((pendingRecords normalize edits).map idText).Nodup := by
  apply List.Nodup.map_on
  · intro left hleft right hright hid
    have hsub (record : Record) (hrecord : record ∈ pendingRecords normalize edits) :
        record ∈ edits.upserts.map normalize := mem_of_mem_latest (mem_filter.mp hrecord).1
    exact inj_on_of_nodup_map h.upsertIds (hsub left hleft) (hsub right hright) hid
  · exact List.Nodup.of_map pendingRecordRoot nodup_roots_pending

theorem find?_key_iff [DecidableEq β] (h : (l.map key).Nodup) (k : β) (a : α) :
    (l.find? fun other => key other = k) = some a ↔ a ∈ l ∧ key a = k := by
  constructor
  · intro hfind
    exact ⟨mem_of_find?_eq_some hfind, by simpa using find?_some hfind⟩
  · rintro ⟨hmem, hkey⟩
    cases hfind : l.find? fun other => key other = k with
    | none =>
      rw [List.find?_eq_none] at hfind
      exact absurd (decide_eq_true hkey) (hfind a hmem)
    | some other =>
      have hother : key other = k := by simpa using find?_some hfind
      rw [inj_on_of_nodup_map h (mem_of_find?_eq_some hfind) hmem (hother.trans hkey.symm)]

theorem nodup_map_filterMap {left : α → Option α}
    (hkey : ∀ a ∈ l, ∀ b, left a = some b → key b = key a) (h : (l.map key).Nodup) : ((l.filterMap left).map key).Nodup := by
  suffices hsub : ((l.filterMap left).map key).Sublist (l.map key) from hsub.nodup h
  clear h
  induction l with
  | nil => exact List.Sublist.refl []
  | cons a l ih =>
    have htail := ih fun b hb => hkey b (mem_cons_of_mem a hb)
    cases hleft : left a with
    | none =>
      rw [filterMap_cons_none hleft]
      exact htail.trans (sublist_cons_self (key a) (l.map key))
    | some b =>
      rw [filterMap_cons_some hleft, map_cons, map_cons, hkey a mem_cons_self b hleft]
      exact htail.cons_cons (key a)

theorem nodup_ids_survivors (h : edits.Sound normalize rows) :
    ((rows.filterMap (survivor normalize matchesQuery edits)).map idText).Nodup :=
  nodup_map_filterMap (fun _ hrow _ hleft => (survivor_some h hrow hleft).1) h.distinctIds

section

variable (h : edits.Sound normalize (items.map normalize))
include h

theorem get?_patchedPage_eq_find? (id : String) : (patchedPage normalize matchesQuery edits items).byId.get? id =
    ((items.map normalize).filterMap (survivor normalize matchesQuery edits)).find? fun row => idText row = id := by
  apply Option.ext
  intro left
  rw [find?_key_iff (nodup_ids_survivors h), get?_patchedPage h, mem_filterMap]
  constructor
  · rintro ⟨row, hrow, hid, hleft⟩
    exact ⟨⟨row, hrow, hleft⟩, (survivor_some h hrow hleft).1.trans hid⟩
  · rintro ⟨⟨row, hrow, hleft⟩, hid⟩
    exact ⟨row, hrow, (survivor_some h hrow hleft).1.symm.trans hid, hleft⟩

theorem lineageOn_patchedPage (record : Record) : lineageOn (patchedPage normalize matchesQuery edits items).byId record =
    ((items.map normalize).filterMap (survivor normalize matchesQuery edits)).any
      fun row => pendingRecordRoot row = pendingRecordRoot record := by
  rw [Bool.eq_iff_iff, lineageOn_iff, any_eq_true]
  constructor
  · rintro ⟨id, row, hget, hroot⟩
    obtain ⟨source, hsource, -, hsurvivor⟩ := (get?_patchedPage h id row).mp hget
    exact ⟨row, mem_filterMap.mpr ⟨source, hsource, hsurvivor⟩, decide_eq_true hroot⟩
  · rintro ⟨row, hrow, hroot⟩
    obtain ⟨source, hsource, hsurvivor⟩ := mem_filterMap.mp hrow
    exact ⟨idText source, row, (get?_patchedPage h _ row).mpr ⟨source, hsource, rfl, hsurvivor⟩, of_decide_eq_true hroot⟩

theorem lineagePage_patchedPage :
    LineagePage (patchedPage normalize matchesQuery edits items).byId (pageById normalize items).keys edits.deletes
      (pendingRecords normalize edits) where
  ids id row hget := by
    obtain ⟨source, hsource, rfl, hsurvivor⟩ := (get?_patchedPage h id row).mp hget
    exact (survivor_some h hsource hsurvivor).1
  roots id id' row row' hget hget' hroot := by
    obtain ⟨source, hsource, rfl, hsurvivor⟩ := (get?_patchedPage h id row).mp hget
    obtain ⟨source', hsource', rfl, hsurvivor'⟩ := (get?_patchedPage h id' row').mp hget'
    rw [(survivor_some h hsource hsurvivor).2, (survivor_some h hsource' hsurvivor').2] at hroot
    rw [inj_on_of_nodup_map h.distinctRoots hsource hsource' hroot]
  stable record hrecord row hget := by
    obtain ⟨source, hsource, hid, hsurvivor⟩ := (get?_patchedPage h _ row).mp hget
    obtain ⟨⟨upsert, hupsert, rfl⟩, -, -⟩ := mem_pendingRecords hrecord
    rw [(survivor_some h hsource hsurvivor).2]
    exact h.upsertRoots upsert hupsert source hsource hid
  original record hrecord hkey := by
    obtain ⟨⟨upsert, hupsert, rfl⟩, -, hlive⟩ := mem_pendingRecords hrecord
    obtain ⟨row, hget⟩ := (Dict.mem_keys_iff _ _).mp hkey
    obtain ⟨hrow, hid⟩ := (get?_pageById h.ids h.distinctIds _ row).mp hget
    rw [← hid] at hlive
    exact ⟨row, (get?_patchedPage h _ row).mpr ⟨row, hrow, hid, survivor_of_pending h hupsert hid hlive⟩⟩
  pendingIds := nodup_ids_pending h
  pendingRoots := nodup_roots_pending
  live record hrecord := (mem_pendingRecords hrecord).2

end

theorem overlayPage_eq (isFirstPage : Bool) : overlayPage normalize matchesQuery edits isFirstPage items =
    (pendingRecords normalize edits).foldl
      (overlayUpsert matchesQuery edits.deletes (pageById normalize items).keys isFirstPage)
      (patchedPage normalize matchesQuery edits items) := by
  unfold pendingRecords
  rw [foldl_filter]
  have hskip : (overlayUpsert matchesQuery edits.deletes (pageById normalize items).keys isFirstPage) =
      fun state record => if decide (idText record ≠ "" ∧ idText record ∉ edits.deletes) = true then
        overlayUpsert matchesQuery edits.deletes (pageById normalize items).keys isFirstPage state record else state := by
    funext state record
    split
    · rfl
    rename_i hdead
    unfold overlayUpsert
    rw [if_pos]
    rw [decide_eq_true_iff, not_and_or, not_not, not_not] at hdead
    exact hdead
  rw [← hskip]
  rfl

theorem keptRow_eq_some_iff (row left : Record) :
    keptRow normalize matchesQuery edits row = some left ↔ survivor normalize matchesQuery edits row = some left ∧
      pendingRecordRoot left ∉ (pendingRecords normalize edits).map pendingRecordRoot := by
  unfold keptRow
  rw [Option.filter_eq_some_iff, decide_eq_true_iff]

theorem idText_ne_of_kept (h : edits.Sound normalize rows) {row left : Record} (hrow : row ∈ rows)
    (hkept : keptRow normalize matchesQuery edits row = some left) (hrecord : record ∈ pendingRecords normalize edits) :
    idText left ≠ idText record := by
  obtain ⟨hsurvivor, hroot⟩ := (keptRow_eq_some_iff row left).mp hkept
  obtain ⟨hid, hsame⟩ := survivor_some h hrow hsurvivor
  obtain ⟨⟨upsert, hupsert, rfl⟩, -, -⟩ := mem_pendingRecords hrecord
  intro heq
  apply hroot
  rw [hsame, h.upsertRoots upsert hupsert row hrow (hid.symm.trans heq)]
  exact mem_map_of_mem hrecord

theorem idText_pendingOver (hrecord : record ∈ pendingRecords normalize edits) :
    idText (pendingOver normalize matchesQuery edits rows record) = idText record :=
  idText_spread _ (mem_pendingRecords hrecord).2.1

theorem mem_pending_of_shown (h : record ∈ shownPending normalize matchesQuery edits isFirstPage rows) :
    record ∈ pendingRecords normalize edits :=
  (mem_filter.mp (mem_filter.mp h).1).1

theorem nodup_ids_pageRecords (h : edits.Sound normalize rows) (isFirstPage : Bool) :
    ((pageRecords normalize matchesQuery edits isFirstPage rows).map idText).Nodup := by
  unfold pageRecords
  rw [map_append, nodup_append]
  have hshown : ((shownPending normalize matchesQuery edits isFirstPage rows).map
      (pendingOver normalize matchesQuery edits rows)).map idText =
        (shownPending normalize matchesQuery edits isFirstPage rows).map idText := by
    rw [map_map]
    exact map_congr_left fun record hrecord => idText_pendingOver (mem_pending_of_shown hrecord)
  refine ⟨?_, ?_, ?_⟩
  · apply nodup_map_filterMap _ h.distinctIds
    exact fun row hrow left hkept => (survivor_some h hrow ((keptRow_eq_some_iff row left).mp hkept).1).1
  · rw [hshown]
    exact ((filter_sublist.trans filter_sublist).map idText).nodup (nodup_ids_pending h)
  · intro id hkeptId other hother heq
    rw [hshown] at hother
    obtain ⟨left, hleft, rfl⟩ := mem_map.mp hkeptId
    obtain ⟨row, hrow, hkept⟩ := mem_filterMap.mp hleft
    obtain ⟨record, hrecord, rfl⟩ := mem_map.mp hother
    exact idText_ne_of_kept h hrow hkept (mem_pending_of_shown hrecord) heq

theorem matchesQuery_of_shown
    (h : record ∈ shownPending normalize matchesQuery edits isFirstPage rows) : matchesQuery record = true := by
  simpa using (mem_filter.mp (mem_filter.mp h).1).2

theorem mem_pageRecords_iff (h : edits.Sound normalize (items.map normalize)) (isFirstPage : Bool) (id : String)
    (record : Record) : overlaidRow matchesQuery (patchedPage normalize matchesQuery edits items).byId isFirstPage
        (pendingRecords normalize edits) id = some record ↔
      record ∈ pageRecords normalize matchesQuery edits isFirstPage (items.map normalize) ∧ idText record = id := by
  have hpage := @lineagePage_patchedPage normalize matchesQuery edits items h
  have hover (pending : Record) :
      (((patchedPage normalize matchesQuery edits items).byId.get? (idText pending)).getD Dict.empty).spread pending =
        pendingOver normalize matchesQuery edits (items.map normalize) pending := by
    unfold pendingOver
    rw [get?_patchedPage_eq_find? h]
  unfold overlaidRow pageRecords
  rw [mem_append, mem_map]
  cases hfind : (pendingRecords normalize edits).find? fun other => idText other = id with
  | none =>
    have hnone : ∀ other ∈ pendingRecords normalize edits, idText other ≠ id := by
      intro other hother heq
      exact List.find?_eq_none.mp hfind other hother (decide_eq_true heq)
    dsimp only [Option.elim]
    rw [Option.filter_eq_some_iff, decide_eq_true_iff, get?_patchedPage h, mem_filterMap]
    constructor
    · rintro ⟨⟨row, hrow, hid, hsurvivor⟩, hroot⟩
      refine ⟨Or.inl ⟨row, hrow, (keptRow_eq_some_iff row record).mpr ⟨hsurvivor, hroot⟩⟩, ?_⟩
      exact (survivor_some h hrow hsurvivor).1.trans hid
    · rintro ⟨⟨row, hrow, hkept⟩ | ⟨pending, hpending, rfl⟩, hid⟩
      · obtain ⟨hsurvivor, hroot⟩ := (keptRow_eq_some_iff row record).mp hkept
        exact ⟨⟨row, hrow, (survivor_some h hrow hsurvivor).1.symm.trans hid, hsurvivor⟩, hroot⟩
      · have hmem := mem_pending_of_shown hpending
        rw [idText_pendingOver hmem] at hid
        exact absurd hid (hnone pending hmem)
  | some pending =>
    obtain ⟨hpending, rfl⟩ := (find?_key_iff (nodup_ids_pending h) id pending).mp hfind
    dsimp only [Option.elim]
    rw [hover, lineageOn_patchedPage h]
    constructor
    · intro hshown
      split at hshown
      · rename_i hcondition
        cases hshown
        refine ⟨Or.inr ⟨pending, ?_, rfl⟩, idText_pendingOver hpending⟩
        refine mem_filter.mpr ⟨mem_filter.mpr ⟨hpending, by simpa using hcondition.1⟩, ?_⟩
        rw [Bool.or_eq_true]
        exact hcondition.2
      · cases hshown
    · rintro ⟨hkept | ⟨other, hother, rfl⟩, hid⟩
      · obtain ⟨row, hrow, hkept⟩ := mem_filterMap.mp hkept
        exact absurd hid (idText_ne_of_kept h hrow hkept hpending)
      · have hmem := mem_pending_of_shown hother
        rw [idText_pendingOver hmem] at hid
        have heq : other = pending := inj_on_of_nodup_map (nodup_ids_pending h) hmem hpending hid
        subst heq
        rw [if_pos]
        refine ⟨matchesQuery_of_shown hother, ?_⟩
        have hshown := (mem_filter.mp hother).2
        rw [Bool.or_eq_true] at hshown
        exact hshown

theorem overlayPage_spec (h : edits.Sound normalize (items.map normalize)) (isFirstPage : Bool) :
    (overlayPage normalize matchesQuery edits isFirstPage items).byId.values.Perm
        (pageRecords normalize matchesQuery edits isFirstPage (items.map normalize)) ∧
      items.length + (overlayPage normalize matchesQuery edits isFirstPage items).addedCount =
        (pageRecords normalize matchesQuery edits isFirstPage (items.map normalize)).length +
          (overlayPage normalize matchesQuery edits isFirstPage items).removedCount := by
  have hoverlaid := @overlaid_foldl matchesQuery _ isFirstPage _ _ _ (@lineagePage_patchedPage _ matchesQuery _ _ h)
  rw [← overlayPage_eq] at hoverlaid
  have hperm : (overlayPage normalize matchesQuery edits isFirstPage items).byId.values.Perm
      (pageRecords normalize matchesQuery edits isFirstPage (items.map normalize)) := by
    apply values_perm (nodup_ids_pageRecords h isFirstPage)
    intro id record
    rw [hoverlaid.rows]
    exact mem_pageRecords_iff h isFirstPage id record
  refine ⟨hperm, ?_⟩
  have hlength := hperm.length_eq
  have hrows : rowCount (overlayPage normalize matchesQuery edits isFirstPage items).byId =
      (overlayPage normalize matchesQuery edits isFirstPage items).byId.values.length := (length_map _).symm
  obtain ⟨hstart, hadded⟩ := @count_patchedPage normalize matchesQuery edits items h
  have hcount := hoverlaid.count
  omega

end Page

section Pages

variable {normalize : Record → Record} {matchesQuery : Record → Bool} {sortsBefore : Record → Record → Bool}
  {edits : PendingEdits}

def PendingEdits.rows (normalize : Record → Record) (edits : PendingEdits) (items : List Record) : List Record :=
  if edits.upserts = [] ∧ edits.patches = [] ∧ edits.deletes = [] then items else items.map normalize

abbrev ListedPage := PageParams × List Record

/-- A result split into pages: only the first is asked for as the first, and no page is longer than the page size. -/
structure Paginated (pageSize : ℕ) (first : ListedPage) (later : List ListedPage) : Prop where
  asked : first.1.isFirstPage = true
  askedLater : ∀ page ∈ later, page.1.isFirstPage = false
  positive : 0 < pageSize
  sizes : ∀ page ∈ first :: later, page.1.pageSize = some pageSize ∧ page.2.length ≤ pageSize

/-- The pages of a result after the overlay; the server gives the number of records of the whole result with each. -/
def overlaidPages (normalize : Record → Record) (matchesQuery : Record → Bool)
    (sortsBefore : Record → Record → Bool) (edits : PendingEdits) (pages : List ListedPage) : List PageResult :=
  pages.map fun page =>
    overlayPendingPaginatedMutations normalize matchesQuery sortsBefore edits ⟨page.2, (pages.flatMap Prod.snd).length⟩ page.1

/-- The pages list every record of the edited result once, and each of them states how many there are. -/
structure PagesAgree (normalize : Record → Record) (matchesQuery : Record → Bool) (edits : PendingEdits)
    (rows : List Record) (results : List PageResult) : Prop where
  records : (results.flatMap PageResult.items).Perm (expectedRecords normalize matchesQuery edits rows)
  totals : ∀ result ∈ results, result.totalItems = (expectedRecords normalize matchesQuery edits rows).length

section

variable (hnothing : edits.upserts = [] ∧ edits.patches = [] ∧ edits.deletes = [])
include hnothing

theorem keptRow_of_nothing (row : Record) : keptRow normalize matchesQuery edits row = some row := by
  obtain ⟨hupserts, hpatches, hdeletes⟩ := hnothing
  rw [keptRow_eq_some_iff]
  unfold survivor pendingRecords
  rw [hupserts, hpatches, hdeletes]
  exact ⟨if_neg not_mem_nil, not_mem_nil⟩

theorem pageRecords_of_nothing
    (isFirstPage : Bool) (rows : List Record) : pageRecords normalize matchesQuery edits isFirstPage rows = rows := by
  have hpending : pendingRecords normalize edits = [] := by
    unfold pendingRecords
    rw [hnothing.1]
    rfl
  unfold pageRecords shownPending matchingPending
  rw [hpending, filterMap_congr fun row _ => keptRow_of_nothing hnothing row, filterMap_some]
  exact append_nil rows

end

theorem overlay_spec {items : List Record} {total pageSize : ℕ} {params : PageParams}
    (h : edits.Sound normalize (edits.rows normalize items)) (hsize : params.pageSize = some pageSize)
    (hpositive : 0 < pageSize) (hfits : items.length ≤ pageSize) (htotal : items.length ≤ total) :
    (∃ records : List Record, records.Perm (pageRecords normalize matchesQuery edits params.isFirstPage (edits.rows normalize items)) ∧
      (overlayPendingPaginatedMutations normalize matchesQuery sortsBefore edits ⟨items, total⟩ params).items =
        records.take pageSize) ∧
      (overlayPendingPaginatedMutations normalize matchesQuery sortsBefore edits ⟨items, total⟩ params).totalItems +
          items.length =
        total + (pageRecords normalize matchesQuery edits params.isFirstPage (edits.rows normalize items)).length := by
  unfold overlayPendingPaginatedMutations
  unfold PendingEdits.rows at h ⊢
  by_cases hnothing : edits.upserts = [] ∧ edits.patches = [] ∧ edits.deletes = []
  · rw [if_pos hnothing, if_pos hnothing, pageRecords_of_nothing hnothing]
    exact ⟨⟨items, List.Perm.refl items, (take_of_length_le hfits).symm⟩, rfl⟩
  rw [if_neg hnothing] at h
  rw [if_neg hnothing, if_neg hnothing]
  obtain ⟨hperm, hcount⟩ := @overlayPage_spec normalize matchesQuery edits items h params.isFirstPage
  constructor
  · refine ⟨_, (mergeSort_perm _ sortsBefore).trans hperm, ?_⟩
    unfold slicePage
    rw [hsize]
    exact if_pos hpositive
  · dsimp only
    omega

theorem rows_append (left right : List Record) :
    edits.rows normalize (left ++ right) = edits.rows normalize left ++ edits.rows normalize right := by
  unfold PendingEdits.rows
  split
  · rfl
  · exact map_append

theorem length_rows (items : List Record) : (edits.rows normalize items).length = items.length := by
  unfold PendingEdits.rows
  split
  · rfl
  · exact length_map _

theorem rows_flatMap (pages : List ListedPage) :
    edits.rows normalize (pages.flatMap Prod.snd) = pages.flatMap fun page => edits.rows normalize page.2 := by
  induction pages with
  | nil => exact eq_nil_of_length_eq_zero (length_rows [])
  | cons page pages ih => rw [flatMap_cons, flatMap_cons, rows_append, ih]

theorem shownPending_of_kept {rows : List Record} (hkept : ∀ row ∈ rows, (keptRow normalize matchesQuery edits row).isSome) :
    shownPending normalize matchesQuery edits false rows = [] := by
  unfold shownPending
  rw [filter_eq_nil_iff]
  intro record hrecord
  rw [Bool.or_false, any_eq_true]
  rintro ⟨left, hleft, hroot⟩
  obtain ⟨row, hrow, hsurvivor⟩ := mem_filterMap.mp hleft
  obtain ⟨other, hother⟩ := Option.isSome_iff_exists.mp (hkept row hrow)
  obtain ⟨hsame, hfree⟩ := (keptRow_eq_some_iff row other).mp hother
  rw [hsurvivor] at hsame
  cases hsame
  apply hfree
  rw [of_decide_eq_true hroot]
  exact mem_map_of_mem (mem_filter.mp hrecord).1

theorem shownPending_first (rows : List Record) :
    shownPending normalize matchesQuery edits true rows = matchingPending normalize matchesQuery edits := by
  unfold shownPending
  rw [filter_eq_self]
  intro record _
  exact Bool.or_true _

theorem pendingOver_append {left right : List Record} (h : edits.Sound normalize (left ++ right))
    (hkept : ∀ row ∈ right, (keptRow normalize matchesQuery edits row).isSome) {record : Record}
    (hrecord : record ∈ pendingRecords normalize edits) : pendingOver normalize matchesQuery edits (left ++ right) record =
      pendingOver normalize matchesQuery edits left record := by
  unfold pendingOver
  rw [filterMap_append, find?_append]
  have hnone : ((right.filterMap (survivor normalize matchesQuery edits)).find?
      fun row => idText row = idText record) = none := by
    rw [List.find?_eq_none]
    intro survived hsurvived hid
    obtain ⟨row, hrow, hsurvivor⟩ := mem_filterMap.mp hsurvived
    obtain ⟨other, hother⟩ := Option.isSome_iff_exists.mp (hkept row hrow)
    have hsame := ((keptRow_eq_some_iff row other).mp hother).1
    rw [hsurvivor] at hsame
    cases hsame
    exact idText_ne_of_kept h (mem_append_right left hrow) hother hrecord (of_decide_eq_true hid)
  rw [hnone, Option.or_none]

section Agree

variable {pageSize : ℕ} {first : ListedPage} {later : List ListedPage}

theorem overlaid_page_spec (hpages : Paginated pageSize first later)
    (hsound : edits.Sound normalize (edits.rows normalize ((first :: later).flatMap Prod.snd)))
    {page : ListedPage} (hpage : page ∈ first :: later) :
    edits.Sound normalize (edits.rows normalize page.2) ∧
    (∃ records : List Record, records.Perm
        (pageRecords normalize matchesQuery edits page.1.isFirstPage (edits.rows normalize page.2)) ∧
      (overlayPendingPaginatedMutations normalize matchesQuery sortsBefore edits
        ⟨page.2, ((first :: later).flatMap Prod.snd).length⟩ page.1).items = records.take pageSize) ∧
      (overlayPendingPaginatedMutations normalize matchesQuery sortsBefore edits
          ⟨page.2, ((first :: later).flatMap Prod.snd).length⟩ page.1).totalItems + page.2.length =
        ((first :: later).flatMap Prod.snd).length +
          (pageRecords normalize matchesQuery edits page.1.isFirstPage (edits.rows normalize page.2)).length := by
  have hsublist : page.2.Sublist ((first :: later).flatMap Prod.snd) := by
    rw [flatMap_def]
    exact sublist_flatten_of_mem (mem_map_of_mem hpage)
  have hrows : (edits.rows normalize page.2).Sublist (edits.rows normalize ((first :: later).flatMap Prod.snd)) := by
    unfold PendingEdits.rows
    split
    · exact hsublist
    · exact hsublist.map normalize
  obtain ⟨hsize, hfits⟩ := hpages.sizes page hpage
  have h := hsound.sublist hrows
  exact ⟨h, overlay_spec h hsize hpages.positive hfits hsublist.length_le⟩

variable (normalize matchesQuery edits pageSize first later)

def firstPageCount : ℕ :=
  ((edits.rows normalize first.2).filterMap (keptRow normalize matchesQuery edits)).length +
    (matchingPending normalize matchesQuery edits).length

def EditsFitFirstPage : Prop :=
  (∀ row ∈ edits.rows normalize (later.flatMap Prod.snd), (keptRow normalize matchesQuery edits row).isSome) ∧
    (later = [] → firstPageCount normalize matchesQuery edits first ≤ pageSize) ∧
    (later ≠ [] → firstPageCount normalize matchesQuery edits first = first.2.length)

variable {normalize matchesQuery edits pageSize first later}

section

variable (hpages : Paginated pageSize first later)
include hpages

theorem length_pageRecords_first :
    (pageRecords normalize matchesQuery edits first.1.isFirstPage (edits.rows normalize first.2)).length =
      firstPageCount normalize matchesQuery edits first := by
  unfold pageRecords firstPageCount
  rw [hpages.asked, shownPending_first, length_append, length_map]

theorem pageRecords_later {page : ListedPage} (hpage : page ∈ later)
    (hkept : ∀ row ∈ edits.rows normalize (later.flatMap Prod.snd), (keptRow normalize matchesQuery edits row).isSome) :
    pageRecords normalize matchesQuery edits page.1.isFirstPage (edits.rows normalize page.2) =
      (edits.rows normalize page.2).filterMap (keptRow normalize matchesQuery edits) := by
  have hrows : ∀ row ∈ edits.rows normalize page.2, (keptRow normalize matchesQuery edits row).isSome := by
    intro row hrow
    apply hkept row
    rw [rows_flatMap]
    exact mem_flatMap.mpr ⟨page, hpage, hrow⟩
  unfold pageRecords
  rw [hpages.askedLater page hpage, shownPending_of_kept hrows]
  exact append_nil _

theorem length_pageRecords_later {page : ListedPage} (hpage : page ∈ later)
    (hkept : ∀ row ∈ edits.rows normalize (later.flatMap Prod.snd), (keptRow normalize matchesQuery edits row).isSome) :
    (pageRecords normalize matchesQuery edits page.1.isFirstPage (edits.rows normalize page.2)).length = page.2.length := by
  rw [pageRecords_later hpages hpage hkept, ← length_rows page.2, filterMap_length_eq_length]
  intro row hrow
  apply hkept row
  rw [rows_flatMap]
  exact mem_flatMap.mpr ⟨page, hpage, hrow⟩

end

theorem length_expectedRecords :
    (expectedRecords normalize matchesQuery edits (edits.rows normalize ((first :: later).flatMap Prod.snd))).length =
      firstPageCount normalize matchesQuery edits first +
        ((edits.rows normalize (later.flatMap Prod.snd)).filterMap (keptRow normalize matchesQuery edits)).length := by
  unfold expectedRecords firstPageCount
  rw [flatMap_cons, rows_append, filterMap_append, length_append, length_append, length_map]
  omega

theorem records_of_editsFit (hpages : Paginated pageSize first later)
    (hsound : edits.Sound normalize (edits.rows normalize ((first :: later).flatMap Prod.snd)))
    (hfit : EditsFitFirstPage normalize matchesQuery edits pageSize first later) :
    ((overlaidPages normalize matchesQuery sortsBefore edits (first :: later)).flatMap PageResult.items).Perm
      (expectedRecords normalize matchesQuery edits (edits.rows normalize ((first :: later).flatMap Prod.snd))) := by
  obtain ⟨hkept, honly, hothers⟩ := hfit
  have hcount : firstPageCount normalize matchesQuery edits first ≤ pageSize := by
    by_cases hlater : later = []
    · exact honly hlater
    · rw [hothers hlater]
      exact (hpages.sizes first mem_cons_self).2
  have hpage : ∀ page ∈ first :: later, (overlayPendingPaginatedMutations normalize matchesQuery sortsBefore edits
        ⟨page.2, ((first :: later).flatMap Prod.snd).length⟩ page.1).items.Perm
          (pageRecords normalize matchesQuery edits page.1.isFirstPage (edits.rows normalize page.2)) := by
    intro page hmem
    obtain ⟨-, ⟨records, hperm, hitems⟩, -⟩ := @overlaid_page_spec normalize matchesQuery sortsBefore edits
      pageSize first later hpages hsound page hmem
    rw [hitems, take_of_length_le]
    · exact hperm
    · rw [hperm.length_eq]
      rcases mem_cons.mp hmem with rfl | hlater
      · rw [length_pageRecords_first hpages]
        exact hcount
      · rw [length_pageRecords_later hpages hlater hkept]
        exact (hpages.sizes page hmem).2
  have hall : ((overlaidPages normalize matchesQuery sortsBefore edits (first :: later)).flatMap PageResult.items).Perm
      ((first :: later).flatMap fun page =>
        pageRecords normalize matchesQuery edits page.1.isFirstPage (edits.rows normalize page.2)) := by
    unfold overlaidPages
    rw [flatMap_map]
    exact List.Perm.flatMap_left _ hpage
  have hlaterRecords : (later.flatMap fun page =>
      pageRecords normalize matchesQuery edits page.1.isFirstPage (edits.rows normalize page.2)) =
        (edits.rows normalize (later.flatMap Prod.snd)).filterMap (keptRow normalize matchesQuery edits) := by
    rw [rows_flatMap, filterMap_flatMap]
    exact flatMap_congr fun page hmem => pageRecords_later hpages hmem hkept
  have hover : (matchingPending normalize matchesQuery edits).map
      (pendingOver normalize matchesQuery edits (edits.rows normalize ((first :: later).flatMap Prod.snd))) =
        (matchingPending normalize matchesQuery edits).map
          (pendingOver normalize matchesQuery edits (edits.rows normalize first.2)) := by
    rw [flatMap_cons, rows_append] at hsound ⊢
    exact map_congr_left fun record hrecord => pendingOver_append hsound hkept (mem_filter.mp hrecord).1
  refine hall.trans ?_
  unfold expectedRecords
  rw [hover, flatMap_cons, hlaterRecords, flatMap_cons, rows_append, filterMap_append]
  unfold pageRecords
  rw [hpages.asked, shownPending_first, append_assoc, append_assoc]
  exact List.Perm.append_left _ perm_append_comm

/-- The pages agree with the pending edits over the whole result exactly when the edits fit the first page. -/
theorem pages_agree_iff (hpages : Paginated pageSize first later)
    (hsound : edits.Sound normalize (edits.rows normalize ((first :: later).flatMap Prod.snd))) :
    PagesAgree normalize matchesQuery edits (edits.rows normalize ((first :: later).flatMap Prod.snd))
        (overlaidPages normalize matchesQuery sortsBefore edits (first :: later)) ↔
      EditsFitFirstPage normalize matchesQuery edits pageSize first later := by
  have hresult (page : ListedPage) (hmem : page ∈ first :: later) :
      overlayPendingPaginatedMutations normalize matchesQuery sortsBefore edits
        ⟨page.2, ((first :: later).flatMap Prod.snd).length⟩ page.1 ∈
          overlaidPages normalize matchesQuery sortsBefore edits (first :: later) := mem_map_of_mem hmem
  have htotal : ((first :: later).flatMap Prod.snd).length = first.2.length + (later.flatMap Prod.snd).length := by
    rw [flatMap_cons, length_append]
  have hexpected := @length_expectedRecords normalize matchesQuery edits first later
  obtain ⟨-, ⟨records, hperm, hitems⟩, hfirst⟩ := @overlaid_page_spec normalize matchesQuery sortsBefore edits
    pageSize first later hpages hsound first mem_cons_self
  have hrecords := hperm.length_eq
  rw [length_pageRecords_first hpages] at hfirst hrecords
  have hkeptLength : ((edits.rows normalize (later.flatMap Prod.snd)).filterMap
      (keptRow normalize matchesQuery edits)).length = (later.flatMap Prod.snd).length ↔
        ∀ row ∈ edits.rows normalize (later.flatMap Prod.snd), (keptRow normalize matchesQuery edits row).isSome := by
    rw [← filterMap_length_eq_length, length_rows]
  constructor
  · rintro ⟨hlisted, htotals⟩
    have hfirstTotal := htotals _ (hresult first mem_cons_self)
    have hkept := hkeptLength.mp (by omega)
    refine ⟨hkept, ?_, ?_⟩
    · rintro rfl
      have hlength := hlisted.length_eq
      unfold overlaidPages at hlength
      rw [map_singleton, flatMap_singleton, hitems, length_take, hrecords, hexpected] at hlength
      have hnone := hkeptLength.mpr hkept
      rw [hnone] at hlength
      simp only [flatMap_nil, length_nil] at hlength
      omega
    · intro hlater
      obtain ⟨page, hpage⟩ := exists_mem_of_ne_nil later hlater
      have hpageTotal := htotals _ (hresult page (mem_cons_of_mem first hpage))
      obtain ⟨-, -, hcount⟩ := @overlaid_page_spec normalize matchesQuery sortsBefore edits
        pageSize first later hpages hsound page (mem_cons_of_mem first hpage)
      rw [length_pageRecords_later hpages hpage hkept] at hcount
      omega
  · intro hfit
    refine ⟨records_of_editsFit hpages hsound hfit, ?_⟩
    obtain ⟨hkept, -, hothers⟩ := hfit
    have hlength := hkeptLength.mpr hkept
    intro result hmem
    obtain ⟨page, hpage, rfl⟩ := mem_map.mp hmem
    rcases mem_cons.mp hpage with rfl | hlater
    · omega
    obtain ⟨-, -, hcount⟩ := @overlaid_page_spec normalize matchesQuery sortsBefore edits
      pageSize first later hpages hsound page hpage
    rw [length_pageRecords_later hpages hlater hkept] at hcount
    have hsame := hothers (ne_nil_of_mem hlater)
    omega

end Agree

end Pages

def samplePackage (id : String) : Record := .ofList [("id", .str id)]

def samplePage (cursor id : String) : ListedPage := (⟨cursor, 1, some 1⟩, [samplePackage id])

theorem paginated_sample : Paginated 1 (samplePage "" "g1") [samplePage "g1" "g2"] where
  asked := by decide
  askedLater := by decide
  positive := by decide
  sizes := by decide

theorem sound_sample (deletes : List String) :
    (⟨[samplePackage "g3"], [], deletes⟩ : PendingEdits).Sound id [samplePackage "g1", samplePackage "g2"] where
  ids := by decide
  distinctIds := by decide
  distinctRoots := by decide
  upsertIds := nodup_singleton _
  oneKind := by simp
  upsertRoots := by
    dsimp only
    decide
  patchRoots := by simp

theorem pages_agree_sample :
    PagesAgree id (fun _ => true) ⟨[samplePackage "g3"], [], ["g1"]⟩ [samplePackage "g1", samplePackage "g2"]
      (overlaidPages id (fun _ => true) (fun _ _ => true) ⟨[samplePackage "g3"], [], ["g1"]⟩
        [samplePage "" "g1", samplePage "g1" "g2"]) := by
  refine (pages_agree_iff paginated_sample (sound_sample ["g1"])).mpr ⟨?_, ?_, ?_⟩
  · decide
  · simp
  · decide

/-- A new package pushes a full page over its edge: one of the three is on no page, and the second page
counts one record fewer than the first. -/
theorem new_package_over_the_edge : Paginated 1 (samplePage "" "g1") [samplePage "g1" "g2"] ∧
    (⟨[samplePackage "g3"], [], []⟩ : PendingEdits).Sound id [samplePackage "g1", samplePackage "g2"] ∧
    ¬ PagesAgree id (fun _ => true) ⟨[samplePackage "g3"], [], []⟩ [samplePackage "g1", samplePackage "g2"]
      (overlaidPages id (fun _ => true) (fun _ _ => true) ⟨[samplePackage "g3"], [], []⟩
        [samplePage "" "g1", samplePage "g1" "g2"]) := by
  refine ⟨paginated_sample, sound_sample [], fun hagree => ?_⟩
  have htotal := hagree.totals _ (mem_cons_of_mem _ mem_cons_self)
  revert htotal
  decide

end Bidding.Tables
